import QrWireguard.Misc.Dir

/-!
# Slices and maps in Go

A filter that writes over the slice it reads, and a loop over a map that overwrites or deletes the
entry it is at. The order in which a loop visits the keys of a map is not specified.
-/

namespace QrWireguard

section
variable {α : Type} {p : α → Bool} {s array : List α}

/-- The loop of a filter in place: the array, how many elements have been kept in front of it, and
the index of the next element, for the given number of elements that are left. -/
def filterLoop (p : α → Bool) (array : List α) (filtered i : Nat) : Nat → List α
  | 0 => array.take filtered
  | left + 1 =>
    match array[i]? with
    | none => array.take filtered
    | some v =>
      if p v then filterLoop p (array.set filtered v) (filtered + 1) (i + 1) left
      else filterLoop p array filtered (i + 1) left

/-- `filtered := s[:0]; for _, v := range s { if p(v) { filtered = append(filtered, v) } }`. -/
def filterInPlace (p : α → Bool) (s : List α) : List α := filterLoop p s 0 0 s.length

/-- The elements kept so far stand in front of the index, and what is left behind it has not been
written over. -/
theorem filterLoop_eq {filtered i left : Nat} (hle : filtered ≤ i)
    (hlen : array.length = i + left) :
    filterLoop p array filtered i left =
      array.take filtered ++ (array.drop i).filter p := by
  induction left generalizing array filtered i with
  | zero =>
    rw [filterLoop, List.drop_eq_nil_of_le (by omega)]
    simp
  | succ left ih =>
    have hi : i < array.length := by omega
    unfold filterLoop
    rw [List.getElem?_eq_getElem hi, List.drop_eq_getElem_cons hi]
    dsimp only
    split
    · rename_i hp
      have hroom : filtered < array.length := by omega
      rw [ih (by omega) (by simp; omega), List.drop_set_of_lt (by omega),
        List.filter_cons_of_pos hp, List.take_add_one, List.getElem?_set_self hroom,
        List.take_set_of_le (Nat.le_refl filtered)]
      simp
    · rename_i hp
      rw [ih (by omega) (by omega), List.filter_cons_of_neg hp]

theorem filterInPlace_eq (p : α → Bool) (s : List α) : filterInPlace p s = s.filter p := by
  unfold filterInPlace
  rw [filterLoop_eq (Nat.le_refl 0) (by omega)]
  rfl

end

namespace Dir
variable {κ α : Type} [LinearOrder κ] {d : Dir κ α}

/-- The keys of a map. -/
def keys (d : Dir κ α) : List κ := d.entries.map (·.1)

/-- `for key, value := range d`, in the given order of keys. The body gives the entry its new
value, or deletes it. -/
def range (body : α → Option α) (order : List κ) (d : Dir κ α) : Dir κ α :=
  order.foldl (fun d key =>
    match d.read key with
    | none => d
    | some value =>
      match body value with
      | some value => d.write key value
      | none => d.delete key) d

theorem keys_nodup (d : Dir κ α) : d.keys.Nodup := by
  unfold keys
  rw [List.Nodup, List.pairwise_map]
  exact d.sorted.imp fun hlt => ne_of_lt hlt

theorem mem_keys {key : κ} : key ∈ d.keys ↔ (d.read key).isSome := by
  rw [Option.isSome_iff_exists, keys, List.mem_map]
  constructor
  · rintro ⟨⟨_, value⟩, hmem, rfl⟩
    exact ⟨value, (lookup_eq_some_iff d.sorted).mpr hmem⟩
  · rintro ⟨value, hread⟩
    exact ⟨(key, value), (lookup_eq_some_iff d.sorted).mp hread, rfl⟩

/-- One round of the loop changes the entry it is at. -/
theorem read_round (body : α → Option α) (d : Dir κ α) (key other : κ) :
    (match d.read key with
      | none => d
      | some value =>
        match body value with
        | some value => d.write key value
        | none => d.delete key).read other =
      if other = key then (d.read other).bind body else d.read other := by
  by_cases hkey : other = key
  · subst hkey
    rw [if_pos rfl]
    cases hread : d.read other with
    | none => exact hread
    | some value =>
      dsimp only [Option.bind_some]
      cases body value with
      | none => exact read_delete_self ..
      | some value' => exact read_write_self ..
  · rw [if_neg hkey]
    cases d.read key with
    | none => rfl
    | some value =>
      dsimp only
      cases body value with
      | none => exact read_delete_of_ne hkey
      | some value' => exact read_write_of_ne hkey

/-- A loop that visits distinct keys changes each of them once. -/
theorem read_range_of_nodup (body : α → Option α) {order : List κ} (hnodup : order.Nodup)
    (d : Dir κ α) (key : κ) :
    (d.range body order).read key =
      if key ∈ order then (d.read key).bind body else d.read key := by
  induction order generalizing d with
  | nil => rfl
  | cons first order ih =>
    obtain ⟨hfirst, hrest⟩ := List.nodup_cons.mp hnodup
    unfold range at ih ⊢
    rw [List.foldl_cons, ih hrest, read_round]
    by_cases hkey : key = first
    · subst hkey
      rw [if_neg hfirst, if_pos rfl, if_pos List.mem_cons_self]
    · simp only [List.mem_cons, hkey, false_or, if_false]

/-- A loop over all the keys changes every entry, in whatever order it visits them. -/
theorem read_range (body : α → Option α) {order : List κ} (horder : order.Perm d.keys) (key : κ) :
    (d.range body order).read key = (d.read key).bind body := by
  rw [read_range_of_nodup body (horder.nodup_iff.mpr d.keys_nodup)]
  split
  · rfl
  · rename_i hkey
    rw [horder.mem_iff, mem_keys, Option.not_isSome_iff_eq_none] at hkey
    rw [hkey]
    rfl

end Dir

end QrWireguard
