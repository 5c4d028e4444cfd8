import Mathlib.Data.List.Lex
import Mathlib.Data.Char
import Mathlib.Data.List.Sort
import Mathlib.Data.Multiset.ZeroCons
import QrWireguard.Misc.Words

/-!
# Sorted lists of keyed lines

General facts about a sorted list from which an operation removes the first line that meets
a test. The lines are lists; a line *has the key* `p` when it is `p` itself or goes on with
the separator after `p`. When everything that starts with `p` goes on with at least the
separator, the lines that have the key sort in front of the lines that only extend it, so
the first hit of a removal by prefix has the key as soon as some line has it.
-/

namespace QrWireguard

section InsertAfter
variable {α : Type} [LinearOrder α]

/-- Insert a value in front of the first element that is greater than it. -/
def insertAfter (v : α) : List α → List α
  | [] => [v]
  | n :: ns => if v < n then v :: n :: ns else n :: insertAfter v ns

theorem perm_insertAfter (v : α) (l : List α) : (insertAfter v l).Perm (v :: l) := by
  induction l with
  | nil => exact List.Perm.refl _
  | cons n ns ih =>
    unfold insertAfter
    split
    · exact List.Perm.refl _
    · exact (ih.cons n).trans (List.Perm.swap v n ns)

@[simp] theorem mem_insertAfter {v x : α} {l : List α} :
    x ∈ insertAfter v l ↔ x = v ∨ x ∈ l := by
  rw [(perm_insertAfter v l).mem_iff, List.mem_cons]

theorem sorted_insertAfter {v : α} {l : List α} (h : l.Pairwise (· ≤ ·)) :
    (insertAfter v l).Pairwise (· ≤ ·) := by
  induction l with
  | nil => simp [insertAfter]
  | cons n ns ih =>
    obtain ⟨hn, hns⟩ := List.pairwise_cons.mp h
    unfold insertAfter
    split
    · next hlt =>
      refine List.pairwise_cons.mpr ⟨fun x hx => ?_, h⟩
      rcases List.mem_cons.mp hx with rfl | hx
      · exact hlt.le
      · exact hlt.le.trans (hn x hx)
    · next hge =>
      refine List.pairwise_cons.mpr ⟨fun x hx => ?_, ih hns⟩
      rcases mem_insertAfter.mp hx with rfl | hx
      · exact not_lt.mp hge
      · exact hn x hx

/-- A value that is at least every element goes to the end. -/
theorem insertAfter_of_forall_le {v : α} {l : List α} (h : ∀ x ∈ l, x ≤ v) :
    insertAfter v l = l ++ [v] := by
  induction l with
  | nil => rfl
  | cons n ns ih =>
    have hn : ¬ v < n := not_lt.mpr (h n (by simp))
    rw [insertAfter, if_neg hn, ih fun x hx => h x (by simp [hx]), List.cons_append]

/-- A symmetric relation of the new value to every element carries over. -/
theorem pairwise_insertAfter {R : α → α → Prop} (hR : ∀ x y, R x y → R y x) {v : α} {l : List α}
    (h : l.Pairwise R) (hv : ∀ x ∈ l, R v x) : (insertAfter v l).Pairwise R :=
  ((perm_insertAfter v l).pairwise_iff fun {x y} hxy => hR x y hxy).mpr
    (List.pairwise_cons.mpr ⟨hv, h⟩)

/-- A value that has been inserted is taken out again. -/
theorem eraseP_insertAfter [BEq α] [LawfulBEq α] {v : α} {l : List α} (h : v ∉ l) :
    (insertAfter v l).eraseP (· == v) = l := by
  induction l with
  | nil => simp [insertAfter]
  | cons n ns ih =>
    simp only [List.mem_cons, not_or] at h
    unfold insertAfter
    split
    · simp
    · have hn : ¬ n = v := fun heq => h.1 heq.symm
      rw [List.eraseP_cons_of_neg (by simpa using hn), ih h.2]

theorem insertAfter_left_inj {u v : α} {l : List α} :
    insertAfter u l = insertAfter v l ↔ u = v := by
  refine ⟨fun h => ?_, fun h => h ▸ rfl⟩
  have hperm : (u :: l).Perm (v :: l) := by
    have hu := (perm_insertAfter u l).symm
    rw [h] at hu
    exact hu.trans (perm_insertAfter v l)
  exact (Multiset.cons_inj_left (l : Multiset α)).mp (Quot.sound hperm)

end InsertAfter

section Block
variable {α : Type} [LinearOrder α] {l : List α}

/-- The elements of a sorted list that pass a test stand together when everything between two of
them passes it. -/
theorem exists_block (hs : l.Pairwise (· ≤ ·)) (p : α → Bool)
    (hconvex : ∀ a b c, a ≤ b → b ≤ c → p a = true → p c = true → p b = true) :
    ∃ before after, l = before ++ l.filter p ++ after ∧ (∀ x ∈ before, p x = false) ∧
      ∀ x ∈ after, p x = false := by
  induction l with
  | nil => exact ⟨[], [], rfl, nofun, nofun⟩
  | cons n ns ih =>
    obtain ⟨hn, hns⟩ := List.pairwise_cons.mp hs
    obtain ⟨before, after, hsplit, hbefore, hafter⟩ := ih hns
    cases hp : p n with
    | false =>
      refine ⟨n :: before, after, ?_, ?_, hafter⟩
      · rw [List.filter_cons_of_neg (by simp [hp]), List.cons_append, List.cons_append, ← hsplit]
      · intro x hx
        rcases List.mem_cons.mp hx with rfl | hx
        · exact hp
        · exact hbefore x hx
    | true =>
      rw [List.filter_cons_of_pos hp]
      cases hblock : ns.filter p with
      | nil =>
        refine ⟨[], ns, rfl, nofun, fun x hx => ?_⟩
        simpa using List.filter_eq_nil_iff.mp hblock x hx
      | cons m block =>
        -- what stands in front of the block lies between `n` and the block
        have hnil : before = [] := by
          refine List.eq_nil_iff_forall_not_mem.mpr fun x hx => ?_
          have hm : m ∈ ns.filter p := hblock ▸ List.mem_cons_self
          have hxm : x ≤ m := by
            rw [hsplit, List.append_assoc] at hns
            exact (List.pairwise_append.mp hns).2.2 x hx m (List.mem_append_left _ hm)
          have hnx : n ≤ x := by
            refine hn x ?_
            rw [hsplit, List.append_assoc]
            exact List.mem_append_left _ hx
          have hpx := hconvex n x m hnx hxm hp (List.mem_filter.mp hm).2
          rw [hbefore x hx] at hpx
          cases hpx
        rw [hnil, hblock, List.nil_append] at hsplit
        refine ⟨[], after, ?_, nofun, hafter⟩
        rw [List.nil_append, List.cons_append, ← hsplit]

theorem cons_le_cons_cases {x y : α} {s t : List α} (h : x :: s ≤ y :: t) :
    x < y ∨ x = y ∧ s ≤ t := by
  rcases lt_trichotomy x y with hxy | rfl | hyx
  · exact .inl hxy
  · refine .inr ⟨rfl, not_lt.mp fun hts => ?_⟩
    exact absurd h (not_le.mpr (List.cons_lt_cons_iff.mpr (.inr ⟨rfl, hts⟩)))
  · exact absurd h (not_le.mpr (List.cons_lt_cons_iff.mpr (.inl hyx)))

/-- What lies between two lists that start with `p` starts with `p`. -/
theorem isPrefix_of_between {p a b c : List α} (hab : a ≤ b) (hbc : b ≤ c) (ha : p <+: a)
    (hc : p <+: c) : p <+: b := by
  induction p generalizing a b c with
  | nil => exact List.nil_prefix
  | cons x p ih =>
    obtain ⟨a, rfl⟩ := ha
    obtain ⟨c, rfl⟩ := hc
    cases b with
    | nil => exact absurd hab (not_le.mpr (List.nil_lt_cons _ _))
    | cons y b =>
      rcases cons_le_cons_cases hab with hxy | ⟨rfl, hleft⟩
      · rcases cons_le_cons_cases hbc with hyx | ⟨rfl, -⟩
        · exact absurd hxy hyx.not_gt
        · exact absurd hxy (lt_irrefl _)
      · rcases cons_le_cons_cases hbc with hlt | ⟨-, hright⟩
        · exact absurd hlt (lt_irrefl _)
        · exact List.cons_prefix_cons.mpr ⟨rfl, ih hleft hright (List.prefix_append _ _)
            (List.prefix_append _ _)⟩

end Block
section EraseFirst
variable {α κ : Type} {f : α → κ} {q : α → Bool} {k : κ} {l : List α}

/-- In a list with distinct keys, erasing the first hit of a test removes the key `k`, if the
test holds of the lines with that key and its first hit is one of them. -/
theorem eraseP_removes_key (hpw : l.Pairwise (f · ≠ f ·)) (hq : ∀ x ∈ l, f x = k → q x = true)
    (hfirst : ∀ x, l.find? q = some x → (∃ y ∈ l, f y = k) → f x = k) :
    ∀ x ∈ l.eraseP q, f x ≠ k := by
  induction l with
  | nil => simp
  | cons n ns ih =>
    obtain ⟨hn, hns⟩ := List.pairwise_cons.mp hpw
    by_cases hqn : q n = true
    · rw [List.eraseP_cons_of_pos hqn]
      intro x hx hk
      have hnk : f n = k := hfirst n (by simp [hqn]) ⟨x, by simp [hx], hk⟩
      exact hn x hx (hnk.trans hk.symm)
    · have hnk : f n ≠ k := fun hk => hqn (hq n (by simp) hk)
      rw [List.eraseP_cons_of_neg hqn]
      intro x hx
      rcases List.mem_cons.mp hx with rfl | hx
      · exact hnk
      · refine ih hns (fun y hy => hq y (by simp [hy])) (fun y hy hex => ?_) x hx
        refine hfirst y (by simpa [List.find?_cons, hqn] using hy) ?_
        obtain ⟨z, hz, hzk⟩ := hex
        exact ⟨z, by simp [hz], hzk⟩

/-- What `eraseP` takes away is the first hit. -/
theorem count_eraseP_lt_iff [BEq α] [LawfulBEq α] {x : α} :
    (l.eraseP q).count x < l.count x ↔ l.find? q = some x := by
  induction l with
  | nil => simp
  | cons n ns ih =>
    by_cases hqn : q n = true
    · rw [List.eraseP_cons_of_pos hqn, List.count_cons]
      by_cases hx : n = x
      · subst hx; simp [hqn]
      · simp [hqn, hx]
    · rw [List.eraseP_cons_of_neg hqn, List.count_cons, List.count_cons]
      simp [hqn, ih]

end EraseFirst

section HasKey
variable {α : Type}

/-- The line is `p`, or goes on with the separator after `p`. -/
def HasKey (sep : α) (p l : List α) : Prop := l = p ∨ ∃ r, l = p ++ sep :: r

theorem HasKey.isPrefix {sep : α} {p l : List α} (h : HasKey sep p l) : p <+: l := by
  rcases h with rfl | ⟨r, rfl⟩
  · exact List.prefix_rfl
  · exact List.prefix_append _ _

instance [DecidableEq α] (sep : α) (p l : List α) : Decidable (HasKey sep p l) :=
  decidable_of_iff (p <+: l ∧ (l.drop p.length).head?.all (· == sep) = true) <| by
    constructor
    · rintro ⟨⟨r, rfl⟩, h⟩
      cases r with
      | nil => exact .inl (by simp)
      | cons c r =>
        have hc : c = sep := by simpa using h
        exact .inr ⟨r, by rw [hc]⟩
    · intro h
      refine ⟨h.isPrefix, ?_⟩
      rcases h with rfl | ⟨r, rfl⟩ <;> simp

variable [LinearOrder α] {sep : α} {p : List α} {l : List (List α)}

/-- In a sorted list whose lines go on after `p` with at least the separator, the first line
that starts with `p` has the key `p` if any line has it. -/
theorem find?_hasKey (hs : l.Pairwise (· ≤ ·))
    (hsep : ∀ c r, p ++ c :: r ∈ l → sep ≤ c) {x : List α}
    (hx : l.find? (p.isPrefixOf ·) = some x) (hex : ∃ y ∈ l, HasKey sep p y) :
    HasKey sep p x := by
  obtain ⟨y, hy, hyk⟩ := hex
  obtain ⟨hpx, l₁, l₂, rfl, hl₁⟩ := List.find?_eq_some_iff_append.mp hx
  obtain ⟨t, rfl⟩ := List.isPrefixOf_iff_prefix.mp hpx
  -- the hit stands at or in front of every line that has the key
  have hle : p ++ t ≤ y := by
    rcases List.mem_append.mp hy with hy | hy
    · have := hl₁ y hy
      simp [List.isPrefixOf_iff_prefix.mpr hyk.isPrefix] at this
    · rcases List.mem_cons.mp hy with rfl | hy
      · exact le_refl _
      · exact List.rel_of_pairwise_cons (List.pairwise_append.mp hs).2.1 hy
  cases t with
  | nil => exact .inl (by simp)
  | cons c r =>
    have hc : sep ≤ c := hsep c r (by simp)
    rcases hc.eq_or_lt with rfl | hlt
    · exact .inr ⟨r, rfl⟩
    · exfalso
      refine absurd hle (not_le.mpr ?_)
      rcases hyk with rfl | ⟨r', rfl⟩
      · have hy : y ++ [] < y ++ c :: r := List.append_left_lt (List.nil_lt_cons c r)
        simpa using hy
      · exact List.append_left_lt (List.cons_lt_cons_iff.mpr (.inl hlt))

end HasKey

end QrWireguard
