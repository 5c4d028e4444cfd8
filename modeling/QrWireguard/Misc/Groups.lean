import Mathlib.Data.List.Nodup
import Mathlib.Data.List.Pairwise
import Mathlib.Logic.Function.Basic

/-!
# Named groups of values

Entries with a name and a list of values are read one after the other. A value that has been seen
before is left out, where two values with the same key count as one. An entry takes the place of
the earlier ones of its name, and an entry without new values removes them.
-/

namespace QrWireguard

variable {κ α β : Type}

/-- The values that have not been seen, each one once. -/
def fresh [DecidableEq β] (key : α → β) (seen : List β) : List α → List α
  | [] => []
  | v :: vs => if key v ∈ seen then fresh key seen vs else v :: fresh key (seen ++ [key v]) vs

/-- The entries with their new values. -/
def freshEntries [DecidableEq β] (key : α → β) (seen : List β) :
    List (κ × List α) → List (κ × List α)
  | [] => []
  | (k, vs) :: es =>
    (k, fresh key seen vs) :: freshEntries key (seen ++ (fresh key seen vs).map key) es

/-- The values of the last entry of a name. -/
def lastGroup [DecidableEq κ] (k : κ) : List (κ × List α) → List α
  | [] => []
  | e :: es => if k ∈ es.map Prod.fst then lastGroup k es else if e.1 = k then e.2 else []

/-- The entry of a table for a list of values: none for an empty one. -/
def groupOf (vs : List α) : Option (List α) := if vs.isEmpty then none else some vs

/-! ## New values -/

section
variable [DecidableEq β] {key : α → β} {seen : List β} {v : α} {vs : List α}
  {es : List (κ × List α)}

theorem mem_of_mem_fresh (h : v ∈ fresh key seen vs) : v ∈ vs := by
  induction vs generalizing seen with
  | nil => exact h
  | cons w vs ih =>
    rw [fresh] at h
    split at h
    · exact List.mem_cons_of_mem _ (ih h)
    · rcases List.mem_cons.mp h with rfl | h
      · exact List.mem_cons_self
      · exact List.mem_cons_of_mem _ (ih h)

theorem nodup_fresh (h : seen.Nodup) : (seen ++ (fresh key seen vs).map key).Nodup := by
  induction vs generalizing seen with
  | nil => simpa [fresh] using h
  | cons w vs ih =>
    rw [fresh]
    split
    · exact ih h
    · next hnew =>
      have hseen : (seen ++ [key w]).Nodup :=
        List.nodup_append.mpr ⟨h, List.nodup_singleton _, fun a ha b hb => by
          rw [List.mem_singleton.mp hb]
          exact fun heq => hnew (heq ▸ ha)⟩
      have hrest := ih hseen
      rwa [List.append_assoc, List.singleton_append] at hrest

/-- The key of every value is one of those seen before or of the new values. -/
theorem key_mem_fresh (h : v ∈ vs) : key v ∈ seen ++ (fresh key seen vs).map key := by
  induction vs generalizing seen with
  | nil => cases h
  | cons w vs ih =>
    rw [fresh]
    split
    · next hold =>
      rcases List.mem_cons.mp h with rfl | h
      · exact List.mem_append_left _ hold
      · exact ih h
    · rcases List.mem_cons.mp h with rfl | h
      · simp
      · have hrest : key v ∈ seen ++ [key w] ++ (fresh key (seen ++ [key w]) vs).map key := ih h
        rwa [List.append_assoc, List.singleton_append] at hrest

theorem nodup_freshEntries (h : seen.Nodup) :
    (seen ++ ((freshEntries key seen es).flatMap (·.2)).map key).Nodup := by
  induction es generalizing seen with
  | nil => simpa [freshEntries] using h
  | cons e es ih =>
    have hseen : (seen ++ (fresh key seen e.2).map key).Nodup := nodup_fresh h
    have hrest := ih hseen
    rwa [List.append_assoc, ← List.map_append] at hrest

theorem exists_of_mem_freshEntries {e : κ × List α} (h : e ∈ freshEntries key seen es) :
    ∃ e' ∈ es, e'.1 = e.1 ∧ ∀ v ∈ e.2, v ∈ e'.2 := by
  induction es generalizing seen with
  | nil => cases h
  | cons e' es ih =>
    rcases List.mem_cons.mp h with rfl | h
    · exact ⟨e', List.mem_cons_self, rfl, fun v hv => mem_of_mem_fresh hv⟩
    · obtain ⟨e'', hmem, hspec⟩ := ih h
      exact ⟨e'', List.mem_cons_of_mem _ hmem, hspec⟩

theorem key_mem_freshEntries (h : v ∈ es.flatMap (·.2)) :
    key v ∈ seen ++ ((freshEntries key seen es).flatMap (·.2)).map key := by
  induction es generalizing seen with
  | nil => cases h
  | cons e es ih =>
    rw [freshEntries, List.flatMap_cons, List.map_append, ← List.append_assoc]
    rcases List.mem_append.mp (List.flatMap_cons ▸ h) with h | h
    · exact List.mem_append_left _ (key_mem_fresh h)
    · exact ih h

end

/-! ## The table -/

/-- The names of the entries that bring values. -/
def bringers (b : List (κ × List α)) : List κ := (b.filter (!·.2.isEmpty)).map Prod.fst

/-- No entry that brings values has a later entry of its name. -/
def LastOfName (b : List (κ × List α)) : Prop :=
  b.Pairwise fun e e' => e.2 ≠ [] → e'.1 ≠ e.1

section
variable {k : κ} {e : κ × List α} {b : List (κ × List α)}

theorem mem_bringers : k ∈ bringers b ↔ ∃ e ∈ b, e.2 ≠ [] ∧ e.1 = k := by
  simp [bringers, and_assoc]

theorem LastOfName.nodup_bringers (h : LastOfName b) : (bringers b).Nodup := by
  induction b with
  | nil => exact List.nodup_nil
  | cons e b ih =>
    obtain ⟨hhead, htail⟩ := List.pairwise_cons.mp h
    rw [bringers, List.filter_cons]
    split
    · next hvs =>
      refine List.nodup_cons.mpr ⟨fun hmem => ?_, ih htail⟩
      obtain ⟨e', he', -, hname⟩ := mem_bringers.mp hmem
      exact hhead e' he' (by simpa using hvs) hname
    · exact ih htail

variable [DecidableEq κ]

theorem lastGroup_eq_nil (h : k ∉ b.map Prod.fst) : lastGroup k b = [] := by
  cases b with
  | nil => rfl
  | cons e b =>
    rw [List.map_cons, List.mem_cons, not_or] at h
    rw [lastGroup, if_neg h.2, if_neg (Ne.symm h.1)]

/-- The last group is the one of an entry. -/
theorem exists_of_lastGroup (h : lastGroup k b ≠ []) : ∃ e ∈ b, e.1 = k ∧ e.2 = lastGroup k b := by
  induction b with
  | nil => exact absurd rfl h
  | cons e b ih =>
    rw [lastGroup] at h ⊢
    split
    · next hmem =>
      rw [if_pos hmem] at h
      obtain ⟨e', he', hspec⟩ := ih h
      exact ⟨e', List.mem_cons_of_mem _ he', hspec⟩
    · next hmem =>
      rw [if_neg hmem] at h
      split
      · next hk => exact ⟨e, List.mem_cons_self, hk, rfl⟩
      · next hk => exact absurd (if_neg hk) h

/-- Entries written into a table one after the other. -/
theorem foldl_update_groupOf (b : List (κ × List α)) (t : κ → Option (List α)) (k : κ) :
    b.foldl (fun t e => Function.update t e.1 (groupOf e.2)) t k =
      if k ∈ b.map Prod.fst then groupOf (lastGroup k b) else t k := by
  induction b generalizing t with
  | nil => rfl
  | cons e b ih =>
    rw [List.foldl_cons, ih, lastGroup]
    by_cases hmem : k ∈ b.map Prod.fst
    · simp [hmem]
    · by_cases hk : e.1 = k
      · subst hk
        simp [hmem]
      · simp [hmem, Ne.symm hk]

theorem mem_bringers_of_lastGroup (h : lastGroup k b ≠ []) : k ∈ bringers b := by
  obtain ⟨e, he, hk, hvs⟩ := exists_of_lastGroup h
  exact mem_bringers.mpr ⟨e, he, by rwa [hvs], hk⟩

theorem LastOfName.lastGroup (h : LastOfName b) (he : e ∈ b) (hvs : e.2 ≠ []) :
    lastGroup e.1 b = e.2 := by
  induction b with
  | nil => cases he
  | cons e' b ih =>
    obtain ⟨hhead, htail⟩ := List.pairwise_cons.mp h
    rw [QrWireguard.lastGroup]
    rcases List.mem_cons.mp he with rfl | he
    · rw [if_neg, if_pos rfl]
      rw [List.mem_map]
      rintro ⟨e', he', hname⟩
      exact hhead e' he' hvs hname
    · rw [if_pos (List.mem_map_of_mem he), ih htail he]

/-- The names that bring values are different, and each of them still has values at the end, only
when no such entry has a later one of its name. -/
theorem lastOfName_of_nodup (hnodup : (bringers b).Nodup)
    (hkept : ∀ k ∈ bringers b, QrWireguard.lastGroup k b ≠ []) : LastOfName b := by
  induction b with
  | nil => exact List.Pairwise.nil
  | cons e b ih =>
    have hsub : ∀ k ∈ bringers b, k ∈ bringers (e :: b) := by
      intro k hk
      obtain ⟨e', he', hspec⟩ := mem_bringers.mp hk
      exact mem_bringers.mpr ⟨e', List.mem_cons_of_mem _ he', hspec⟩
    have htailNodup : (bringers b).Nodup := by
      rw [bringers, List.filter_cons] at hnodup
      split at hnodup
      · exact (List.nodup_cons.mp hnodup).2
      · exact hnodup
    refine List.pairwise_cons.mpr ⟨fun e' he' hvs hname => ?_, ih htailNodup fun k hk => ?_⟩
    · have hbrings : e.1 ∈ bringers (e :: b) := mem_bringers.mpr ⟨e, List.mem_cons_self, hvs, rfl⟩
      have hlater : e.1 ∈ b.map Prod.fst := hname ▸ List.mem_map_of_mem he'
      have hlast := hkept e.1 hbrings
      rw [QrWireguard.lastGroup, if_pos hlater] at hlast
      rw [bringers, List.filter_cons, if_pos (by simpa using hvs)] at hnodup
      exact (List.nodup_cons.mp hnodup).1 (mem_bringers_of_lastGroup hlast)
    · have hlater : k ∈ b.map Prod.fst := by
        obtain ⟨e', he', -, rfl⟩ := mem_bringers.mp hk
        exact List.mem_map_of_mem he'
      have hlast := hkept k (hsub k hk)
      rwa [QrWireguard.lastGroup, if_pos hlater] at hlast

end

end QrWireguard
