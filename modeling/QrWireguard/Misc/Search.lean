import Mathlib.Data.List.Range
import Mathlib.Logic.Function.Iterate

/-!
# Searching along an iteration

A loop steps from a value to the next one until it meets a value that it wants, or one that lies
outside of its region. What it finds is the first wanted value in front of the first one outside.
-/

namespace QrWireguard

section
variable {α : Type} (inside wanted : α → Bool) (next : α → α)

/-- The loop. It has no result when the fuel runs out, and finds nothing when it ends outside. -/
def search : Nat → α → Option (Option α)
  | 0, _ => none
  | fuel + 1, a =>
    if inside a then
      if wanted a then some (some a) else search fuel (next a)
    else some none

variable {inside wanted next} {fuel m : Nat} {a : α}

/-- What is found lies inside and is wanted. -/
theorem search_found {b : α} (h : search inside wanted next fuel a = some (some b)) :
    inside b = true ∧ wanted b = true := by
  induction fuel generalizing a with
  | zero => cases h
  | succ fuel ih =>
    rw [search] at h
    split at h
    · next hin =>
      split at h
      · next hwanted =>
        obtain rfl := Option.some.inj (Option.some.inj h)
        exact ⟨hin, hwanted⟩
      · exact ih h
    · cases h

/-- With more fuel the loop has the same result. -/
theorem search_mono {fuel' : Nat} {r : Option α} (hle : fuel ≤ fuel')
    (h : search inside wanted next fuel a = some r) :
    search inside wanted next fuel' a = some r := by
  induction fuel generalizing fuel' a with
  | zero => cases h
  | succ fuel ih =>
    obtain ⟨fuel', rfl⟩ := Nat.exists_eq_add_of_le' hle
    rw [search] at h
    rw [← Nat.add_assoc, search]
    split
    · next hin =>
      rw [if_pos hin] at h
      split
      · next hwanted => rwa [if_pos hwanted] at h
      · next hwanted =>
        rw [if_neg hwanted] at h
        exact ih (by omega) h
    · next hout => rwa [if_neg hout] at h

/-- The first wanted value among the first `m` ones is found. -/
theorem search_eq_find? (hin : ∀ j < m, inside (next^[j] a) = true)
    (hout : inside (next^[m] a) = false) (hfuel : m < fuel) :
    search inside wanted next fuel a =
      some (((List.range m).find? fun j => wanted (next^[j] a)).map fun j => next^[j] a) := by
  induction m generalizing fuel a with
  | zero =>
    obtain ⟨fuel, rfl⟩ := Nat.exists_eq_add_of_lt hfuel
    rw [search, Function.iterate_zero_apply] at *
    rw [if_neg (by rw [hout]; exact Bool.false_ne_true)]
    rfl
  | succ m ih =>
    obtain ⟨fuel, rfl⟩ : ∃ f, fuel = f + 1 := ⟨fuel - 1, by omega⟩
    have hhere : inside a = true := hin 0 (Nat.zero_lt_succ m)
    have hrest := @ih fuel (next a) (fun j hj => hin (j + 1) (by omega)) hout (by omega)
    rw [search, if_pos hhere, List.range_succ_eq_map, List.find?_cons]
    cases hwanted : wanted a with
    | true => rw [if_pos rfl, Function.iterate_zero_apply, hwanted]; rfl
    | false =>
      rw [if_neg Bool.false_ne_true, hrest, Function.iterate_zero_apply, hwanted, List.find?_map,
        Option.map_map]
      rfl

/-- Whatever the fuel, there is one result only. -/
theorem search_eq_some_find? {r : Option α} (hin : ∀ j < m, inside (next^[j] a) = true)
    (hout : inside (next^[m] a) = false) (h : search inside wanted next fuel a = some r) :
    r = ((List.range m).find? fun j => wanted (next^[j] a)).map fun j => next^[j] a := by
  have hmore := search_mono (Nat.le_add_right fuel (m + 1)) h
  rw [search_eq_find? hin hout (by omega)] at hmore
  exact (Option.some.inj hmore).symm

end

end QrWireguard
