import Mathlib.Data.List.Infix

/-!
# Common prefixes

How far two lists agree, and the longest common prefix of a list of lists. Comparing neighbours is
enough to find it.
-/

namespace QrWireguard

variable {α : Type} [DecidableEq α]

/-- The number of elements two lists start with in common. -/
def commonLength : List α → List α → Nat
  | a :: s, b :: t => if a = b then commonLength s t + 1 else 0
  | _, _ => 0

/-- The longest common prefix of some lists. -/
structure IsCommonPrefix (p : List α) (l : List (List α)) : Prop where
  isPrefix : ∀ s ∈ l, p <+: s
  longest : ∀ q, (∀ s ∈ l, q <+: s) → q <+: p

theorem commonLength_le_left (s t : List α) : commonLength s t ≤ s.length := by
  fun_induction commonLength s t with
  | case1 s b t ih => simpa using ih
  | case2 => exact Nat.zero_le _
  | case3 => exact Nat.zero_le _

/-- A prefix of one list is a prefix of the other as far as they agree. -/
theorem isPrefix_iff_length_le_commonLength {p s : List α} (hp : p <+: s) (t : List α) :
    p <+: t ↔ p.length ≤ commonLength s t := by
  induction s generalizing p t with
  | nil =>
    obtain rfl := List.prefix_nil.mp hp
    simp
  | cons a s ih =>
    cases p with
    | nil => simp
    | cons x p =>
      obtain ⟨rfl, hrest⟩ := List.cons_prefix_cons.mp hp
      cases t with
      | nil => simp [commonLength]
      | cons b t =>
        rw [List.cons_prefix_cons, commonLength]
        by_cases hab : x = b
        · simp [hab, ih hrest]
        · simp [hab]

/-- The smallest agreement of two neighbours, at most `n`. -/
def chainLength (n : Nat) : List (List α) → Nat
  | s :: t :: l => chainLength (min n (commonLength s t)) (t :: l)
  | _ => n

theorem chainLength_le (n : Nat) (l : List (List α)) : chainLength n l ≤ n := by
  fun_induction chainLength n l with
  | case1 n s t l ih => exact ih.trans (min_le_left _ _)
  | case2 => exact le_rfl

/-- A prefix of the first list is one of all lists as far as neighbours agree. -/
theorem forall_isPrefix_iff {p s : List α} (hp : p <+: s) {n : Nat} (hn : p.length ≤ n)
    (l : List (List α)) : (∀ t ∈ s :: l, p <+: t) ↔ p.length ≤ chainLength n (s :: l) := by
  induction l generalizing s n with
  | nil => simpa [chainLength, hp] using hn
  | cons t l ih =>
    have hall : (∀ u ∈ s :: t :: l, p <+: u) ↔ ∀ u ∈ t :: l, p <+: u := by simp [hp]
    rw [hall, chainLength]
    by_cases ht : p <+: t
    · exact ih ht (le_min hn ((isPrefix_iff_length_le_commonLength hp t).mp ht))
    · have hlt : ¬ p.length ≤ commonLength s t := fun hle =>
        ht ((isPrefix_iff_length_le_commonLength hp t).mpr hle)
      refine iff_of_false (fun h => ht (h t List.mem_cons_self)) fun hle => hlt ?_
      exact hle.trans ((chainLength_le _ _).trans (min_le_right _ _))

/-- What all neighbours agree on is the longest common prefix. -/
theorem isCommonPrefix_take (s t : List α) (l : List (List α)) :
    IsCommonPrefix (s.take (chainLength (commonLength s t) (t :: l))) (s :: t :: l) := by
  have hchain : chainLength s.length (s :: t :: l) = chainLength (commonLength s t) (t :: l) := by
    rw [chainLength, min_eq_right (commonLength_le_left s t)]
  have hle : chainLength (commonLength s t) (t :: l) ≤ s.length :=
    (chainLength_le _ _).trans (commonLength_le_left s t)
  constructor
  · have htake := List.take_prefix (chainLength (commonLength s t) (t :: l)) s
    refine (forall_isPrefix_iff htake htake.length_le (t :: l)).mpr ?_
    rw [hchain, List.length_take, min_eq_left hle]
  · intro q hq
    have hs : q <+: s := hq s List.mem_cons_self
    have hlen := (forall_isPrefix_iff hs hs.length_le (t :: l)).mp hq
    rw [hchain] at hlen
    rw [List.prefix_iff_eq_take.mp hs]
    exact List.take_prefix_take_left hlen

end QrWireguard
