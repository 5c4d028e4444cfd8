import QrWireguard.Misc.Split
import QrWireguard.Misc.Words

/-!
# Texts and numbers in Go

The functions of `strings` and `strconv` the programs use.
-/

namespace QrWireguard

/-- `strings.TrimSuffix`. -/
def trimSuffix (suffix s : Str) : Str :=
  if suffix <:+ s then s.take (s.length - suffix.length) else s

/-- `strings.Trim`, with the cutset as a predicate. -/
def trim (cutset : Char → Bool) (s : Str) : Str :=
  ((s.dropWhile cutset).reverse.dropWhile cutset).reverse

/-- `strings.ReplaceAll (s, old, new)` for an old text that is not empty. -/
def replaceAll (old new s : Str) : Str := unsplit new (split old s)

/-- The digits of `strconv.ParseInt` in base ten, up to the given bound. -/
def parseDigits (bound : Nat) (ds : Str) : Option Nat :=
  if ds ≠ [] ∧ ds.all isdigit = true ∧ decimal ds ≤ bound then some (decimal ds) else none

/-- `strconv.ParseInt (s, 10, 64)`, which is also what `strconv.Atoi` computes. -/
def parseInt (s : Str) : Option Int :=
  match s with
  | '-' :: ds => (parseDigits (2 ^ 63) ds).map fun n : Nat => -(n : Int)
  | '+' :: ds => (parseDigits (2 ^ 63 - 1) ds).map fun n : Nat => (n : Int)
  | ds => (parseDigits (2 ^ 63 - 1) ds).map fun n : Nat => (n : Int)

/-- A number that is written with digits alone. -/
theorem parseInt_of_digits {ds : Str} (hne : ds ≠ []) (hdigits : ∀ c ∈ ds, isdigit c = true)
    (h : decimal ds < 2 ^ 63) : parseInt ds = some (decimal ds : Int) := by
  have hparse : parseDigits (2 ^ 63 - 1) ds = some (decimal ds) := by
    unfold parseDigits
    rw [if_pos ⟨hne, List.all_eq_true.mpr hdigits, by omega⟩]
  have hsign : ∀ c ∈ ds, c ≠ '-' ∧ c ≠ '+' := by
    intro c hc
    have hdigit := hdigits c hc
    constructor <;> rintro rfl <;> simp [isdigit] at hdigit
  unfold parseInt
  split
  · rename_i ds
    exact absurd rfl (hsign '-' List.mem_cons_self).1
  · rename_i ds
    exact absurd rfl (hsign '+' List.mem_cons_self).2
  · rw [hparse]
    rfl

/-- A number that is written with digits is read back. -/
theorem parseInt_natDigits {n : Nat} (h : n < 2 ^ 63) :
    parseInt (natDigits n) = some (n : Int) := by
  have hread := parseInt_of_digits (natDigits_ne_nil n) (fun _ => isdigit_of_mem_natDigits)
    (by rwa [decimal_natDigits])
  rwa [decimal_natDigits] at hread

theorem trimSuffix_append (s suffix : Str) : trimSuffix suffix (s ++ suffix) = s := by
  rw [trimSuffix, if_pos (List.suffix_append s suffix)]
  simp

theorem mem_of_mem_trim {cutset : Char → Bool} {s : Str} {c : Char} (h : c ∈ trim cutset s) :
    c ∈ s := by
  rw [trim, List.mem_reverse] at h
  have hrev := (List.dropWhile_sublist cutset).subset h
  exact (List.dropWhile_sublist cutset).subset (List.mem_reverse.mp hrev)

theorem trim_of_forall {cutset : Char → Bool} {s : Str} (h : ∀ c ∈ s, cutset c = false) :
    trim cutset s = s := by
  have hkeep : ∀ t : Str, (∀ c ∈ t, cutset c = false) → t.dropWhile cutset = t := by
    intro t ht
    cases t with
    | nil => rfl
    | cons c t => rw [List.dropWhile_cons, ht c List.mem_cons_self]; rfl
  rw [trim, hkeep s h, hkeep s.reverse fun c hc => h c (List.mem_reverse.mp hc),
    List.reverse_reverse]

theorem filter_dropWhile {cutset p : Char → Bool} (h : ∀ c, cutset c = true → p c = false)
    (s : Str) : (s.dropWhile cutset).filter p = s.filter p := by
  have hfront : (s.takeWhile cutset).filter p = [] := by
    rw [List.filter_eq_nil_iff]
    intro c hc
    rw [h c (List.mem_takeWhile_imp hc)]
    exact Bool.false_ne_true
  conv_rhs => rw [← List.takeWhile_append_dropWhile (p := cutset) (l := s)]
  rw [List.filter_append, hfront, List.nil_append]

/-- What a cutset leaves out of a filter is not missed. -/
theorem filter_trim {cutset p : Char → Bool} (h : ∀ c, cutset c = true → p c = false) (s : Str) :
    (trim cutset s).filter p = s.filter p := by
  rw [trim, List.filter_reverse, filter_dropWhile h, List.filter_reverse, filter_dropWhile h,
    List.reverse_reverse]

theorem mem_trim_iff {cutset : Char → Bool} {c : Char} (h : cutset c = false) {s : Str} :
    c ∈ trim cutset s ↔ c ∈ s := by
  have hother : ∀ d, cutset d = true → (d == c) = false := by
    intro d hd
    rw [beq_eq_false_iff_ne]
    rintro rfl
    rw [h] at hd
    cases hd
  have hmem : ∀ t : Str, c ∈ t ↔ c ∈ t.filter (· == c) := by
    intro t
    simp [List.mem_filter]
  rw [hmem, filter_trim hother, ← hmem]

/-- What is trimmed off is made of separators. -/
theorem exists_trim (p : Char → Bool) (s : Str) : ∃ pre post, s = pre ++ trim p s ++ post ∧
    (∀ c ∈ pre, p c = true) ∧ ∀ c ∈ post, p c = true := by
  refine ⟨s.takeWhile p, ((s.dropWhile p).reverse.takeWhile p).reverse, ?_, ?_, ?_⟩
  · have hback := congrArg List.reverse
      (List.takeWhile_append_dropWhile (p := p) (l := (s.dropWhile p).reverse))
    rw [List.reverse_append, List.reverse_reverse] at hback
    rw [trim, List.append_assoc, hback, List.takeWhile_append_dropWhile]
  · exact fun c hc => List.mem_takeWhile_imp hc
  · exact fun c hc => List.mem_takeWhile_imp (List.mem_reverse.mp hc)

theorem words_trim (p : Char → Bool) (s : Str) : words p (trim p s) = words p s := by
  obtain ⟨pre, post, hs, hpre, hpost⟩ := exists_trim p s
  conv_rhs => rw [hs]
  rw [words_append_seps hpost, words_seps_append hpre]

/-- A text is trimmed to a word just when it has this word and no other. -/
theorem trim_eq_iff {p : Char → Bool} {s w : Str} (hw : IsWord p w) :
    trim p s = w ↔ words p s = [w] := by
  constructor
  · intro h
    rw [← words_trim, h, words_self hw]
  · intro h
    obtain ⟨-, pre, post, rfl, hpre, hpost⟩ := words_eq_singleton_iff.mp h
    have hfront : ∀ t : Str, (w ++ t).dropWhile p = w ++ t := by
      intro t
      obtain ⟨c, w, rfl⟩ := List.exists_cons_of_ne_nil hw.1
      exact List.dropWhile_cons_of_neg (by simp [hw.2 c List.mem_cons_self])
    have hback : w.reverse.dropWhile p = w.reverse := by
      obtain ⟨w, c, rfl⟩ := List.eq_nil_or_concat w |>.resolve_left hw.1
      rw [List.concat_eq_append, List.reverse_append]
      exact List.dropWhile_cons_of_neg (by simp [hw.2 c (by simp)])
    rw [trim, List.append_assoc, List.dropWhile_append_of_pos hpre, hfront, List.reverse_append,
      List.dropWhile_append_of_pos (by simpa using hpost), hback, List.reverse_reverse]

/-- A replacement of one character by another. -/
theorem replaceAll_char (old new : Char) (s : Str) :
    replaceAll [old] [new] s = s.map fun c => if c = old then new else c := by
  unfold replaceAll
  induction hlen : s.length using Nat.strong_induction_on generalizing s with
  | _ n ih =>
    have hkeep : ∀ t : Str, old ∉ t → t.map (fun c => if c = old then new else c) = t := by
      intro t ht
      conv_rhs => rw [← List.map_id t]
      apply List.map_congr_left
      intro c hc
      rw [if_neg (ne_of_mem_of_not_mem hc ht)]
      rfl
    rcases split_cases (List.cons_ne_nil old []) s with ⟨hs, hone⟩ | ⟨a, rest, rfl, ha, hsplit⟩
    · rw [List.singleton_infix_iff] at hs
      rw [hone, hkeep s hs, unsplit]
      simp
    · rw [List.singleton_infix_iff] at ha
      rw [hsplit, unsplit_cons (split_ne_nil _ _), ih rest.length (by simp at hlen; omega) rest rfl,
        List.map_append, List.map_append, hkeep a ha]
      simp

example : parseInt (str "-12") = some (-12) := by decide
example : replaceAll (str "\r\n") (str "\n") (str "a\r\nb") = str "a\nb" := by decide

end QrWireguard
