import Mathlib.Data.Nat.Digits.Defs
import Mathlib.Data.Nat.Digits.Lemmas
import Mathlib.Data.List.TakeWhile

/-!
# C strings

Text is a list of characters, one character for each byte, without the closing NUL. The
character classes are those of the C locale, and the conversions are the standard
library's on a machine with 64-bit `long` and 32-bit `int`.
-/

namespace QrWireguard

/-- The bytes of a string, without the closing NUL. -/
abbrev Str := List Char

instance : LawfulBEq Str := inferInstanceAs (LawfulBEq (List Char))

/-- The characters of a literal. -/
def str (s : String) {l : Str} (_ : s = String.ofList l := by exact rfl) : Str := l

/-- `isspace` in the C locale. -/
def isspace (c : Char) : Bool :=
  c == ' ' || c == '\t' || c == '\n' || c == '\x0b' || c == '\x0c' || c == '\r'

/-- `isdigit`. -/
def isdigit (c : Char) : Bool := decide ('0' ≤ c) && decide (c ≤ '9')

/-- `isalpha` in the C locale. -/
def isalpha (c : Char) : Bool :=
  (decide ('a' ≤ c) && decide (c ≤ 'z')) || (decide ('A' ≤ c) && decide (c ≤ 'Z'))

/-- `s[0]`: the first byte, which is NUL when the string is empty. -/
def firstByte (s : Str) : Char := s.headD '\x00'

/-- What a C function sees of a byte buffer: the bytes before the first NUL. -/
def cstr (s : Str) : Str := s.takeWhile (· != '\x00')

/-- The pieces successive calls of `fgets` read from a stream into a buffer of `room + 1`
bytes: each ends with a newline, with the stream, or when the buffer is full. `buf` is the
piece being read and `left` the room left for it. -/
def fgetsLoop (room : Nat) (buf : Str) (left : Nat) : Str → List Str
  | [] => if buf = [] then [] else [buf]
  | c :: cs =>
    if c = '\n' ∨ left ≤ 1 then (buf ++ [c]) :: fgetsLoop room [] room cs
    else fgetsLoop room (buf ++ [c]) (left - 1) cs

/-- What successive calls `fgets (buf, size, fp)` read from a stream. -/
def fgets (size : Nat) (stream : Str) : List Str := fgetsLoop (size - 1) [] (size - 1) stream

/-- The value of a digit. -/
def digitVal (c : Char) : Nat := c.toNat - '0'.toNat

/-- The number a run of digits denotes. -/
def decimal (s : Str) : Nat := s.foldl (fun n c => 10 * n + digitVal c) 0

/-- `strtol (s, NULL, 10)`: blanks, a sign and digits, clamped to the range of `long`. -/
def strtol (s : Str) : Int :=
  match s.dropWhile isspace with
  | '-' :: t => max (-2 ^ 63) (-(decimal (t.takeWhile isdigit) : Int))
  | '+' :: t => min (2 ^ 63 - 1) (decimal (t.takeWhile isdigit) : Int)
  | t => min (2 ^ 63 - 1) (decimal (t.takeWhile isdigit) : Int)

/-- `atoi`, which is `(int) strtol (s, NULL, 10)`. -/
def atoi (s : Str) : Int := (strtol s).bmod (2 ^ 32)

/-- The decimal digits of a number, most significant first. -/
def natDigits (n : Nat) : Str :=
  if n = 0 then ['0'] else (Nat.digits 10 n).reverse.map fun d => Char.ofNat (48 + d)

/-- The text `%d` prints. -/
def itoa (n : Int) : Str := if n < 0 then '-' :: natDigits n.natAbs else natDigits n.natAbs

theorem bne_of_not_mem {x : Char} {s : Str} (h : x ∉ s) : ∀ c ∈ s, (c != x) = true := by
  intro c hc
  rw [bne_iff_ne]
  rintro rfl
  exact h hc

/-- A text is cut at the first occurrence of a character. -/
theorem span_ne_eq_iff {x : Char} {s front back : Str} :
    s.span (· ≠ x) = (front, x :: back) ↔ s = front ++ x :: back ∧ x ∉ front := by
  rw [List.span_eq_takeWhile_dropWhile]
  constructor
  · intro h
    obtain ⟨rfl, hback⟩ := Prod.mk.inj h
    refine ⟨by rw [← hback, List.takeWhile_append_dropWhile], fun hmem => ?_⟩
    simpa using List.mem_takeWhile_imp hmem
  · rintro ⟨rfl, h⟩
    have hkeep : ∀ c ∈ front, decide (c ≠ x) = true := by
      intro c hc
      exact decide_eq_true (ne_of_mem_of_not_mem hc h)
    rw [List.takeWhile_append_of_pos hkeep, List.dropWhile_append_of_pos hkeep]
    simp

theorem cstr_append_nul {s t : Str} (h : '\x00' ∉ s) : cstr (s ++ '\x00' :: t) = s := by
  rw [cstr, List.takeWhile_append_of_pos (bne_of_not_mem h)]
  simp

theorem cstr_of_not_mem {s : Str} (h : '\x00' ∉ s) : cstr s = s :=
  List.takeWhile_eq_self_iff.mpr (bne_of_not_mem h)

theorem isspace_of_isdigit {c : Char} (h : isdigit c = true) : isspace c = false := by
  rw [Bool.eq_false_iff]
  intro hs
  simp only [isspace, Bool.or_eq_true, beq_iff_eq, or_assoc] at hs
  rcases hs with rfl | rfl | rfl | rfl | rfl | rfl <;> revert h <;> decide

/-- The digit characters read back. -/
theorem digitChar_spec (d : Nat) (hd : d < 10) :
    isdigit (Char.ofNat (48 + d)) = true ∧ digitVal (Char.ofNat (48 + d)) = d := by
  interval_cases d <;> decide

theorem decimal_append_singleton (s : Str) (c : Char) :
    decimal (s ++ [c]) = 10 * decimal s + digitVal c := by
  simp [decimal]

theorem decimal_reverse_digits (ds : List Nat) (h : ∀ d ∈ ds, d < 10) :
    decimal (ds.reverse.map fun d => Char.ofNat (48 + d)) = Nat.ofDigits 10 ds := by
  induction ds with
  | nil => rfl
  | cons d ds ih =>
    have hd := (digitChar_spec d (h d (by simp))).2
    have hds := ih fun x hx => h x (by simp [hx])
    rw [List.reverse_cons, List.map_append, List.map_singleton, decimal_append_singleton, hds, hd,
      Nat.ofDigits_cons]
    ring

theorem isdigit_of_mem_natDigits {n : Nat} {c : Char} (h : c ∈ natDigits n) :
    isdigit c = true := by
  unfold natDigits at h
  split at h
  · simp only [List.mem_singleton] at h; subst h; decide
  · simp only [List.mem_map, List.mem_reverse] at h
    obtain ⟨d, hd, rfl⟩ := h
    exact (digitChar_spec d (Nat.digits_lt_base (by norm_num) hd)).1

theorem decimal_natDigits (n : Nat) : decimal (natDigits n) = n := by
  unfold natDigits
  split
  · next h => subst h; decide
  · rw [decimal_reverse_digits _ fun d hd => Nat.digits_lt_base (by norm_num) hd,
      Nat.ofDigits_digits]

theorem natDigits_ne_nil (n : Nat) : natDigits n ≠ [] := by
  unfold natDigits
  split <;> simp_all [Nat.digits_ne_nil_iff_ne_zero]

theorem length_natDigits_le {n k : Nat} (hk : 0 < k) (h : n < 10 ^ k) :
    (natDigits n).length ≤ k := by
  unfold natDigits
  split
  · exact hk
  · simpa [Nat.digits_length_le_iff] using h

theorem isdigit_of_mem_itoa {n : Int} {c : Char} (h : c ∈ itoa n) : isdigit c = true ∨ c = '-' := by
  unfold itoa at h
  split at h
  · rcases List.mem_cons.mp h with rfl | hdigits
    · exact .inr rfl
    · exact .inl (isdigit_of_mem_natDigits hdigits)
  · exact .inl (isdigit_of_mem_natDigits h)

theorem not_mem_itoa_of {c : Char} (hc : isdigit c = false) (hm : c ≠ '-') (n : Int) :
    c ∉ itoa n := by
  intro h
  rcases isdigit_of_mem_itoa h with hdigit | hminus
  · rw [hdigit] at hc
    cases hc
  · exact hm hminus

/-- The text of a machine integer has at most eleven bytes. -/
theorem length_itoa_le {n : Int} (hlo : -2 ^ 31 ≤ n) (hhi : n < 2 ^ 31) :
    (itoa n).length ≤ 11 := by
  have h : (natDigits n.natAbs).length ≤ 10 := length_natDigits_le (by norm_num) (by omega)
  unfold itoa
  split
  · exact Nat.succ_le_succ h
  · exact h.trans (by norm_num)

/-- A digit in front settles which branch `strtol` takes. -/
theorem strtol_of_digit {c : Char} {s : Str} (hc : isdigit c = true) :
    strtol (c :: s) = min (2 ^ 63 - 1) (decimal ((c :: s).takeWhile isdigit) : Int) := by
  have hd : (c :: s).dropWhile isspace = c :: s := by simp [isspace_of_isdigit hc]
  unfold strtol
  rw [hd]
  split
  · next heq => cases heq; exact absurd hc (by decide)
  · next heq => cases heq; exact absurd hc (by decide)
  · rfl

theorem takeWhile_digits {s : Str} (h : ∀ c ∈ s, isdigit c = true) : s.takeWhile isdigit = s :=
  List.takeWhile_eq_self_iff.mpr h

/-- A number that is written with digits is read as it is. -/
theorem atoi_of_decimal_lt {s : Str} (h : ∀ c ∈ s, isdigit c = true) (hlt : decimal s < 2 ^ 31) :
    atoi s = decimal s := by
  cases s with
  | nil => rfl
  | cons c s =>
    have hstrtol := strtol_of_digit (s := s) (h c List.mem_cons_self)
    rw [takeWhile_digits h] at hstrtol
    rw [atoi, hstrtol, min_eq_right (by omega)]
    exact Int.bmod_eq_of_le (by omega) (by omega)

theorem strtol_natDigits (n : Nat) (h : n < 2 ^ 63) : strtol (natDigits n) = n := by
  have hall : (natDigits n).takeWhile isdigit = natDigits n :=
    List.takeWhile_eq_self_iff.mpr fun c hc => isdigit_of_mem_natDigits hc
  cases hs : natDigits n with
  | nil => exact absurd hs (natDigits_ne_nil n)
  | cons c cs =>
    have hc : isdigit c = true := isdigit_of_mem_natDigits (n := n) (by simp [hs])
    rw [strtol_of_digit hc, ← hs, hall, decimal_natDigits]
    omega

theorem strtol_itoa (n : Int) (hlo : -2 ^ 31 ≤ n) (hhi : n < 2 ^ 31) : strtol (itoa n) = n := by
  unfold itoa
  split
  · next hneg =>
    have hall : (natDigits n.natAbs).takeWhile isdigit = natDigits n.natAbs :=
      List.takeWhile_eq_self_iff.mpr fun c hc => isdigit_of_mem_natDigits hc
    have hd : ('-' :: natDigits n.natAbs).dropWhile isspace = '-' :: natDigits n.natAbs := by
      simp [isspace]
    unfold strtol
    rw [hd]
    simp only [hall, decimal_natDigits]
    omega
  · rw [strtol_natDigits _ (by omega)]
    omega

/-- A machine integer printed with `%d` is read back by `atoi`. -/
theorem atoi_itoa (n : Int) (hlo : -2 ^ 31 ≤ n) (hhi : n < 2 ^ 31) : atoi (itoa n) = n := by
  rw [atoi, strtol_itoa n hlo hhi]
  exact Int.bmod_eq_of_le (by omega) (by omega)

theorem atoi_range (s : Str) : -2 ^ 31 ≤ atoi s ∧ atoi s < 2 ^ 31 := by
  have h1 : -((2 ^ 32 : Nat) / 2 : Int) ≤ (strtol s).bmod (2 ^ 32) := Int.le_bmod (by norm_num)
  have h2 : (strtol s).bmod (2 ^ 32) < ((2 ^ 32 : Nat) + 1) / 2 := Int.bmod_lt (by norm_num)
  unfold atoi
  constructor <;> omega

/-! ## Lines of a stream -/

theorem fgetsLoop_line {room left : Nat} {buf s rest : Str} (hs : '\n' ∉ s)
    (hlen : s.length < left) : fgetsLoop room buf left (s ++ '\n' :: rest) =
      (buf ++ s ++ ['\n']) :: fgetsLoop room [] room rest := by
  induction s generalizing buf left with
  | nil => simp [fgetsLoop]
  | cons c s ih =>
    simp only [List.mem_cons, not_or] at hs
    have hc : ¬ (c = '\n' ∨ left ≤ 1) := by
      rintro (rfl | h)
      · exact hs.1 rfl
      · simp only [List.length_cons] at hlen; omega
    rw [List.cons_append, fgetsLoop, if_neg hc, ih hs.2 (by simp only [List.length_cons] at hlen; omega)]
    simp

/-- A line that fills the buffer is read without its end. -/
theorem fgetsLoop_full {room left : Nat} {buf s rest : Str} (hs : '\n' ∉ s) (hne : s ≠ [])
    (hlen : s.length = left) :
    fgetsLoop room buf left (s ++ rest) = (buf ++ s) :: fgetsLoop room [] room rest := by
  induction s generalizing buf left with
  | nil => exact absurd rfl hne
  | cons c s ih =>
    simp only [List.mem_cons, not_or] at hs
    simp only [List.length_cons] at hlen
    rw [List.cons_append, fgetsLoop]
    cases s with
    | nil =>
      rw [if_pos (.inr (by simp at hlen; omega))]
      rfl
    | cons d s =>
      have hc : ¬ (c = '\n' ∨ left ≤ 1) := by
        rintro (rfl | h)
        · exact hs.1 rfl
        · simp only [List.length_cons] at hlen; omega
      rw [if_neg hc, ih hs.2 (by simp) (by omega)]
      simp

/-- The pieces of a line of at most `room` bytes: one of exactly `room` bytes is cut in front
of its end. -/
def fgetsPieces (room : Nat) (line : Str) : List Str :=
  if line.length < room then [line ++ ['\n']] else [line, ['\n']]

theorem fgetsLoop_lines {room : Nat} {lines : List Str} {rest : Str} (hroom : 0 < room)
    (h : ∀ line ∈ lines, '\n' ∉ line ∧ line.length ≤ room) :
    fgetsLoop room [] room (lines.flatMap (· ++ ['\n']) ++ rest) =
      lines.flatMap (fgetsPieces room) ++ fgetsLoop room [] room rest := by
  induction lines with
  | nil => rfl
  | cons line lines ih =>
    obtain ⟨hnl, hlen⟩ := h line (by simp)
    have hrest := ih fun l hl => h l (by simp [hl])
    have hshape : (line :: lines).flatMap (· ++ ['\n']) ++ rest =
        line ++ '\n' :: (lines.flatMap (· ++ ['\n']) ++ rest) := by simp
    rw [hshape, List.flatMap_cons, List.append_assoc, ← hrest]
    by_cases hlt : line.length < room
    · rw [fgetsLoop_line hnl hlt, fgetsPieces, if_pos hlt]
      rfl
    · have hfull : line.length = room := by omega
      have hne : line ≠ [] := by rintro rfl; simp at hfull; omega
      rw [fgetsLoop_full hnl hne hfull, fgetsPieces, if_neg hlt, fgetsLoop.eq_def room [] room ('\n' :: _)]
      simp

end QrWireguard
