import QrWireguard.Misc.CString
import QrWireguard.Misc.Words

/-!
# Dotted quads

Addresses written as four numbers with dots between them, and the beginnings of such texts.
-/

namespace QrWireguard

/-- One of the four numbers: one to three digits, at most 255. -/
structure IsOctet (g : Str) : Prop where
  ne_nil : g ≠ []
  digits : ∀ c ∈ g, isdigit c = true
  length_le : g.length ≤ 3
  le_255 : decimal g ≤ 255

/-- `n + 1` octets with dots between them. -/
def Octets : Nat → Str → Prop
  | 0, s => IsOctet s
  | n + 1, s => ∃ a r, IsOctet a ∧ s = a ++ '.' :: r ∧ Octets n r

/-- Four octets with dots between them. -/
def IsQuad (s : Str) : Prop :=
  ∃ a b c d, IsOctet a ∧ IsOctet b ∧ IsOctet c ∧ IsOctet d ∧
    s = a ++ '.' :: (b ++ '.' :: (c ++ '.' :: d))

/-- The beginnings of `n + 1` octets with dots between them. -/
def Begins (n : Nat) (s : Str) : Prop := ∃ t, Octets n (s ++ t)

theorem isQuad_iff {s : Str} : IsQuad s ↔ Octets 3 s := by
  constructor
  · rintro ⟨a, b, c, d, ha, hb, hc, hd, rfl⟩
    exact ⟨a, _, ha, rfl, b, _, hb, rfl, c, d, hc, rfl, hd⟩
  · rintro ⟨a, _, ha, rfl, b, _, hb, rfl, c, d, hc, rfl, hd⟩
    exact ⟨a, b, c, d, ha, hb, hc, hd, rfl⟩

section
variable {n : Nat} {g r s : Str}

theorem decimal_le_append (g t : Str) : decimal g ≤ decimal (g ++ t) := by
  induction t using List.reverseRecOn with
  | nil => simp
  | append_singleton t c ih =>
    rw [← List.append_assoc, decimal_append_singleton]
    omega

theorem digitVal_le_nine {c : Char} (h : isdigit c = true) : digitVal c ≤ 9 := by
  simp only [isdigit, Bool.and_eq_true, decide_eq_true_eq, Char.le_def, UInt32.le_iff_toNat_le] at h
  have h9 : c.toNat ≤ 57 := h.2
  simp only [digitVal, Char.reduceToNat]
  omega

theorem decimal_lt {g : Str} (h : ∀ c ∈ g, isdigit c = true) : decimal g < 10 ^ g.length := by
  induction g using List.reverseRecOn with
  | nil => simp [decimal]
  | append_singleton g c ih =>
    have hg := ih fun c hc => h c (List.mem_append_left _ hc)
    have hc : digitVal c ≤ 9 := digitVal_le_nine (h c (by simp))
    rw [decimal_append_singleton, List.length_append, List.length_singleton, pow_succ]
    omega

/-- A beginning of an octet that is not empty is an octet. -/
theorem IsOctet.of_append {t : Str} (h : IsOctet (g ++ t)) (hg : g ≠ []) : IsOctet g where
  ne_nil := hg
  digits c hc := h.digits c (List.mem_append_left _ hc)
  length_le := by
    have hlen := h.length_le
    rw [List.length_append] at hlen
    omega
  le_255 := (decimal_le_append g t).trans h.le_255

theorem isOctet_zero : IsOctet ['0'] where
  ne_nil := List.cons_ne_nil _ _
  digits c hc := by
    rw [List.mem_singleton.mp hc]
    rfl
  length_le := by decide
  le_255 := by decide

theorem exists_octets (n : Nat) : ∃ t, Octets n t := by
  induction n with
  | zero => exact ⟨['0'], isOctet_zero⟩
  | succ n ih =>
    obtain ⟨t, ht⟩ := ih
    exact ⟨['0'] ++ '.' :: t, ['0'], t, isOctet_zero, rfl, ht⟩

theorem begins_nil (n : Nat) : Begins n [] := exists_octets n

theorem Octets.begins (h : Octets n s) : Begins n s := ⟨[], by rwa [List.append_nil]⟩

theorem begins_zero : Begins 0 s ↔ s = [] ∨ IsOctet s := by
  constructor
  · rintro ⟨t, ht⟩
    by_cases hnil : s = []
    · exact .inl hnil
    · exact .inr (ht.of_append hnil)
  · rintro (rfl | h)
    · exact begins_nil 0
    · exact Octets.begins h

theorem Octets.ne_nil (h : Octets n s) : s ≠ [] := by
  cases n with
  | zero => exact IsOctet.ne_nil h
  | succ n =>
    obtain ⟨a, r, -, rfl, -⟩ := h
    simp

/-- A beginning ends in its first octet, or begins the others behind the dot. -/
theorem begins_succ :
    Begins (n + 1) s ↔ s = [] ∨ IsOctet s ∨ ∃ a r, IsOctet a ∧ s = a ++ '.' :: r ∧ Begins n r := by
  constructor
  · rintro ⟨t, a, r, ha, hst, hr⟩
    by_cases hnil : s = []
    · exact .inl hnil
    right
    rcases List.append_eq_append_iff.mp hst with ⟨u, rfl, -⟩ | ⟨u, rfl, hu⟩
    · exact .inl (ha.of_append hnil)
    · cases u with
      | nil => exact .inl (by simpa using ha)
      | cons c u =>
        obtain ⟨rfl, rfl⟩ := List.cons.inj hu
        exact .inr ⟨a, u, ha, rfl, t, hr⟩
  · rintro (rfl | h | ⟨a, r, ha, rfl, t, ht⟩)
    · exact begins_nil _
    · obtain ⟨t, ht⟩ := exists_octets n
      exact ⟨'.' :: t, s, t, h, rfl, ht⟩
    · exact ⟨t, a, r ++ t, ha, by simp, ht⟩

/-- What is no quad itself begins one exactly when it can be completed. -/
theorem begins_iff_proper (h : ¬ IsQuad s) : Begins 3 s ↔ ∃ t, t ≠ [] ∧ IsQuad (s ++ t) := by
  constructor
  · rintro ⟨t, ht⟩
    refine ⟨t, ?_, isQuad_iff.mpr ht⟩
    rintro rfl
    rw [List.append_nil] at ht
    exact h (isQuad_iff.mpr ht)
  · rintro ⟨t, -, ht⟩
    exact ⟨t, isQuad_iff.mp ht⟩

/-! ## The first character that is no digit -/

theorem dot_not_mem (h : ∀ c ∈ g, isdigit c = true) : '.' ∉ g := fun hmem => by
  have hdot := h '.' hmem
  revert hdot
  decide

/-- Behind digits, the digits in front of the first dot are these. -/
theorem digits_append_inj {a : Str} {c : Char} {r' : Str} (hg : ∀ c ∈ g, isdigit c = true)
    (ha : ∀ c ∈ a, isdigit c = true) (hc : isdigit c = false)
    (h : g ++ c :: r = a ++ '.' :: r') : g = a ∧ c = '.' ∧ r = r' := by
  have hfront : ∀ {g : Str} {c : Char} {r : Str}, (∀ c ∈ g, isdigit c = true) →
      isdigit c = false → (g ++ c :: r).takeWhile isdigit = g ∧
        (g ++ c :: r).dropWhile isdigit = c :: r := by
    intro g c r hg hc
    rw [List.takeWhile_append_of_pos hg, List.dropWhile_append_of_pos hg]
    simp [hc]
  obtain ⟨htake, hdrop⟩ := hfront (r := r) hg hc
  obtain ⟨htake', hdrop'⟩ := hfront (r := r') ha (c := '.') (by decide)
  rw [h] at htake hdrop
  obtain ⟨rfl, rfl⟩ := List.cons.inj (hdrop.symm.trans hdrop')
  exact ⟨htake.symm.trans htake', rfl, rfl⟩

theorem octets_digits (hg : ∀ c ∈ g, isdigit c = true) : Octets n g ↔ n = 0 ∧ IsOctet g := by
  cases n with
  | zero => exact ⟨fun h => ⟨rfl, h⟩, fun h => h.2⟩
  | succ n =>
    constructor
    · rintro ⟨a, r, -, rfl, -⟩
      exact absurd (by simp) (dot_not_mem hg)
    · rintro ⟨h, -⟩
      cases h

theorem begins_digits (hg : ∀ c ∈ g, isdigit c = true) (hne : g ≠ []) : Begins n g ↔ IsOctet g := by
  cases n with
  | zero => rw [begins_zero, or_iff_right hne]
  | succ n =>
    rw [begins_succ, or_iff_right hne]
    refine or_iff_left ?_
    rintro ⟨a, r, -, rfl, -⟩
    exact absurd (by simp) (dot_not_mem hg)

theorem not_isOctet_append {c : Char} (hc : isdigit c = false) : ¬ IsOctet (g ++ c :: r) := by
  intro h
  rw [h.digits c (by simp)] at hc
  cases hc

/-- A text taken apart at its first dot. -/
theorem exists_octet_dot_iff {P : Str → Prop} (hg : ∀ c ∈ g, isdigit c = true) :
    (∃ a r', IsOctet a ∧ g ++ '.' :: r = a ++ '.' :: r' ∧ P r') ↔ IsOctet g ∧ P r := by
  constructor
  · rintro ⟨a, r', ha, heq, hr⟩
    obtain ⟨rfl, -, rfl⟩ := digits_append_inj hg ha.digits (by decide) heq
    exact ⟨ha, hr⟩
  · rintro ⟨ha, hr⟩
    exact ⟨g, r, ha, rfl, hr⟩

theorem octets_dot (hg : ∀ c ∈ g, isdigit c = true) :
    Octets (n + 1) (g ++ '.' :: r) ↔ IsOctet g ∧ Octets n r := exists_octet_dot_iff hg

theorem begins_dot (hg : ∀ c ∈ g, isdigit c = true) :
    Begins (n + 1) (g ++ '.' :: r) ↔ IsOctet g ∧ Begins n r := by
  rw [begins_succ, exists_octet_dot_iff hg]
  constructor
  · rintro (hnil | hoctet | h)
    · simp at hnil
    · exact absurd hoctet (not_isOctet_append (by decide))
    · exact h
  · exact fun h => .inr (.inr h)

/-- Nothing but digits and dots stands in a quad. -/
theorem Octets.chars (h : Octets n s) : ∀ c ∈ s, isdigit c = true ∨ c = '.' := by
  induction n generalizing s with
  | zero => exact fun c hc => .inl (h.digits c hc)
  | succ n ih =>
    obtain ⟨a, r, ha, rfl, hr⟩ := h
    intro c hc
    rcases List.mem_append.mp hc with hmem | hmem
    · exact .inl (ha.digits c hmem)
    · rcases List.mem_cons.mp hmem with rfl | hrest
      · exact .inr rfl
      · exact ih hr c hrest

theorem Begins.chars (h : Begins n s) : ∀ c ∈ s, isdigit c = true ∨ c = '.' := by
  obtain ⟨t, ht⟩ := h
  exact fun c hc => ht.chars c (List.mem_append_left _ hc)

/-- A quad does not start with a dot. -/
theorem Octets.head_ne_dot (h : Octets n s) : s.head? ≠ some '.' := by
  have hoctet : ∀ {a t : Str}, IsOctet a → (a ++ t).head? ≠ some '.' := by
    intro a t ha hhead
    obtain ⟨c, cs, rfl⟩ := List.exists_cons_of_ne_nil ha.ne_nil
    obtain rfl : c = '.' := by simpa using hhead
    exact dot_not_mem ha.digits (by simp)
  cases n with
  | zero => simpa using hoctet (t := []) h
  | succ n =>
    obtain ⟨a, r, ha, rfl, -⟩ := h
    exact hoctet ha

theorem Begins.head_ne_dot (h : Begins n s) : s.head? ≠ some '.' := by
  obtain ⟨t, ht⟩ := h
  have hhead := ht.head_ne_dot
  cases s with
  | nil => simp
  | cons c s => simpa using hhead

end

end QrWireguard
