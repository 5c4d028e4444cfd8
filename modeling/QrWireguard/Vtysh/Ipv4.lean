import QrWireguard.Misc.DottedQuad
import QrWireguard.Vtysh.Command

/-!
# Addresses as words

What `cmd_ipv4_match` takes for a whole address and what for the beginning of one. It differs
from the grammar of dotted quads in two places: a group that is empty in front of the first dot
passes, and a group in front of a dot that ends the word is not checked.
-/

namespace QrWireguard.Vtysh

/-- Fewer than `n` octets, each with its dot, and then digits that are no octet and a dot that
ends the word. -/
def EndsBehindBadGroup : Nat → Str → Prop
  | 0, _ => False
  | n + 1, s => (∃ g, g ≠ [] ∧ (∀ c ∈ g, isdigit c = true) ∧ ¬ IsOctet g ∧ s = g ++ ['.']) ∨
      ∃ a r, IsOctet a ∧ s = a ++ '.' :: r ∧ EndsBehindBadGroup n r

/-- The classification of words that `cmd_ipv4_match` is meant to compute. -/
def ClassifiesIpv4 (s : Str) : Prop :=
  (cmdIpv4Match s = .exactMatch ↔ IsQuad s) ∧
    (cmdIpv4Match s = .partlyMatch ↔ ¬ IsQuad s ∧ ∃ t, t ≠ [] ∧ IsQuad (s ++ t)) ∧
    (cmdIpv4Match s = .noMatch ↔ ¬ IsQuad s ∧ ¬ ∃ t, t ≠ [] ∧ IsQuad (s ++ t))

section
variable {n k dots nums : Nat} {buf g r s : Str}

/-! ## Words that end behind a bad group -/

theorem EndsBehindBadGroup.dot_mem (h : EndsBehindBadGroup n s) : '.' ∈ s := by
  cases n with
  | zero => exact h.elim
  | succ n =>
    rcases h with ⟨g, -, -, -, rfl⟩ | ⟨a, r, -, rfl, -⟩ <;> simp

theorem EndsBehindBadGroup.chars (h : EndsBehindBadGroup n s) :
    ∀ c ∈ s, isdigit c = true ∨ c = '.' := by
  induction n generalizing s with
  | zero => exact h.elim
  | succ n ih =>
    intro c hc
    rcases h with ⟨g, -, hg, -, rfl⟩ | ⟨a, r, ha, rfl, hr⟩
    · rcases List.mem_append.mp hc with hmem | hmem
      · exact .inl (hg c hmem)
      · exact .inr (List.mem_singleton.mp hmem)
    · rcases List.mem_append.mp hc with hmem | hmem
      · exact .inl (ha.digits c hmem)
      · rcases List.mem_cons.mp hmem with rfl | hrest
        · exact .inr rfl
        · exact ih hr c hrest

theorem endsBehindBadGroup_dot (hg : ∀ c ∈ g, isdigit c = true) :
    EndsBehindBadGroup (n + 1) (g ++ '.' :: r) ↔
      (g ≠ [] ∧ ¬ IsOctet g ∧ r = []) ∨ (IsOctet g ∧ EndsBehindBadGroup n r) := by
  rw [EndsBehindBadGroup, exists_octet_dot_iff hg]
  refine or_congr_left ?_
  constructor
  · rintro ⟨g', hne, hdigits, hbad, heq⟩
    obtain ⟨rfl, -, rfl⟩ := digits_append_inj hg hdigits (by decide) heq
    exact ⟨hne, hbad, rfl⟩
  · rintro ⟨hne, hbad, rfl⟩
    exact ⟨g, hne, hg, hbad, rfl⟩

theorem EndsBehindBadGroup.head_ne_dot (h : EndsBehindBadGroup n s) : s.head? ≠ some '.' := by
  have hdigits : ∀ {a t : Str}, a ≠ [] → (∀ c ∈ a, isdigit c = true) →
      (a ++ t).head? ≠ some '.' := by
    intro a t hne ha hhead
    obtain ⟨c, cs, rfl⟩ := List.exists_cons_of_ne_nil hne
    obtain rfl : c = '.' := by simpa using hhead
    exact dot_not_mem ha (by simp)
  cases n with
  | zero => exact h.elim
  | succ n =>
    rcases h with ⟨g, hne, hg, -, rfl⟩ | ⟨a, r, ha, rfl, -⟩
    · exact hdigits hne hg
    · exact hdigits ha.ne_nil ha.digits

/-- Such a word begins no address. -/
theorem EndsBehindBadGroup.not_begins (h : EndsBehindBadGroup n s) : ¬ Begins n s := by
  induction n generalizing s with
  | zero => exact h.elim
  | succ n ih =>
    rcases h with ⟨g, -, hg, hbad, rfl⟩ | ⟨a, r, ha, rfl, hr⟩
    · exact fun hbegins => hbad ((begins_dot hg).mp hbegins).1
    · exact fun hbegins => ih hr ((begins_dot ha.digits).mp hbegins).2

/-! ## The scanner -/

theorem atoi_digits (h : ∀ c ∈ g, isdigit c = true) (hlen : g.length ≤ 3) :
    atoi g = decimal g := by
  have hlt : decimal g < 10 ^ 3 :=
    (decimal_lt h).trans_le (Nat.pow_le_pow_right (by norm_num) hlen)
  exact atoi_of_decimal_lt h (by omega)

/-- The checks at the end of a group pass for octets, and for no digits at all. -/
theorem ipv4GroupOk_iff (h : ∀ c ∈ g, isdigit c = true) :
    ipv4GroupOk g = true ↔ g = [] ∨ IsOctet g := by
  unfold ipv4GroupOk
  rw [Bool.and_eq_true, decide_eq_true_eq, decide_eq_true_eq]
  constructor
  · rintro ⟨hlen, hle⟩
    by_cases hnil : g = []
    · exact .inl hnil
    · rw [atoi_digits h hlen] at hle
      exact .inr ⟨hnil, h, hlen, by omega⟩
  · rintro (rfl | hoctet)
    · decide
    · rw [atoi_digits h hoctet.length_le]
      exact ⟨hoctet.length_le, by exact_mod_cast hoctet.le_255⟩

theorem ipv4GroupOk_iff_isOctet (h : ∀ c ∈ g, isdigit c = true) (hne : g ≠ []) :
    ipv4GroupOk g = true ↔ IsOctet g := by
  rw [ipv4GroupOk_iff h, or_iff_right hne]

/-- Digits go into the current group. -/
theorem cmdIpv4MatchLoop_digits (hg : ∀ c ∈ g, isdigit c = true) :
    cmdIpv4MatchLoop dots nums buf (g ++ s) = cmdIpv4MatchLoop dots nums (buf ++ g) s := by
  induction g generalizing buf with
  | nil => simp
  | cons c g ih =>
    have hc : isdigit c = true := hg c List.mem_cons_self
    have hdot : c ≠ '.' := by
      rintro rfl
      exact absurd hc (by decide)
    rw [List.cons_append, cmdIpv4MatchLoop, if_neg hdot, if_pos hc,
      ih fun d hd => hg d (List.mem_cons_of_mem _ hd)]
    simp

theorem cmdIpv4MatchLoop_other {c : Char} (hc : isdigit c = false) (hdot : c ≠ '.') :
    cmdIpv4MatchLoop dots nums buf (c :: r) = .noMatch := by
  rw [cmdIpv4MatchLoop, if_neg hdot, if_neg (by rw [hc]; decide)]

/-- The text up to the first character that is no digit. -/
theorem exists_digits (s : Str) : ∃ g, (∀ c ∈ g, isdigit c = true) ∧
    (s = g ∨ ∃ c r, isdigit c = false ∧ s = g ++ c :: r) := by
  refine ⟨s.takeWhile isdigit, fun c hc => List.mem_takeWhile_imp hc, ?_⟩
  have hjoin := List.takeWhile_append_dropWhile (p := isdigit) (l := s)
  cases hrest : s.dropWhile isdigit with
  | nil =>
    rw [hrest, List.append_nil] at hjoin
    exact .inl hjoin.symm
  | cons c r =>
    rw [hrest] at hjoin
    have hhead := List.head_dropWhile_not isdigit (l := s) (by rw [hrest]; simp)
    simp only [hrest, List.head_cons] at hhead
    exact .inr ⟨c, r, hhead, hjoin.symm⟩

/-- The last group, behind which the word ends. -/
theorem cmdIpv4MatchLoop_lastGroup (hk : n + k = 3) (hg : ∀ c ∈ g, isdigit c = true)
    (hne : g ≠ []) :
    (cmdIpv4MatchLoop k k [] g = .exactMatch ↔ Octets n g) ∧
      (cmdIpv4MatchLoop k k [] g = .noMatch ↔ ¬ Begins n g ∧ ¬ EndsBehindBadGroup n g) := by
  have hends : ¬ EndsBehindBadGroup n g := fun h => dot_not_mem hg h.dot_mem
  have hok := ipv4GroupOk_iff_isOctet hg hne
  have hdigits : cmdIpv4MatchLoop k k [] (g ++ []) = cmdIpv4MatchLoop k k ([] ++ g) [] :=
    cmdIpv4MatchLoop_digits hg
  have hloop : cmdIpv4MatchLoop k k [] g = cmdIpv4MatchLoop k k g [] := by
    simpa using hdigits
  rw [hloop, octets_digits hg, begins_digits hg hne, cmdIpv4MatchLoop]
  by_cases hoctet : IsOctet g
  · rw [if_pos (hok.mpr hoctet)]
    by_cases hn : n = 0
    · rw [if_neg (by omega)]
      simp [hn, hoctet]
    · rw [if_pos (by omega)]
      simp [hn, hoctet]
  · rw [if_neg (mt hok.mp hoctet)]
    simp [hoctet, hends]

/-- A character that is neither a digit nor a dot. -/
theorem cmdIpv4MatchLoop_badChar {c : Char} (hg : ∀ c ∈ g, isdigit c = true)
    (hc : isdigit c = false) (hdot : c ≠ '.') :
    cmdIpv4MatchLoop k k [] (g ++ c :: r) = .noMatch ∧ ¬ Begins n (g ++ c :: r) ∧
      ¬ EndsBehindBadGroup n (g ++ c :: r) := by
  have hbad : ¬ ∀ d ∈ g ++ c :: r, isdigit d = true ∨ d = '.' := fun hall => by
    rcases hall c (by simp) with hdigit | heq
    · rw [hc] at hdigit
      cases hdigit
    · exact hdot heq
  rw [cmdIpv4MatchLoop_digits hg]
  exact ⟨cmdIpv4MatchLoop_other hc hdot, fun h => hbad h.chars, fun h => hbad h.chars⟩

/-- The scan of the last `n + 1` groups. It is entered with a character that is no dot, since a
dot behind a dot has been refused before. -/
theorem cmdIpv4MatchLoop_tail (hk : n + k = 3) (hne : s ≠ []) (hhead : s.head? ≠ some '.') :
    (cmdIpv4MatchLoop k k [] s = .exactMatch ↔ Octets n s) ∧
      (cmdIpv4MatchLoop k k [] s = .noMatch ↔ ¬ Begins n s ∧ ¬ EndsBehindBadGroup n s) := by
  induction n generalizing k s with
  | zero =>
    obtain ⟨g, hg, rfl | ⟨c, r, hc, rfl⟩⟩ := exists_digits s
    · exact cmdIpv4MatchLoop_lastGroup hk hg hne
    have hoctets : ¬ Octets 0 (g ++ c :: r) := not_isOctet_append hc
    have hbegins : ¬ Begins 0 (g ++ c :: r) := by
      rw [begins_zero]
      exact not_or.mpr ⟨hne, not_isOctet_append hc⟩
    -- A fourth dot is refused as any other character.
    have hloop : cmdIpv4MatchLoop k k [] (g ++ c :: r) = .noMatch := by
      by_cases hdot : c = '.'
      · rw [cmdIpv4MatchLoop_digits hg, cmdIpv4MatchLoop, if_pos hdot, if_pos (by omega)]
      · exact (cmdIpv4MatchLoop_badChar (n := 0) hg hc hdot).1
    rw [hloop]
    simp [hoctets, hbegins, EndsBehindBadGroup]
  | succ n ih =>
    obtain ⟨g, hg, rfl | ⟨c, r, hc, rfl⟩⟩ := exists_digits s
    · exact cmdIpv4MatchLoop_lastGroup hk hg hne
    by_cases hdot : c = '.'
    · subst hdot
      have hgne : g ≠ [] := by
        rintro rfl
        exact hhead rfl
      have hok := ipv4GroupOk_iff_isOctet hg hgne
      rw [cmdIpv4MatchLoop_digits hg, List.nil_append, octets_dot hg, begins_dot hg,
        endsBehindBadGroup_dot hg, cmdIpv4MatchLoop, if_pos rfl, if_neg (by omega)]
      by_cases hdots : r.head? = some '.'
      · have hoctets : ¬ Octets n r := fun h => h.head_ne_dot hdots
        have hbegins : ¬ Begins n r := fun h => h.head_ne_dot hdots
        have hends : ¬ EndsBehindBadGroup n r := fun h => h.head_ne_dot hdots
        have hr : r ≠ [] := by
          rintro rfl
          cases hdots
        simp [hdots, hoctets, hbegins, hends, hr]
      rw [if_neg hdots]
      by_cases hend : r = []
      · subst hend
        have hoctets : ¬ Octets n [] := fun h => h.ne_nil rfl
        by_cases hoctet : IsOctet g <;> simp [hoctet, hoctets, begins_nil, hgne]
      rw [if_neg hend]
      by_cases hoctet : IsOctet g
      · rw [if_pos (hok.mpr hoctet)]
        have hrest := ih (k := k + 1) (s := r) (by omega) hend hdots
        simpa [hoctet] using hrest
      · rw [if_neg (mt hok.mp hoctet)]
        simp [hoctet, hend]
    · obtain ⟨hloop, hbegins, hends⟩ :=
        cmdIpv4MatchLoop_badChar (k := k) (n := n + 1) (r := r) hg hc hdot
      have hoctets : ¬ Octets (n + 1) (g ++ c :: r) := fun h => hbegins h.begins
      rw [hloop]
      simp [hoctets, hbegins, hends]

theorem cmdIpv4MatchLoop_range :
    cmdIpv4MatchLoop dots nums buf s ∈ [MatchType.noMatch, .partlyMatch, .exactMatch] := by
  fun_induction cmdIpv4MatchLoop dots nums buf s <;> first | assumption | decide

/-! ## Whole words -/

theorem cmdIpv4Match_range (s : Str) :
    cmdIpv4Match s = .noMatch ∨ cmdIpv4Match s = .partlyMatch ∨ cmdIpv4Match s = .exactMatch := by
  have hrange : cmdIpv4MatchLoop 0 0 [] s ∈ [MatchType.noMatch, .partlyMatch, .exactMatch] :=
    cmdIpv4MatchLoop_range
  simpa only [cmdIpv4Match, List.mem_cons, List.not_mem_nil, or_false] using hrange

theorem cmdIpv4Match_nil : cmdIpv4Match [] = .partlyMatch := by decide

theorem isQuad_ne_dot (h : IsQuad s) : s.head? ≠ some '.' := (isQuad_iff.mp h).head_ne_dot

/-- A word that does not start with a dot. -/
theorem cmdIpv4Match_of_ne_dot (hne : s ≠ []) (hhead : s.head? ≠ some '.') :
    (cmdIpv4Match s = .exactMatch ↔ IsQuad s) ∧
      (cmdIpv4Match s = .noMatch ↔ ¬ Begins 3 s ∧ ¬ EndsBehindBadGroup 3 s) := by
  rw [isQuad_iff]
  exact cmdIpv4MatchLoop_tail rfl hne hhead

/-- The dot in front of a word is read as the end of a group without digits. -/
theorem cmdIpv4Match_dot :
    (cmdIpv4Match ('.' :: r) = .exactMatch ↔ Octets 2 r) ∧
      (cmdIpv4Match ('.' :: r) = .noMatch ↔ ¬ (Begins 2 r ∨ EndsBehindBadGroup 2 r)) := by
  rw [cmdIpv4Match, cmdIpv4MatchLoop, if_pos rfl, if_neg (by omega), not_or]
  by_cases hdots : r.head? = some '.'
  · have hoctets : ¬ Octets 2 r := fun h => h.head_ne_dot hdots
    have hbegins : ¬ Begins 2 r := fun h => h.head_ne_dot hdots
    have hends : ¬ EndsBehindBadGroup 2 r := fun h => h.head_ne_dot hdots
    simp [hdots, hoctets, hbegins, hends]
  rw [if_neg hdots]
  by_cases hend : r = []
  · subst hend
    have hoctets : ¬ Octets 2 [] := fun h => h.ne_nil rfl
    simp [hoctets, begins_nil]
  rw [if_neg hend, if_pos (by decide)]
  exact cmdIpv4MatchLoop_tail rfl hend hdots

/-- The three results exclude each other, so the one for no address and the one for whole
addresses decide the third. -/
theorem classifiesIpv4_iff_noMatch (hexact : cmdIpv4Match s = .exactMatch ↔ IsQuad s) :
    ClassifiesIpv4 s ↔ (cmdIpv4Match s = .noMatch ↔ ¬ Begins 3 s) := by
  have hbegins : ¬ Begins 3 s ↔ ¬ IsQuad s ∧ ¬ ∃ t, t ≠ [] ∧ IsQuad (s ++ t) := by
    by_cases hquad : IsQuad s
    · simp [hquad, (isQuad_iff.mp hquad).begins]
    · rw [begins_iff_proper hquad]
      simp [hquad]
  unfold ClassifiesIpv4
  rw [hbegins]
  constructor
  · exact fun h => h.2.2
  · intro hno
    refine ⟨hexact, ?_, hno⟩
    rcases cmdIpv4Match_range s with h | h | h <;> rw [h] at hexact hno ⊢ <;>
      simp at hexact hno ⊢ <;> tauto

/-- `cmd_ipv4_match` classifies exactly the words that neither end behind a group it has not
checked nor have a dot in front of what it takes for the rest of an address. -/
theorem classifiesIpv4_iff (s : Str) :
    ClassifiesIpv4 s ↔ ¬ EndsBehindBadGroup 3 s ∧
      ∀ r, s = '.' :: r → ¬ (Begins 2 r ∨ EndsBehindBadGroup 2 r) := by
  cases s with
  | nil =>
    have hends : ¬ EndsBehindBadGroup 3 [] := fun h => absurd h.dot_mem (by simp)
    have hquad : ¬ IsQuad [] := fun h => (isQuad_iff.mp h).ne_nil rfl
    rw [classifiesIpv4_iff_noMatch (by simp [cmdIpv4Match_nil, hquad])]
    simp [cmdIpv4Match_nil, begins_nil, hends]
  | cons c r =>
    by_cases hdot : c = '.'
    · subst hdot
      have hquad : ¬ IsQuad ('.' :: r) := fun h => isQuad_ne_dot h rfl
      have hbegins : ¬ Begins 3 ('.' :: r) := fun h => h.head_ne_dot rfl
      have hends : ¬ EndsBehindBadGroup 3 ('.' :: r) := fun h => h.head_ne_dot rfl
      constructor
      · intro h
        refine ⟨hends, ?_⟩
        rintro _ ⟨rfl⟩
        refine cmdIpv4Match_dot.2.mp (h.2.2.mpr ⟨hquad, ?_⟩)
        rintro ⟨t, -, ht⟩
        exact isQuad_ne_dot ht rfl
      · rintro ⟨-, h⟩
        have hno := cmdIpv4Match_dot.2.mpr (h r rfl)
        rw [classifiesIpv4_iff_noMatch (by simp [hno, hquad])]
        exact iff_of_true hno hbegins
    · have hhead : (c :: r).head? ≠ some '.' := by simpa using hdot
      obtain ⟨hexact, hno⟩ := cmdIpv4Match_of_ne_dot (List.cons_ne_nil c r) hhead
      have hrest : ∀ r', c :: r = '.' :: r' → ¬ (Begins 2 r' ∨ EndsBehindBadGroup 2 r') := by
        rintro r' heq
        exact absurd (List.cons.inj heq).1 hdot
      rw [classifiesIpv4_iff_noMatch hexact, hno, and_iff_left hrest]
      constructor
      · exact fun h hends => (h.mpr hends.not_begins).2 hends
      · exact fun hends => and_iff_left hends

/-- A leading dot is taken for a group. -/
theorem not_classifiesIpv4_leadingDot : ¬ ClassifiesIpv4 (str ".1.2.3") := fun h =>
  isQuad_ne_dot (h.1.mp (by decide)) rfl

end

end QrWireguard.Vtysh
