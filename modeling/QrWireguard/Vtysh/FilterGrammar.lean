import QrWireguard.Vtysh.Ipv4
import QrWireguard.Vtysh.Reload
import QrWireguard.Vtysh.Rules

/-!
# The grammar of filter rules

What the help text of `sfirewall filter` says of the arguments, what the checks of
`sfirewall_filter_rules` let through instead, and where the two agree.
-/

namespace QrWireguard.Vtysh
open Cli Proc

/-! ## The documented forms -/

/-- A decimal number. -/
def IsNumber (s : Str) : Prop := s ≠ [] ∧ ∀ c ∈ s, isdigit c = true

instance (s : Str) : Decidable (IsNumber s) :=
  decidable_of_iff (s ≠ [] ∧ s.all isdigit = true) (and_congr_right fun _ => List.all_eq_true)

theorem IsNumber.not_mem {s : Str} (h : IsNumber s) {c : Char} (hc : isdigit c = false) :
    c ∉ s := by
  intro hmem
  rw [h.2 c hmem] at hc
  cases hc

/-- An address with the length of its mask. -/
def IsCidr (s : Str) : Prop :=
  ∃ addr mask, s = addr ++ '/' :: mask ∧ IsQuad addr ∧ IsNumber mask ∧ mask.length ≤ 2 ∧
    decimal mask ≤ 32

/-- `any`, or a number from 1 to 65535. -/
def IsPort (s : Str) : Prop :=
  s = str "any" ∨ IsNumber s ∧ 1 ≤ decimal s ∧ decimal s ≤ 65535

/-- The names of the days. -/
def dayNames : List Str :=
  [str "mon", str "tue", str "wed", str "thu", str "fri", str "sat", str "sun"]

/-- `any`, or at most seven names of days with bars between them. -/
def IsDays (s : Str) : Prop :=
  s = str "any" ∨ ∃ days, days ≠ [] ∧ days.length ≤ 7 ∧ (∀ day ∈ days, day ∈ dayNames) ∧
    s = unwords '|' days

/-- `any`, or two digits for the hour and two for the minute. -/
def IsTime (s : Str) : Prop :=
  s = str "any" ∨ ∃ hour minute, s = hour ++ ':' :: minute ∧
    IsNumber hour ∧ hour.length = 2 ∧ decimal hour ≤ 23 ∧
    IsNumber minute ∧ minute.length = 2 ∧ decimal minute ≤ 59

/-- The rule follows the help text. -/
structure FilterArgs.Grammatical (a : FilterArgs) : Prop where
  num : IsNumber a.num
  zone : a.zone ∈ [str "lan2wan", str "wan2lan"]
  direction : a.direction ∈ [str "in", str "out", str "fw"]
  position : a.position ∈ [str "insert", str "append"]
  action : a.action ∈ [str "permit", str "deny", str "reject"]
  proto : a.proto ∈ [str "tcp", str "udp", str "icmp"]
  src : IsCidr a.src
  sport : IsPort a.sport
  dst : IsCidr a.dst
  dport : IsPort a.dport
  day : IsDays a.day
  fromtime : IsTime a.fromtime
  totime : IsTime a.totime

/-! ## What the checks let through -/

/-- A first digit. -/
def LooseNumber (s : Str) : Prop := isdigit (firstByte s) = true

/-- A first digit, and at most two bytes behind the first slash. -/
def LooseCidr (s : Str) : Prop :=
  LooseNumber s ∧ s.length < 256 ∧
    ∃ addr mask, s = addr ++ '/' :: mask ∧ '/' ∉ addr ∧ mask.length ≤ 2

/-- `any`, or a first digit and digits in front of the rest that `atoi` puts into the range. -/
def LoosePort (s : Str) : Prop :=
  s = str "any" ∨ LooseNumber s ∧ 1 ≤ atoi s ∧ atoi s ≤ 65535

/-- `any`, or at most seven pieces of three bytes between bars. -/
def LooseDays (s : Str) : Prop :=
  s = str "any" ∨ s.length < 128 ∧ (∀ day ∈ strtok '|' s, day.length = 3) ∧
    (strtok '|' s).length ≤ 7

/-- `any`, or two pieces of two bytes that `atoi` puts into the ranges, in front of the rest. -/
def LooseTime (s : Str) : Prop :=
  s = str "any" ∨ s.length < 128 ∧ ∃ hour minute rest, strtok ':' s = hour :: minute :: rest ∧
    hour.length = 2 ∧ 0 ≤ atoi hour ∧ atoi hour ≤ 23 ∧
    minute.length = 2 ∧ 0 ≤ atoi minute ∧ atoi minute ≤ 59

/-- Each argument has the form its check looks for. No check looks at the protocol. -/
structure FilterArgs.Loose (a : FilterArgs) : Prop where
  num : LooseNumber a.num
  zone : a.zone ∈ [str "lan2wan", str "wan2lan"]
  direction : a.direction ∈ [str "in", str "out", str "fw"]
  position : a.position ∈ [str "insert", str "append"]
  action : a.action ∈ [str "permit", str "deny", str "reject"]
  src : LooseCidr a.src
  sport : LoosePort a.sport
  dst : LooseCidr a.dst
  dport : LoosePort a.dport
  day : LooseDays a.day
  fromtime : LooseTime a.fromtime
  totime : LooseTime a.totime

section
variable {s : Str}

theorem passes_checkRuleNumber : (checkRuleNumber s).passes = true ↔ LooseNumber s := by
  unfold checkRuleNumber LooseNumber
  split
  · next h => exact iff_of_true rfl h
  · next h => exact iff_of_false Bool.false_ne_true h

theorem passes_checkKeyword {keywords : List Str} :
    (checkKeyword keywords s).passes = true ↔ s ∈ keywords := by
  unfold checkKeyword
  split
  · next h => exact iff_of_true rfl h
  · next h => exact iff_of_false Bool.false_ne_true h

theorem passes_checkPort : (checkPort s).passes = true ↔ LoosePort s := by
  unfold checkPort LoosePort LooseNumber
  dsimp only
  split
  · next h => exact iff_of_true rfl (.inl h)
  · next hany =>
    rw [or_iff_right hany]
    split
    · next hdigit =>
      refine iff_of_false Bool.false_ne_true fun h => ?_
      simp [h.1] at hdigit
    · next hdigit =>
      have hdigit' : isdigit (firstByte s) = true := by simpa using hdigit
      split
      · next hrange =>
        refine iff_of_false Bool.false_ne_true fun h => ?_
        omega
      · next hrange =>
        refine iff_of_true rfl ⟨hdigit', ?_⟩
        omega

/-- The text behind the first slash. -/
theorem dropWhile_slash {addr mask : Str} (h : '/' ∉ addr) :
    (addr ++ '/' :: mask).dropWhile (· != '/') = '/' :: mask := by
  rw [List.dropWhile_append_of_pos (bne_of_not_mem h)]
  rfl

theorem passes_checkCidr : (checkCidr s).passes = true ↔ LooseCidr s := by
  unfold checkCidr LooseCidr LooseNumber
  split
  · next hdigit =>
    refine iff_of_false Bool.false_ne_true fun h => ?_
    simp [h.1] at hdigit
  · next hdigit =>
    have hdigit' : isdigit (firstByte s) = true := by simpa using hdigit
    split
    · next hlen =>
      refine iff_of_false Bool.false_ne_true fun h => ?_
      omega
    · next hlen =>
      split
      · next hslash =>
        refine iff_of_false Bool.false_ne_true ?_
        rintro ⟨-, -, addr, mask, rfl, haddr, -⟩
        rw [dropWhile_slash haddr] at hslash
        cases hslash
      · next rest hrest =>
        have hform : ∀ {addr mask : Str}, s = addr ++ '/' :: mask → '/' ∉ addr →
            s.dropWhile (· != '/') = '/' :: mask := by
          rintro addr mask rfl haddr
          exact dropWhile_slash haddr
        split
        · next hlong =>
          refine iff_of_false Bool.false_ne_true ?_
          rintro ⟨-, -, addr, mask, hs, haddr, hmask⟩
          rw [hform hs haddr] at hlong
          simp only [List.length_cons] at hlong
          omega
        · next hshort =>
          refine iff_of_true rfl ⟨hdigit', by omega, ?_⟩
          obtain ⟨mask, hmask⟩ : ∃ mask, s.dropWhile (· != '/') = '/' :: mask := by
            have hhead := List.head?_dropWhile_not (· != '/') s
            cases hd : s.dropWhile (· != '/') with
            | nil => exact absurd hd hrest
            | cons c mask =>
              rw [hd] at hhead
              obtain rfl : c = '/' := by simpa using hhead
              exact ⟨mask, rfl⟩
          refine ⟨s.takeWhile (· != '/'), mask, ?_, ?_, ?_⟩
          · rw [← hmask, List.takeWhile_append_dropWhile]
          · intro hmem
            simpa using List.mem_takeWhile_imp hmem
          · rw [hmask] at hshort
            simp only [List.length_cons] at hshort
            omega

theorem passes_checkDay : (checkDay s).passes = true ↔ LooseDays s := by
  unfold checkDay LooseDays
  dsimp only
  split
  · next h => exact iff_of_true rfl (.inl h)
  · next hany =>
    rw [or_iff_right hany]
    split
    · next hlong =>
      refine iff_of_false Bool.false_ne_true fun h => ?_
      omega
    · next hlong =>
      split
      · next hpiece =>
        obtain ⟨day, hday, hlen⟩ := List.any_eq_true.mp hpiece
        refine iff_of_false Bool.false_ne_true fun h => ?_
        simp [h.2.1 day hday] at hlen
      · next hpiece =>
        have hall : ∀ day ∈ strtok '|' s, day.length = 3 := by
          simpa [List.any_eq_true] using hpiece
        split
        · next hmany =>
          refine iff_of_false Bool.false_ne_true fun h => ?_
          omega
        · next hmany => exact iff_of_true rfl ⟨by omega, hall, by omega⟩

theorem passes_checkTime : (checkTime s).passes = true ↔ LooseTime s := by
  unfold checkTime LooseTime
  dsimp only
  split
  · next h => exact iff_of_true rfl (.inl h)
  · next hany =>
    rw [or_iff_right hany]
    split
    · next hlong =>
      refine iff_of_false Bool.false_ne_true fun h => ?_
      omega
    · next hlong =>
      rcases strtok ':' s with - | ⟨hour, - | ⟨minute, rest⟩⟩
      · refine iff_of_false Bool.false_ne_true ?_
        rintro ⟨-, hour, minute, rest, h, -⟩
        cases h
      · refine iff_of_false ?_ ?_
        · dsimp only
          split
          · exact Bool.false_ne_true
          · split
            · exact Bool.false_ne_true
            · exact Bool.false_ne_true
        · rintro ⟨-, hour, minute, rest, h, -⟩
          cases h
      · constructor
        · intro h
          dsimp only at h
          split at h
          · cases h
          · split at h
            · cases h
            · split at h
              · cases h
              · split at h
                · cases h
                · exact ⟨by omega, hour, minute, rest, rfl, by omega, by omega, by omega, by omega,
                    by omega, by omega⟩
        · rintro ⟨-, hour', minute', rest', h, h₁, h₂, h₃, h₄, h₅, h₆⟩
          cases h
          dsimp only
          rw [if_neg (by omega), if_neg (by omega), if_neg (by omega), if_neg (by omega)]
          rfl

theorem FilterArgs.passes_checks {a : FilterArgs} :
    a.checks.all ArgCheck.passes = true ↔ a.Loose := by
  simp only [FilterArgs.checks, List.all_cons, List.all_nil, Bool.and_true, Bool.and_eq_true,
    passes_checkRuleNumber, passes_checkKeyword, passes_checkPort, passes_checkCidr,
    passes_checkDay, passes_checkTime]
  constructor
  · rintro ⟨hnum, hzone, hdirection, hposition, haction, hsport, hdport, hsrc, hdst, hday,
      hfromtime, htotime⟩
    exact ⟨hnum, hzone, hdirection, hposition, haction, hsrc, hsport, hdst, hdport, hday,
      hfromtime, htotime⟩
  · rintro ⟨hnum, hzone, hdirection, hposition, haction, hsrc, hsport, hdst, hdport, hday,
      hfromtime, htotime⟩
    exact ⟨hnum, hzone, hdirection, hposition, haction, hsport, hdport, hsrc, hdst, hday,
      hfromtime, htotime⟩

/-! ## A documented rule passes -/

theorem looseNumber_of_isNumber (h : IsNumber s) : LooseNumber s := by
  obtain ⟨hne, hdigits⟩ := h
  cases s with
  | nil => exact absurd rfl hne
  | cons c s => exact hdigits c List.mem_cons_self

theorem loosePort_of_isPort (h : IsPort s) : LoosePort s := by
  refine h.imp id fun ⟨hnum, hlow, hhigh⟩ => ?_
  have hatoi := atoi_of_decimal_lt hnum.2 (by omega)
  exact ⟨looseNumber_of_isNumber hnum, by omega, by omega⟩

theorem looseNumber_of_isQuad {t : Str} (h : IsQuad s) : LooseNumber (s ++ t) := by
  obtain ⟨a, b, c, d, ha, -, -, -, rfl⟩ := h
  have hnum := looseNumber_of_isNumber ⟨ha.ne_nil, ha.digits⟩
  obtain ⟨x, a, rfl⟩ := List.exists_cons_of_ne_nil ha.ne_nil
  exact hnum

theorem length_le_of_isQuad (h : IsQuad s) : s.length ≤ 15 := by
  obtain ⟨a, b, c, d, ha, hb, hc, hd, rfl⟩ := h
  have hla := ha.length_le
  have hlb := hb.length_le
  have hlc := hc.length_le
  have hld := hd.length_le
  simp only [List.length_append, List.length_cons]
  omega

theorem looseCidr_of_isCidr (h : IsCidr s) : LooseCidr s := by
  obtain ⟨addr, mask, rfl, haddr, -, hlen, -⟩ := h
  refine ⟨looseNumber_of_isQuad haddr, ?_, addr, mask, rfl, ?_, hlen⟩
  · have hquad := length_le_of_isQuad haddr
    simp only [List.length_append, List.length_cons]
    omega
  · intro hslash
    rcases (isQuad_iff.mp haddr).chars '/' hslash with hdigit | hdot
    · revert hdigit
      decide
    · cases hdot

theorem looseDays_of_isDays (h : IsDays s) : LooseDays s := by
  refine h.imp id ?_
  rintro ⟨days, -, hlen, hnames, rfl⟩
  have hthree : ∀ day ∈ dayNames, day.length = 3 ∧ IsWord (· == '|') day := by decide
  have hpieces : strtok '|' (unwords '|' days) = days :=
    words_unwords rfl fun day hday => (hthree day (hnames day hday)).2
  have hlength : ∀ day ∈ days, day.length = 3 := fun day hday => (hthree day (hnames day hday)).1
  have hshort : ∀ day ∈ days, day.length < 4 := by
    intro day hday
    rw [hlength day hday]
    decide
  have htotal : (unwords '|' days).length ≤ days.length * 4 := length_unwords_le hshort
  rw [hpieces]
  exact ⟨by omega, hlength, hlen⟩

/-- A number holds no colon. -/
theorem isWord_colon_of_isNumber (h : IsNumber s) : IsWord (· == ':') s := by
  refine ⟨h.1, fun c hc => ?_⟩
  rw [beq_eq_false_iff_ne]
  rintro rfl
  exact h.not_mem rfl hc

theorem looseTime_of_isTime (h : IsTime s) : LooseTime s := by
  refine h.imp id ?_
  rintro ⟨hour, minute, rfl, hhour, hlenh, hmaxh, hminute, hlenm, hmaxm⟩
  have hpieces : strtok ':' (hour ++ ':' :: minute) = [hour, minute] := by
    rw [strtok, words_append_sep (isWord_colon_of_isNumber hhour) rfl,
      words_self (isWord_colon_of_isNumber hminute)]
  have hatoih := atoi_digits hhour.2 (by omega)
  have hatoim := atoi_digits hminute.2 (by omega)
  refine ⟨?_, hour, minute, [], hpieces, hlenh, by omega, by omega, hlenm, by omega, by omega⟩
  simp only [List.length_append, List.length_cons]
  omega

theorem FilterArgs.Grammatical.loose {a : FilterArgs} (h : a.Grammatical) : a.Loose where
  num := looseNumber_of_isNumber h.num
  zone := h.zone
  direction := h.direction
  position := h.position
  action := h.action
  src := looseCidr_of_isCidr h.src
  sport := loosePort_of_isPort h.sport
  dst := looseCidr_of_isCidr h.dst
  dport := loosePort_of_isPort h.dport
  day := looseDays_of_isDays h.day
  fromtime := looseTime_of_isTime h.fromtime
  totime := looseTime_of_isTime h.totime

/-! ## No percent sign in a documented rule -/

theorem percent_not_mem_cidr (h : IsCidr s) : '%' ∉ s := by
  obtain ⟨addr, mask, rfl, haddr, hmask, -⟩ := h
  simp only [List.mem_append, List.mem_cons]
  rintro (hmem | hmem | hmem)
  · rcases (isQuad_iff.mp haddr).chars '%' hmem with hdigit | hdot
    · revert hdigit
      decide
    · cases hdot
  · cases hmem
  · exact hmask.not_mem rfl hmem

theorem percent_not_mem_port (h : IsPort s) : '%' ∉ s := by
  rcases h with rfl | ⟨hnum, -⟩
  · decide
  · exact hnum.not_mem rfl

theorem percent_not_mem_days (h : IsDays s) : '%' ∉ s := by
  rcases h with rfl | ⟨days, -, -, hnames, rfl⟩
  · decide
  · have hplain : ∀ day ∈ dayNames, '%' ∉ day := by decide
    intro hmem
    rcases mem_unwords hmem with hbar | ⟨day, hday, hmem⟩
    · cases hbar
    · exact hplain day (hnames day hday) hmem

theorem percent_not_mem_time (h : IsTime s) : '%' ∉ s := by
  rcases h with rfl | ⟨hour, minute, rfl, hhour, -, -, hminute, -⟩
  · decide
  · simp only [List.mem_append, List.mem_cons]
    rintro (hmem | hmem | hmem)
    · exact hhour.not_mem rfl hmem
    · cases hmem
    · exact hminute.not_mem rfl hmem

theorem percent_not_mem_keyword {keywords : List Str} (hplain : ∀ k ∈ keywords, '%' ∉ k)
    (h : s ∈ keywords) : '%' ∉ s := hplain s h

theorem FilterArgs.Grammatical.percent_not_mem {a : FilterArgs} (h : a.Grammatical) :
    '%' ∉ a.line := by
  have hargs : ∀ arg ∈ a.toArgv, '%' ∉ arg := by
    simp only [FilterArgs.toArgv, List.forall_mem_cons, List.not_mem_nil, false_implies,
      implies_true, and_true]
    exact ⟨h.num.not_mem rfl, percent_not_mem_keyword (by decide) h.zone,
      percent_not_mem_keyword (by decide) h.direction,
      percent_not_mem_keyword (by decide) h.position,
      percent_not_mem_keyword (by decide) h.action, percent_not_mem_keyword (by decide) h.proto,
      percent_not_mem_cidr h.src, percent_not_mem_port h.sport, percent_not_mem_cidr h.dst,
      percent_not_mem_port h.dport, percent_not_mem_days h.day,
      percent_not_mem_time h.fromtime, percent_not_mem_time h.totime⟩
  intro hmem
  rw [FilterArgs.line, List.mem_append] at hmem
  rcases hmem with hmem | hmem
  · revert hmem
    decide
  · rcases mem_unwords hmem with hblank | ⟨arg, harg, hmem⟩
    · cases hblank
    · exact hargs arg harg hmem

end

/-! ## Where the checks and the grammar agree -/

/-- The rule is accepted, and the store gains its line; an earlier copy and the twin go. -/
def Stores (e : Env) (w : World) (v : VtyRef) (argv : List Str) : Prop :=
  ∃ a, FilterArgs.ofArgv argv = some a ∧ Runs (sfirewallFilterRules v argv) e w fun ret t =>
    ret = cmdSuccess ∧ t.configTop =
      listnodeAddSort a.line (configDelLine (configDelLine w.configTop a.twin.line) a.line)

section
variable {e : Env} {w : World} {v : VtyRef} {argv : List Str} {a : FilterArgs}

theorem stores_iff (ha : FilterArgs.ofArgv argv = some a) :
    Stores e w v argv ↔ a.Loose ∧ a.line.length < 1024 ∧ '%' ∉ a.line := by
  have hr : RuleKind.filter.rule argv = some ⟨a.checks, [a.twin.line], a.line⟩ := by
    simp [RuleKind.rule, ha]
  have hrun : Stores e w v argv ↔ Runs (call RuleKind.filter.set v argv) e w fun ret t =>
      ret = cmdSuccess ∧ t.configTop =
        listnodeAddSort a.line (configDelLine (configDelLine w.configTop a.twin.line) a.line) := by
    constructor
    · rintro ⟨a', ha', h⟩
      obtain rfl := Option.some.inj (ha.symm.trans ha')
      exact h
    · exact fun h => ⟨a, ha, h⟩
  rw [hrun, runs_set fun ret t h => h.1]
  constructor
  · rintro ⟨r, info, hr', ⟨hpass, hlen⟩, hinfo, -, hconfig⟩
    obtain rfl := Option.some.inj (hr.symm.trans hr')
    obtain rfl := insertAfter_left_inj.mp hconfig
    exact ⟨FilterArgs.passes_checks.mp hpass, hlen, vasprintf_self_iff.mp hinfo⟩
  · rintro ⟨hloose, hlen, hplain⟩
    exact ⟨_, a.line, hr, ⟨FilterArgs.passes_checks.mpr hloose, hlen⟩,
      vasprintf_self_iff.mpr hplain, rfl, rfl⟩

end

/-- The arguments are a rule that follows the help text. -/
def Grammatical (argv : List Str) : Prop := ∃ a, FilterArgs.ofArgv argv = some a ∧ a.Grammatical

/-- The element of `sfirewall_filter_rules`. -/
def filterElement : CmdElement CmdFunc :=
  entry sfirewallFilterRulesCmd [str "sfirewall", str "filter"]
    [[str "NUM"], [str "lan2wan", str "wan2lan"], [str "in", str "out", str "fw"],
      [str "insert", str "append"], [str "permit", str "deny", str "reject"],
      [str "tcp", str "udp", str "icmp"], [str "A.B.C.D/E"], [str "PORT"], [str "A.B.C.D/E"],
      [str "PORT"], [str "DAY"], [str "FROMTIME"], [str "TOTIME"]]

/-- The arguments of a rule whose destination port is a digit and a letter. -/
def looseRule : List Str :=
  [str "10", str "lan2wan", str "fw", str "append", str "deny", str "tcp", str "10.0.0.1/32",
    str "any", str "0.0.0.0/0", str "8o", str "any", str "any", str "any"]

end QrWireguard.Vtysh
