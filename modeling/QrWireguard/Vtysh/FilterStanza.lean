import QrWireguard.Misc.Uci
import QrWireguard.Vtysh.ApplyFiles
import QrWireguard.Vtysh.Frame
import QrWireguard.Vtysh.RuleOrder

/-!
# The stanzas of the filter rules

`sfirewall_filter_rules_apply` turns each line of its input into a stanza for the firewall. A rule
stands for a section with options; what the section does not show of the rule is lost.
-/

namespace QrWireguard.Vtysh
open Cli Proc

/-! ## The section of a rule -/

/-- The options of a stanza. -/
inductive OptionKey where
  | src | dest | proto | family | srcIp | srcPort | destIp | destPort | weekdays | startTime
  | stopTime | target | name | enabled
  deriving DecidableEq

namespace OptionKey

/-- The name of an option. -/
def text : OptionKey → Str
  | src => str "src"
  | dest => str "dest"
  | proto => str "proto"
  | family => str "family"
  | srcIp => str "src_ip"
  | srcPort => str "src_port"
  | destIp => str "dest_ip"
  | destPort => str "dest_port"
  | weekdays => str "weekdays"
  | startTime => str "start_time"
  | stopTime => str "stop_time"
  | target => str "target"
  | name => str "name"
  | enabled => str "enabled"

/-- The options in the order in which they are written. -/
def all : List OptionKey :=
  [src, dest, proto, family, srcIp, srcPort, destIp, destPort, weekdays, startTime, stopTime,
    target, name, enabled]

theorem mem_all (key : OptionKey) : key ∈ all := by
  cases key <;> decide

theorem text_plain (key : OptionKey) : ' ' ∉ key.text ∧ '\n' ∉ key.text := by
  have hall : ∀ key ∈ all, ' ' ∉ key.text ∧ '\n' ∉ key.text := by decide
  exact hall key (mem_all key)

theorem text_injective : Function.Injective text := by
  have hall : ∀ key ∈ all, ∀ key' ∈ all, key.text = key'.text → key = key' := by decide
  intro key key'
  exact hall key (mem_all key) key' (mem_all key')

end OptionKey

/-- The value of an option that `any` leaves out. -/
def anyValue (v : Str) : Option Str := if v = str "any" then none else some v

/-- The days, with blanks between them. -/
def weekdays (day : Str) : Str := day.map fun c => if c = '|' then ' ' else c

/-- The target of an action. -/
def target (action : Str) : Str :=
  if action = str "permit" then str "ACCEPT"
  else if action = str "deny" then str "DROP"
  else str "REJECT"

namespace FilterArgs

/-- The options of the rule that is written behind `count` others. -/
def value (count : Nat) (a : FilterArgs) : OptionKey → Option Str
  | .src => some (if a.zone = str "lan2wan" then str "lan" else str "wan")
  | .dest => some (if a.zone = str "lan2wan" then str "wan" else str "lan")
  | .proto => some a.proto
  | .family => some (str "ipv4")
  | .srcIp => some a.src
  | .srcPort => anyValue a.sport
  | .destIp => some a.dst
  | .destPort => anyValue a.dport
  | .weekdays => anyValue (weekdays a.day)
  | .startTime => anyValue a.fromtime
  | .stopTime => if a.fromtime = str "any" then none else some a.totime
  | .target => some (Vtysh.target a.action)
  | .name => some (str "SFIREWALL_FILTER" ++ itoa count)
  | .enabled => some (str "1")

/-- The text of its section. -/
def stanza (count : Nat) (a : FilterArgs) : Str :=
  sectionText OptionKey.text (str "rule") (entries OptionKey.all (a.value count))

end FilterArgs

section
variable {a b : FilterArgs} {count i : Nat}

theorem action_nextActionIndex (h : a.action ∈ [str "permit", str "deny", str "reject"]) :
    action (nextActionIndex i a.action) = target a.action := by
  have hall : ∀ s ∈ [str "permit", str "deny", str "reject"],
      action (nextActionIndex i s) = target s := by
    simp only [List.forall_mem_cons, List.not_mem_nil, false_implies, implies_true, and_true]
    exact ⟨rfl, rfl, rfl⟩
  exact hall a.action h

theorem optionText_anyValue (key : OptionKey) (v : Str) :
    optionText OptionKey.text key (anyValue v) =
      if v ≠ str "any" then optionText OptionKey.text key (some v) else [] := by
  unfold anyValue
  split
  · next h => exact (if_neg (not_not.mpr h)).symm
  · rfl

theorem zone_eq_optionText (count : Nat) (h : a.zone ∈ [str "lan2wan", str "wan2lan"]) :
    (if a.zone = str "lan2wan" then
      str "        option src 'lan'\n" ++ str "        option dest 'wan'\n"
    else if a.zone = str "wan2lan" then
      str "        option src 'wan'\n" ++ str "        option dest 'lan'\n"
    else []) =
      optionText OptionKey.text .src (a.value count .src) ++
        optionText OptionKey.text .dest (a.value count .dest) := by
  have hall : ∀ zone ∈ [str "lan2wan", str "wan2lan"],
      (if zone = str "lan2wan" then
        str "        option src 'lan'\n" ++ str "        option dest 'wan'\n"
      else if zone = str "wan2lan" then
        str "        option src 'wan'\n" ++ str "        option dest 'lan'\n"
      else []) =
        optionText OptionKey.text .src
          (some (if zone = str "lan2wan" then str "lan" else str "wan")) ++
        optionText OptionKey.text .dest
          (some (if zone = str "lan2wan" then str "wan" else str "lan")) := by
    simp only [List.forall_mem_cons, List.not_mem_nil, false_implies, implies_true, and_true]
    exact ⟨rfl, rfl⟩
  exact hall a.zone h

theorem times_eq_optionText (a : FilterArgs) (count : Nat) :
    (if a.fromtime ≠ str "any" then
      str "        option start_time '" ++ a.fromtime ++ str "'\n" ++
      str "        option stop_time '" ++ a.totime ++ str "'\n"
    else []) =
      optionText OptionKey.text .startTime (a.value count .startTime) ++
        optionText OptionKey.text .stopTime (a.value count .stopTime) := by
  have hstart : str "        option " ++ OptionKey.startTime.text ++ str " '" =
      str "        option start_time '" := rfl
  have hstop : str "        option " ++ OptionKey.stopTime.text ++ str " '" =
      str "        option stop_time '" := rfl
  rw [FilterArgs.value, FilterArgs.value, optionText_anyValue]
  by_cases hany : a.fromtime = str "any"
  · rw [if_neg (not_not.mpr hany), if_neg (not_not.mpr hany), if_pos hany]
    rfl
  · rw [if_pos hany, if_pos hany, if_neg hany, optionText_some, optionText_some, hstart, hstop]
    simp only [List.append_assoc]

/-- The code writes the section of the rule. -/
theorem filterStanza_eq (hzone : a.zone ∈ [str "lan2wan", str "wan2lan"])
    (haction : a.action ∈ [str "permit", str "deny", str "reject"]) :
    filterStanza (nextActionIndex i a.action) count a = a.stanza count := by
  have hheading : str "config rule\n" = str "config " ++ str "rule" ++ str "\n" := rfl
  have hproto : str "        option " ++ OptionKey.proto.text ++ str " '" =
      str "        option proto '" := rfl
  have hfamily : str "        option family 'ipv4'\n" =
      optionText OptionKey.text .family (some (str "ipv4")) := rfl
  have hsrc : str "        option " ++ OptionKey.srcIp.text ++ str " '" =
      str "        option src_ip '" := rfl
  have hsport : str "        option " ++ OptionKey.srcPort.text ++ str " '" =
      str "        option src_port '" := rfl
  have hdst : str "        option " ++ OptionKey.destIp.text ++ str " '" =
      str "        option dest_ip '" := rfl
  have hdport : str "        option " ++ OptionKey.destPort.text ++ str " '" =
      str "        option dest_port '" := rfl
  have hday : str "        option " ++ OptionKey.weekdays.text ++ str " '" =
      str "        option weekdays '" := rfl
  have htarget : str "        option " ++ OptionKey.target.text ++ str " '" =
      str "        option target '" := rfl
  have hname : str "        option name 'SFIREWALL_FILTER" =
      str "        option " ++ OptionKey.name.text ++ str " '" ++ str "SFIREWALL_FILTER" := rfl
  have henabled : str "        option enabled '1'\n" =
      optionText OptionKey.text .enabled (some (str "1")) := rfl
  unfold filterStanza FilterArgs.stanza
  rw [sectionText_entries, zone_eq_optionText count hzone, times_eq_optionText a count,
    action_nextActionIndex haction, hfamily, henabled, hname, hheading]
  simp only [OptionKey.all, List.flatMap_cons, List.flatMap_nil, List.append_nil,
    FilterArgs.value, weekdays, optionText_anyValue]
  simp only [optionText_some, hproto, hsrc, hsport, hdst, hdport, hday, htarget]
  simp only [List.append_assoc]

end

/-! ## Stored rules -/

/-- The arguments are entered by a line and accepted, and the store holds the rule with these
fields: the arguments as they are printed. -/
structure StoredAs (argv : List Str) (a : FilterArgs) : Prop where
  entered : ∃ i : Input, ∃ node, i.StandsFor node .sfirewallFilterRules argv
  accepted : ∀ e w v, Accepts (call RuleKind.filter.set v argv) e w
  printed : List.Forall₂ (fun arg field => vasprintf arg [] = some field) argv a.toArgv

/-- Words are printed one by one. -/
theorem vasprintf_unwords {args : List Str} {info : Str}
    (h : vasprintf (unwords ' ' args) [] = some info) :
    ∃ fields, List.Forall₂ (fun arg field => vasprintf arg [] = some field) args fields ∧
      info = unwords ' ' fields := by
  induction args generalizing info with
  | nil => exact ⟨[], .nil, (Option.some.inj h).symm⟩
  | cons arg args ih =>
    cases args with
    | nil => exact ⟨[info], .cons h .nil, rfl⟩
    | cons arg' args =>
      obtain ⟨field, rest, hfield, hrest, rfl⟩ := vasprintf_append_blank h
      obtain ⟨fields, hfields, rfl⟩ := ih hrest
      refine ⟨field :: fields, .cons hfield hfields, ?_⟩
      cases hfields with
      | cons _ _ => rfl

section
variable {argv : List Str} {a : FilterArgs}

/-- The rule behind accepted arguments. -/
theorem exists_rule_of_accepts (h : ∀ e w v, Accepts (call RuleKind.filter.set v argv) e w) :
    ∃ a₀ : FilterArgs, argv = a₀.toArgv ∧ a₀.Loose ∧ a₀.line.length < 1024 ∧
      ∃ fields, List.Forall₂ (fun arg field => vasprintf arg [] = some field) argv fields ∧
        vasprintf a₀.line [] = some (str "sfirewall filter " ++ unwords ' ' fields) := by
  obtain ⟨r, info, hr, ⟨hpass, hlen⟩, hinfo⟩ := accepts_set.mp (h obligingEnv emptyShell .vty)
  obtain ⟨a₀, ha₀, rfl⟩ := Option.map_eq_some_iff.mp hr
  obtain rfl := FilterArgs.toArgv_of_ofArgv ha₀
  refine ⟨a₀, rfl, FilterArgs.passes_checks.mp hpass, hlen, ?_⟩
  have hkeyword : '%' ∉ str "sfirewall filter " := by decide
  have hline := hinfo
  change vasprintf (str "sfirewall filter " ++ unwords ' ' a₀.toArgv) [] = some info at hinfo
  rw [vasprintf_append hkeyword] at hinfo
  obtain ⟨rest, hrest, rfl⟩ := Option.map_eq_some_iff.mp hinfo
  obtain ⟨fields, hfields, rfl⟩ := vasprintf_unwords hrest
  exact ⟨fields, hfields, hline⟩

theorem printed_unique {fields fields' : List Str}
    (h : List.Forall₂ (fun arg field => vasprintf arg [] = some field) argv fields)
    (h' : List.Forall₂ (fun arg field => vasprintf arg [] = some field) argv fields') :
    fields = fields' := by
  refine List.right_unique_forall₂' ?_ h h'
  intro arg field field' hfield hfield'
  exact Option.some.inj (hfield.symm.trans hfield')

/-- Every accepted rule is stored with some fields. -/
theorem exists_storedAs (hentered : ∃ i : Input, ∃ node, i.StandsFor node .sfirewallFilterRules argv)
    (haccepted : ∀ e w v, Accepts (call RuleKind.filter.set v argv) e w) :
    ∃ a, StoredAs argv a := by
  obtain ⟨a₀, rfl, -, -, fields, hfields, -⟩ := exists_rule_of_accepts haccepted
  obtain ⟨a, rfl⟩ : ∃ a : FilterArgs, fields = a.toArgv := by
    have hlen := hfields.length_eq
    match fields, hlen with
    | [num, zone, direction, position, action, proto, src, sport, dst, dport, day, fromtime,
        totime], _ =>
      exact ⟨⟨num, zone, direction, position, action, proto, src, sport, dst, dport, day, fromtime,
        totime⟩, rfl⟩
  exact ⟨a, hentered, haccepted, hfields⟩

/-- Its line is the one the store holds. -/
theorem StoredAs.line (h : StoredAs argv a) : printedLine .filter argv = a.line := by
  obtain ⟨a₀, rfl, -, -, fields, hfields, hline⟩ := exists_rule_of_accepts h.accepted
  obtain rfl := printed_unique h.printed hfields
  exact printedLine_eq (k := .filter) rfl hline

theorem StoredAs.length_line (h : StoredAs argv a) : a.line.length < 1024 := by
  obtain ⟨a₀, rfl, -, hlen, fields, hfields, hline⟩ := exists_rule_of_accepts h.accepted
  obtain rfl := printed_unique h.printed hfields
  exact (vasprintf_length hline).1.trans_lt hlen

/-- The fields are tokens without a NUL. -/
theorem StoredAs.token (h : StoredAs argv a) : ∀ field ∈ a.toArgv, IsToken field ∧ '\x00' ∉ field := by
  obtain ⟨i, node, hstands⟩ := h.entered
  intro field hfield
  obtain ⟨arg, harg, hprinted⟩ : ∃ arg ∈ argv, vasprintf arg [] = some field := by
    obtain ⟨n, hn, rfl⟩ := List.getElem_of_mem hfield
    have hlen := h.printed.length_eq
    exact ⟨argv[n], List.getElem_mem _, (List.forall₂_iff_get.mp h.printed).2 n (by omega) hn⟩
  obtain ⟨⟨hne, hspace⟩, hnul⟩ := hstands.args arg harg
  have hsub := vasprintf_subset hprinted
  refine ⟨⟨?_, fun c hc => hspace c (hsub hc)⟩, fun hmem => hnul (hsub hmem)⟩
  rintro rfl
  rcases vasprintf_cases hprinted with ⟨rfl, -⟩ | ⟨_, _, _, _, _, hinfo, _⟩ | ⟨_, _, _, hinfo, _⟩
  · exact hne rfl
  · cases hinfo
  · cases hinfo

theorem StoredAs.blank_not_mem_day (h : StoredAs argv a) : ' ' ∉ a.day := by
  have htoken := (h.token a.day (by simp [FilterArgs.toArgv])).1
  exact htoken.not_mem rfl

/-- A keyword is printed as it stands. -/
theorem keyword_printed {keywords : List Str} (hplain : ∀ k ∈ keywords, '%' ∉ k) {arg field : Str}
    (harg : arg ∈ keywords) (h : vasprintf arg [] = some field) : field ∈ keywords := by
  rw [vasprintf_of_not_mem (hplain arg harg)] at h
  rwa [← Option.some.inj h]

theorem StoredAs.keywords (h : StoredAs argv a) : a.zone ∈ [str "lan2wan", str "wan2lan"] ∧
    a.action ∈ [str "permit", str "deny", str "reject"] := by
  obtain ⟨a₀, rfl, hloose, -⟩ := exists_rule_of_accepts h.accepted
  have hprinted := h.printed
  simp only [FilterArgs.toArgv, List.forall₂_cons] at hprinted
  obtain ⟨-, hzone, -, -, haction, -⟩ := hprinted
  exact ⟨keyword_printed (by decide) hloose.zone hzone,
    keyword_printed (by decide) hloose.action haction⟩

end

/-! ## What a section shows of its rule -/

/-- The forms of the values of an option. -/
def OptionKey.Form : OptionKey → Str → Prop
  | .src, v | .dest, v => v ∈ [str "lan", str "wan"]
  | .proto, v => v ∈ [str "tcp", str "udp", str "icmp"]
  | .family, v => v = str "ipv4"
  | .srcIp, v | .destIp, v => IsCidr v
  | .srcPort, v | .destPort, v => IsNumber v
  | .weekdays, v => words (· == ' ') v ≠ [] ∧ ∀ day ∈ words (· == ' ') v, day ∈ dayNames
  | .startTime, v | .stopTime, v => IsTime v ∧ v ≠ str "any"
  | .target, v => v ∈ [str "ACCEPT", str "DROP", str "REJECT"]
  | .name, v => ∃ n, IsNumber n ∧ v = str "SFIREWALL_FILTER" ++ n
  | .enabled, v => v = str "1"

namespace FilterArgs

/-- The fields fit the buffers of the loop. -/
def Short (a : FilterArgs) : Prop := ∀ field ∈ a.toArgv, field.length < 64

/-- The fields that go into options have the forms of the options. -/
structure Expressible (a : FilterArgs) : Prop where
  proto : a.proto ∈ [str "tcp", str "udp", str "icmp"]
  src : IsCidr a.src
  sport : a.sport ≠ str "any" → IsNumber a.sport
  dst : IsCidr a.dst
  dport : a.dport ≠ str "any" → IsNumber a.dport
  day : a.day ≠ str "any" →
    strtok '|' a.day ≠ [] ∧ ∀ day ∈ strtok '|' a.day, day ∈ dayNames
  times : a.fromtime ≠ str "any" →
    (IsTime a.fromtime ∧ a.fromtime ≠ str "any") ∧ IsTime a.totime ∧ a.totime ≠ str "any"

/-- The rules allow or forbid the same. -/
structure SameRule (a b : FilterArgs) : Prop where
  zone : a.zone = b.zone
  direction : a.direction = b.direction
  action : a.action = b.action
  proto : a.proto = b.proto
  src : a.src = b.src
  sport : a.sport = b.sport
  dst : a.dst = b.dst
  dport : a.dport = b.dport
  day : a.day = b.day
  fromtime : a.fromtime = b.fromtime
  totime : a.totime = b.totime

/-- The rules agree in all that goes into options: not in the direction, nor in the end time when
there is no start time. -/
structure SameOptions (a b : FilterArgs) : Prop where
  zone : a.zone = b.zone
  action : a.action = b.action
  proto : a.proto = b.proto
  src : a.src = b.src
  sport : a.sport = b.sport
  dst : a.dst = b.dst
  dport : a.dport = b.dport
  day : a.day = b.day
  fromtime : a.fromtime = b.fromtime
  totime : a.fromtime ≠ str "any" → a.totime = b.totime

end FilterArgs

section
variable {a b : FilterArgs} {count : Nat} {u v : Str}

theorem anyValue_eq_some : anyValue u = some v ↔ u ≠ str "any" ∧ v = u := by
  unfold anyValue
  split
  · next h => simp [h]
  · next h => simp [h, eq_comm]

theorem anyValue_inj (h : anyValue u = anyValue v) : u = v := by
  by_cases hu : u = str "any"
  · by_cases hv : v = str "any"
    · rw [hu, hv]
    · have hsome := anyValue_eq_some.mpr ⟨hv, rfl⟩
      rw [← h] at hsome
      exact absurd hu (anyValue_eq_some.mp hsome).1
  · have hsome := anyValue_eq_some.mpr ⟨hu, rfl⟩
    rw [h] at hsome
    exact (anyValue_eq_some.mp hsome).2

/-- Days without blanks can be told from the days with blanks between them. -/
theorem weekdays_inj (hu : ' ' ∉ u) (hv : ' ' ∉ v) (h : weekdays u = weekdays v) : u = v := by
  have hback : ∀ day : Str, ' ' ∉ day →
      (weekdays day).map (fun c => if c = ' ' then '|' else c) = day := by
    intro day hday
    rw [weekdays, List.map_map]
    refine (List.map_congr_left fun c hc => ?_).trans (List.map_id day)
    have hblank : c ≠ ' ' := fun heq => hday (heq ▸ hc)
    by_cases hbar : c = '|'
    · simp [hbar]
    · simp [hbar, hblank]
  rw [← hback u hu, ← hback v hv, h]

theorem weekdays_eq_any (hu : ' ' ∉ u) : weekdays u = str "any" ↔ u = str "any" := by
  constructor
  · intro h
    exact weekdays_inj hu (by decide) (h.trans rfl)
  · rintro rfl
    rfl

/-- The names are the pieces between the bars. -/
theorem words_weekdays (hu : ' ' ∉ u) : words (· == ' ') (weekdays u) = strtok '|' u := by
  have hsep : words ((· == ' ') ∘ fun c => if c = '|' then ' ' else c) u = strtok '|' u := by
    refine words_congr fun c hc => ?_
    have hblank : c ≠ ' ' := fun heq => hu (heq ▸ hc)
    by_cases hbar : c = '|'
    · simp [hbar]
    · simp [hbar, hblank]
  rw [weekdays, words_map, hsep]
  refine (List.map_congr_left fun w hw => ?_).trans (List.map_id _)
  refine (List.map_congr_left fun c hc => ?_).trans (List.map_id w)
  have hbar := (isWord_of_mem_words hw).1.2 c hc
  simp only [beq_eq_false_iff_ne] at hbar
  exact if_neg hbar

theorem isNumber_itoa (n : Nat) : IsNumber (itoa n) := by
  have hitoa : itoa n = natDigits n := if_neg (by omega)
  rw [hitoa]
  exact ⟨natDigits_ne_nil n, fun c hc => isdigit_of_mem_natDigits hc⟩

theorem target_form (s : Str) : target s ∈ [str "ACCEPT", str "DROP", str "REJECT"] := by
  unfold target
  split
  · exact .head _
  · split
    · exact .tail _ (.head _)
    · exact .tail _ (.tail _ (.head _))

/-- The options have their forms exactly when the rule can be expressed. -/
theorem form_options_iff {argv : List Str} (h : StoredAs argv a) :
    (∀ entry ∈ entries OptionKey.all (a.value count), entry.1.Form entry.2) ↔ a.Expressible := by
  have hblank := h.blank_not_mem_day
  have hentries : (∀ entry ∈ entries OptionKey.all (a.value count), entry.1.Form entry.2) ↔
      ∀ key v, a.value count key = some v → key.Form v := by
    constructor
    · intro hall key v hv
      exact hall (key, v) (mem_entries.mpr ⟨key.mem_all, hv⟩)
    · rintro hall ⟨key, v⟩ hmem
      exact hall key v (mem_entries.mp hmem).2
  rw [hentries]
  constructor
  · intro hform
    have hany : ∀ (key : OptionKey) {v : Str}, a.value count key = anyValue v →
        v ≠ str "any" → key.Form v := by
      intro key v hvalue hv
      exact hform key v (hvalue.trans (anyValue_eq_some.mpr ⟨hv, rfl⟩))
    refine ⟨hform .proto _ rfl, hform .srcIp _ rfl, hany .srcPort rfl,
      hform .destIp _ rfl, hany .destPort rfl, fun hday => ?_, fun htime => ?_⟩
    · have hdays := hany .weekdays rfl (mt (weekdays_eq_any hblank).mp hday)
      rw [OptionKey.Form, words_weekdays hblank] at hdays
      exact hdays
    · exact ⟨hany .startTime rfl htime, hform .stopTime _ (if_neg htime)⟩
  · intro hrule key v hv
    have hzone : ∀ c : Prop, [Decidable c] → ∀ x ∈ [str "lan", str "wan"],
        ∀ y ∈ [str "lan", str "wan"], (if c then x else y) ∈ [str "lan", str "wan"] := by
      intro c _ x hx y hy
      split
      · exact hx
      · exact hy
    cases key with
    | src =>
      cases hv
      exact hzone _ _ (.head _) _ (.tail _ (.head _))
    | dest =>
      cases hv
      exact hzone _ _ (.tail _ (.head _)) _ (.head _)
    | proto =>
      cases hv
      exact hrule.proto
    | family =>
      cases hv
      rfl
    | srcIp =>
      cases hv
      exact hrule.src
    | srcPort =>
      obtain ⟨hne, rfl⟩ := anyValue_eq_some.mp hv
      exact hrule.sport hne
    | destIp =>
      cases hv
      exact hrule.dst
    | destPort =>
      obtain ⟨hne, rfl⟩ := anyValue_eq_some.mp hv
      exact hrule.dport hne
    | weekdays =>
      obtain ⟨hne, rfl⟩ := anyValue_eq_some.mp hv
      rw [OptionKey.Form, words_weekdays hblank]
      exact hrule.day (mt (weekdays_eq_any hblank).mpr hne)
    | startTime =>
      obtain ⟨hne, rfl⟩ := anyValue_eq_some.mp hv
      exact (hrule.times hne).1
    | stopTime =>
      rw [FilterArgs.value] at hv
      split at hv
      · cases hv
      · next hne =>
        cases hv
        exact (hrule.times hne).2
    | target =>
      cases hv
      exact target_form a.action
    | name =>
      cases hv
      exact ⟨itoa count, isNumber_itoa count, rfl⟩
    | enabled =>
      cases hv
      rfl

/-- No value breaks its line. -/
theorem newline_not_mem_value {argv : List Str} (h : StoredAs argv a) {key : OptionKey}
    (hv : a.value count key = some v) : '\n' ∉ v := by
  have hfield : ∀ field ∈ a.toArgv, '\n' ∉ field :=
    fun field hmem => (h.token field hmem).1.not_mem rfl
  simp only [FilterArgs.toArgv, List.forall_mem_cons, List.not_mem_nil, false_implies,
    implies_true, and_true] at hfield
  obtain ⟨-, -, -, -, -, hproto, hsrc, hsport, hdst, hdport, hday, hfrom, hto⟩ := hfield
  have hplain : ∀ v ∈ [str "lan", str "wan", str "ipv4", str "1", str "ACCEPT", str "DROP",
      str "REJECT"], '\n' ∉ v := by decide
  cases key with
  | src =>
    cases hv
    split <;> decide
  | dest =>
    cases hv
    split <;> decide
  | proto =>
    cases hv
    exact hproto
  | family =>
    cases hv
    decide
  | srcIp =>
    cases hv
    exact hsrc
  | srcPort =>
    obtain ⟨-, rfl⟩ := anyValue_eq_some.mp hv
    exact hsport
  | destIp =>
    cases hv
    exact hdst
  | destPort =>
    obtain ⟨-, rfl⟩ := anyValue_eq_some.mp hv
    exact hdport
  | weekdays =>
    obtain ⟨-, rfl⟩ := anyValue_eq_some.mp hv
    intro hnl
    obtain ⟨c, hc, heq⟩ := List.mem_map.mp hnl
    split at heq
    · cases heq
    · exact hday (heq ▸ hc)
  | startTime =>
    obtain ⟨-, rfl⟩ := anyValue_eq_some.mp hv
    exact hfrom
  | stopTime =>
    rw [FilterArgs.value] at hv
    split at hv
    · cases hv
    · cases hv
      exact hto
  | target =>
    cases hv
    have htargets : ∀ v ∈ [str "ACCEPT", str "DROP", str "REJECT"], '\n' ∉ v := by decide
    exact htargets _ (target_form a.action)
  | name =>
    cases hv
    intro hnl
    rcases List.mem_append.mp hnl with hnl | hnl
    · revert hnl
      decide
    · exact (isNumber_itoa count).not_mem rfl hnl
  | enabled =>
    cases hv
    decide

/-- Sections are written alike exactly for rules that agree in all that goes into options. -/
theorem stanza_eq_iff {argv argv' : List Str} (ha : StoredAs argv a) (hb : StoredAs argv' b) :
    a.stanza count = b.stanza count ↔ a.SameOptions b := by
  constructor
  · intro h
    have hentries := sectionText_inj OptionKey.text_plain OptionKey.text_injective (by decide)
      (fun entry hmem => newline_not_mem_value ha (mem_entries.mp hmem).2)
      (fun entry hmem => newline_not_mem_value hb (mem_entries.mp hmem).2) h
    have hvalue : ∀ key, a.value count key = b.value count key :=
      fun key => entries_eq_iff.mp hentries key key.mem_all
    have hzones : ∀ z ∈ [str "lan2wan", str "wan2lan"], ∀ z' ∈ [str "lan2wan", str "wan2lan"],
        (if z = str "lan2wan" then str "lan" else str "wan") =
          (if z' = str "lan2wan" then str "lan" else str "wan") → z = z' := by decide
    have hactions : ∀ s ∈ [str "permit", str "deny", str "reject"],
        ∀ s' ∈ [str "permit", str "deny", str "reject"], target s = target s' → s = s' := by
      decide
    refine ⟨?_, ?_, Option.some.inj (hvalue .proto), Option.some.inj (hvalue .srcIp),
      anyValue_inj (hvalue .srcPort), Option.some.inj (hvalue .destIp),
      anyValue_inj (hvalue .destPort), ?_, anyValue_inj (hvalue .startTime), fun htime => ?_⟩
    · exact hzones _ ha.keywords.1 _ hb.keywords.1 (Option.some.inj (hvalue .src))
    · exact hactions _ ha.keywords.2 _ hb.keywords.2 (Option.some.inj (hvalue .target))
    · exact weekdays_inj ha.blank_not_mem_day hb.blank_not_mem_day (anyValue_inj (hvalue .weekdays))
    · have hfrom := anyValue_inj (hvalue .startTime)
      have hstop := hvalue .stopTime
      rw [FilterArgs.value, FilterArgs.value, ← hfrom, if_neg htime, if_neg htime] at hstop
      exact Option.some.inj hstop
  · intro h
    have hvalue : ∀ key, a.value count key = b.value count key := by
      intro key
      cases key with
      | stopTime =>
        rw [FilterArgs.value, FilterArgs.value, ← h.fromtime]
        split
        · rfl
        · next hne => rw [h.totime hne]
      | _ => simp only [FilterArgs.value, h.zone, h.action, h.proto, h.src, h.sport, h.dst, h.dport,
          h.day, h.fromtime]
    rw [FilterArgs.stanza, FilterArgs.stanza, entries_eq_iff.mpr fun key _ => hvalue key]

end

end QrWireguard.Vtysh
