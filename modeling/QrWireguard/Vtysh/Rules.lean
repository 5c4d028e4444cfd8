import QrWireguard.Vtysh.Abbrev

/-!
# Firewall rules

The two kinds of firewall rules and the exact runs of their handlers. A rule is its checks, its
line, and the lines its plain form removes besides its own. The plain form stores the line through
a printf format; the `no` form looks for the line as it stands.
-/

namespace QrWireguard.Vtysh
open Cli Proc

/-! ## Rules -/

/-- A firewall rule, as its handlers make it from their arguments. -/
structure Rule where
  /-- The checks of the arguments, in order. -/
  checks : List ArgCheck
  /-- The lines that are removed in front of the rule's own: the twin of a filter rule. -/
  twins : List Str
  /-- The line of the rule. -/
  line : Str

/-- The two kinds of rules. -/
inductive RuleKind where
  | filter
  | portmap
  deriving DecidableEq

namespace RuleKind

/-- The command that sets a rule. -/
def set : RuleKind → CmdFunc
  | filter => .sfirewallFilterRules
  | portmap => .sfirewallNatPortmap

/-- The command that removes it. -/
def unset : RuleKind → CmdFunc
  | filter => .noSfirewallFilterRules
  | portmap => .noSfirewallNatPortmap

/-- The rule of these arguments, when they have the right number. -/
def rule (k : RuleKind) (argv : List Str) : Option Rule :=
  match k with
  | filter => (FilterArgs.ofArgv argv).map fun a => ⟨a.checks, [a.twin.line], a.line⟩
  | portmap =>
    match argv with
    | [num, _, _, proto, port1, port2] =>
      some ⟨[checkRuleNumber num, checkPortOfAll proto port1, checkPortOfAll proto port2], [],
        portmapLine argv⟩
    | _ => none

/-- The beginning of the lines of the kind. -/
def keyword : RuleKind → Str
  | filter => str "sfirewall filter "
  | portmap => str "sfirewall nat portmap "

end RuleKind

namespace Rule

/-- All checks pass and the line fits its buffer. -/
def Fits (r : Rule) : Prop := r.checks.all ArgCheck.passes = true ∧ r.line.length < 1024

instance (r : Rule) : Decidable r.Fits := inferInstanceAs (Decidable (_ ∧ _))

/-- The store without the rule and its twin. -/
def removed (r : Rule) (config : List Str) : List Str :=
  configDelLine (r.twins.foldl configDelLine config) r.line

end Rule

section
variable {e : Env} {w : World} {v : VtyRef} {k : RuleKind} {argv : List Str}
  {Q : Int → World → Prop} {checks : List ArgCheck} {r : Rule}

/-! ## Runs of the handlers -/

theorem firstCheck_eq_ok : firstCheck checks = .ok ↔ checks.all ArgCheck.passes = true := by
  refine ⟨firstCheck_ok, fun h => ?_⟩
  induction checks with
  | nil => rfl
  | cons check checks ih =>
    rw [List.all_cons, Bool.and_eq_true] at h
    cases check with
    | ok => exact ih h.2
    | fail text code => cases h.1
    | overrun => cases h.1

theorem firstCheck_mem (h : firstCheck checks ≠ .ok) : firstCheck checks ∈ checks := by
  induction checks with
  | nil => exact absurd rfl h
  | cons check checks ih =>
    cases check with
    | ok => exact List.mem_cons_of_mem _ (ih h)
    | fail text code => exact List.mem_cons_self
    | overrun => exact List.mem_cons_self

/-- What a run shows after checks, when every refusal has a code the result excludes. -/
theorem runs_argChecks_iff {rest : Cli Int}
    (hcode : ∀ text code, .fail text code ∈ checks → ¬ Q code (w.emit (.out text))) :
    Runs (argChecks checks rest) e w Q ↔ checks.all ArgCheck.passes = true ∧ Runs rest e w Q := by
  rw [argChecks_eq]
  cases hfirst : firstCheck checks with
  | ok => exact ⟨fun h => ⟨firstCheck_ok hfirst, h⟩, fun h => h.2⟩
  | fail text code =>
    have hmem : .fail text code ∈ checks := hfirst ▸ firstCheck_mem (by rw [hfirst]; nofun)
    refine iff_of_false ?_ ?_
    · simpa using hcode text code hmem
    · rintro ⟨hall, -⟩
      rw [firstCheck_eq_ok.mpr hall] at hfirst
      cases hfirst
  | overrun =>
    refine iff_of_false id ?_
    rintro ⟨hall, -⟩
    rw [firstCheck_eq_ok.mpr hall] at hfirst
    cases hfirst

/-- The code of a check that fails is not the one of success. -/
def ArgCheck.Refuses (check : ArgCheck) : Prop :=
  ∀ text code, check = .fail text code → code ≠ cmdSuccess

theorem refuses_ok : ArgCheck.ok.Refuses := nofun

theorem refuses_overrun : ArgCheck.overrun.Refuses := nofun

theorem refuses_nothingTodo (text : Str) : (ArgCheck.fail text cmdErrNothingTodo).Refuses := by
  intro text' code heq
  cases heq
  decide

theorem refuses_checkRuleNumber (num : Str) : (checkRuleNumber num).Refuses := by
  unfold checkRuleNumber
  split
  · exact refuses_ok
  · exact refuses_nothingTodo _

theorem refuses_checkPortOfAll (proto port : Str) : (checkPortOfAll proto port).Refuses := by
  unfold checkPortOfAll
  split
  · exact refuses_nothingTodo _
  · exact refuses_ok

theorem refuses_checkKeyword (keywords : List Str) (arg : Str) :
    (checkKeyword keywords arg).Refuses := by
  intro text code heq
  unfold checkKeyword at heq
  split at heq
  · cases heq
  · cases heq
    decide

theorem refuses_checkPort (port : Str) : (checkPort port).Refuses := by
  unfold checkPort
  dsimp only
  split
  · exact refuses_ok
  · split
    · exact refuses_nothingTodo _
    · split
      · exact refuses_nothingTodo _
      · exact refuses_ok

theorem refuses_checkCidr (addr : Str) : (checkCidr addr).Refuses := by
  unfold checkCidr
  split
  · exact refuses_nothingTodo _
  · split
    · exact refuses_overrun
    · split
      · exact refuses_nothingTodo _
      · split
        · exact refuses_nothingTodo _
        · exact refuses_ok

theorem refuses_checkDay (day : Str) : (checkDay day).Refuses := by
  unfold checkDay
  dsimp only
  split
  · exact refuses_ok
  · split
    · exact refuses_overrun
    · split
      · exact refuses_nothingTodo _
      · split
        · exact refuses_nothingTodo _
        · exact refuses_ok

theorem refuses_checkTime (time : Str) : (checkTime time).Refuses := by
  unfold checkTime
  dsimp only
  split
  · exact refuses_ok
  · split
    · exact refuses_overrun
    · split
      · exact refuses_nothingTodo _
      · split
        · exact refuses_nothingTodo _
        · split
          · exact refuses_nothingTodo _
          · split
            · exact refuses_nothingTodo _
            · split
              · exact refuses_nothingTodo _
              · split
                · exact refuses_nothingTodo _
                · exact refuses_ok

theorem Rule.refuses (hr : k.rule argv = some r) : ∀ check ∈ r.checks, check.Refuses := by
  cases k with
  | filter =>
    obtain ⟨a, -, rfl⟩ := Option.map_eq_some_iff.mp hr
    simp only [FilterArgs.checks, List.forall_mem_cons, List.not_mem_nil, false_implies,
      implies_true, and_true]
    exact ⟨refuses_checkRuleNumber _, refuses_checkKeyword _ _, refuses_checkKeyword _ _,
      refuses_checkKeyword _ _, refuses_checkKeyword _ _, refuses_checkPort _,
      refuses_checkPort _, refuses_checkCidr _, refuses_checkCidr _, refuses_checkDay _,
      refuses_checkTime _, refuses_checkTime _⟩
  | portmap =>
    unfold RuleKind.rule at hr
    dsimp only at hr
    split at hr
    · cases hr
      simp only [List.forall_mem_cons, List.not_mem_nil, false_implies, implies_true, and_true]
      exact ⟨refuses_checkRuleNumber _, refuses_checkPortOfAll _ _, refuses_checkPortOfAll _ _⟩
    · cases hr

theorem Rule.line_eq (hr : k.rule argv = some r) : r.line = k.keyword ++ unwords ' ' argv := by
  cases k with
  | filter =>
    obtain ⟨a, ha, rfl⟩ := Option.map_eq_some_iff.mp hr
    obtain rfl := FilterArgs.toArgv_of_ofArgv ha
    rfl
  | portmap =>
    unfold RuleKind.rule at hr
    dsimp only at hr
    split at hr
    · cases hr
      rfl
    · cases hr

/-- The line of a rule starts with its keyword, so its printed form is not empty. -/
theorem Rule.printed_ne_nil (hr : k.rule argv = some r) {info : Str}
    (h : vasprintf r.line [] = some info) : 0 < info.length := by
  have hline : ∃ rest, r.line = 's' :: rest := by
    rw [Rule.line_eq hr]
    cases k <;> exact ⟨_, rfl⟩
  obtain ⟨rest, hrest⟩ := hline
  rw [hrest, vasprintf_cons (by decide)] at h
  obtain ⟨info', -, rfl⟩ := Option.map_eq_some_iff.mp h
  simp

theorem FilterArgs.length_twin_line {a : FilterArgs} (h : a.checks.all ArgCheck.passes = true) :
    a.twin.line.length = a.line.length := by
  obtain ⟨num, zone, direction, position, action, proto, src, sport, dst, dport, day, fromtime,
    totime⟩ := a
  obtain rfl | rfl : position = str "insert" ∨ position = str "append" := position_of_checks h
  · simp [twin, line, toArgv, unwords, str]
  · simp [twin, line, toArgv, unwords, str]

/-- The end of a rule handler. -/
theorem runs_ensureConfig_success :
    Runs (ensureConfig v (pure 0)) e w Q ↔ Q cmdSuccess w := by
  rw [runs_ensureConfig, runs_pure]
  by_cases htype : (w.vtyOf v).type = .file <;> simp [htype]

/-- Storing a rule that has passed its checks. -/
theorem runs_store (hr : k.rule argv = some r) :
    Runs (do
      let line ← sprintf 1024 r.line
      delLine line
      addLine line []
      ensureConfig v (pure 0) : Cli Int) e w Q ↔
      r.line.length < 1024 ∧ ∃ info, vasprintf r.line [] = some info ∧
        Q cmdSuccess (w.setConfig
          (listnodeAddSort info (configDelLine w.configTop r.line))) := by
  have hadd : ∀ config, (∃ config', configAddLine config r.line [] = some config' ∧
      Q cmdSuccess (w.setConfig config')) ↔ ∃ info, vasprintf r.line [] = some info ∧
        Q cmdSuccess (w.setConfig (listnodeAddSort info config)) := by
    intro config
    unfold configAddLine
    cases hinfo : vasprintf r.line [] with
    | none => simp
    | some info => simp [Rule.printed_ne_nil hr hinfo]
  rw [← hadd]
  simp only [runs_bind, runs_sprintf, runs_delLine, runs_addLine, runs_ensureConfig_success,
    World.setConfig_setConfig, World.setConfig_configTop]

/-- Removing a rule that has passed its checks. -/
theorem runs_remove (line : Str) :
    Runs (do
      let line ← sprintf 1024 line
      delLine line
      ensureConfig v (pure 0) : Cli Int) e w Q ↔
      line.length < 1024 ∧ Q cmdSuccess (w.setConfig (configDelLine w.configTop line)) := by
  simp only [runs_bind, runs_sprintf, runs_delLine, runs_ensureConfig_success]

section
variable (hQ : ∀ ret t, Q ret t → ret = cmdSuccess)
include hQ

/-- The checks of a rule in front of what its handler does. -/
theorem runs_ruleChecks {rest : Cli Int} (hr : k.rule argv = some r) :
    Runs (argChecks r.checks rest) e w Q ↔
      r.checks.all ArgCheck.passes = true ∧ Runs rest e w Q := by
  refine runs_argChecks_iff fun text code hmem hq => ?_
  exact Rule.refuses hr _ hmem text code rfl (hQ _ _ hq)

/-- A rule is set when it passes its checks, fits and can be printed. -/
theorem runs_set : Runs (call k.set v argv) e w Q ↔
    ∃ r info, k.rule argv = some r ∧ r.Fits ∧ vasprintf r.line [] = some info ∧
      Q cmdSuccess (w.setConfig (listnodeAddSort info (r.removed w.configTop))) := by
  have hchecked : ∀ {r : Rule} {body : Cli Int}, k.rule argv = some r →
      (r.checks.all ArgCheck.passes = true → (Runs body e w Q ↔ r.line.length < 1024 ∧
        ∃ info, vasprintf r.line [] = some info ∧
          Q cmdSuccess (w.setConfig (listnodeAddSort info (r.removed w.configTop))))) →
      (Runs (argChecks r.checks body) e w Q ↔ ∃ r info, k.rule argv = some r ∧ r.Fits ∧
        vasprintf r.line [] = some info ∧
        Q cmdSuccess (w.setConfig (listnodeAddSort info (r.removed w.configTop)))) := by
    intro r body hr hbody
    rw [runs_ruleChecks hQ hr]
    constructor
    · rintro ⟨hpass, hrun⟩
      obtain ⟨hlen, info, hinfo, hq⟩ := (hbody hpass).mp hrun
      exact ⟨r, info, hr, ⟨hpass, hlen⟩, hinfo, hq⟩
    · rintro ⟨r', info, hr', ⟨hpass, hlen⟩, hinfo, hq⟩
      obtain rfl := Option.some.inj (hr.symm.trans hr')
      exact ⟨hpass, (hbody hpass).mpr ⟨hlen, info, hinfo, hq⟩⟩
  cases k with
  | filter =>
    change Runs (sfirewallFilterRules v argv) e w Q ↔ _
    unfold sfirewallFilterRules
    cases ha : FilterArgs.ofArgv argv with
    | none => simp [RuleKind.rule, ha]
    | some a =>
      have hr : RuleKind.filter.rule argv = some ⟨a.checks, [a.twin.line], a.line⟩ := by
        simp [RuleKind.rule, ha]
      refine hchecked hr fun hpass => ?_
      have hpos := (FilterArgs.position_of_checks hpass).symm
      have htwin := FilterArgs.length_twin_line hpass
      rw [if_pos hpos, runs_bind, runs_sprintf, htwin]
      constructor
      · rintro ⟨-, hrun⟩
        exact (runs_store hr).mp hrun
      · rintro ⟨hlen, hrun⟩
        exact ⟨hlen, (runs_store hr).mpr ⟨hlen, hrun⟩⟩
  | portmap =>
    change Runs (sfirewallNatPortmap v argv) e w Q ↔ _
    unfold sfirewallNatPortmap
    split
    · next num ifname dest proto port1 port2 =>
      have hr : RuleKind.portmap.rule [num, ifname, dest, proto, port1, port2] =
          some ⟨[checkRuleNumber num, checkPortOfAll proto port1, checkPortOfAll proto port2], [],
            portmapLine [num, ifname, dest, proto, port1, port2]⟩ := rfl
      exact hchecked hr fun _ => runs_store hr
    · next hargs => simp [RuleKind.rule]

/-- It is removed when it passes them and fits. -/
theorem runs_unset : Runs (call k.unset v argv) e w Q ↔ ∃ r, k.rule argv = some r ∧ r.Fits ∧
    Q cmdSuccess (w.setConfig (configDelLine w.configTop r.line)) := by
  have hchecked : ∀ {r : Rule}, k.rule argv = some r →
      (Runs (argChecks r.checks (do
        let line ← sprintf 1024 r.line
        delLine line
        ensureConfig v (pure 0))) e w Q ↔ ∃ r, k.rule argv = some r ∧ r.Fits ∧
          Q cmdSuccess (w.setConfig (configDelLine w.configTop r.line))) := by
    intro r hr
    rw [runs_ruleChecks hQ hr, runs_remove]
    constructor
    · rintro ⟨hpass, hlen, hq⟩
      exact ⟨r, hr, ⟨hpass, hlen⟩, hq⟩
    · rintro ⟨r', hr', ⟨hpass, hlen⟩, hq⟩
      obtain rfl := Option.some.inj (hr.symm.trans hr')
      exact ⟨hpass, hlen, hq⟩
  cases k with
  | filter =>
    change Runs (noSfirewallFilterRules v argv) e w Q ↔ _
    unfold noSfirewallFilterRules
    cases ha : FilterArgs.ofArgv argv with
    | none => simp [RuleKind.rule, ha]
    | some a =>
      have hr : RuleKind.filter.rule argv = some ⟨a.checks, [a.twin.line], a.line⟩ := by
        simp [RuleKind.rule, ha]
      exact hchecked hr
  | portmap =>
    change Runs (noSfirewallNatPortmap v argv) e w Q ↔ _
    unfold noSfirewallNatPortmap
    split
    · next num ifname dest proto port1 port2 =>
      have hr : RuleKind.portmap.rule [num, ifname, dest, proto, port1, port2] =
          some ⟨[checkRuleNumber num, checkPortOfAll proto port1, checkPortOfAll proto port2], [],
            portmapLine [num, ifname, dest, proto, port1, port2]⟩ := rfl
      exact hchecked hr
    · next hargs => simp [RuleKind.rule]

end

/-! ## Removing a rule again -/

/-- The command ends with the code of success. -/
def Accepts (p : Cli Int) (e : Env) (w : World) : Prop := Runs p e w fun ret _ => ret = cmdSuccess

/-- The `no` form accepts these arguments exactly where the plain form does, and after it the store
is as it was in front of the plain form. -/
structure Undone (k : RuleKind) (argv : List Str) : Prop where
  accepts (e : Env) (w : World) (v : VtyRef) :
    Accepts (call k.unset v argv) e w ↔ Accepts (call k.set v argv) e w
  undoes (e : Env) (w : World) (v : VtyRef) (r : Rule) (hr : k.rule argv = some r)
    (hnew : ∀ line ∈ r.line :: r.twins, line ∉ w.configTop)
    (hset : Accepts (call k.set v argv) e w) :
    Runs (do
      let _ ← call k.set v argv
      call k.unset v argv) e w fun ret t => ret = cmdSuccess ∧ t.configTop = w.configTop

theorem configDelLine_of_not_mem {config : List Str} {line : Str} (h : line ∉ config) :
    configDelLine config line = config :=
  List.eraseP_of_forall_not fun _ hx heq => h (beq_iff_eq.mp heq ▸ hx)

theorem Rule.removed_of_not_mem {config : List Str}
    (h : ∀ line ∈ r.line :: r.twins, line ∉ config) : r.removed config = config := by
  have htwins : ∀ twins : List Str, (∀ line ∈ twins, line ∉ config) →
      twins.foldl configDelLine config = config := by
    intro twins
    induction twins with
    | nil =>
      intro _
      rfl
    | cons line twins ih =>
      intro hnew
      rw [List.foldl_cons, configDelLine_of_not_mem (hnew line List.mem_cons_self)]
      exact ih fun l hl => hnew l (List.mem_cons_of_mem _ hl)
  rw [Rule.removed, htwins r.twins fun l hl => h l (List.mem_cons_of_mem _ hl)]
  exact configDelLine_of_not_mem (h r.line List.mem_cons_self)

theorem accepts_set : Accepts (call k.set v argv) e w ↔
    ∃ r info, k.rule argv = some r ∧ r.Fits ∧ vasprintf r.line [] = some info := by
  rw [Accepts, runs_set fun ret t h => h]
  simp

theorem accepts_unset : Accepts (call k.unset v argv) e w ↔
    ∃ r, k.rule argv = some r ∧ r.Fits := by
  rw [Accepts, runs_unset fun ret t h => h]
  simp

/-- Setting a rule and removing it, in a store without it. -/
theorem runs_set_unset (hr : k.rule argv = some r) (hfits : r.Fits) {info : Str}
    (hinfo : vasprintf r.line [] = some info)
    (hnew : ∀ line ∈ r.line :: r.twins, line ∉ w.configTop) :
    Runs (do
      let _ ← call k.set v argv
      call k.unset v argv) e w fun ret t => ret = cmdSuccess ∧
        t.configTop = configDelLine (listnodeAddSort info w.configTop) r.line := by
  have hset : Runs (call k.set v argv) e w fun ret t => ret = cmdSuccess ∧
      t.configTop = listnodeAddSort info w.configTop := by
    rw [runs_set fun ret t h => h.1]
    refine ⟨r, info, hr, hfits, hinfo, rfl, ?_⟩
    rw [World.setConfig_configTop, Rule.removed_of_not_mem hnew]
  rw [runs_bind]
  refine hset.mono fun ret t ht => ?_
  rw [runs_unset fun ret t h => h.1]
  refine ⟨r, hr, hfits, rfl, ?_⟩
  rw [World.setConfig_configTop, ht.2]

/-- A rule with a percent sign is not undone: it cannot be printed, or what is printed and stored
is another text. -/
theorem Undone.not_percent (h : Undone k argv) (hr : k.rule argv = some r) (hfits : r.Fits) :
    '%' ∉ r.line := by
  intro hpercent
  have hset : Accepts (call k.set .vty argv) obligingEnv emptyShell :=
    (h.accepts _ _ _).mp (accepts_unset.mpr ⟨r, hr, hfits⟩)
  obtain ⟨r', info, hr', -, hinfo⟩ := accepts_set.mp hset
  obtain rfl := Option.some.inj (hr.symm.trans hr')
  have hnew : ∀ line ∈ r.line :: r.twins, line ∉ emptyShell.configTop := fun _ _ => nofun
  have hundone := h.undoes obligingEnv emptyShell .vty r hr hnew hset
  have hleft := runs_set_unset (e := obligingEnv) (v := .vty) hr hfits hinfo hnew
  obtain ⟨ret, t, hrun, -, hconfig⟩ := runs_iff.mp hundone
  obtain ⟨-, hconfig'⟩ := hleft.sat.of_done hrun
  rw [hconfig] at hconfig'
  have hne : info ≠ r.line := by
    rintro rfl
    exact vasprintf_self_iff.mp hinfo hpercent
  revert hconfig'
  change [] ≠ configDelLine [info] r.line
  rw [configDelLine_of_not_mem fun hmem => hne (List.mem_singleton.mp hmem).symm]
  nofun

/-- Without a percent sign in its line a rule is undone. -/
theorem undone_of_not_percent (h : ∀ r, k.rule argv = some r → r.Fits → '%' ∉ r.line) :
    Undone k argv where
  accepts e w v := by
    rw [accepts_unset, accepts_set]
    constructor
    · rintro ⟨r, hr, hfits⟩
      exact ⟨r, r.line, hr, hfits, vasprintf_self_iff.mpr (h r hr hfits)⟩
    · rintro ⟨r, info, hr, hfits, -⟩
      exact ⟨r, hr, hfits⟩
  undoes e w v r hr hnew hset := by
    obtain ⟨r', info, hr', hfits, -⟩ := accepts_set.mp hset
    obtain rfl := Option.some.inj (hr.symm.trans hr')
    have hinfo := vasprintf_self_iff.mpr (h r hr hfits)
    refine (runs_set_unset hr hfits hinfo hnew).mono fun ret t ht => ⟨ht.1, ?_⟩
    rw [ht.2]
    exact eraseP_insertAfter (hnew r.line List.mem_cons_self)

/-- A line holds a percent sign when one of the arguments does. -/
theorem Rule.percent_mem_line (hr : k.rule argv = some r) :
    '%' ∈ r.line ↔ ∃ arg ∈ argv, '%' ∈ arg := by
  have hkeyword : '%' ∉ k.keyword := by cases k <;> decide
  rw [Rule.line_eq hr, List.mem_append, or_iff_right hkeyword]
  constructor
  · intro hmem
    exact (mem_unwords hmem).resolve_left (by decide)
  · rintro ⟨arg, harg, hmem⟩
    exact mem_unwords_of_mem harg hmem

end

/-- The `no` form undoes the plain form exactly where no argument holds a percent sign, or where
both forms refuse the arguments. -/
theorem undone_iff (k : RuleKind) (argv : List Str) :
    Undone k argv ↔ ∀ r, k.rule argv = some r → r.Fits → ∀ arg ∈ argv, '%' ∉ arg := by
  constructor
  · intro h r hr hfits arg harg hmem
    exact h.not_percent hr hfits ((Rule.percent_mem_line hr).mpr ⟨arg, harg, hmem⟩)
  · intro h
    refine undone_of_not_percent fun r hr hfits hmem => ?_
    obtain ⟨arg, harg, hpercent⟩ := (Rule.percent_mem_line hr).mp hmem
    exact h r hr hfits arg harg hpercent

/-- A rule number with two percent signs is stored with one. -/
theorem not_undone_percent : ¬ ∀ (k : RuleKind) (argv : List Str), Undone k argv := by
  intro h
  have hundone := h .filter [str "1%%", str "lan2wan", str "fw", str "append", str "deny",
    str "tcp", str "10.0.0.1/32", str "any", str "0.0.0.0/0", str "any", str "any", str "any",
    str "any"]
  exact hundone.not_percent rfl (by decide) (by decide)

end QrWireguard.Vtysh
