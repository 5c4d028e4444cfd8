import QrWireguard.Vtysh.Frame

/-!
# Abbreviated keywords

The matcher takes any unambiguous beginning of a keyword, and at a position with alternatives
it hands the word as it was typed to the handler. A line with shortened keywords does what the
line with whole keywords does exactly when the handler gets the same words, when it refuses
both, or when it is `wg link-down`, whose handler takes the link down for every other word.
-/

namespace QrWireguard.Vtysh
open Cli Proc

/-! ## Shortened lines -/

/-- Is the alternative a keyword, not a value the user chooses? -/
def isKeyword (s : Str) : Bool := !(cmdVararg s || cmdVariable s || cmdOption s)

/-- Each word is one of the keywords of its position, or its position takes a value. -/
inductive FullySpelled : List (List Str) → List Str → Prop
  | nil (strvec : List (List Str)) : FullySpelled strvec []
  | cons {desc : List Str} {strvec : List (List Str)} {w : Str} {ws : List Str}
      (hw : (w ∈ desc ∧ isKeyword w = true) ∨ ∃ s ∈ desc, isKeyword s = false)
      (hws : FullySpelled strvec ws) : FullySpelled (desc :: strvec) (w :: ws)

/-- Some words that are keywords of their positions are shortened. -/
inductive Shortened : List (List Str) → List Str → List Str → Prop
  | nil (strvec : List (List Str)) : Shortened strvec [] []
  | cons {desc : List Str} {strvec : List (List Str)} {w w' : Str} {ws ws' : List Str}
      (hw : w' = w ∨ ((w ∈ desc ∧ isKeyword w = true) ∧ w' ≠ [] ∧ w' <+: w))
      (hws : Shortened strvec ws ws') : Shortened (desc :: strvec) (w :: ws) (w' :: ws')

/-- Does a position with alternatives have a keyword? -/
def hasChoice (strvec : List (List Str)) : Bool :=
  strvec.any fun desc => decide (desc.length ≠ 1) && desc.any isKeyword

/-- An argument of the shorter line: the same word, or the beginning of a keyword of a position
with alternatives. -/
def ArgShortened (strvec : List (List Str)) (w w' : Str) : Prop :=
  w' = w ∨ ∃ desc ∈ strvec, desc.length ≠ 1 ∧ w ∈ desc ∧ isKeyword w = true ∧ w' <+: w

theorem bindArgs_shortened {strvec₀ strvec : List (List Str)} {vline vline' : List Str}
    {acc acc' argv argv' : List Str} (hs : Shortened strvec vline vline')
    (hsub : ∀ desc ∈ strvec, desc ∈ strvec₀)
    (hvar : ∀ desc ∈ strvec, ∀ s ∈ desc, cmdVararg s = false)
    (hacc : List.Forall₂ (ArgShortened strvec₀) acc acc')
    (h : bindArgs strvec false acc vline = some (.ok argv))
    (h' : bindArgs strvec false acc' vline' = some (.ok argv')) :
    List.Forall₂ (ArgShortened strvec₀) argv argv' := by
  induction hs generalizing acc acc' with
  | nil =>
    simp only [bindArgs, Option.some.injEq, Except.ok.injEq] at h h'
    exact h ▸ h' ▸ hacc
  | @cons desc strvec w w' ws ws' hw hws ih =>
    have hsub' : ∀ d ∈ strvec, d ∈ strvec₀ := fun d hd => hsub d (by simp [hd])
    have hvar' : ∀ d ∈ strvec, ∀ s ∈ d, cmdVararg s = false := fun d hd => hvar d (by simp [hd])
    have hnext : ∀ {a a' : List Str}, List.Forall₂ (ArgShortened strvec₀) a a' →
        (if cmdArgcMax ≤ a.length then some (.error cmdErrExeedArgcMax)
          else bindArgs strvec false a ws) = some (.ok argv) →
        (if cmdArgcMax ≤ a'.length then some (.error cmdErrExeedArgcMax)
          else bindArgs strvec false a' ws') = some (.ok argv') →
        List.Forall₂ (ArgShortened strvec₀) argv argv' := by
      intro a a' ha hrun hrun'
      split at hrun
      · simp at hrun
      · split at hrun'
        · simp at hrun'
        · exact ih hsub' hvar' ha hrun hrun'
    have hpush : ArgShortened strvec₀ w w' →
        List.Forall₂ (ArgShortened strvec₀) (acc ++ [w]) (acc' ++ [w']) := fun hww =>
      List.rel_append hacc (.cons hww .nil)
    rcases desc with - | ⟨s, - | ⟨s₂, desc⟩⟩
    · simp only [bindArgs] at h h'
      exact hnext (hpush (hw.imp id fun hk => by simp at hk)) h h'
    · have hs : cmdVararg s = false := hvar [s] (by simp) s (by simp)
      have hopt : (cmdVararg s || cmdVariable s || cmdOption s) = !isKeyword s := by
        simp [isKeyword]
      cases hval : isKeyword s with
      | true =>
        simp only [bindArgs, hopt, hval, Bool.not_true, Bool.false_eq_true, if_false] at h h'
        exact hnext hacc h h'
      | false =>
        have hww : w' = w := hw.resolve_right fun hk => by
          have hws : w = s := by simpa using hk.1.1
          rw [hws, hval] at hk
          exact absurd hk.1.2 (by simp)
        simp only [bindArgs, hopt, hval, Bool.not_false, if_true, Bool.false_eq_true,
          if_false] at h h'
        rw [hs] at h h'
        exact hnext (hpush (.inl hww)) h h'
    · simp only [bindArgs] at h h'
      refine hnext (hpush (hw.imp id fun hk => ?_)) h h'
      exact ⟨_, hsub _ (by simp), by simp, hk.1.1, hk.1.2, hk.2.2⟩

/-- Without a keyword at a position with alternatives the arguments are the same. -/
theorem eq_of_not_hasChoice {strvec : List (List Str)} {argv argv' : List Str}
    (h : List.Forall₂ (ArgShortened strvec) argv argv') (hno : hasChoice strvec = false) :
    argv' = argv := by
  induction h with
  | nil => rfl
  | cons hw _ ih =>
    rcases hw with rfl | ⟨desc, hd, hlen, hmem, hkw, -⟩
    · rw [ih]
    · have : hasChoice strvec = true :=
        List.any_eq_true.mpr ⟨desc, hd, by simpa [hlen] using ⟨_, hmem, hkw⟩⟩
      simp [hno] at this

/-! ## The commands with a choice of keywords -/

/-- The positions of a command with a choice. -/
def choiceStrvec : CmdFunc → Option (List (List Str))
  | .showSfirewall =>
    some [[str "show"], [str "sfirewall"], [str "all", str "filter", str "mangle", str "nat"]]
  | .wgLink => some [[str "wg"], [str "link-down", str "link-up"]]
  | _ => none

/-- The commands whose templates have a choice of keywords. -/
def choiceCommands : List CmdFunc :=
  [.showSfirewall, .sfirewallNatPortmap, .noSfirewallNatPortmap, .sfirewallFilterRules,
    .noSfirewallFilterRules, .wgPeerEndpoint, .wgPeerPersistentKeepalive, .wgLink]

/-- What the templates say: no command takes a variable number of words, only
`choiceCommands` have a choice, and the two that are looked up have the positions given. -/
theorem templates (node : Node) : ∀ elem ∈ cmdNodeVector node,
    (∀ desc ∈ elem.strvec, ∀ s ∈ desc, cmdVararg s = false) ∧
    (hasChoice elem.strvec = true → elem.func ∈ choiceCommands) ∧
    (∀ strvec ∈ choiceStrvec elem.func, elem.strvec = strvec) := by
  cases node <;> decide +kernel

/-! ## Effects -/

/-- Is a program started? -/
def Event.isCommand : Event → Bool
  | .system _ => true
  | .exec _ _ => true
  | _ => false

/-- The programs started so far, the latest first. -/
def commands (w : World) : List Event := w.trace.filter Event.isCommand

@[simp] theorem commands_setConfig (w : World) (config : List Str) :
    commands (w.setConfig config) = commands w := rfl

@[simp] theorem commands_out (w : World) (text : Str) : commands (w.emit (.out text)) = commands w :=
  rfl

/-- The configuration and the programs a run leads to, unless its behaviour is undefined. -/
def effects {α : Type} : Outcome World α → Option (List Str × List Event)
  | .done _ t => some (t.configTop, commands t)
  | .exit t => some (t.configTop, commands t)
  | .undefined => none

/-- Two lines have the same effects in every state of the shell in the node. -/
def SameEffects (node : Node) (line line' : Str) : Prop :=
  ∀ (e : Env) (w : World), w.vty = ⟨.shell, node⟩ →
    effects (vtyshExecute line e w) = effects (vtyshExecute line' e w)

/-- What a handler makes of its arguments: it refuses them, its behaviour is undefined, or it
acts. -/
inductive Verdict where
  | refused
  | wild
  | acts
  deriving DecidableEq

/-- The first check that does not pass. -/
def firstCheck : List ArgCheck → ArgCheck
  | [] => .ok
  | .ok :: checks => firstCheck checks
  | check :: _ => check

/-- The verdict of checks and of what the handler needs to act. -/
def checksVerdict (checks : List ArgCheck) (fits : Bool) : Verdict :=
  match firstCheck checks with
  | .fail _ _ => .refused
  | .overrun => .wild
  | .ok => if fits then .acts else .wild

/-- The line fits its buffer of 1024 bytes. -/
def fitsBuffer (line : Str) : Bool := decide (line.length < 1024)

/-- The line can be printed as a format. -/
def isFormat (line : Str) : Bool := (vasprintf line []).isSome

/-- The verdict of a handler of a peer. -/
def peerVerdict (checks : List PeerCheck) (key tail : Str) : Verdict :=
  if checks.all PeerCheck.passes then
    if isFormat (snprintf 2048 (str "wg peer " ++ key ++ tail)) &&
        decide ((str "wg set wg0 private-key " ++ privatekeyPath ++ str " peer " ++ key ++ tail ++
          str " > /dev/null 2>&1").length < 2048)
      then .acts else .wild
  else .refused

/-- The verdict of the handlers that get a chosen keyword. -/
def verdict : CmdFunc → List Str → Verdict
  | .showSfirewall, [arg] =>
    if arg ∈ [str "all", str "nat", str "filter", str "mangle"] then .acts else .refused
  | .sfirewallNatPortmap, [num, ifname, dest, proto, port1, port2] =>
    let line := portmapLine [num, ifname, dest, proto, port1, port2]
    checksVerdict [checkRuleNumber num, checkPortOfAll proto port1, checkPortOfAll proto port2]
      (fitsBuffer line && isFormat line)
  | .noSfirewallNatPortmap, [num, ifname, dest, proto, port1, port2] =>
    checksVerdict [checkRuleNumber num, checkPortOfAll proto port1, checkPortOfAll proto port2]
      (fitsBuffer (portmapLine [num, ifname, dest, proto, port1, port2]))
  | .sfirewallFilterRules, argv =>
    match FilterArgs.ofArgv argv with
    | some a => checksVerdict a.checks (fitsBuffer a.twin.line && fitsBuffer a.line && isFormat a.line)
    | none => .wild
  | .noSfirewallFilterRules, argv =>
    match FilterArgs.ofArgv argv with
    | some a => checksVerdict a.checks (fitsBuffer a.line)
    | none => .wild
  | .wgPeerEndpoint, [key, allowedIps, endpoint] =>
    peerVerdict [checkPublicKey key, checkAllowedIps allowedIps, checkEndpoint endpoint] key
      (str " allowed-ips " ++ allowedIps ++ str " endpoint " ++ endpoint)
  | .wgPeerPersistentKeepalive, [key, allowedIps, endpoint, keepalive] =>
    peerVerdict [checkPublicKey key, checkAllowedIps allowedIps, checkEndpoint endpoint,
      checkKeepalive keepalive] key
      (str " allowed-ips " ++ allowedIps ++ str " endpoint " ++ endpoint ++
        str " persistent-keepalive " ++ keepalive)
  | .wgLink, [_] => .acts
  | _, _ => .wild

section Verdicts
variable {e : Env} {w : World}

theorem argChecks_eq (checks : List ArgCheck) (rest : Cli Int) :
    argChecks checks rest = match firstCheck checks with
      | .ok => rest
      | .fail text code => do
        vtyOut text
        return code
      | .overrun => Proc.undefined := by
  induction checks with
  | nil => rfl
  | cons check checks ih => cases check <;> first | exact ih | rfl

theorem effects_of_runs {α : Type} {p : Cli α} {config : List Str} {cmds : List Event}
    (h : Runs p e w fun _ t => t.configTop = config ∧ commands t = cmds) :
    effects (p e w) = some (config, cmds) := by
  obtain ⟨a, t, hp, rfl, rfl⟩ := runs_iff.mp h
  rw [hp]
  rfl

theorem effects_of_wrong {α : Type} {p : Cli α} (h : Wrong p e w) : effects (p e w) = none := by
  rw [show p e w = .undefined from h]
  rfl

/-- Storing a line under its own text. -/
theorem effects_store (line : Str) :
    effects ((do
      let line ← sprintf 1024 line
      delLine line
      addLine line []
      ensureConfig .vty (pure 0) : Cli Int) e w) =
      if fitsBuffer line && isFormat line then
        (configAddLine (configDelLine w.configTop line) line []).map (·, commands w)
      else none := by
  cases hadd : configAddLine (configDelLine w.configTop line) line [] with
  | none =>
    rw [Option.map_none, ite_self]
    refine effects_of_wrong ?_
    by_cases hfit : line.length < 1024 <;> simp [hfit, hadd]
    omega
  | some config =>
    have hformat : isFormat line = true := by
      obtain ⟨info, hinfo, -⟩ := configAddLine_eq_some hadd
      simp [isFormat, hinfo]
    by_cases hfit : line.length < 1024
    · simp only [fitsBuffer, hfit, hformat, decide_true, Bool.and_true, if_true, Option.map_some]
      refine effects_of_runs ?_
      simp [hfit, hadd]
    · simp only [fitsBuffer, hfit, decide_false, Bool.false_and, Bool.false_eq_true, if_false]
      refine effects_of_wrong ?_
      simp [not_lt.mp hfit]

theorem effects_remove (line : Str) :
    effects ((do
      let line ← sprintf 1024 line
      delLine line
      ensureConfig .vty (pure 0) : Cli Int) e w) =
      if fitsBuffer line then some (configDelLine w.configTop line, commands w) else none := by
  by_cases hfit : line.length < 1024
  · simp only [fitsBuffer, hfit, decide_true, if_true]
    refine effects_of_runs ?_
    simp [hfit]
  · simp only [fitsBuffer, hfit, decide_false, Bool.false_eq_true, if_false]
    refine effects_of_wrong ?_
    simp [not_lt.mp hfit]

theorem effects_argChecks {checks : List ArgCheck} {body : Cli Int} {fits : Bool}
    {X : Option (List Str × List Event)}
    (h : effects (body e w) = if fits then X else none) :
    effects (argChecks checks body e w) = match checksVerdict checks fits with
      | .refused => some (w.configTop, commands w)
      | .wild => none
      | .acts => X := by
  rw [argChecks_eq, checksVerdict]
  cases firstCheck checks with
  | ok =>
    rw [h]
    cases fits <;> rfl
  | fail text code => rfl
  | overrun => rfl

theorem effects_argChecks_store (checks : List ArgCheck) (line : Str) :
    effects (argChecks checks (do
      let line ← sprintf 1024 line
      delLine line
      addLine line []
      ensureConfig .vty (pure 0)) e w) =
      match checksVerdict checks (fitsBuffer line && isFormat line) with
      | .refused => some (w.configTop, commands w)
      | .wild => none
      | .acts => (runEdits w.configTop (ruleEdits line)).map (·, commands w) := by
  rw [effects_argChecks (effects_store line), ruleEdits, runEdits_del, runEdits_add_last]

theorem effects_argChecks_remove (checks : List ArgCheck) (line : Str) :
    effects (argChecks checks (do
      let line ← sprintf 1024 line
      delLine line
      ensureConfig .vty (pure 0)) e w) =
      match checksVerdict checks (fitsBuffer line) with
      | .refused => some (w.configTop, commands w)
      | .wild => none
      | .acts => (runEdits w.configTop [.del line]).map (·, commands w) := by
  rw [effects_argChecks (effects_remove line)]
  rfl

/-- Storing a filter rule, after its twin is removed. -/
theorem effects_filterStore (a : FilterArgs)
    (hpos : a.position = str "append" ∨ a.position = str "insert") :
    effects ((do
      if a.position = str "append" ∨ a.position = str "insert" then
        let line ← sprintf 1024 a.twin.line
        delLine line
      let line ← sprintf 1024 a.line
      delLine line
      addLine line []
      ensureConfig .vty (pure 0) : Cli Int) e w) =
      if fitsBuffer a.twin.line && fitsBuffer a.line && isFormat a.line then
        (runEdits w.configTop (.del a.twin.line :: ruleEdits a.line)).map (·, commands w)
      else none := by
  rw [if_pos hpos]
  by_cases htwin : a.twin.line.length < 1024
  · have h := effects_store (e := e) (w := w.setConfig (configDelLine w.configTop a.twin.line)) a.line
    simp only [fitsBuffer, htwin, decide_true, Bool.true_and]
    rw [runEdits_del, ruleEdits, runEdits_del, runEdits_add_last]
    rw [show sprintf 1024 a.twin.line = pure a.twin.line from if_pos htwin]
    exact h
  · simp only [fitsBuffer, htwin, decide_false, Bool.false_and, Bool.false_eq_true, if_false]
    refine effects_of_wrong ?_
    simp [not_lt.mp htwin]

/-- The handlers of rules. -/
def ruleCommands : List CmdFunc :=
  [.sfirewallNatPortmap, .noSfirewallNatPortmap, .sfirewallFilterRules, .noSfirewallFilterRules]

theorem firstCheck_ok {checks : List ArgCheck} (h : firstCheck checks = .ok) :
    checks.all ArgCheck.passes = true := by
  induction checks with
  | nil => rfl
  | cons check checks ih =>
    cases check with
    | ok => simpa [ArgCheck.passes] using ih h
    | fail text code => cases h
    | overrun => cases h

/-- A rule handler makes its edits when it acts. -/
theorem effects_rule {func : CmdFunc} (hf : func ∈ ruleCommands) (argv : List Str) :
    effects (call func .vty argv e w) = match verdict func argv with
      | .refused => some (w.configTop, commands w)
      | .wild => none
      | .acts => (runEdits w.configTop (edits func argv)).map (·, commands w) := by
  simp only [ruleCommands, List.mem_cons, List.not_mem_nil, or_false] at hf
  rcases hf with rfl | rfl | rfl | rfl
  · match argv with
    | [_, _, _, _, _, _] => exact effects_argChecks_store _ _
    | [] | [_] | [_, _] | [_, _, _] | [_, _, _, _] | [_, _, _, _, _]
    | _ :: _ :: _ :: _ :: _ :: _ :: _ :: _ => rfl
  · match argv with
    | [_, _, _, _, _, _] => exact effects_argChecks_remove _ _
    | [] | [_] | [_, _] | [_, _, _] | [_, _, _, _] | [_, _, _, _, _]
    | _ :: _ :: _ :: _ :: _ :: _ :: _ :: _ => rfl
  · simp only [call, verdict, edits]
    unfold sfirewallFilterRules
    cases ha : FilterArgs.ofArgv argv with
    | none => rfl
    | some a =>
      dsimp only
      rw [argChecks_eq, checksVerdict]
      cases hc : firstCheck a.checks with
      | ok =>
        have hpos := FilterArgs.position_of_checks (firstCheck_ok hc)
        dsimp only
        rw [effects_filterStore a hpos.symm]
        split <;> simp_all
      | fail text code => rfl
      | overrun => rfl
  · simp only [call, verdict, edits]
    unfold noSfirewallFilterRules
    cases ha : FilterArgs.ofArgv argv with
    | none => rfl
    | some a => exact effects_argChecks_remove _ _

end Verdicts

/-! ## Different arguments of a rule -/

/-- The line of a rule. -/
def ruleLine : CmdFunc → List Str → Str
  | .sfirewallNatPortmap, argv | .noSfirewallNatPortmap, argv => portmapLine argv
  | _, argv => (FilterArgs.ofArgv argv).elim [] FilterArgs.line

/-- A handler that acts on a filter rule has all its arguments. -/
theorem ofArgv_of_acts {func : CmdFunc} {argv : List Str}
    (hf : func = .sfirewallFilterRules ∨ func = .noSfirewallFilterRules)
    (h : verdict func argv = .acts) : ∃ a, FilterArgs.ofArgv argv = some a := by
  cases ha : FilterArgs.ofArgv argv with
  | some a => exact ⟨a, rfl⟩
  | none => rcases hf with rfl | rfl <;> simp [verdict, ha] at h

/-- A handler that acts on a port mapping has all its arguments. -/
theorem portmapArgs_of_acts {argv : List Str} (h : verdict .sfirewallNatPortmap argv = .acts) :
    ∃ num ifname dest proto port1 port2, argv = [num, ifname, dest, proto, port1, port2] := by
  rcases argv with - | ⟨num, - | ⟨ifname, - | ⟨dest, - | ⟨proto, - | ⟨port1, - | ⟨port2, - | ⟨_, _⟩⟩⟩⟩⟩⟩⟩
  case cons.cons.cons.cons.cons.cons.nil => exact ⟨num, ifname, dest, proto, port1, port2, rfl⟩
  all_goals cases h

theorem words_portmapLine {argv : List Str} (h : ∀ w ∈ argv, IsToken w) :
    words isspace (portmapLine argv) = [str "sfirewall", str "nat", str "portmap"] ++ argv := by
  unfold portmapLine
  rw [words_keywords (str "sfirewall nat portmap ") [str "sfirewall", str "nat", str "portmap"]
    (by decide) (by decide), words_unwords isspace_blank h]

theorem ruleLine_inj {func : CmdFunc} (hf : func ∈ ruleCommands) {argv argv' : List Str}
    (htok : ∀ w ∈ argv, IsToken w) (htok' : ∀ w ∈ argv', IsToken w)
    (h : verdict func argv = .acts) (h' : verdict func argv' = .acts)
    (hline : ruleLine func argv = ruleLine func argv') : argv = argv' := by
  have hportmap : portmapLine argv = portmapLine argv' → argv = argv' := fun heq => by
    have hw := congrArg (words isspace) heq
    rw [words_portmapLine htok, words_portmapLine htok'] at hw
    exact List.append_cancel_left hw
  have hfilter : (func = .sfirewallFilterRules ∨ func = .noSfirewallFilterRules) →
      (FilterArgs.ofArgv argv).elim [] FilterArgs.line =
        (FilterArgs.ofArgv argv').elim [] FilterArgs.line → argv = argv' := fun hf heq => by
    obtain ⟨a, ha⟩ := ofArgv_of_acts hf h
    obtain ⟨b, hb⟩ := ofArgv_of_acts hf h'
    obtain rfl := FilterArgs.toArgv_of_ofArgv ha
    obtain rfl := FilterArgs.toArgv_of_ofArgv hb
    rw [ha, hb] at heq
    have hw := congrArg (words isspace) (show a.line = b.line from heq)
    rw [words_filterLine htok, words_filterLine htok'] at hw
    simpa using hw
  simp only [ruleCommands, List.mem_cons, List.not_mem_nil, or_false] at hf
  rcases hf with rfl | rfl | rfl | rfl
  · exact hportmap hline
  · exact hportmap hline
  · exact hfilter (.inl rfl) hline
  · exact hfilter (.inr rfl) hline

theorem checksVerdict_acts {checks : List ArgCheck} {fits : Bool}
    (h : checksVerdict checks fits = .acts) : fits = true := by
  cases fits with
  | true => rfl
  | false =>
    unfold checksVerdict at h
    split at h <;> cases h

/-- A storing handler that acts puts the printed line into an empty store. -/
theorem runEdits_rule_store {func : CmdFunc}
    (hf : func = .sfirewallNatPortmap ∨ func = .sfirewallFilterRules) {argv : List Str}
    (h : verdict func argv = .acts) : ∃ info, vasprintf (ruleLine func argv) [] = some info ∧
      runEdits [] (edits func argv) = some [info] := by
  have hstore : ∀ line : Str, (∃ r, line = 's' :: r) → isFormat line = true →
      ∃ info, vasprintf line [] = some info ∧ runEdits [] (ruleEdits line) = some [info] := by
    rintro line ⟨r, rfl⟩ hformat
    obtain ⟨info, hinfo⟩ := Option.isSome_iff_exists.mp hformat
    refine ⟨info, hinfo, ?_⟩
    have hne : 0 < info.length := by
      rw [vasprintf_cons (by decide)] at hinfo
      obtain ⟨o, -, rfl⟩ := Option.map_eq_some_iff.mp hinfo
      simp
    simp [ruleEdits, configDelLine, configAddLine, hinfo, hne, insertAfter]
  rcases hf with rfl | rfl
  · obtain ⟨num, ifname, dest, proto, port1, port2, rfl⟩ := portmapArgs_of_acts h
    have hfit := checksVerdict_acts h
    exact hstore _ ⟨_, rfl⟩ (Bool.and_eq_true_iff.mp hfit).2
  · obtain ⟨a, ha⟩ := ofArgv_of_acts (.inl rfl) h
    simp only [verdict, ha] at h
    have hfit := checksVerdict_acts h
    obtain ⟨info, hinfo, hrun⟩ := hstore a.line ⟨_, rfl⟩ (Bool.and_eq_true_iff.mp hfit).2
    refine ⟨info, by simpa [ruleLine, ha] using hinfo, ?_⟩
    simpa [edits, ha, configDelLine] using hrun

theorem edits_rule_remove {func : CmdFunc}
    (hf : func = .noSfirewallNatPortmap ∨ func = .noSfirewallFilterRules) {argv : List Str}
    (h : verdict func argv = .acts) : edits func argv = [.del (ruleLine func argv)] := by
  rcases hf with rfl | rfl
  · rfl
  · obtain ⟨a, ha⟩ := ofArgv_of_acts (.inr rfl) h
    simp [edits, ruleLine, ha]

/-- A shell in a node with these lines. -/
def shellWith (node : Node) (config : List Str) : World :=
  { emptyShell with configTop := config, vty := ⟨.shell, node⟩ }

/-- The handler does the same with both lists of arguments. -/
def SameCall (node : Node) (func : CmdFunc) (argv argv' : List Str) : Prop :=
  ∀ (e : Env) (w : World), w.vty = ⟨.shell, node⟩ →
    effects (call func .vty argv e w) = effects (call func .vty argv' e w)

/-- A rule handler that acts does something else than with other arguments. -/
theorem not_sameCall_rule {node : Node} {func : CmdFunc} (hf : func ∈ ruleCommands)
    {argv argv' : List Str} (htok : ∀ w ∈ argv, IsToken w) (htok' : ∀ w ∈ argv', IsToken w)
    (h : verdict func argv = .acts) (hne : argv' ≠ argv) :
    ¬ SameCall node func argv argv' := by
  intro hsame
  have hsame' := fun config => hsame obligingEnv (shellWith node config) rfl
  simp only [effects_rule hf, h] at hsame'
  have hcases : (func = .sfirewallNatPortmap ∨ func = .sfirewallFilterRules) ∨
      (func = .noSfirewallNatPortmap ∨ func = .noSfirewallFilterRules) := by
    simp only [ruleCommands, List.mem_cons, List.not_mem_nil, or_false] at hf
    tauto
  rcases hcases with hstore | hremove
  · obtain ⟨info, hinfo, hrun⟩ := runEdits_rule_store hstore h
    have hempty := hsame' []
    rw [show (shellWith node []).configTop = [] from rfl, hrun] at hempty
    cases h' : verdict func argv' with
    | refused => simp [h'] at hempty
    | wild => simp [h'] at hempty
    | acts =>
      obtain ⟨info', hinfo', hrun'⟩ := runEdits_rule_store hstore h'
      rw [h', hrun'] at hempty
      simp only [Option.map_some, Option.some.injEq, Prod.mk.injEq, List.cons.injEq, and_true] at hempty
      rw [hempty] at hinfo
      exact hne (ruleLine_inj hf htok htok' h h' (vasprintf_inj hinfo hinfo')).symm
  · have hone := hsame' [ruleLine func argv]
    rw [edits_rule_remove hremove h] at hone
    simp only [show (shellWith node [ruleLine func argv]).configTop = [ruleLine func argv] from rfl,
      runEdits_del, runEdits_nil, configDelLine, List.eraseP_cons_of_pos, beq_self_eq_true,
      Option.map_some] at hone
    cases h' : verdict func argv' with
    | refused => simp [h'] at hone
    | wild => simp [h'] at hone
    | acts =>
      have hne' : ¬ ruleLine func argv = ruleLine func argv' := fun heq =>
        hne (ruleLine_inj hf htok htok' h h' heq).symm
      rw [h', edits_rule_remove hremove h'] at hone
      simp [configDelLine, hne'] at hone

/-! ## Different arguments of a peer -/

section Peers
variable {e : Env} {w : World} {checks : List PeerCheck} {key tail : Str}

theorem peerChecks_pass (rest : Cli Int) (h : checks.all PeerCheck.passes = true) :
    peerChecks checks rest = rest := by
  induction checks with
  | nil => rfl
  | cons check checks ih =>
    cases check with
    | ok => exact ih (by simpa [PeerCheck.passes] using h)
    | fail text code => simp [PeerCheck.passes] at h

theorem peerChecks_fail (rest : Cli Int) (h : checks.all PeerCheck.passes = false) :
    ∃ text code, peerChecks checks rest = do
      vtyOut text
      return code := by
  induction checks with
  | nil => simp at h
  | cons check checks ih =>
    cases check with
    | ok => exact ih (by simpa [PeerCheck.passes] using h)
    | fail text code => exact ⟨text, code, rfl⟩

theorem wgPeer_refused (h : peerVerdict checks key tail = .refused) :
    effects (wgPeer .vty checks key tail e w) = some (w.configTop, commands w) := by
  have hfail : checks.all PeerCheck.passes = false := by
    cases hall : checks.all PeerCheck.passes with
    | false => rfl
    | true =>
      simp only [peerVerdict, hall, if_true] at h
      split at h <;> cases h
  obtain ⟨text, code, heq⟩ := peerChecks_fail _ hfail
  rw [wgPeer, heq]
  rfl

theorem wgPeer_wild (hw : w.vty.type = .shell) (h : peerVerdict checks key tail = .wild) :
    effects (wgPeer .vty checks key tail e w) = none := by
  cases hall : checks.all PeerCheck.passes with
  | false => simp [peerVerdict, hall] at h
  | true =>
    rw [wgPeer, peerChecks_pass _ hall]
    refine effects_of_wrong ?_
    simp only [peerVerdict, hall, if_true] at h
    have hno : ¬ (isFormat (snprintf 2048 (str "wg peer " ++ key ++ tail)) = true ∧
        (str "wg set wg0 private-key " ++ privatekeyPath ++ str " peer " ++ key ++ tail ++
          str " > /dev/null 2>&1").length < 2048) := by
      intro hboth
      rw [if_pos (by simpa using hboth)] at h
      cases h
    have hstore : ∀ w' : World, w'.vty.type = .shell → Wrong (wgPeerStore .vty key tail) e w' := by
      intro w' hw'
      simp only [wgPeerStore, wrong_bind, wrong_delLineByleft, false_or, runs_delLineByleft,
        wrong_addLine, runs_addLine, wrong_ensureConfig, wrong_sprintf, wrong_system, runs_sprintf]
      cases hadd : configAddLine (configDelLineByleft w'.configTop (snprintf 2048 (str "wg peer " ++ key)))
        (snprintf 2048 (str "wg peer " ++ key ++ tail)) [] with
      | none => exact .inl hadd
      | some config =>
        obtain ⟨info, hinfo, -⟩ := configAddLine_eq_some hadd
        have hformat : isFormat (snprintf 2048 (str "wg peer " ++ key ++ tail)) = true := by
          rw [isFormat, hinfo]
          rfl
        refine .inr ⟨config, hadd, by simp [World.vtyOf, hw'], .inl ?_⟩
        exact not_lt.mp fun hlt => hno ⟨hformat, hlt⟩
    simp only [wrong_bind, wrong_stat, runs_stat, wrong_ite, runs_system, wrong_system, false_or]
    cases e.stat w.trace privatekeyPath with
    | false => exact .inl ⟨rfl, hstore _ hw⟩
    | true => exact .inr ⟨by simp, hstore _ hw⟩

/-- A peer that is set puts its line into an empty store. -/
theorem wgPeer_acts (hempty : w.configTop = []) (h : peerVerdict checks key tail = .acts) :
    ∃ info cmds, vasprintf (str "wg peer " ++ key ++ tail) [] = some info ∧
      effects (wgPeer .vty checks key tail e w) = some ([info], cmds) := by
  have hall : checks.all PeerCheck.passes = true := by
    by_contra hno
    rw [peerVerdict, if_neg hno] at h
    cases h
  rw [peerVerdict, if_pos hall] at h
  have hboth : isFormat (snprintf 2048 (str "wg peer " ++ key ++ tail)) = true ∧
      (str "wg set wg0 private-key " ++ privatekeyPath ++ str " peer " ++ key ++ tail ++
        str " > /dev/null 2>&1").length < 2048 := by
    split at h
    · next hb => simpa only [Bool.and_eq_true, decide_eq_true_eq] using hb
    · cases h
  obtain ⟨hformat, hlen⟩ := hboth
  have hcut : snprintf 2048 (str "wg peer " ++ key ++ tail) = str "wg peer " ++ key ++ tail := by
    refine List.take_of_length_le ?_
    simp only [List.length_append, str, List.length_cons, List.length_nil] at hlen ⊢
    omega
  obtain ⟨info, hinfo⟩ := Option.isSome_iff_exists.mp hformat
  have hne : 0 < info.length := by
    rw [hcut, List.append_assoc, vasprintf_append (by decide)] at hinfo
    obtain ⟨o, -, rfl⟩ := Option.map_eq_some_iff.mp hinfo
    simp [str]
  have hadd : ∀ line, configAddLine (configDelLineByleft [] line)
      (snprintf 2048 (str "wg peer " ++ key ++ tail)) [] = some [info] := fun line => by
    simp only [configDelLineByleft, List.eraseP_nil, configAddLine, hinfo, if_pos hne]
    rfl
  have hstore : ∀ w' : World, w'.configTop = [] →
      Runs (wgPeerStore .vty key tail) e w' fun _ t => t.configTop = [info] := by
    intro w' hw'
    simp only [wgPeerStore, runs_bind, runs_delLineByleft, runs_addLine, runs_ensureConfig,
      runs_sprintf, runs_system, runs_pure, World.setConfig_configTop, hw']
    exact ⟨[info], hadd _, fun _ => rfl, fun _ => ⟨hlen, rfl⟩⟩
  have hrun : Runs (wgPeer .vty checks key tail) e w fun _ t => t.configTop = [info] := by
    rw [wgPeer, peerChecks_pass _ hall]
    simp only [runs_bind, runs_stat, runs_ite, runs_system]
    exact ⟨fun _ => hstore _ hempty, fun _ => hstore _ hempty⟩
  obtain ⟨a, t, hp, ht⟩ := runs_iff.mp hrun
  exact ⟨info, commands t, hcut ▸ hinfo, by rw [hp, effects, ht]⟩

/-- The handler of a peer that acts does something else when it stores another text. -/
theorem not_sameCall_peer {node : Node} {func : CmdFunc} {argv argv' : List Str}
    {checks checks' : List PeerCheck} {key key' tail tail' : Str}
    (hcall : call func .vty argv = wgPeer .vty checks key tail)
    (hcall' : call func .vty argv' = wgPeer .vty checks' key' tail')
    (h : peerVerdict checks key tail = .acts)
    (hne : str "wg peer " ++ key ++ tail ≠ str "wg peer " ++ key' ++ tail') :
    ¬ SameCall node func argv argv' := by
  intro hsame
  have hempty := hsame obligingEnv (shellWith node []) rfl
  obtain ⟨info, cmds, hinfo, heff⟩ := wgPeer_acts (e := obligingEnv) (w := shellWith node []) rfl h
  rw [hcall, hcall', heff] at hempty
  cases h' : peerVerdict checks' key' tail' with
  | refused =>
    rw [wgPeer_refused h'] at hempty
    simp [shellWith] at hempty
  | wild =>
    rw [wgPeer_wild rfl h'] at hempty
    cases hempty
  | acts =>
    obtain ⟨info', cmds', hinfo', heff'⟩ :=
      wgPeer_acts (e := obligingEnv) (w := shellWith node []) rfl h'
    rw [heff'] at hempty
    simp only [Option.some.injEq, Prod.mk.injEq, List.cons.injEq, and_true] at hempty
    rw [hempty.1] at hinfo
    exact hne (vasprintf_inj hinfo hinfo')

end Peers

/-! ## The handlers with a choice -/

section Choice
variable {node : Node} {func : CmdFunc} {argv argv' : List Str} {e : Env} {w : World}

theorem words_endpointText {key ips ep : Str} (h : ∀ w ∈ [key, ips, ep], IsToken w) :
    words isspace (str "wg peer " ++ key ++ (str " allowed-ips " ++ ips ++ str " endpoint " ++ ep)) =
      [str "wg", str "peer", key, str "allowed-ips", ips, str "endpoint", ep] := by
  have hkw : ∀ w ∈ [str "wg", str "peer", str "allowed-ips", str "endpoint"], IsToken w := by decide
  rw [show str "wg peer " ++ key ++ (str " allowed-ips " ++ ips ++ str " endpoint " ++ ep) =
    unwords ' ' [str "wg", str "peer", key, str "allowed-ips", ips, str "endpoint", ep] by
      simp [unwords, str]]
  refine words_unwords isspace_blank ?_
  simp only [List.forall_mem_cons, List.not_mem_nil, false_implies, implies_true, and_true] at h hkw ⊢
  tauto

theorem words_keepaliveText {key ips ep ka : Str} (h : ∀ w ∈ [key, ips, ep, ka], IsToken w) :
    words isspace (str "wg peer " ++ key ++ (str " allowed-ips " ++ ips ++ str " endpoint " ++ ep ++
      str " persistent-keepalive " ++ ka)) = [str "wg", str "peer", key, str "allowed-ips", ips,
        str "endpoint", ep, str "persistent-keepalive", ka] := by
  have hkw : ∀ w ∈ [str "wg", str "peer", str "allowed-ips", str "endpoint",
    str "persistent-keepalive"], IsToken w := by decide
  rw [show str "wg peer " ++ key ++ (str " allowed-ips " ++ ips ++ str " endpoint " ++ ep ++
      str " persistent-keepalive " ++ ka) = unwords ' ' [str "wg", str "peer", key,
        str "allowed-ips", ips, str "endpoint", ep, str "persistent-keepalive", ka] by
      simp [unwords, str]]
  refine words_unwords isspace_blank ?_
  simp only [List.forall_mem_cons, List.not_mem_nil, false_implies, implies_true, and_true] at h hkw ⊢
  tauto

theorem mem_choiceCommands (h : func ∈ choiceCommands) :
    func = .showSfirewall ∨ func ∈ ruleCommands ∨ func = .wgPeerEndpoint ∨
      func = .wgPeerPersistentKeepalive ∨ func = .wgLink := by
  simp only [choiceCommands, ruleCommands, List.mem_cons, List.not_mem_nil, or_false] at h ⊢
  tauto

theorem showSfirewall_refused {arg : Str}
    (h : arg ∉ [str "all", str "nat", str "filter", str "mangle"]) :
    effects (call .showSfirewall .vty [arg] e w) = some (w.configTop, commands w) := by
  simp only [List.mem_cons, List.not_mem_nil, or_false, not_or] at h
  obtain ⟨h1, h2, h3, h4⟩ := h
  simp only [call, showSfirewall, if_neg h1, if_neg h2, if_neg h3, if_neg h4]
  rfl

theorem effects_refused (hf : func ∈ choiceCommands) (h : verdict func argv = .refused) :
    effects (call func .vty argv e w) = some (w.configTop, commands w) := by
  rcases mem_choiceCommands hf with rfl | hrule | rfl | rfl | rfl
  · match argv, h with
    | [arg], h =>
      refine showSfirewall_refused fun hmem => ?_
      rw [verdict, if_pos hmem] at h
      cases h
  · rw [effects_rule hrule, h]
  · match argv, h with
    | [_, _, _], h => exact wgPeer_refused h
  · match argv, h with
    | [_, _, _, _], h => exact wgPeer_refused h
  · match argv, h with
    | [_], h => cases h

theorem effects_wild (hf : func ∈ choiceCommands) (hw : w.vty.type = .shell)
    (h : verdict func argv = .wild) : effects (call func .vty argv e w) = none := by
  rcases mem_choiceCommands hf with rfl | hrule | rfl | rfl | rfl
  · rcases argv with - | ⟨arg, - | ⟨_, _⟩⟩
    · rfl
    · rw [verdict] at h
      split at h
      · cases h
      · cases h
    · rfl
  · rw [effects_rule hrule, h]
  · rcases argv with - | ⟨key, - | ⟨ips, - | ⟨ep, - | ⟨_, _⟩⟩⟩⟩
    · rfl
    · rfl
    · rfl
    · exact wgPeer_wild hw h
    · rfl
  · rcases argv with - | ⟨key, - | ⟨ips, - | ⟨ep, - | ⟨ka, - | ⟨_, _⟩⟩⟩⟩⟩
    · rfl
    · rfl
    · rfl
    · rfl
    · exact wgPeer_wild hw h
    · rfl
  · rcases argv with - | ⟨name, - | ⟨_, _⟩⟩
    · rfl
    · cases h
    · rfl

/-- A handler that acts does something else than with other arguments. -/
theorem not_sameCall (hf : func ∈ choiceCommands) (hlink : func ≠ .wgLink)
    (htok : ∀ w ∈ argv, IsToken w) (htok' : ∀ w ∈ argv', IsToken w)
    (hlen : argv.length = argv'.length) (h : verdict func argv = .acts) (hne : argv' ≠ argv) :
    ¬ SameCall node func argv argv' := by
  rcases mem_choiceCommands hf with rfl | hrule | rfl | rfl | rfl
  · rcases argv with - | ⟨arg, - | ⟨_, _⟩⟩
    · cases h
    · obtain ⟨arg', rfl⟩ := List.length_eq_one_iff.mp hlen.symm
      intro hsame
      have hempty := hsame obligingEnv (shellWith node []) rfl
      have harg : arg ∈ [str "all", str "nat", str "filter", str "mangle"] := by
        by_contra hno
        rw [verdict, if_neg hno] at h
        cases h
      by_cases harg' : arg' ∈ [str "all", str "nat", str "filter", str "mangle"]
      · simp only [List.mem_cons, List.not_mem_nil, or_false] at harg harg'
        rcases harg with rfl | rfl | rfl | rfl <;> rcases harg' with rfl | rfl | rfl | rfl <;>
          first | exact hne rfl | (cases node <;> exact absurd hempty (by decide))
      · rw [showSfirewall_refused harg'] at hempty
        simp only [List.mem_cons, List.not_mem_nil, or_false] at harg
        rcases harg with rfl | rfl | rfl | rfl <;>
          cases node <;> exact absurd hempty (by decide)
    · cases h
  · exact not_sameCall_rule hrule htok htok' h hne
  · rcases argv with - | ⟨key, - | ⟨ips, - | ⟨ep, - | ⟨_, _⟩⟩⟩⟩
    case cons.cons.cons.nil =>
      obtain ⟨key', ips', ep', rfl⟩ := List.length_eq_three.mp hlen.symm
      refine not_sameCall_peer rfl rfl h fun heq => hne ?_
      have hsplit := congrArg (words isspace) heq
      rw [words_endpointText htok, words_endpointText htok'] at hsplit
      simpa using hsplit.symm
    all_goals cases h
  · rcases argv with - | ⟨key, - | ⟨ips, - | ⟨ep, - | ⟨ka, - | ⟨_, _⟩⟩⟩⟩⟩
    case cons.cons.cons.cons.nil =>
      obtain ⟨key', ips', ep', ka', rfl⟩ := List.length_eq_four.mp hlen.symm
      refine not_sameCall_peer rfl rfl h fun heq => hne ?_
      have hsplit := congrArg (words isspace) heq
      rw [words_keepaliveText htok, words_keepaliveText htok'] at hsplit
      simpa using hsplit.symm
    all_goals cases h
  · exact absurd rfl hlink

/-- The link goes up for its own keyword and down for every other word. -/
theorem sameCall_wgLink {arg arg' : Str} (hs : ArgShortened
    [[str "wg"], [str "link-down", str "link-up"]] arg arg') :
    SameCall node .wgLink [arg] [arg'] ↔ arg' = arg ∨ arg = str "link-down" := by
  rcases hs with rfl | ⟨desc, hdesc, hlen, hmem, -, hpre⟩
  · exact ⟨fun _ => .inl rfl, fun _ _ _ _ => rfl⟩
  have harg : arg = str "link-down" ∨ arg = str "link-up" := by
    simp only [List.mem_cons, List.not_mem_nil, or_false] at hdesc
    rcases hdesc with rfl | rfl
    · exact absurd rfl hlen
    · simpa using hmem
  rcases harg with rfl | rfl
  · refine ⟨fun _ => .inr rfl, fun _ e w _ => ?_⟩
    have hne : arg' ≠ str "link-up" := by
      rintro rfl
      revert hpre
      decide
    simp only [call, wgLink, if_neg hne, if_neg (show str "link-down" ≠ str "link-up" by decide)]
  · refine ⟨fun hsame => .inl ?_, ?_⟩
    · by_contra hne
      have hempty := hsame obligingEnv (shellWith node []) rfl
      simp only [call, wgLink, if_neg hne] at hempty
      cases node <;> exact absurd hempty (by decide)
    · rintro (rfl | h)
      · exact fun _ _ _ => rfl
      · exact absurd h (by decide)

end Choice

/-! ## The lines -/

/-- A line does what its handler does. -/
theorem effects_vtyshExecute {e : Env} {w : World} {node : Node} {line : Str}
    {vline argv : List Str} {elem : CmdElement CmdFunc} (hw : w.vty = ⟨.shell, node⟩)
    (hv : cmdMakeStrvec (cstr line) = some vline)
    (hl : cmdLookup .byCompletion (cmdNodeVector node) vline = .run elem argv) :
    effects (vtyshExecute line e w) = effects (call elem.func .vty argv e w) := by
  have hexec : cmdExecuteCommand vline .vty e w = call elem.func .vty argv e w := by
    simp only [cmdExecute, bind, Proc.get, World.vtyOf, hw, hl]
  cases hcall : call elem.func .vty argv e w with
  | done r t =>
    refine effects_of_runs ?_
    simp only [vtyshExecute, vtyshExecuteFunc, hv, runs_bind]
    refine runs_iff.mpr ⟨r, t, hexec.trans hcall, ?_⟩
    simp only [runs_ite, runs_bind, runs_vtyOut, runs_pure, commands_out, World.emit_configTop,
      and_self, implies_true]
  | exit t => simp only [vtyshExecute, vtyshExecuteFunc, hv, bind, hexec, hcall]
  | undefined => simp only [vtyshExecute, vtyshExecuteFunc, hv, bind, hexec, hcall]

/-- The handler gets the same arguments, or refuses both, or runs into undefined behaviour with
both, or takes the link down with both. -/
def SameArgs (func : CmdFunc) (argv argv' : List Str) : Prop :=
  argv' = argv ∨ (verdict func argv = .refused ∧ verdict func argv' = .refused) ∨
    (verdict func argv = .wild ∧ verdict func argv' = .wild) ∨
    func = .wgLink ∧ argv = [str "link-down"]

end QrWireguard.Vtysh
