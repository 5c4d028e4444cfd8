import Mathlib.Data.Fintype.Defs
import QrWireguard.Misc.Run
import QrWireguard.Vtysh.Eval
import QrWireguard.Vtysh.OneLine
import QrWireguard.WebAgent.Malformed

/-!
# Connections of the Go agent

Every connection is served by a goroutine of its own, and all of them write the same script and
run shells on the same configuration file. When no connection creates the script or loads the
file while another one is using it, every request has its own command executed once, and the
file is what the commands make of it one after the other.
-/

namespace QrWireguard.WebAgent.Go

open BePlugin Vtysh

/-- What the agent does with a request, up to the process ending. -/
def handled (rmsg : RequestMessage) : Handled :=
  match handleConnection usualHost (.request rmsg) with
  | .ok (some h) => h
  | _ => ⟨false, none, false⟩

/-- Where a connection stands: before and between the steps of `runCommand`, or with the
arguments of the shells that it still has to run. A shell that has loaded the configuration file
has the contents in its memory, and it writes the file after its command. -/
inductive Stage where
  | received
  | created (script : Str)
  | written
  | executable
  | running (args : List Str)
  | loaded (e : Env) (arg : Str) (contents : Option Str) (rest : List Str)
  | executed (e : Env) (arg : Str) (contents : Option Str) (rest : List Str)
  | replied (ok : Bool)

/-- A command that a connection has executed. -/
structure Execution (ι : Type) where
  connection : ι
  env : Env
  arg : Str

/-- The agent and the files its connections share: the script and whether it is executable, the
configuration file, and the commands executed so far. -/
structure Agent (ι : Type) where
  stage : ι → Stage
  script : Str
  executable : Bool
  config : Option Str
  log : List (Execution ι)

/-- What a write at the start of a file leaves of it. -/
def overwrite (text old : Str) : Str := text ++ old.drop text.length

section
variable {ι : Type} [DecidableEq ι]

/-- Move a connection to a stage. -/
def Agent.move (s : Agent ι) (i : ι) (stage : Stage) : Agent ι :=
  { s with stage := Function.update s.stage i stage }

/-- The next step of a connection. `sh` gives the arguments with which the text of a script makes
the shell run `vtysh -e`. The script is still open for writing when it is run, and a system that
finds the text busy then does not run it. -/
def step (sh : Str → List Str) (textBusy : Bool) (requests : ι → RequestMessage) (s : Agent ι)
    (i : ι) (e : Env) : Agent ι :=
  match s.stage i with
  | .received =>
    match (handled (requests i)).script with
    | some script => { s.move i (.created script) with script := [] }
    | none =>
      s.move i (if (handled (requests i)).writes then .running [str "write"]
        else .replied (handled (requests i)).ok)
  | .created script => { s.move i .written with script := overwrite script s.script }
  | .written => { s.move i .executable with executable := true }
  | .executable =>
    s.move i (.running ((if s.executable && !textBusy then sh s.script else []) ++ [str "write"]))
  | .running [] => s.move i (.replied true)
  | .running (arg :: rest) => s.move i (.loaded e arg s.config rest)
  | .loaded e arg contents rest =>
    { s.move i (.executed e arg contents rest) with
      config := (commandText e startupConfig arg contents).or s.config
      log := s.log ++ [⟨i, e, arg⟩] }
  | .executed e arg contents rest =>
    { s.move i (.running rest) with
      config := (finalText e startupConfig arg contents).or s.config }
  | .replied _ => s

/-- The arguments that a connection has executed. -/
def Agent.argsOf (s : Agent ι) (i : ι) : List Str :=
  (s.log.filter fun r => r.connection = i).map (·.arg)

end

/-- The configuration file after commands that are executed one after the other. -/
def replay {ι : Type} (config : Option Str) (log : List (Execution ι)) : Option Str :=
  log.foldl (fun config r => vtyshEval r.env startupConfig r.arg config) config

/-- A connection is using the script: it has created it and not yet run it. -/
def Stage.holdsScript : Stage → Bool
  | .created _ | .written | .executable => true
  | _ => false

/-- A shell of a connection is using the configuration file: it has loaded it and not yet written
it. -/
def Stage.holdsConfig : Stage → Bool
  | .loaded .. | .executed .. => true
  | _ => false

/-- The next step of a connection loads the configuration file. -/
def Stage.loads : Stage → Bool
  | .running (_ :: _) => true
  | _ => false

/-- The next step of a connection creates the script. -/
def createsScript (rmsg : RequestMessage) : Stage → Bool
  | .received => (handled rmsg).script.isSome
  | _ => false

/-- A step that leaves the others' files alone: nobody else is using the script when it creates
it, or the configuration file when it loads that. -/
structure Calm {ι : Type} (requests : ι → RequestMessage) (s : Agent ι) (i : ι) : Prop where
  script : createsScript (requests i) (s.stage i) = true →
    ∀ j, j ≠ i → (s.stage j).holdsScript = false
  config : (s.stage i).loads = true → ∀ j, j ≠ i → (s.stage j).holdsConfig = false

/-- A request that the agent answers with `OK`, and the command lines it has: one, which the
shell passes on as it is, or none. -/
inductive Valid (sh : Str → List Str) (rmsg : RequestMessage) : List Str → Prop
  | command {fullcmd : Str} (h : handleConnection usualHost (.request rmsg) =
      .ok (some ⟨true, some (scriptText fullcmd), true⟩))
      (hsh : sh (scriptText fullcmd) = [fullcmd]) : Valid sh rmsg [fullcmd]
  | save (h : handleConnection usualHost (.request rmsg) = .ok (some ⟨true, none, true⟩)) :
      Valid sh rmsg []

/-- What the agent does with a valid request. -/
theorem Valid.handled {sh : Str → List Str} {rmsg : RequestMessage} {commands : List Str}
    (h : Valid sh rmsg commands) :
    (∃ script, Go.handled rmsg = ⟨true, some script, true⟩ ∧ sh script = commands) ∨
      Go.handled rmsg = ⟨true, none, true⟩ ∧ commands = [] := by
  cases h with
  | command h hsh =>
    refine .inl ⟨_, ?_, hsh⟩
    rw [Go.handled, h]
  | save h =>
    refine .inr ⟨?_, rfl⟩
    rw [Go.handled, h]

/-- The runs of an agent that starts with no request served. -/
def AgentReach {ι : Type} [DecidableEq ι] (sh : Str → List Str) (textBusy : Bool)
    (requests : ι → RequestMessage) (config : Option Str) (ok : Agent ι → ι → Prop) :
    Agent ι → Prop :=
  Reach (fun s => (∀ i, s.stage i = .received) ∧ s.config = config ∧ s.log = [])
    (fun s (i : ι × Env) t => step sh textBusy requests s i.1 i.2 = t) fun s i => ok s i.1

section
variable {ι : Type} [DecidableEq ι]

instance [Fintype ι] (requests : ι → RequestMessage) (s : Agent ι) (i : ι) :
    Decidable (Calm requests s i) :=
  decidable_of_iff
    ((createsScript (requests i) (s.stage i) = true → ∀ j, j ≠ i → (s.stage j).holdsScript = false) ∧
      ((s.stage i).loads = true → ∀ j, j ≠ i → (s.stage j).holdsConfig = false))
    ⟨fun h => ⟨h.1, h.2⟩, fun h => ⟨h.script, h.config⟩⟩

/-- The agent after the steps of a schedule. -/
def steps (sh : Str → List Str) (textBusy : Bool) (requests : ι → RequestMessage) (e : Env) :
    List ι → Agent ι → Agent ι
  | [], s => s
  | i :: schedule, s =>
    steps sh textBusy requests e schedule (step sh textBusy requests s i e)

/-- Every step of a schedule meets a condition. -/
def StepsOk (sh : Str → List Str) (textBusy : Bool) (requests : ι → RequestMessage) (e : Env)
    (ok : Agent ι → ι → Prop) : List ι → Agent ι → Prop
  | [], _ => True
  | i :: schedule, s =>
    ok s i ∧ StepsOk sh textBusy requests e ok schedule (step sh textBusy requests s i e)

instance decidableStepsOk (sh : Str → List Str) (textBusy : Bool) (requests : ι → RequestMessage)
    (e : Env) (ok : Agent ι → ι → Prop) [∀ s i, Decidable (ok s i)] (schedule : List ι)
    (s : Agent ι) : Decidable (StepsOk sh textBusy requests e ok schedule s) :=
  match schedule with
  | [] => isTrue trivial
  | i :: schedule =>
    have := decidableStepsOk sh textBusy requests e ok schedule (step sh textBusy requests s i e)
    inferInstanceAs (Decidable (_ ∧ _))

theorem agentReach_steps {sh : Str → List Str} {textBusy : Bool} {requests : ι → RequestMessage}
    {e : Env} {config : Option Str} {ok : Agent ι → ι → Prop} (schedule : List ι) {s : Agent ι}
    (hs : AgentReach sh textBusy requests config ok s)
    (hok : StepsOk sh textBusy requests e ok schedule s) :
    AgentReach sh textBusy requests config ok (steps sh textBusy requests e schedule s) := by
  induction schedule generalizing s with
  | nil => exact hs
  | cons i schedule ih =>
    obtain ⟨hfirst, hrest⟩ := hok
    apply ih _ hrest
    exact Reach.step (i := (i, e)) hs hfirst rfl

end

/-- What a connection still has to execute. -/
def Stage.pending (commands : List Str) : Stage → List Str
  | .received | .created _ | .written | .executable => commands ++ [str "write"]
  | .running args => args
  | .loaded _ arg _ rest => arg :: rest
  | .executed _ _ _ rest => rest
  | .replied _ => []

/-- What the files hold for a connection that is using them. -/
def Asserts {ι : Type} (sh : Str → List Str) (commands : List Str) (config : Option Str)
    (s : Agent ι) (i : ι) : Stage → Prop
  | .created script => sh script = commands ∧ s.script = []
  | .written => sh s.script = commands
  | .executable => sh s.script = commands ∧ s.executable = true
  | .loaded _ _ contents _ => contents = s.config ∧ s.config = replay config s.log
  | .executed e arg contents _ => ∃ log, s.log = log ++ [⟨i, e, arg⟩] ∧
    contents = replay config log ∧ s.config = (commandText e startupConfig arg contents).or contents
  | .replied ok => ok = true
  | .received | .running _ => True

/-- What holds in every state of a calm run. -/
structure Inv {ι : Type} [DecidableEq ι] (sh : Str → List Str) (commands : ι → List Str)
    (config : Option Str) (s : Agent ι) : Prop where
  asserts : ∀ i, Asserts sh (commands i) config s i (s.stage i)
  runs : ∀ i, s.argsOf i ++ (s.stage i).pending (commands i) = commands i ++ [str "write"]
  oneScript : ∀ i j, (s.stage i).holdsScript = true → (s.stage j).holdsScript = true → i = j
  oneConfig : ∀ i j, (s.stage i).holdsConfig = true → (s.stage j).holdsConfig = true → i = j
  quiet : (∀ i, (s.stage i).holdsConfig = false) → s.config = replay config s.log

section
variable {ι : Type} {sh : Str → List Str} {commands : List Str} {config : Option Str}
  {s t : Agent ι} {i j : ι} {stage : Stage}

/-- A connection does not notice what happens to the files it is not using. -/
theorem Asserts.frame (h : Asserts sh commands config s j stage)
    (hscript : stage.holdsScript = true → t.script = s.script ∧ t.executable = s.executable)
    (hconfig : stage.holdsConfig = true → t.config = s.config ∧ t.log = s.log) :
    Asserts sh commands config t j stage := by
  cases stage with
  | received => trivial
  | running args => trivial
  | replied ok => exact h
  | created script =>
    obtain ⟨hsh, hempty⟩ := h
    exact ⟨hsh, (hscript rfl).1.trans hempty⟩
  | written =>
    unfold Asserts at h ⊢
    rw [(hscript rfl).1]
    exact h
  | executable =>
    obtain ⟨hsh, hmode⟩ := h
    refine ⟨?_, (hscript rfl).2.trans hmode⟩
    rw [(hscript rfl).1]
    exact hsh
  | loaded e arg contents rest =>
    obtain ⟨hcontents, hreplay⟩ := h
    obtain ⟨hsame, hlog⟩ := hconfig rfl
    exact ⟨hcontents.trans hsame.symm, by rw [hsame, hlog]; exact hreplay⟩
  | executed e arg contents rest =>
    obtain ⟨log, hlast, hcontents, hwritten⟩ := h
    obtain ⟨hsame, hlog⟩ := hconfig rfl
    exact ⟨log, hlog.trans hlast, hcontents, hsame.trans hwritten⟩

end

section
variable {ι : Type} [DecidableEq ι] {sh : Str → List Str} {commands : ι → List Str}
  {config : Option Str} {s t : Agent ι} {i : ι} {stage : Stage}

@[simp] theorem move_stage : (s.move i stage).stage = Function.update s.stage i stage := rfl

@[simp] theorem move_script : (s.move i stage).script = s.script := rfl

@[simp] theorem move_executable : (s.move i stage).executable = s.executable := rfl

@[simp] theorem move_config : (s.move i stage).config = s.config := rfl

@[simp] theorem move_log : (s.move i stage).log = s.log := rfl

/-- At most one connection is in a stage of some kind when the one that moves there finds no
other. -/
theorem atMostOne_update {f : ι → Stage} {p : Stage → Bool}
    (h : ∀ j k, p (f j) = true → p (f k) = true → j = k)
    (hp : ∀ j, j ≠ i → p (f j) = true → p stage = false) (j k : ι)
    (hj : p (Function.update f i stage j) = true) (hk : p (Function.update f i stage k) = true) :
    j = k := by
  by_cases hji : j = i <;> by_cases hki : k = i
  · exact hji.trans hki.symm
  · subst hji
    rw [Function.update_self] at hj
    rw [Function.update_of_ne hki] at hk
    rw [hp k hki hk] at hj
    cases hj
  · subst hki
    rw [Function.update_self] at hk
    rw [Function.update_of_ne hji] at hj
    rw [hp j hji hj] at hk
    cases hk
  · rw [Function.update_of_ne hji] at hj
    rw [Function.update_of_ne hki] at hk
    exact h j k hj hk

/-- What a step has to establish: the connection it moves keeps what it asserts and has as much
to execute as before, and the files that another connection is using are as they were. -/
theorem Inv.move (h : Inv sh commands config s) (hstage : t.stage = Function.update s.stage i stage)
    (hasserts : Asserts sh (commands i) config t i stage)
    (hruns : ∀ j, t.argsOf j ++ (t.stage j).pending (commands j) =
      s.argsOf j ++ (s.stage j).pending (commands j))
    (hscript : ∀ j, j ≠ i → (s.stage j).holdsScript = true →
      stage.holdsScript = false ∧ t.script = s.script ∧ t.executable = s.executable)
    (hconfig : ∀ j, j ≠ i → (s.stage j).holdsConfig = true →
      stage.holdsConfig = false ∧ t.config = s.config ∧ t.log = s.log)
    (hquiet : stage.holdsConfig = false → (∀ j, j ≠ i → (s.stage j).holdsConfig = false) →
      t.config = replay config t.log) : Inv sh commands config t := by
  have hself : t.stage i = stage := by rw [hstage, Function.update_self]
  have hother : ∀ j, j ≠ i → t.stage j = s.stage j := by
    intro j hj
    rw [hstage, Function.update_of_ne hj]
  constructor
  · intro j
    by_cases hj : j = i
    · subst hj
      rw [hself]
      exact hasserts
    · rw [hother j hj]
      exact (h.asserts j).frame (fun hj' => (hscript j hj hj').2) fun hj' => (hconfig j hj hj').2
  · intro j
    exact (hruns j).trans (h.runs j)
  · rw [hstage]
    exact atMostOne_update h.oneScript fun j hj hj' => (hscript j hj hj').1
  · rw [hstage]
    exact atMostOne_update h.oneConfig fun j hj hj' => (hconfig j hj hj').1
  · intro hnone
    refine hquiet ?_ ?_
    · rw [← hself]
      exact hnone i
    · intro j hj
      rw [← hother j hj]
      exact hnone j

theorem argsOf_append {r : Execution ι} (hlog : t.log = s.log ++ [r]) (j : ι) :
    t.argsOf j = if r.connection = j then s.argsOf j ++ [r.arg] else s.argsOf j := by
  rw [Agent.argsOf, hlog, List.filter_append, List.map_append, List.filter_singleton]
  split_ifs <;> simp_all [Agent.argsOf]

omit [DecidableEq ι] in
theorem replay_append (log : List (Execution ι)) (r : Execution ι) :
    replay config (log ++ [r]) = vtyshEval r.env startupConfig r.arg (replay config log) := by
  rw [replay, List.foldl_append]
  rfl

/-- A step that logs nothing leaves everyone as much to execute when it does so for the connection
it moves. -/
theorem runs_of_log (hstage : t.stage = Function.update s.stage i stage) (hlog : t.log = s.log)
    (hpending : stage.pending (commands i) = (s.stage i).pending (commands i)) (j : ι) :
    t.argsOf j ++ (t.stage j).pending (commands j) =
      s.argsOf j ++ (s.stage j).pending (commands j) := by
  have hargs : t.argsOf j = s.argsOf j := by rw [Agent.argsOf, hlog, Agent.argsOf]
  rw [hargs, hstage]
  by_cases hj : j = i
  · subst hj
    rw [Function.update_self, hpending]
  · rw [Function.update_of_ne hj]

/-- A step that executes the first of what is left. -/
theorem runs_of_execution {e : Env} {arg : Str}
    (hstage : t.stage = Function.update s.stage i stage) (hlog : t.log = s.log ++ [⟨i, e, arg⟩])
    (hpending : arg :: stage.pending (commands i) = (s.stage i).pending (commands i)) (j : ι) :
    t.argsOf j ++ (t.stage j).pending (commands j) =
      s.argsOf j ++ (s.stage j).pending (commands j) := by
  rw [argsOf_append hlog, hstage]
  by_cases hj : j = i
  · subst hj
    rw [if_pos rfl, Function.update_self, ← hpending, List.append_assoc]
    rfl
  · rw [if_neg (Ne.symm hj), Function.update_of_ne hj]

/-- A step that is not about the configuration file. No other connection is using the script
when the step is on that. -/
theorem Inv.step_of_config (h : Inv sh commands config s)
    (hstage : t.stage = Function.update s.stage i stage) (hconfig : t.config = s.config)
    (hlog : t.log = s.log) (hasserts : Asserts sh (commands i) config t i stage)
    (hpending : stage.pending (commands i) = (s.stage i).pending (commands i))
    (hscript : (stage.holdsScript = false ∧ t.script = s.script ∧ t.executable = s.executable) ∨
      ∀ j, j ≠ i → (s.stage j).holdsScript = false)
    (hquiet : stage.holdsConfig = false ∧ (s.stage i).holdsConfig = false) :
    Inv sh commands config t := by
  refine h.move hstage hasserts (runs_of_log hstage hlog hpending) ?_ ?_ ?_
  · intro j hj hholds
    rcases hscript with hsame | halone
    · exact hsame
    · rw [halone j hj] at hholds
      cases hholds
  · intro j _ _
    exact ⟨hquiet.1, hconfig, hlog⟩
  · intro _ hnone
    rw [hconfig, hlog]
    refine h.quiet fun j => ?_
    by_cases hj : j = i
    · exact hj ▸ hquiet.2
    · exact hnone j hj

/-- The others are not using the script while a connection is. -/
theorem Inv.alone (h : Inv sh commands config s) (hholds : (s.stage i).holdsScript = true) (j : ι)
    (hj : j ≠ i) : (s.stage j).holdsScript = false := by
  by_contra hother
  exact hj (h.oneScript j i (Bool.eq_true_of_not_eq_false hother) hholds)

/-- Every step of a calm run keeps the invariant. -/
theorem Inv.step {requests : ι → RequestMessage} (hvalid : Valid sh (requests i) (commands i))
    (h : Inv sh commands config s) (hcalm : Calm requests s i) (e : Env) :
    Inv sh commands config (step sh false requests s i e) := by
  have hmine := h.asserts i
  unfold Go.step
  cases hst : s.stage i with
  | received =>
    rcases hvalid.handled with ⟨script, hhandled, hsh⟩ | ⟨hhandled, hnone⟩
    · simp only [hhandled]
      refine h.step_of_config rfl rfl rfl ⟨hsh, rfl⟩ (by rw [hst]; rfl) (.inr ?_) ⟨rfl, by rw [hst]; rfl⟩
      apply hcalm.script
      rw [hst, createsScript, hhandled]
      rfl
    · simp only [hhandled, if_true]
      refine h.step_of_config rfl rfl rfl trivial ?_ (.inl ⟨rfl, rfl, rfl⟩) ⟨rfl, by rw [hst]; rfl⟩
      rw [hst, hnone]
      rfl
  | created script =>
    rw [hst] at hmine
    obtain ⟨hsh, hempty⟩ := hmine
    refine h.step_of_config rfl rfl rfl ?_ (by rw [hst]; rfl) (.inr (h.alone (by rw [hst]; rfl)))
      ⟨rfl, by rw [hst]; rfl⟩
    show sh (overwrite script s.script) = commands i
    rw [hempty, overwrite, List.drop_nil, List.append_nil]
    exact hsh
  | written =>
    rw [hst] at hmine
    exact h.step_of_config rfl rfl rfl ⟨hmine, rfl⟩ (by rw [hst]; rfl) (.inr (h.alone (by rw [hst]; rfl)))
      ⟨rfl, by rw [hst]; rfl⟩
  | executable =>
    rw [hst] at hmine
    obtain ⟨hsh, hmode⟩ := hmine
    refine h.step_of_config rfl rfl rfl trivial ?_ (.inr (h.alone (by rw [hst]; rfl))) ⟨rfl, by rw [hst]; rfl⟩
    rw [hst, hmode, hsh]
    rfl
  | running args =>
    cases args with
    | nil =>
      exact h.step_of_config rfl rfl rfl rfl (by rw [hst]; rfl) (.inl ⟨rfl, rfl, rfl⟩)
        ⟨rfl, by rw [hst]; rfl⟩
    | cons arg rest =>
      have halone := hcalm.config (by rw [hst]; rfl)
      have hreplay : s.config = replay config s.log := by
        apply h.quiet
        intro j
        by_cases hj : j = i
        · rw [hj, hst]
          rfl
        · exact halone j hj
      refine h.move rfl ⟨rfl, hreplay⟩ (runs_of_log rfl rfl (by rw [hst]; rfl))
        (fun _ _ _ => ⟨rfl, rfl, rfl⟩) ?_ (fun hfree => absurd hfree (by simp [Stage.holdsConfig]))
      intro j hj hholds
      rw [halone j hj] at hholds
      cases hholds
  | loaded e arg contents rest =>
    rw [hst] at hmine
    obtain ⟨hcontents, hreplay⟩ := hmine
    refine h.move rfl ⟨s.log, rfl, hcontents.trans hreplay, by rw [hcontents]⟩
      (runs_of_execution rfl rfl (by rw [hst]; rfl)) (fun _ _ _ => ⟨rfl, rfl, rfl⟩) ?_
      (fun hfree => absurd hfree (by simp [Stage.holdsConfig]))
    exact fun j hj hholds => absurd (h.oneConfig j i hholds (by rw [hst]; rfl)) hj
  | executed e arg contents rest =>
    rw [hst] at hmine
    obtain ⟨log, hlog, hcontents, hwritten⟩ := hmine
    refine h.move rfl trivial (runs_of_log rfl rfl (by rw [hst]; rfl))
      (fun _ _ _ => ⟨rfl, rfl, rfl⟩) ?_ ?_
    · exact fun j hj hholds => absurd (h.oneConfig j i hholds (by rw [hst]; rfl)) hj
    · intro _ _
      show (finalText e startupConfig arg contents).or s.config = replay config s.log
      rw [hlog, replay_append, ← hcontents, hwritten]
      rfl
  | replied ok => exact h

theorem Inv.init (hstage : ∀ i, s.stage i = .received) (hconfig : s.config = config)
    (hlog : s.log = []) : Inv sh commands config s := by
  constructor
  · intro i
    rw [hstage i]
    trivial
  · intro i
    rw [hstage i, Agent.argsOf, hlog]
    rfl
  · intro i j hi
    rw [hstage i] at hi
    cases hi
  · intro i j hi
    rw [hstage i] at hi
    cases hi
  · intro _
    rw [hconfig, hlog]
    rfl

/-- In a calm run every request has its own command executed once, followed by `write`, when it
is answered, and never more than that before; the answer is `OK`; and while no shell is at work
the configuration file is what the commands executed so far make of it. -/
theorem commands_executed {requests : ι → RequestMessage}
    (hvalid : ∀ i, Valid sh (requests i) (commands i))
    (h : AgentReach sh false requests config (Calm requests) s) :
    (∀ i ok, s.stage i = .replied ok → ok = true ∧ s.argsOf i = commands i ++ [str "write"]) ∧
      (∀ i, s.argsOf i <+: commands i ++ [str "write"]) ∧
      ((∀ i, (s.stage i).holdsConfig = false) → s.config = replay config s.log) := by
  have hinv : Inv sh commands config s := by
    refine Reach.invariant (I := Inv sh commands config) ?_ ?_ h
    · rintro s ⟨hstage, hconfig, hlog⟩
      exact .init hstage hconfig hlog
    · rintro s ⟨i, e⟩ t hs hcalm rfl
      exact hs.step (hvalid i) hcalm e
  refine ⟨?_, ?_, hinv.quiet⟩
  · intro i ok hstage
    have hok := hinv.asserts i
    have hruns := hinv.runs i
    rw [hstage] at hok hruns
    exact ⟨hok, by rw [← hruns, Stage.pending, List.append_nil]⟩
  · intro i
    exact ⟨_, hinv.runs i⟩

end

/-- What the shell passes on of a script whose command line has no character that is special in
double quotes. -/
def usualSh (text : Str) : List Str := (split ['"'] text)[1]?.toList

/-- Two connections that set the host name. -/
def hostNames (i : Bool) : Str := if i then str "beta" else str "alpha"

/-- Their requests. -/
def hostNameRequests (i : Bool) : RequestMessage :=
  helloMessage (str "SET_HOST_NAME") [(str "HostName", hostNames i)]

theorem hostNameRequests_valid (i : Bool) :
    Valid usualSh (hostNameRequests i) [str "hostname " ++ hostNames i] := by
  cases i
  · exact .command (by decide +kernel) (by decide +kernel)
  · exact .command (by decide +kernel) (by decide +kernel)

/-- An agent before its first step, without a configuration file. -/
def idle : Agent Bool := ⟨fun _ => .received, [], false, none, []⟩

theorem agentReach_idle {sh : Str → List Str} {textBusy : Bool} {requests : Bool → RequestMessage}
    {ok : Agent Bool → Bool → Prop} : AgentReach sh textBusy requests none ok idle :=
  .init ⟨fun _ => rfl, rfl, rfl⟩

/-- Steps of one connection after the other. -/
def inTurn : List Bool := List.replicate 11 false ++ List.replicate 11 true

/-- Both connections create and write the script before one of them runs it. -/
def scriptShared : List Bool :=
  [false, true, false, true] ++ List.replicate 9 false ++ List.replicate 9 true

theorem commands_executed_inTurn :
    (steps usualSh false hostNameRequests obligingEnv inTurn idle).argsOf false =
        [str "hostname alpha", str "write"] ∧
      (steps usualSh false hostNameRequests obligingEnv inTurn idle).argsOf true =
        [str "hostname beta", str "write"] := by
  have hcalm : StepsOk usualSh false hostNameRequests obligingEnv (Calm hostNameRequests) inTurn
      idle := by
    decide +kernel
  have h := commands_executed hostNameRequests_valid (agentReach_steps inTurn agentReach_idle hcalm)
  exact ⟨(h.1 false true rfl).2, (h.1 true true rfl).2⟩

/-- The second command is executed twice and the first one never, and both requests are answered
`OK`. -/
theorem commands_not_executed :
    (∀ i, Valid usualSh (hostNameRequests i) [str "hostname " ++ hostNames i]) ∧
      ∃ s, AgentReach usualSh false hostNameRequests none (fun _ _ => True) s ∧
        ∀ i, s.stage i = .replied true ∧
          s.argsOf i = [str "hostname " ++ hostNames true] ++ [str "write"] := by
  refine ⟨hostNameRequests_valid, steps usualSh false hostNameRequests obligingEnv scriptShared idle,
    agentReach_steps scriptShared agentReach_idle (by decide +kernel), ?_⟩
  intro i
  cases i
  · exact ⟨rfl, by decide +kernel⟩
  · exact ⟨rfl, by decide +kernel⟩

section
variable {ι : Type} [DecidableEq ι] {sh : Str → List Str} {requests : ι → RequestMessage}
  {config : Option Str} {ok : Agent ι → ι → Prop} {s : Agent ι}

/-- All that is executed or still to be executed is `write`. -/
def OnlyWrites (s : Agent ι) : Prop :=
  (∀ i, ∀ arg ∈ (s.stage i).pending [], arg = str "write") ∧ ∀ r ∈ s.log, r.arg = str "write"

theorem OnlyWrites.step (h : OnlyWrites s) (i : ι) (e : Env) :
    OnlyWrites (step sh true requests s i e) := by
  obtain ⟨hpending, hlog⟩ := h
  have hmine := hpending i
  -- The connection that moves has nothing else to execute in its new stage.
  have hmove : ∀ {t : Agent ι} {stage : Stage}, t.stage = Function.update s.stage i stage →
      (∀ arg ∈ stage.pending [], arg = str "write") → (∀ r ∈ t.log, r.arg = str "write") →
      OnlyWrites t := by
    intro t stage hstage hnew hlog
    refine ⟨fun j => ?_, hlog⟩
    rw [hstage]
    by_cases hj : j = i
    · rw [hj, Function.update_self]
      exact hnew
    · rw [Function.update_of_ne hj]
      exact hpending j
  unfold Go.step
  cases hst : s.stage i with
  | received =>
    rw [hst] at hmine
    cases (handled (requests i)).script with
    | some script => exact hmove rfl hmine hlog
    | none =>
      cases (handled (requests i)).writes with
      | true => exact hmove rfl hmine hlog
      | false => exact hmove rfl nofun hlog
  | created script =>
    rw [hst] at hmine
    exact hmove rfl hmine hlog
  | written =>
    rw [hst] at hmine
    exact hmove rfl hmine hlog
  | executable =>
    rw [hst] at hmine
    refine hmove rfl ?_ hlog
    rw [Bool.not_true, Bool.and_false]
    exact hmine
  | running args =>
    rw [hst] at hmine
    cases args with
    | nil => exact hmove rfl nofun hlog
    | cons arg rest => exact hmove rfl hmine hlog
  | loaded e' arg contents rest =>
    rw [hst] at hmine
    obtain ⟨harg, hrest⟩ := List.forall_mem_cons.mp hmine
    refine hmove rfl hrest ?_
    intro r hr
    rcases List.mem_append.mp hr with hr | hr
    · exact hlog r hr
    · rw [List.mem_singleton.mp hr]
      exact harg
  | executed e' arg contents rest =>
    rw [hst] at hmine
    exact hmove rfl hmine hlog
  | replied ok => exact ⟨hpending, hlog⟩

/-- Where the system does not run a script that is open for writing, no request has its command
executed, whatever it is answered. -/
theorem only_writes_executed (h : AgentReach sh true requests config ok s) :
    ∀ r ∈ s.log, r.arg = str "write" := by
  refine (Reach.invariant (I := OnlyWrites) ?_ ?_ h).2
  · rintro s ⟨hstage, -, hlog⟩
    refine ⟨fun i arg harg => ?_, ?_⟩
    · rw [hstage i] at harg
      exact List.mem_singleton.mp harg
    · rw [hlog]
      nofun
  · rintro s ⟨i, e⟩ t hs _ rfl
    exact hs.step i e

end

end QrWireguard.WebAgent.Go
