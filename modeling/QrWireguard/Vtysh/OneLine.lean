import QrWireguard.Vtysh.Dispatch

/-!
# Runs of the shell

A run is a sequence of inputs: a line typed at the terminal, a file opened by
`vtysh_load_config` or `vtysh_boot_config`, a line read from it. In every run the
configuration has at most one line for each key, unless an argument that names a line is
changed by the printf format it is stored through.
-/

namespace QrWireguard.Vtysh
open Cli Proc

/-! ## Inputs -/

/-- One input of the shell. -/
inductive Input where
  | typed (line : Str)
  | openFile (type : VtyType)
  | fileLine (buf : Str)
  deriving DecidableEq

namespace Input

/-- What the shell does with an input. -/
def exec : Input → Cli Unit
  | typed line => do let _ ← vtyshExecute line
  | openFile type => Proc.modify fun w => { w with myvty := ⟨type, .config⟩ }
  | fileLine buf => configFromFileLine buf

/-- The text of an input. -/
def text : Input → Str
  | typed line => line
  | openFile _ => []
  | fileLine buf => buf

/-- The filter its words are matched with. -/
def filter : Input → Filter
  | typed _ => .byCompletion
  | openFile _ => .byString
  | fileLine _ => .byString

/-- The text is made of printable characters and line ends. -/
def Printable (i : Input) : Prop := ∀ c ∈ i.text, c = '\n' ∨ (' ' ≤ c ∧ c ≤ '~')

/-- The input stands for this command with these arguments, in this node. -/
def StandsFor (i : Input) (node : Node) (func : CmdFunc) (argv : List Str) : Prop :=
  ∃ vline elem, cmdMakeStrvec (cstr i.text) = some vline ∧
    cmdLookup i.filter (cmdNodeVector node) vline = .run elem argv ∧ elem.func = func

/-- No argument that names a line holds a percent sign. -/
def KeysPlain (i : Input) : Prop :=
  ∀ node func argv, i.StandsFor node func argv → ∀ w ∈ keyArgs func argv, '%' ∉ w

end Input

/-- The shell takes an input in an environment. -/
def ShellStep (e : Env) (w : World) (i : Input) (t : World) : Prop := i.exec e w = .done () t

/-- The store is empty. -/
def EmptyStore (w : World) : Prop := w.configTop = []

/-- The states of the shell reached from an empty store by inputs that meet a condition. -/
abbrev ShellReach (e : Env) (ok : Input → Prop) : World → Prop :=
  Reach EmptyStore (ShellStep e) fun _ i => ok i

/-- What one input does to the configuration, by the command it stands for. -/
theorem ShellStep.config {e : Env} {w t : World} {i : Input} {I : List Str → Prop}
    (h : ShellStep e w i t) (hI : I w.configTop)
    (hstep : ∀ node func argv config config', i.StandsFor node func argv → I config →
      Effect func argv config config' → I config') : I t.configTop := by
  refine Sat.of_done (Q := fun _ t => I t.configTop) ?_ h
  cases i with
  | typed line =>
    simp only [Input.exec, sat_bind, sat_pure]
    exact sat_vtyshExecute_config hI fun vline elem argv config config' hv hl =>
      hstep _ elem.func argv config config' ⟨vline, elem, hv, hl, rfl⟩
  | openFile type => exact hI
  | fileLine buf =>
    exact sat_configFromFileLine_config hI fun node vline elem argv config config' hv hl =>
      hstep node elem.func argv config config' ⟨vline, elem, hv, hl, rfl⟩

/-- Take inputs one after the other. -/
def execInputs : List Input → Cli Unit
  | [] => pure ()
  | i :: is => do
    i.exec
    execInputs is

/-- The state after inputs. -/
def stateAfter (e : Env) (w : World) (is : List Input) : World := (execInputs is e w).stateD w

theorem execInputs_singleton (i : Input) (e : Env) (w : World) :
    execInputs [i] e w = i.exec e w := by
  simp only [execInputs, bind]
  cases i.exec e w <;> rfl

theorem reach_execInputs {e : Env} {w t : World} {ok : Input → Prop} {is : List Input}
    (hw : ShellReach e ok w) (hok : ∀ i ∈ is, ok i) (h : execInputs is e w = .done () t) :
    ShellReach e ok t := by
  induction is generalizing w with
  | nil =>
    cases h
    exact hw
  | cons i is ih =>
    simp only [execInputs, bind] at h
    cases hi : i.exec e w with
    | done u w₁ =>
      rw [hi] at h
      exact ih (.step hw (hok i (by simp)) hi) (fun j hj => hok j (by simp [hj])) h
    | exit w₁ => simp [hi] at h
    | undefined => simp [hi] at h

/-- Inputs that are all taken reach the state after them. -/
theorem reach_stateAfter {e : Env} {w : World} {ok : Input → Prop} {is : List Input}
    (hw : ShellReach e ok w) (hok : ∀ i ∈ is, ok i)
    (h : (execInputs is e w).value? = some ()) : ShellReach e ok (stateAfter e w is) :=
  reach_execInputs hw hok (Outcome.eq_done h w)

/-- The local time `localtime` yields in the examples. -/
def epoch : Timestr := ⟨str "Thu Jan  1 00:00:00 1970", by decide, by decide⟩

/-- An operating system where every program succeeds and every file can be written, with an
empty file system. -/
def obligingEnv : Env where
  system _ _ := 0
  fork _ := true
  stdin _ := some (str "y\n")
  stat _ _ := true
  openRead _ _ := none
  openWrite _ _ := true
  localtime _ := some epoch
  versionLines := []

/-- A shell in `CONFIG_NODE` with an empty store. -/
def emptyShell : World := { initWorld none [] with vty := ⟨.shell, .config⟩ }

/-! ## One line for each key -/

theorem Keyed.effect {func : CmdFunc} {argv config config' : List Str} (h : Keyed config)
    (hwords : ∀ w ∈ argv, IsToken w)
    (hnames : func = .ipAddress → ∀ w ∈ argv.take 1, ∀ c ∈ w, ' ' ≤ c)
    (hplain : ∀ w ∈ keyArgs func argv, '%' ∉ w) (he : Effect func argv config config') :
    Keyed config' := by
  rcases he with rfl | ⟨hacc, hrun | hrun⟩
  · exact h
  · exact edits_keyed h hacc hwords hnames hplain hrun
  · rw [runEdits_append] at hrun
    obtain ⟨config₁, hrun₁, hundo⟩ := Option.bind_eq_some_iff.mp hrun
    have h₁ := edits_keyed h hacc hwords hnames hplain hrun₁
    -- taking a bridge back only removes a line
    fun_cases undoEdits func argv
    case case1 => exact Option.some.inj hundo ▸ h₁.delLineByleft _
    case case2 hfunc =>
      have hnil : undoEdits func argv = [] := by
        unfold undoEdits; split <;> simp_all
      rw [hnil] at hundo
      exact Option.some.inj hundo ▸ h₁

/-- The arguments of a command are tokens without a NUL. -/
theorem Input.StandsFor.args {i : Input} {node : Node} {func : CmdFunc} {argv : List Str}
    (h : i.StandsFor node func argv) : ∀ w ∈ argv, IsToken w ∧ '\x00' ∉ w := by
  obtain ⟨vline, elem, hv, hl, -⟩ := h
  intro w hw
  obtain ⟨htok, hmem⟩ := cmdMakeStrvec_words hv w (cmdLookup_argv hl w hw)
  refine ⟨htok, fun h0 => ?_⟩
  rcases hmem _ h0 with h0 | h0
  · simpa using List.mem_takeWhile_imp h0
  · revert h0; decide

/-- The arguments of a printable input are tokens without control characters. -/
theorem Input.Printable.args {i : Input} (hi : i.Printable) {node : Node} {func : CmdFunc}
    {argv : List Str} (h : i.StandsFor node func argv) :
    ∀ w ∈ argv, IsToken w ∧ ∀ c ∈ w, ' ' ≤ c := by
  obtain ⟨vline, elem, hv, hl, -⟩ := h
  intro w hw
  obtain ⟨htok, hmem⟩ := cmdMakeStrvec_words hv w (cmdLookup_argv hl w hw)
  refine ⟨htok, fun c hc => ?_⟩
  rcases hmem c hc with hc' | rfl
  · rcases hi c ((List.takeWhile_sublist _).subset hc') with rfl | ⟨hle, -⟩
    · exact absurd (htok.2 _ hc) (by decide)
    · exact hle
  · decide

/-- Every step of a run keeps the invariant. -/
theorem ShellStep.keyed {e : Env} {w t : World} {i : Input} (h : ShellStep e w i t)
    (hi : i.Printable) (hplain : i.KeysPlain) (hw : Keyed w.configTop) : Keyed t.configTop :=
  h.config hw fun node func argv _ _ hf hk he =>
    hk.effect (fun w hw => (hi.args hf w hw).1)
      (fun _ w hw => (hi.args hf w (List.mem_of_mem_take hw)).2) (hplain node func argv hf) he

theorem ShellReach.keyed {e : Env} {w : World}
    (h : ShellReach e (fun i => i.Printable ∧ i.KeysPlain) w) : Keyed w.configTop :=
  h.invariant (I := fun w => Keyed w.configTop) (fun w hw => by rw [hw]; exact keyed_nil)
    fun _ _ _ hw hok hst => ShellStep.keyed hst hok.1 hok.2 hw

/-- In every state a run reaches, no line occurs twice and each key has at most one line, as
long as the arguments that name a line hold no percent sign. -/
theorem oneLinePerKey_of_reach (e : Env) (w : World)
    (h : ShellReach e (fun i => i.Printable ∧ i.KeysPlain) w) : OneLinePerKey w.configTop :=
  oneLinePerKey_of_pairwise (ShellReach.keyed h).keys

/-- A line without a percent sign has none in its arguments. -/
theorem Input.keysPlain_of_not_mem {i : Input} (h : '%' ∉ i.text) : i.KeysPlain := by
  rintro node func argv ⟨vline, elem, hv, hl, -⟩ w hw hmem
  have hsub : w ∈ argv := by
    revert hw
    unfold keyArgs
    split <;> intro hw <;> first | exact hw | exact List.mem_of_mem_take hw | simp at hw
  rcases (cmdMakeStrvec_words hv w (cmdLookup_argv hl w hsub)).2 '%' hmem with hc | hc
  · exact h ((List.takeWhile_sublist _).subset hc)
  · revert hc; decide

theorem oneLinePerKey_of_reach_listenport :
    OneLinePerKey (stateAfter obligingEnv emptyShell
      [.typed (str "wg listenport 51820"), .typed (str "wg listenport 51821")]).configTop := by
  refine oneLinePerKey_of_reach obligingEnv _
    (reach_stateAfter (.init rfl) (fun i hi => ?_) (by decide +kernel))
  simp only [List.mem_cons, List.not_mem_nil, or_false] at hi
  rcases hi with rfl | rfl <;>
    exact ⟨List.all_iff_forall_prop.mp (by decide), Input.keysPlain_of_not_mem (by decide)⟩

set_option maxRecDepth 4000 in
/-- A filter rule whose number holds two percent signs is stored with one, so it is not found
when the same line is typed again. -/
theorem not_oneLinePerKey_of_percent :
    ¬ ∀ (e : Env) (w : World), ShellReach e Input.Printable w → OneLinePerKey w.configTop := by
  intro h
  have hreach : ShellReach obligingEnv Input.Printable
      (stateAfter obligingEnv emptyShell (List.replicate 2 (.typed (str
        "sfirewall filter 1%% lan2wan fw insert deny tcp 0.0.0.0/0 any 0.0.0.0/0 80 any any any")))) := by
    refine reach_stateAfter (.init rfl) (fun i hi => ?_) (by decide +kernel)
    rw [List.eq_of_mem_replicate hi]
    exact List.all_iff_forall_prop.mp (by decide)
  refine absurd (h _ _ hreach).1 ?_
  decide +kernel

end QrWireguard.Vtysh
