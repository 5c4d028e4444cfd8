import QrWireguard.Misc.Proc
import QrWireguard.Vtysh.Config
import QrWireguard.Vtysh.Node

/-!
# The state of the shell

The state the command handlers work on, the answers they get from the operating system and
the events they cause. The answers may depend on everything that happened before, so a file
system, programs with memory and a user at the terminal are all instances.
-/

namespace QrWireguard.Vtysh

/-- The `type` of `struct vty`. -/
inductive VtyType where
  | shell
  | file
  deriving DecidableEq, Repr

/-- `struct vty`, without its input buffer. -/
structure Vty where
  type : VtyType
  node : Node
  deriving DecidableEq, Repr

/-- The two `struct vty` a handler can be called with: the global one, and the one
`vtysh_load_config` makes to read a file. -/
inductive VtyRef where
  | vty
  | myvty
  deriving DecidableEq

/-- What a run of the shell does outside its own memory. -/
inductive Event where
  /-- Text on the terminal. -/
  | out (text : Str)
  /-- `system`. -/
  | system (command : Str)
  /-- `cmd_execute_system_command`. -/
  | exec (command : Str) (argv : List Str)
  /-- A line asked for at the terminal. -/
  | input
  | stat (path : Str)
  | openRead (path : Str)
  | openWrite (path : Str)
  /-- Text appended to a file opened for writing. -/
  | write (path text : Str)
  | unlink (path : Str)
  | sethostname (name : Str)
  deriving DecidableEq

/-- The answers of the operating system, given what happened before (the latest event
first). -/
structure Env where
  /-- The status `system` returns. -/
  system : List Event → Str → Int
  /-- Can `fork` make a child? -/
  fork : List Event → Bool
  /-- The line typed at the terminal, if any. -/
  stdin : List Event → Option Str
  /-- Does `stat` find the path? -/
  stat : List Event → Str → Bool
  /-- The contents of a file that can be opened for reading. -/
  openRead : List Event → Str → Option Str
  /-- Can the file be opened for writing? -/
  openWrite : List Event → Str → Bool
  /-- The text of the local time, unless `localtime` fails. -/
  localtime : List Event → Option Timestr
  /-- The lines of `show version`, which hold the compilation date. -/
  versionLines : List Str

/-- The memory of the shell: `config_top`, the names in `host`, the two vtys, and the events so
far, the latest first. -/
structure World where
  configTop : List Str
  hostName : Option Str
  hostConfig : Option Str
  vty : Vty
  myvty : Vty
  trace : List Event

namespace World

/-- Record an event. -/
def emit (w : World) (ev : Event) : World := { w with trace := ev :: w.trace }

@[simp] theorem emit_configTop (w : World) (ev : Event) :
    (w.emit ev).configTop = w.configTop := rfl
@[simp] theorem emit_vty (w : World) (ev : Event) : (w.emit ev).vty = w.vty := rfl
@[simp] theorem emit_myvty (w : World) (ev : Event) : (w.emit ev).myvty = w.myvty := rfl
@[simp] theorem emit_trace (w : World) (ev : Event) : (w.emit ev).trace = ev :: w.trace := rfl

/-- Replace the configuration. -/
def setConfig (w : World) (config : List Str) : World := { w with configTop := config }

@[simp] theorem setConfig_configTop (w : World) (config : List Str) :
    (w.setConfig config).configTop = config := rfl
@[simp] theorem setConfig_setConfig (w : World) (config config' : List Str) :
    (w.setConfig config).setConfig config' = w.setConfig config' := rfl
@[simp] theorem setConfig_vty (w : World) (config : List Str) :
    (w.setConfig config).vty = w.vty := rfl
@[simp] theorem setConfig_myvty (w : World) (config : List Str) :
    (w.setConfig config).myvty = w.myvty := rfl
@[simp] theorem setConfig_trace (w : World) (config : List Str) :
    (w.setConfig config).trace = w.trace := rfl

/-- The vty a handler was called with. -/
def vtyOf (w : World) : VtyRef → Vty
  | .vty => w.vty
  | .myvty => w.myvty

@[simp] theorem emit_vtyOf (w : World) (ev : Event) (v : VtyRef) :
    (w.emit ev).vtyOf v = w.vtyOf v := by cases v <;> rfl
@[simp] theorem setConfig_vtyOf (w : World) (config : List Str) (v : VtyRef) :
    (w.setConfig config).vtyOf v = w.vtyOf v := by cases v <;> rfl

/-- Move a vty to a node. -/
def setNode (w : World) (node : Node) : VtyRef → World
  | .vty => { w with vty := { w.vty with node := node } }
  | .myvty => { w with myvty := { w.myvty with node := node } }

@[simp] theorem setNode_configTop (w : World) (node : Node) (v : VtyRef) :
    (w.setNode node v).configTop = w.configTop := by cases v <;> rfl
@[simp] theorem setNode_trace (w : World) (node : Node) (v : VtyRef) :
    (w.setNode node v).trace = w.trace := by cases v <;> rfl

end World

/-- A function of the shell. -/
abbrev Cli (α : Type) := Proc Env World α

namespace Cli

/-- Cause an event. -/
def emit (ev : Event) : Cli Unit := Proc.modify (·.emit ev)

/-- Cause an event the operating system answers. -/
def request {α : Type} (ev : Event) (answer : Env → List Event → α) : Cli α := fun e w =>
  .done (answer e w.trace) (w.emit ev)

/-- `vty_out`, and `printf` to the terminal. -/
def vtyOut (text : Str) : Cli Unit := emit (.out text)

/-- `system`. -/
def system (command : Str) : Cli Int := request (.system command) (·.system · command)

/-- `cmd_execute_system_command`: the program runs in a child, whose status is dropped. -/
def cmdExecuteSystemCommand (command : Str) (argv : List Str) : Cli Int := do
  let forked ← request (.exec command argv) (·.fork ·)
  return if forked then 0 else -1

/-- `fgets` from the terminal. -/
def fgetsStdin : Cli (Option Str) := request .input (·.stdin ·)

/-- `stat (path, &sb) != -1`. -/
def stat (path : Str) : Cli Bool := request (.stat path) (·.stat · path)

/-- `fopen (path, "r")`, with the contents of the file. -/
def openRead (path : Str) : Cli (Option Str) := request (.openRead path) (·.openRead · path)

/-- `fopen (path, "w")`. -/
def openWrite (path : Str) : Cli Bool := request (.openWrite path) (·.openWrite · path)

/-- `fprintf` to a file opened for writing. -/
def fprintf (path text : Str) : Cli Unit := emit (.write path text)

/-- `sprintf` into a buffer of `size` bytes: the text must fit with its NUL. -/
def sprintf (size : Nat) (text : Str) : Cli Str :=
  if text.length < size then pure text else Proc.undefined

/-- `snprintf` into a buffer of `size` bytes: the text is cut. -/
def snprintf (size : Nat) (text : Str) : Str := text.take (size - 1)

/-- `config_del_line (config_top, line)`. -/
def delLine (line : Str) : Cli Unit :=
  Proc.modify fun w => w.setConfig (configDelLine w.configTop line)

/-- `config_del_line_byleft (config_top, line)`. -/
def delLineByleft (line : Str) : Cli Unit :=
  Proc.modify fun w => w.setConfig (configDelLineByleft w.configTop line)

/-- `config_add_line (config_top, line, ...)`. -/
def addLine (line : Str) (args : List Str) : Cli Unit := fun _ w =>
  match configAddLine w.configTop line args with
  | none => .undefined
  | some config => .done () (w.setConfig config)

/-- `ENSURE_CONFIG`: a line read from a file ends here, `rest` follows for a typed one. -/
def ensureConfig (v : VtyRef) (rest : Cli Int) : Cli Int := do
  let w ← Proc.get
  if (w.vtyOf v).type = .file then return cmdSuccess
  rest

section Rules
open Proc
variable {e : Env} {w : World} {α : Type}

@[simp] theorem sat_emit {ev : Event} {Q : Unit → World → Prop} :
    Sat (emit ev) e w Q ↔ Q () (w.emit ev) := Iff.rfl
@[simp] theorem sat_request {ev : Event} {answer : Env → List Event → α} {Q : α → World → Prop} :
    Sat (request ev answer) e w Q ↔ Q (answer e w.trace) (w.emit ev) := Iff.rfl
@[simp] theorem sat_vtyOut {text : Str} {Q : Unit → World → Prop} :
    Sat (vtyOut text) e w Q ↔ Q () (w.emit (.out text)) := Iff.rfl
@[simp] theorem sat_fprintf {path text : Str} {Q : Unit → World → Prop} :
    Sat (fprintf path text) e w Q ↔ Q () (w.emit (.write path text)) := Iff.rfl
@[simp] theorem sat_system {command : Str} {Q : Int → World → Prop} :
    Sat (system command) e w Q ↔ Q (e.system w.trace command) (w.emit (.system command)) := Iff.rfl
@[simp] theorem sat_stat {path : Str} {Q : Bool → World → Prop} :
    Sat (stat path) e w Q ↔ Q (e.stat w.trace path) (w.emit (.stat path)) := Iff.rfl
@[simp] theorem sat_openRead {path : Str} {Q : Option Str → World → Prop} :
    Sat (openRead path) e w Q ↔ Q (e.openRead w.trace path) (w.emit (.openRead path)) := Iff.rfl
@[simp] theorem sat_openWrite {path : Str} {Q : Bool → World → Prop} :
    Sat (openWrite path) e w Q ↔ Q (e.openWrite w.trace path) (w.emit (.openWrite path)) := Iff.rfl
@[simp] theorem sat_fgetsStdin {Q : Option Str → World → Prop} :
    Sat fgetsStdin e w Q ↔ Q (e.stdin w.trace) (w.emit .input) := Iff.rfl
@[simp] theorem sat_cmdExecuteSystemCommand {command : Str} {argv : List Str}
    {Q : Int → World → Prop} : Sat (cmdExecuteSystemCommand command argv) e w Q ↔
      Q (if e.fork w.trace then 0 else -1) (w.emit (.exec command argv)) := Iff.rfl
@[simp] theorem sat_ensureConfig {v : VtyRef} {rest : Cli Int} {Q : Int → World → Prop} :
    Sat (ensureConfig v rest) e w Q ↔ ((w.vtyOf v).type = .file → Q cmdSuccess w) ∧
      ((w.vtyOf v).type ≠ .file → Sat rest e w Q) := by
  simp [ensureConfig]
@[simp] theorem sat_sprintf {size : Nat} {text : Str} {Q : Str → World → Prop} :
    Sat (sprintf size text) e w Q ↔ (text.length < size → Q text w) := by
  unfold sprintf; simp
@[simp] theorem sat_delLine {line : Str} {Q : Unit → World → Prop} :
    Sat (delLine line) e w Q ↔
      Q () (w.setConfig (configDelLine w.configTop line)) := Iff.rfl
@[simp] theorem sat_delLineByleft {line : Str} {Q : Unit → World → Prop} :
    Sat (delLineByleft line) e w Q ↔
      Q () (w.setConfig (configDelLineByleft w.configTop line)) := Iff.rfl
@[simp] theorem sat_addLine {line : Str} {args : List Str} {Q : Unit → World → Prop} :
    Sat (addLine line args) e w Q ↔
      ∀ config, configAddLine w.configTop line args = some config →
        Q () (w.setConfig config) := by
  unfold Sat addLine
  cases configAddLine w.configTop line args <;> simp

@[simp] theorem runs_emit {ev : Event} {Q : Unit → World → Prop} :
    Runs (emit ev) e w Q ↔ Q () (w.emit ev) := Iff.rfl
@[simp] theorem runs_request {ev : Event} {answer : Env → List Event → α} {Q : α → World → Prop} :
    Runs (request ev answer) e w Q ↔ Q (answer e w.trace) (w.emit ev) := Iff.rfl
@[simp] theorem runs_vtyOut {text : Str} {Q : Unit → World → Prop} :
    Runs (vtyOut text) e w Q ↔ Q () (w.emit (.out text)) := Iff.rfl
@[simp] theorem runs_system {command : Str} {Q : Int → World → Prop} :
    Runs (system command) e w Q ↔ Q (e.system w.trace command) (w.emit (.system command)) :=
  Iff.rfl
@[simp] theorem runs_stat {path : Str} {Q : Bool → World → Prop} :
    Runs (stat path) e w Q ↔ Q (e.stat w.trace path) (w.emit (.stat path)) := Iff.rfl
@[simp] theorem runs_ensureConfig {v : VtyRef} {rest : Cli Int} {Q : Int → World → Prop} :
    Runs (ensureConfig v rest) e w Q ↔ ((w.vtyOf v).type = .file → Q cmdSuccess w) ∧
      ((w.vtyOf v).type ≠ .file → Runs rest e w Q) := by
  simp [ensureConfig]
@[simp] theorem runs_sprintf {size : Nat} {text : Str} {Q : Str → World → Prop} :
    Runs (sprintf size text) e w Q ↔ text.length < size ∧ Q text w := by
  unfold sprintf; by_cases h : text.length < size <;> simp [h]
@[simp] theorem runs_delLine {line : Str} {Q : Unit → World → Prop} :
    Runs (delLine line) e w Q ↔
      Q () (w.setConfig (configDelLine w.configTop line)) := Iff.rfl
@[simp] theorem runs_delLineByleft {line : Str} {Q : Unit → World → Prop} :
    Runs (delLineByleft line) e w Q ↔
      Q () (w.setConfig (configDelLineByleft w.configTop line)) := Iff.rfl
@[simp] theorem runs_addLine {line : Str} {args : List Str} {Q : Unit → World → Prop} :
    Runs (addLine line args) e w Q ↔
      ∃ config, configAddLine w.configTop line args = some config ∧
        Q () (w.setConfig config) := by
  unfold Runs addLine
  cases configAddLine w.configTop line args <;> simp

@[simp] theorem wrong_emit {ev : Event} : ¬ Wrong (emit ev) e w := wrong_modify
@[simp] theorem wrong_request {ev : Event} {answer : Env → List Event → α} :
    ¬ Wrong (request ev answer) e w := by simp [Wrong, request]
@[simp] theorem wrong_vtyOut {text : Str} : ¬ Wrong (vtyOut text) e w := wrong_emit
@[simp] theorem wrong_system {command : Str} : ¬ Wrong (system command) e w := wrong_request
@[simp] theorem wrong_stat {path : Str} : ¬ Wrong (stat path) e w := wrong_request
@[simp] theorem wrong_delLine {line : Str} : ¬ Wrong (delLine line) e w := wrong_modify
@[simp] theorem wrong_delLineByleft {line : Str} : ¬ Wrong (delLineByleft line) e w := wrong_modify
@[simp] theorem wrong_sprintf {size : Nat} {text : Str} :
    Wrong (sprintf size text) e w ↔ size ≤ text.length := by
  unfold sprintf; by_cases h : text.length < size <;> simp [h]; omega
@[simp] theorem wrong_addLine {line : Str} {args : List Str} :
    Wrong (addLine line args) e w ↔ configAddLine w.configTop line args = none := by
  unfold Wrong addLine
  cases configAddLine w.configTop line args <;> simp
@[simp] theorem wrong_ensureConfig {v : VtyRef} {rest : Cli Int} :
    Wrong (ensureConfig v rest) e w ↔ (w.vtyOf v).type ≠ .file ∧ Wrong rest e w := by
  simp [ensureConfig]

end Rules

end Cli

end QrWireguard.Vtysh
