import QrWireguard.Vtysh.Shell

/-!
# A run of the shell on its file

What `vtysh -e` makes of the configuration file: the file is loaded when the process starts, the
command may write it, and the process writes it before it ends.
-/

namespace QrWireguard.Vtysh
open Cli

/-- `CONFIG_DIR "/" CONFIG_FILE`. -/
def startupConfig : Str := str "/qrwg/config/asmcli.conf"

/-- `main` in eval mode, up to the writing of the file. -/
def evalCommand (configFile evalLine : Str) : Cli Int := do
  let _ ← vtyshLoadConfig configFile
  let _ ← vtyshExecute (str "enable")
  let _ ← vtyshExecute (str "config terminal")
  vtyshExecute evalLine

/-- The contents that the events of a process, the latest first, have given a file, if they have
replaced those it had. -/
def rewritten (e : Env) (path : Str) : List Event → Option Str
  | [] => none
  | .openWrite p :: earlier =>
    if p = path ∧ e.openWrite earlier p = true then some [] else rewritten e path earlier
  | .write p text :: earlier =>
    if p = path then (rewritten e path earlier).map (· ++ text) else rewritten e path earlier
  | _ :: earlier => rewritten e path earlier

/-- The operating system of a process that finds these contents in its configuration file. -/
def Env.withConfig (e : Env) (configFile : Str) (contents : Option Str) : Env :=
  { e with openRead := fun trace path =>
      if path = configFile then contents else e.openRead trace path }

/-- What the command of a process that has loaded these contents writes to the file, if it
writes it. -/
def commandText (e : Env) (configFile evalLine : Str) (contents : Option Str) : Option Str :=
  match evalCommand configFile evalLine (e.withConfig configFile contents)
    (initWorld (some configFile) []) with
  | .done _ w => rewritten e configFile w.trace
  | .exit w => rewritten e configFile w.trace
  | .undefined => none

/-- What the process writes to the file at its end. It does not get there when the command ends
it, and it writes nothing when the file cannot be opened. -/
def finalText (e : Env) (configFile evalLine : Str) (contents : Option Str) : Option Str :=
  match evalCommand configFile evalLine (e.withConfig configFile contents)
    (initWorld (some configFile) []) with
  | .done _ _ =>
    match evalMain configFile evalLine (e.withConfig configFile contents)
      (initWorld (some configFile) []) with
    | .exit w => rewritten e configFile w.trace
    | .done _ _ => none
    | .undefined => none
  | .exit _ => none
  | .undefined => none

/-- The file after a process that has had it for itself. -/
def vtyshEval (e : Env) (configFile evalLine : Str) (contents : Option Str) : Option Str :=
  (finalText e configFile evalLine contents).or
    ((commandText e configFile evalLine contents).or contents)

end QrWireguard.Vtysh
