import QrWireguard.Vtysh.Vty

/-!
# Common commands

`cmd_common.c`. No command sets the enable password or `host.chpasswd`, so the branches that
depend on them are left out.
-/

namespace QrWireguard.Vtysh
open Cli

/-- `config_terminal`. -/
def configTerminal (v : VtyRef) (_argv : List Str) : Cli Int := do
  Proc.modify (·.setNode .config v)
  return cmdSuccess

/-- `enable`. -/
def enable (v : VtyRef) (_argv : List Str) : Cli Int := do
  Proc.modify (·.setNode .enable v)
  return cmdSuccess

/-- `disable`. -/
def disable (v : VtyRef) (_argv : List Str) : Cli Int := do
  let w ← Proc.get
  if (w.vtyOf v).node = .enable then Proc.modify (·.setNode .view v)
  return cmdSuccess

/-- `config_exit`. -/
def configExit (v : VtyRef) (_argv : List Str) : Cli Int := do
  let w ← Proc.get
  match (w.vtyOf v).node with
  | .view => Proc.exit
  | .enable =>
    Proc.modify (·.setNode .view v)
    return cmdSuccess
  | .config =>
    Proc.modify (·.setNode .enable v)
    return cmdSuccess

/-- `show_version`: lines fixed at compile time. -/
def showVersion (_argv : List Str) : Cli Int := do
  let lines ← Proc.ask fun e _ => e.versionLines
  lines.forM vtyOut
  return cmdSuccess

/-- The common body of `show_cpuinfo`, `show_meminfo` and `show_interruptsinfo`: the first
4096 bytes of a file, which are printed as a string and so must leave room for a NUL. -/
def showFile (path : Str) : Cli Int := do
  match ← openRead path with
  | none => return cmdSuccess
  | some contents =>
    if (cstr contents).length < 4096 then
      vtyOut (cstr contents ++ str "\n")
      return cmdSuccess
    else Proc.undefined

def showCpuinfo (_argv : List Str) : Cli Int := showFile (str "/proc/cpuinfo")
def showMeminfo (_argv : List Str) : Cli Int := showFile (str "/proc/meminfo")
def showInterruptsinfo (_argv : List Str) : Cli Int := showFile (str "/proc/interrupts")

/-- `show_uptime`. -/
def showUptime (_argv : List Str) : Cli Int := do
  let _ ← system (str "uptime")
  return cmdSuccess

/-- `config_list`: the templates of the current node. -/
def configList (v : VtyRef) (_argv : List Str) : Cli Int := do
  let w ← Proc.get
  (cmdNodeVector (w.vtyOf v).node).forM fun cmd => vtyOut (str "  " ++ cmd.string ++ str "\n")
  return cmdSuccess

/-- `config_dump`, printing with `print`. -/
def dumpWith (print : Str → Cli Unit) : Cli Unit := do
  let w ← Proc.get
  let timestr ← Proc.ask fun e w => e.localtime w.trace
  if timestr.isNone then vtyOut (str "Get localtime error\n")
  else print (configDump w.configTop timestr)

/-- `config_write_file`. -/
def configWriteFile (_argv : List Str) : Cli Int := do
  let w ← Proc.get
  match w.hostConfig with
  | none =>
    vtyOut (str "% Can't save to configuration file, using vtysh.\n")
    return cmdWarning
  | some config =>
    if ← openWrite config then
      dumpWith (fprintf config)
      vtyOut (str "Configuration saved SUCCESS \n")
      return cmdSuccess
    else
      vtyOut (str "% Can't open configuration file " ++ config ++ str ".\n")
      return cmdWarning

/-- `config_write_terminal`. -/
def configWriteTerminal (_argv : List Str) : Cli Int := do
  dumpWith vtyOut
  return cmdSuccess

/-- `BUFSIZ` of the C library. -/
abbrev bufsiz : Nat := 1024

/-- `show_startup_config`: each piece read is printed up to its line end. -/
def showStartupConfig (_argv : List Str) : Cli Int := do
  let w ← Proc.get
  match w.hostConfig with
  | none => Proc.undefined
  | some config =>
    match ← openRead config with
    | none =>
      vtyOut (str "% Can't open configuration file [" ++ config ++ str "]\n")
      return cmdWarning
    | some contents =>
      (fgets bufsiz contents).forM fun buf =>
        vtyOut ((cstr buf).takeWhile (fun c => c ≠ '\r' ∧ c ≠ '\n') ++ str "\n")
      return cmdSuccess

/-- The end of `config_hostname`, after `ENSURE_CONFIG`. -/
def configHostnameApply (name : Str) : Cli Int := do
  Proc.modify fun w => { w with hostName := some name }
  emit (.sethostname name)
  let szCmd ← sprintf 1024 (str "uci set system.@system[0].hostname='" ++ name ++ str "'")
  let _ ← system szCmd
  let _ ← system (str "uci commit system")
  let _ ← system (str "/etc/init.d/system reload")
  return cmdSuccess

/-- `config_hostname`. -/
def configHostname (v : VtyRef) : List Str → Cli Int
  | [name] => do
    if !isalpha (firstByte name) then
      vtyOut (str "% Please specify string starting with alphabet\n")
      return cmdWarning
    delLineByleft (str "hostname")
    addLine (str "hostname %s") [name]
    ensureConfig v (configHostnameApply name)
  | _ => Proc.undefined

/-- `config_no_hostname`, built for `NANO_R2S_PLUS`. There is no `ENSURE_CONFIG`. -/
def configNoHostname (_argv : List Str) : Cli Int := do
  Proc.modify fun w => { w with hostName := none }
  delLineByleft (str "hostname ")
  let _ ← system (str "uci set system.@system[0].hostname='nano-r2s-plus'")
  let _ ← system (str "uci commit system")
  let _ ← system (str "/etc/init.d/system reload")
  return cmdSuccess

end QrWireguard.Vtysh
