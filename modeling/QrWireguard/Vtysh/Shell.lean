import QrWireguard.Vtysh.Cmd.Bridge
import QrWireguard.Vtysh.Cmd.Common
import QrWireguard.Vtysh.Cmd.Fw
import QrWireguard.Vtysh.Cmd.Ip
import QrWireguard.Vtysh.Cmd.Tool
import QrWireguard.Vtysh.Cmd.Vpn

/-!
# The shell

`vtysh.c`, the call of a handler at the end of `cmd_execute_command`, and the eval mode of
`main`. A C string ends at its first NUL, so a line is cut there.
-/

namespace QrWireguard.Vtysh
open Cli

/-- The handler of a command. -/
def call (func : CmdFunc) (v : VtyRef) (argv : List Str) : Cli Int :=
  match func with
  | .bridgeDisable => bridgeDisable v argv
  | .noBridgeDisable => noBridgeDisable v argv
  | .bridgeAdd => bridgeAdd v argv
  | .noBridgeAdd => noBridgeAdd v argv
  | .showBridge => showBridge argv
  | .showBridgeMac => showBridgeMac argv
  | .configTerminal => configTerminal v argv
  | .enable => enable v argv
  | .disable => disable v argv
  | .configExit => configExit v argv
  | .showVersion => showVersion argv
  | .showCpuinfo => showCpuinfo argv
  | .showMeminfo => showMeminfo argv
  | .showInterruptsinfo => showInterruptsinfo argv
  | .showUptime => showUptime argv
  | .configList => configList v argv
  | .configWriteFile => configWriteFile argv
  | .configWriteTerminal => configWriteTerminal argv
  | .showStartupConfig => showStartupConfig argv
  | .configHostname => configHostname v argv
  | .configNoHostname => configNoHostname argv
  | .configSh => configSh argv
  | .configPing => configPing argv
  | .configPingCount => configPingCount argv
  | .configSsh => configSsh argv
  | .configSshPort => configSshPort argv
  | .configReboot => configReboot argv
  | .configPoweroff => configPoweroff argv
  | .configSysinfo => configSysinfo argv
  | .configTcpdump => configTcpdump argv
  | .showDate => showDate argv
  | .netNetstatInfo => netNetstatInfo argv
  | .showIpAddress => showIpAddress argv
  | .showIpConfig => showIpConfig argv
  | .showIpConfigName => showIpConfigName argv
  | .showIpRoute => showIpRoute argv
  | .ipAddress => ipAddress v argv
  | .noIpAddress => noIpAddress argv
  | .ipAddressDhcp => ipAddressDhcp v argv
  | .ipRoute => ipRoute v argv
  | .noIpRoute => noIpRoute argv
  | .configDns => configDns v argv
  | .configNoDns => configNoDns v argv
  | .sfirewallNatPortmap => sfirewallNatPortmap v argv
  | .noSfirewallNatPortmap => noSfirewallNatPortmap v argv
  | .sfirewallNatPortmapApply => sfirewallNatPortmapApply argv
  | .sfirewallFilterRules => sfirewallFilterRules v argv
  | .noSfirewallFilterRules => noSfirewallFilterRules v argv
  | .sfirewallFilterRulesApply => sfirewallFilterRulesApply argv
  | .showSfirewall => showSfirewall argv
  | .wgListenport => wgListenport v argv
  | .wgPeerPublicKey => wgPeerPublicKey v argv
  | .wgPeerAllowedIps => wgPeerAllowedIps v argv
  | .wgPeerEndpoint => wgPeerEndpoint v argv
  | .wgPeerPersistentKeepalive => wgPeerPersistentKeepalive v argv
  | .noWgPeer => noWgPeer v argv
  | .wgLink => wgLink v argv
  | .wgRekey => wgRekey argv
  | .wgClearkey => wgClearkey argv
  | .showWg => showWg argv
  | .showWgConf => showWgConf argv

/-- `cmd_execute_command` (by completion) and `cmd_execute_command_strict` (by string). -/
def cmdExecute (filter : Filter) (vline : List Str) (v : VtyRef) : Cli Int := do
  let w ← Proc.get
  match cmdLookup filter (cmdNodeVector (w.vtyOf v).node) vline with
  | .error code => return code
  | .run e argv => call e.func v argv
  | .undefined => Proc.undefined

/-- `cmd_execute_command`. -/
abbrev cmdExecuteCommand (vline : List Str) (v : VtyRef) : Cli Int :=
  cmdExecute .byCompletion vline v

/-- `cmd_execute_command_strict`. -/
abbrev cmdExecuteCommandStrict (vline : List Str) (v : VtyRef) : Cli Int :=
  cmdExecute .byString vline v

/-- `vtysh_execute_func`. -/
def vtyshExecuteFunc (line : Str) : Cli Int := do
  match cmdMakeStrvec (cstr line) with
  | none => return -1
  | some vline =>
    let ret ← cmdExecuteCommand vline .vty
    if ret = cmdErrAmbiguous then vtyOut (str "% Ambiguous command.\n")
    else if ret = cmdErrNoMatch then vtyOut (str "% Unknown command.\n")
    else if ret = cmdErrIncomplete then vtyOut (str "% Command incomplete.\n")
    return ret

/-- `vtysh_execute`, in a node other than `AUTH_ENABLE_NODE`. -/
def vtyshExecute (line : Str) : Cli Int := vtyshExecuteFunc line

/-- `VTY_BUFSIZ`. -/
abbrev vtyBufsiz : Nat := 512

/-- The second try of `vtysh_config_from_file`, in `CONFIG_NODE`. -/
def configFromFileRetry (vline : List Str) : Cli Int := do
  let _ ← vtyshExecute (str "end")
  let _ ← vtyshExecute (str "configure terminal")
  Proc.modify (·.setNode .config .myvty)
  cmdExecuteCommandStrict vline .myvty

/-- The `switch` of `vtysh_config_from_file`. No handler returns `CMD_SUCCESS_DAEMON`. -/
def configFromFileReport (buf : Str) (ret : Int) : Cli Unit :=
  if ret = cmdErrAmbiguous then vtyOut (str "% Ambiguous command.\n")
  else if ret = cmdErrNoMatch then vtyOut (str "% Unknown command: " ++ cstr buf)
  else if ret = cmdErrIncomplete then vtyOut (str "% Command incomplete.\n")
  else pure ()

/-- The execution of the words of a line in `vtysh_config_from_file`. -/
def configFromFileWords (buf : Str) : Option (List Str) → Cli Unit
  | none => pure ()
  | some vline => do
    let ret ← cmdExecuteCommandStrict vline .myvty
    if ret ≠ cmdSuccess ∧ ret ≠ cmdSuccessDaemon ∧ ret ≠ cmdWarning then
      configFromFileReport buf (← configFromFileRetry vline)
    else configFromFileReport buf ret

/-- One round of the loop of `vtysh_config_from_file`, with the line read into `buf`. -/
def configFromFileLine (buf : Str) : Cli Unit := do
  if firstByte buf = '#' then return ()
  if firstByte buf = '!' then Proc.modify (·.setNode .config .myvty)
  configFromFileWords buf (cmdMakeStrvec (cstr buf))

/-- The loop of `vtysh_config_from_file`. -/
def configFromLines : List Str → Cli Unit
  | [] => pure ()
  | buf :: lines => do
    configFromFileLine buf
    configFromLines lines

/-- `vtysh_config_from_file`, on a file with these contents. -/
def configFromContents (contents : Str) : Cli Unit := configFromLines (fgets vtyBufsiz contents)

/-- `vtysh_config_from_file` with the vty `vtysh_load_config` or `vtysh_boot_config` makes. -/
def vtyshConfigFromFile (type : VtyType) (filename : Str) : Cli Int := do
  Proc.modify fun w => { w with myvty := ⟨type, .config⟩ }
  match ← openRead filename with
  | none => return -1
  | some contents =>
    configFromContents contents
    return cmdSuccess

/-- `vtysh_load_config`. -/
def vtyshLoadConfig (filename : Str) : Cli Int := vtyshConfigFromFile .file filename

/-- `vtysh_boot_config`. -/
def vtyshBootConfig (filename : Str) : Cli Int := vtyshConfigFromFile .shell filename

/-- The memory of the shell when `main` has initialised it. -/
def initWorld (hostConfig : Option Str) (trace : List Event) : World where
  configTop := []
  hostName := none
  hostConfig := hostConfig
  vty := ⟨.shell, .view⟩
  myvty := ⟨.file, .config⟩
  trace := trace

/-- `main` in eval mode, after the initialisation: load the file, execute one line and write
the file. -/
def evalMain (configFile evalLine : Str) : Cli Int := do
  let _ ← vtyshLoadConfig configFile
  let _ ← vtyshExecute (str "enable")
  let _ ← vtyshExecute (str "config terminal")
  let _ ← vtyshExecute evalLine
  if ← openWrite configFile then
    dumpWith (fprintf configFile)
    Proc.exit
  else return cmdWarning

end QrWireguard.Vtysh
