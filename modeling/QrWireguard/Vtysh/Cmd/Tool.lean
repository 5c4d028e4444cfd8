import QrWireguard.Vtysh.Vty

/-!
# Tools

`cmd_tool.c`.
-/

namespace QrWireguard.Vtysh
open Cli

/-- `config_sh`. -/
def configSh : List Str → Cli Int
  | [word] => do
    if word ≠ str "shell" then
      vtyOut (str "% Invalid magic value.\n")
      return cmdErrNothingTodo
    let _ ← system (str "/bin/ash")
    return cmdSuccess
  | _ => Proc.undefined

/-- `config_ping`. -/
def configPing : List Str → Cli Int
  | [dest] => do
    let _ ← cmdExecuteSystemCommand (str "ping") [dest]
    return cmdSuccess
  | _ => Proc.undefined

/-- `config_ping_count`. -/
def configPingCount : List Str → Cli Int
  | [dest, num] => do
    if !isdigit (firstByte num) then
      vtyOut (str "% Invalid number '" ++ num ++ str "', Please input the count number\n")
      return cmdErrNothingTodo
    let _ ← cmdExecuteSystemCommand (str "ping") [dest, str "-c", num]
    return cmdSuccess
  | _ => Proc.undefined

/-- `config_ssh`. -/
def configSsh : List Str → Cli Int
  | [dest] => do
    let _ ← cmdExecuteSystemCommand (str "ssh") [dest]
    return cmdSuccess
  | _ => Proc.undefined

/-- `config_ssh_port`. -/
def configSshPort : List Str → Cli Int
  | [dest, port] => do
    let _ ← cmdExecuteSystemCommand (str "ssh") [dest, str "-p", port]
    return cmdSuccess
  | _ => Proc.undefined

/-- `config_reboot`. -/
def configReboot (_argv : List Str) : Cli Int := do
  vtyOut (str "Do you really want to reboot the system? (y/n):\n")
  let answer ← fgetsStdin
  if answer.any (fun xbuf => firstByte xbuf = 'y') then
    vtyOut (str "System will be rebooted, please waiting...\n")
    let _ ← system (str "sync; sync; sleep 3; reboot -f &")
    Proc.exit
  else return cmdSuccess

/-- `config_poweroff`. -/
def configPoweroff (_argv : List Str) : Cli Int := do
  vtyOut (str "Do you really want to power off the system? (y/n):\n")
  let answer ← fgetsStdin
  if answer.any (fun xbuf => firstByte xbuf = 'y') then
    vtyOut (str "System will be shutdowned after 3 seconds...\n")
    let _ ← system (str "sync; sync; sleep 3; poweroff&")
  return cmdSuccess

/-- `config_sysinfo`. -/
def configSysinfo (_argv : List Str) : Cli Int := do
  vtyOut (str "please waiting ...\n")
  let _ ← system (str "top -n 1 | head -n 10")
  return cmdSuccess

/-- `RUN_USER`. -/
abbrev runUser : Str := str "root"

/-- `config_tcpdump`: the dashes of the expression stand for the blanks of a quoted one. -/
def configTcpdump : List Str → Cli Int
  | [interface, expression] =>
    cmdExecuteSystemCommand (str "tcpdump")
      [str "-i", interface, str "-n", str "-Z", runUser, str "-XX",
        expression.map fun c => if c = '-' then ' ' else c]
  | _ => Proc.undefined

/-- `show_date`. -/
def showDate (_argv : List Str) : Cli Int := cmdExecuteSystemCommand (str "date") []

/-- `net_netstat_info`. -/
def netNetstatInfo (_argv : List Str) : Cli Int :=
  cmdExecuteSystemCommand (str "netstat") [str "-n", str "-a"]

end QrWireguard.Vtysh
