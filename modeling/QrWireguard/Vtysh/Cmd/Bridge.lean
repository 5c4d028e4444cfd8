import QrWireguard.Vtysh.Vty

/-!
# Bridge commands

`cmd_bridge.c`.
-/

namespace QrWireguard.Vtysh
open Cli

/-- `bridge_disable`. -/
def bridgeDisable (v : VtyRef) (_argv : List Str) : Cli Int := do
  delLine (str "bridge disable")
  addLine (str "bridge disable") []
  ensureConfig v (pure cmdSuccess)

/-- `no_bridge_disable`. -/
def noBridgeDisable (v : VtyRef) (_argv : List Str) : Cli Int := do
  delLine (str "bridge disable")
  ensureConfig v (pure cmdSuccess)

/-- The check of one interface in `bridge_add`: no quote, and `ifconfig` knows it. -/
def bridgeIfInvalid (eth : Str) : Cli Bool := do
  let szInfo ← sprintf 1024 (str "ifconfig \"" ++ eth ++ str "\" > /dev/null 2>&1")
  if '"' ∈ eth then return true
  let ret ← system szInfo
  return ret ≠ 0

/-- The end of `bridge_add`, after `ENSURE_CONFIG`. When the interfaces cannot be added the
first line of the bridge is removed again. -/
def bridgeAddApply (num eth1 eth2 : Str) : Cli Int := do
  let szInfo ← sprintf 1024 (str "ifconfig " ++ eth1 ++ str " 0.0.0.0 > /dev/null 2>&1")
  let _ ← system szInfo
  let szInfo ← sprintf 1024 (str "ifconfig " ++ eth2 ++ str " 0.0.0.0 > /dev/null 2>&1")
  let _ ← system szInfo
  let _ ← system (str "brctl addbr brad" ++ num)
  let szInfo ← sprintf 1024
    (str "brctl addif brad" ++ num ++ str " " ++ eth1 ++ str " " ++ eth2 ++ str " > /dev/null 2>&1")
  let ret ← system szInfo
  if ret ≠ 0 then delLineByleft (str "bridge " ++ num)
  else
    let _ ← system (str "brctl setfd brad" ++ num ++ str " 1 > /dev/null 2>&1")
    vtyOut (str "bridge brad" ++ num ++ str " Add Success\n")
  return cmdSuccess

/-- `bridge_add`. -/
def bridgeAdd (v : VtyRef) : List Str → Cli Int
  | [arg, eth1, eth2] => do
    let nNum := atoi arg
    if nNum < 1 ∨ 9 < nNum then
      vtyOut (str "% bridge number " ++ arg ++ str " error\n")
      return cmdWarning
    if ← bridgeIfInvalid eth1 then
      vtyOut (str "% interface " ++ eth1 ++ str " invalid\n")
      return cmdWarning
    if ← bridgeIfInvalid eth2 then
      vtyOut (str "% interface " ++ eth2 ++ str " invalid\n")
      return cmdWarning
    delLineByleft (snprintf 1024 (str "bridge " ++ itoa nNum))
    addLine
      (snprintf 1024 (str "bridge " ++ itoa nNum ++ str " " ++ eth1 ++ str " " ++ eth2)) []
    ensureConfig v (bridgeAddApply (itoa nNum) eth1 eth2)
  | _ => Proc.undefined

/-- `no_bridge_add`. -/
def noBridgeAdd (v : VtyRef) : List Str → Cli Int
  | [arg] => do
    let nNum := atoi arg
    if nNum < 1 ∨ 9 < nNum then
      vtyOut (str "% bridge number " ++ arg ++ str " error\n")
      return cmdWarning
    delLineByleft (snprintf 1024 (str "bridge " ++ itoa nNum))
    ensureConfig v do
      let _ ← system (str "ifconfig brad" ++ itoa nNum ++ str " down> /dev/null 2>&1")
      let _ ← system (str "brctl delbr brad" ++ itoa nNum ++ str " > /dev/null 2>&1")
      vtyOut (str "bridge remove OK!\n")
      return cmdSuccess
  | _ => Proc.undefined

/-- `show_bridge`. -/
def showBridge (_argv : List Str) : Cli Int := do
  let _ ← system (str "brctl show")
  return cmdSuccess

/-- `show_bridge_mac`. -/
def showBridgeMac : List Str → Cli Int
  | [name] =>
    if name.take 4 ≠ str "brad" then do
      vtyOut (str "% invalid bridge name\n")
      return cmdWarning
    else cmdExecuteSystemCommand (str "brctl") [str "showmacs", name]
  | _ => Proc.undefined

end QrWireguard.Vtysh
