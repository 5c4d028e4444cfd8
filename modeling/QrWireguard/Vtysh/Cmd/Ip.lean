import QrWireguard.Vtysh.Vty

/-!
# Address, route and name server commands

`cmd_ip.c`.
-/

namespace QrWireguard.Vtysh
open Cli

/-- `show_ip_address`. -/
def showIpAddress (_argv : List Str) : Cli Int := cmdExecuteSystemCommand (str "ip") [str "addr"]

/-- `show_ip_config`. -/
def showIpConfig (_argv : List Str) : Cli Int :=
  cmdExecuteSystemCommand (str "ifconfig") [str "-a"]

/-- `show_ip_config_name`. -/
def showIpConfigName : List Str → Cli Int
  | [name] => cmdExecuteSystemCommand (str "ifconfig") [name]
  | _ => Proc.undefined

/-- `show_ip_route`. -/
def showIpRoute (_argv : List Str) : Cli Int := cmdExecuteSystemCommand (str "route") [str "-n"]

/-- The interfaces the commands take: `lan`, `wan`, and what starts with `wg0` or `wg1`. -/
def supportedInterface (name : Str) : Bool :=
  name == str "lan" || name == str "wan" || (str "wg0").isPrefixOf name ||
    (str "wg1").isPrefixOf name

/-- The refusal of any other interface. -/
def notSupportedInterface (name : Str) : Cli Int := do
  vtyOut (str "% Not supported interface(" ++ name ++ str ").\n")
  return cmdWarning

/-- `system` on texts printed into a buffer of 1024 bytes, one after the other. -/
def systemLines (lines : List Str) : Cli Unit :=
  lines.forM fun text => do
    let line ← sprintf 1024 text
    let _ ← system line

/-- The `uci` commands of `ip_address`, which only `lan` and `wan` have. -/
def ipAddressUci (name addr mask : Str) : List Str :=
  if name = str "lan" then
    [str "uci set network.lan.proto='static' > /dev/null 2>&1",
      str "uci set network.lan.ipaddr='" ++ addr ++ str "' > /dev/null 2>&1",
      str "uci set network.lan.netmask='" ++ mask ++ str "' > /dev/null 2>&1",
      str "uci commit network > /dev/null 2>&1"]
  else if name = str "wan" then
    [str "uci set network.wan.proto='static' > /dev/null 2>&1",
      str "uci set network.wan.ipaddr='" ++ addr ++ str "' > /dev/null 2>&1",
      str "uci set network.wan.netmask='" ++ mask ++ str "' > /dev/null 2>&1",
      str "uci commit network > /dev/null 2>&1",
      str "/etc/init.d/network restart > /dev/null 2>&1"]
  else []

/-- The hint after a change of the `lan` address. -/
def rebootHint (name : Str) : Cli Unit :=
  if name = str "lan" then
    vtyOut (str "You should reboot the system after 'write' to apply your changes.\n")
  else pure ()

/-- The end of `ip_address`, after `ENSURE_CONFIG`. -/
def ipAddressApply (name addr mask : Str) : Cli Int := do
  systemLines (ipAddressUci name addr mask)
  let _ ← cmdExecuteSystemCommand (str "ifconfig") [name, addr, str "netmask", mask]
  rebootHint name
  return cmdSuccess

/-- `ip_address`. -/
def ipAddress (v : VtyRef) : List Str → Cli Int
  | [name, addr, mask] => do
    if !supportedInterface name then notSupportedInterface name
    else
      let line ← sprintf 1024 (str "ip address " ++ name)
      delLineByleft line
      let line ← sprintf 1024 (str "ip address " ++ name ++ str " " ++ addr ++ str " " ++ mask)
      addLine line []
      ensureConfig v (ipAddressApply name addr mask)
  | _ => Proc.undefined

/-- The `uci` commands of `no_ip_address`. -/
def noIpAddressUci (name : Str) : List Str :=
  if name = str "lan" then
    [str "uci delete network.lan.proto > /dev/null 2>&1",
      str "uci delete network.lan.ipaddr > /dev/null 2>&1",
      str "uci delete network.lan.netmask > /dev/null 2>&1",
      str "uci commit network > /dev/null 2>&1"]
  else if name = str "wan" then
    [str "uci delete network.wan.proto > /dev/null 2>&1",
      str "uci delete network.wan.ipaddr > /dev/null 2>&1",
      str "uci delete network.wan.netmask > /dev/null 2>&1",
      str "uci commit network > /dev/null 2>&1",
      str "/etc/init.d/network restart > /dev/null 2>&1"]
  else []

/-- The end of `no_ip_address`, after the line is removed. -/
def noIpAddressApply (name : Str) : Cli Int := do
  systemLines (noIpAddressUci name)
  let _ ← cmdExecuteSystemCommand (str "ifconfig") [name, str "down"]
  rebootHint name
  return cmdSuccess

/-- `no_ip_address`. It asks first, also when the line comes from a file; without an answer
it goes on. -/
def noIpAddress : List Str → Cli Int
  | [name] => do
    if !supportedInterface name then notSupportedInterface name
    else
      vtyOut (str "Do you really want to down the ip address ? (y/n):\n")
      let answer ← fgetsStdin
      if answer.any (fun line => firstByte line ≠ 'y') then
        vtyOut (str "no ip address " ++ name ++ str " cancelled.\n")
        return cmdSuccess
      let line ← sprintf 1024 (str "ip address " ++ name)
      delLineByleft line
      noIpAddressApply name
  | _ => Proc.undefined

/-- The end of `ip_address_dhcp`, after `ENSURE_CONFIG`. -/
def ipAddressDhcpApply : Cli Int := do
  systemLines
    [str "uci delete network.wan.ipaddr > /dev/null 2>&1",
      str "uci delete network.wan.netmask > /dev/null 2>&1",
      str "uci set network.wan.proto=dhcp > /dev/null 2>&1",
      str "uci commit network > /dev/null 2>&1",
      str "/etc/init.d/network restart > /dev/null 2>&1"]
  return cmdSuccess

/-- `ip_address_dhcp`. -/
def ipAddressDhcp (v : VtyRef) : List Str → Cli Int
  | [name] => do
    if name ≠ str "wan" then notSupportedInterface name
    else
      let line ← sprintf 1024 (str "ip address " ++ name)
      delLineByleft line
      let line ← sprintf 1024 (str "ip address " ++ name ++ str " dhcp")
      addLine line []
      ensureConfig v ipAddressDhcpApply
  | _ => Proc.undefined

/-- The end of `ip_route`, after `ENSURE_CONFIG`. -/
def ipRouteApply (dest mask gateway name : Str) : Cli Int := do
  systemLines
    [str "uci add network route > /dev/null 2>&1",
      str "uci set network.@route[-1].interface='" ++ name ++ str "' > /dev/null 2>&1",
      str "uci set network.@route[-1].target='" ++ dest ++ str "' > /dev/null 2>&1",
      str "uci set network.@route[-1].netmask='" ++ mask ++ str "' > /dev/null 2>&1",
      str "uci set network.@route[-1].gateway='" ++ gateway ++ str "' > /dev/null 2>&1",
      str "uci commit network > /dev/null 2>&1",
      str "/etc/init.d/network restart > /dev/null 2>&1"]
  return cmdSuccess

/-- `ip_route`. -/
def ipRoute (v : VtyRef) : List Str → Cli Int
  | [dest, mask, gateway, name] => do
    if !supportedInterface name then notSupportedInterface name
    else
      let line ← sprintf 1024
        (str "ip route " ++ dest ++ str " " ++ mask ++ str " " ++ gateway ++ str " " ++ name)
      delLine line
      addLine line []
      ensureConfig v (ipRouteApply dest mask gateway name)
  | _ => Proc.undefined

/-- The end of `no_ip_route`, after the line is removed. -/
def noIpRouteApply : Cli Int := do
  systemLines
    [str "uci delete network.@route[-1] > /dev/null 2>&1",
      str "uci commit network > /dev/null 2>&1",
      str "/etc/init.d/network restart > /dev/null 2>&1"]
  return cmdSuccess

/-- `no_ip_route`. There is no `ENSURE_CONFIG`. -/
def noIpRoute : List Str → Cli Int
  | [dest, mask] => do
    let line ← sprintf 1024 (str "ip route " ++ dest ++ str " " ++ mask)
    delLineByleft line
    noIpRouteApply
  | _ => Proc.undefined

/-- Write the lines of `/etc/resolv.conf`. -/
def writeResolvConf (lines : List Str) : Cli Int := do
  if ← openWrite (str "/etc/resolv.conf") then
    lines.forM (fprintf (str "/etc/resolv.conf"))
    return cmdSuccess
  else
    vtyOut (str "open the resolv.conf error\n")
    return cmdErrNothingTodo

/-- `config_dns`. -/
def configDns (v : VtyRef) : List Str → Cli Int
  | [first, second] => do
    delLineByleft (str "nameserver")
    addLine (str "nameserver %s %s") [first, second]
    ensureConfig v <| writeResolvConf
      [str "nameserver " ++ first ++ str "\n", str "nameserver " ++ second ++ str "\n"]
  | _ => Proc.undefined

/-- `config_no_dns`. -/
def configNoDns (v : VtyRef) (_argv : List Str) : Cli Int := do
  delLineByleft (str "nameserver")
  ensureConfig v (writeResolvConf [str "nameserver 127.0.0.1\n"])

end QrWireguard.Vtysh
