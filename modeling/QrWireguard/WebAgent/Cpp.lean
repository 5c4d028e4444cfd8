import QrWireguard.Misc.Inet
import QrWireguard.WebAgent.Fields

/-!
# The C++ agent

What `web-agentd` in C++ does with a message: it splits the text at line breaks and `:=`, builds
a command line, and runs `vtysh` on it through the shell.
-/

namespace QrWireguard.WebAgent.Cpp

/-- `VtyshCmd`. -/
inductive VtyshCmd where
  | setHostName
  | changeAdminPassword
  | rebootSystem
  | setEthernetInterface
  | noSetEthernetInterface
  | addRouteEntry
  | removeRouteEntry
  | setWireguardInterface
  | noSetWireguardInterface
  | setWireguardGlobalConfig
  | addWireguardPeer
  | removeWireguardPeer
  deriving DecidableEq

/-- `initializeVtyshMap`. -/
def initializeVtyshMap : List (Str × VtyshCmd) :=
  [(str "SET_HOST_NAME", .setHostName),
    (str "CHANGE_ADMIN_PASSWORD", .changeAdminPassword),
    (str "REBOOT_SYSTEM", .rebootSystem),
    (str "SET_ETHERNET_INTERFACE", .setEthernetInterface),
    (str "NO_SET_ETHERNET_INTERFACE", .noSetEthernetInterface),
    (str "ADD_ROUTE_ENTRY", .addRouteEntry),
    (str "REMOVE_ROUTE_ENTRY", .removeRouteEntry),
    (str "SET_WIREGUARD_INTERFACE", .setWireguardInterface),
    (str "NO_SET_WIREGUARD_INTERFACE", .noSetWireguardInterface),
    (str "SET_WIREGUARD_GLOBAL_CONFIG", .setWireguardGlobalConfig),
    (str "ADD_WIREGUARD_PEER", .addWireguardPeer),
    (str "REMOVE_WIREGUARD_PEER", .removeWireguardPeer)]

/-- `vtysh_cmd[subcmd]`. A text that is not in the map gets a value that no case has. -/
def vtyshCmd (subcmd : Str) : Option VtyshCmd :=
  (initializeVtyshMap.find? fun entry => entry.1 == subcmd).map (·.2)

/-- `std::stoi`: blanks, a sign and digits. -/
def stoi (s : Str) : Except Fault Int :=
  let (sign, t) : Int × Str :=
    match s.dropWhile isspace with
    | '-' :: t => (-1, t)
    | '+' :: t => (1, t)
    | t => (1, t)
  let digits := t.takeWhile isdigit
  let n := sign * decimal digits
  if digits ≠ [] ∧ -2 ^ 31 ≤ n ∧ n < 2 ^ 31 then .ok n else .error .exception

/-- `0xffffffff << (32 - maskbits)`. The shift instructions of the targets take the amount modulo
the width. -/
def netmask (maskbits : Int) : BitVec 32 := BitVec.allOnes 32 <<< ((32 - maskbits) % 32).toNat

/-- `getIPNetmask`: the address and the mask of a network. -/
def getIPNetmask (netinfo : Str) : Option (Str × Str) :=
  match (cstr netinfo).span (· ≠ '/') with
  | (addr, '/' :: mask) =>
    match inetAton addr with
    | none => none
    | some ip =>
      if 30 < atoi mask then none else some (inetNtoa ip, inetNtoa (netmask (atoi mask)))
  | _ => none

/-- `sprintf` into a buffer of 256 bytes. -/
def sprintf256 (text : Str) : Except Fault Str :=
  if text.length < 256 then .ok text else .error .overflow

/-- The verdict on a request, and the texts that went to the shell. -/
structure Handled where
  ok : Bool
  commands : List Str
  deriving DecidableEq

/-- `runCommand`, up to the call of `system`. -/
def runCommand (buf : Str) : Except Fault Str :=
  sprintf256 (str "/usr/bin/qrwg/vtysh -e \"" ++ buf ++ str "\"")

/-- The end of `doAction`: the command, and then `write`. -/
def runScmd (scmd : Str) : Except Fault Handled := do
  let scmd ← sprintf256 scmd
  let command ← runCommand scmd
  pure ⟨true, [command, str "/usr/bin/qrwg/vtysh -e \"write\""]⟩

/-- The value of a field: its line is cut at `:=`. -/
def fieldValue (l : List Str) (i : Nat) : Except Fault Str := do
  let line ← index l (i + 3)
  index (split (str ":=") line) 1

/-- The start of `doAction`, up to the switch. -/
def decode (s : Str) : Except Fault Fields := do
  let l := split ['\n'] s
  let subcmd ← index l 1
  let fcount ← index l 2
  let countText ← index (split (str ":=") fcount) 1
  let count ← stoi countText
  let keyValue ← fillKeyValue (fieldValue l) count
  let name ← index (split (str ":=") subcmd) 1
  pure ⟨name, count, keyValue⟩

/-- The switch of `doAction`. -/
def action (subcmd : Str) (keyValue : Vector Str 16) : Except Fault Handled :=
  match vtyshCmd subcmd with
  | some .setHostName => runScmd (str "hostname " ++ keyValue.get 0)
  | some .rebootSystem => runScmd (str "reboot")
  | some .setEthernetInterface =>
    match getIPNetmask (keyValue.get 0) with
    | some (ip, mask) =>
      runScmd (str "ip address " ++ keyValue.get 1 ++ ' ' :: ip ++ ' ' :: mask)
    | none => pure ⟨false, []⟩
  | some .noSetEthernetInterface => runScmd (str "no ip address " ++ keyValue.get 0)
  | some .addRouteEntry =>
    runScmd (str "ip route " ++ keyValue.get 1 ++ ' ' :: keyValue.get 2 ++ ' ' :: keyValue.get 3 ++
      ' ' :: keyValue.get 0)
  | some .removeRouteEntry => runScmd (str "no ip route " ++ keyValue.get 1 ++ ' ' :: keyValue.get 2)
  | some .setWireguardInterface =>
    match getIPNetmask (keyValue.get 0) with
    | some (ip, mask) => runScmd (str "ip address wg0 " ++ ip ++ ' ' :: mask)
    | none => pure ⟨false, []⟩
  | some .noSetWireguardInterface => runScmd (str "no ip address wg0")
  | some .setWireguardGlobalConfig => pure ⟨true, []⟩
  | some .addWireguardPeer =>
    runScmd (str "wg peer " ++ keyValue.get 0 ++ str " allowed-ips " ++ keyValue.get 1 ++
      str " endpoint " ++ keyValue.get 2 ++ str " persistent-keepalive 25")
  | some .removeWireguardPeer => runScmd (str "no wg peer " ++ keyValue.get 0)
  | some .changeAdminPassword => pure ⟨false, []⟩
  | none => pure ⟨false, []⟩

/-- `doAction`. -/
def doAction (s : Str) : Except Fault Handled := do
  let fields ← decode s
  action fields.subcmd fields.keyValue

/-- `MAX_PACKET_SIZE`. -/
def maxPacketSize : Nat := 4096

/-- `onIncomingMsg_basedSocket`. The message is copied into a buffer of zeros and read from there
as a string, which a message without a NUL leaves no end when it fills the buffer. -/
def onIncomingMsg (msg : Str) : Except Fault Handled :=
  if maxPacketSize < msg.length ∨ maxPacketSize ≤ (cstr msg).length then .error .overflow
  else do
    let s := cstr msg
    let first ← index (split ['\n'] s) 0
    let cmd ← index (split (str ":=") first) 1
    if cmd = str "HELLO" then doAction s
    else if cmd = str "BYE" then pure ⟨true, []⟩
    else pure ⟨false, []⟩

example : onIncomingMsg (str "cmd:=HELLO\nsubcmd:=SET_WIREGUARD_INTERFACE\nfield_count:=2\nAddresses:=10.0.0.1/24\nListenPort:=51820\n") =
    .ok ⟨true, [str "/usr/bin/qrwg/vtysh -e \"ip address wg0 10.0.0.1 255.255.255.0\"",
      str "/usr/bin/qrwg/vtysh -e \"write\""]⟩ := by
  decide +kernel

end QrWireguard.WebAgent.Cpp
