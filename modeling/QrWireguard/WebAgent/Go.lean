import QrWireguard.Misc.Inet
import QrWireguard.WebAgent.Fields

/-!
# The Go agent

What `web-agentd` in Go does with a connection: it decodes a request, writes a script that runs
`vtysh`, runs it, and replies.
-/

namespace QrWireguard.WebAgent.Go

open BePlugin

/-- How the calls of the host end: creating the script, writing it, making it executable, and
writing the reply. The process ends itself when one of them fails. -/
structure Host where
  created : Bool
  written : Bool
  executable : Bool
  replied : Bool
  deriving DecidableEq

/-- The verdict on a request, the script that was run, and whether `vtysh -e write` was run. -/
structure Handled where
  ok : Bool
  script : Option Str
  writes : Bool
  deriving DecidableEq

/-- The text of the script. -/
def scriptText (fullcmd : Str) : Str :=
  str "#!/bin/sh\n/usr/bin/qrwg/vtysh -e \"" ++ fullcmd ++ str "\"\n"

/-- `runCommand`, whose result is the script it has run. -/
def runCommand (host : Host) (fullcmd : Str) : Except Fault Str :=
  if host.created && host.written && host.executable then .ok (scriptText fullcmd)
  else .error .exit

/-- A command line, and then `write`. -/
def runScmd (host : Host) (scmd : Str) : Except Fault Handled := do
  let script ← runCommand host scmd
  pure ⟨true, some script, true⟩

/-- The value of an entry: what stands behind its first `:=`, up to the next one, without a
newline at its end. -/
def entryValue (entry : Str) : Except Fault Str := do
  let temp ← index (split (str ":=") entry) 1
  pure (trimSuffix ['\n'] temp)

/-- The value of a field. -/
def fieldValue (rmsg : RequestMessage) (i : Nat) : Except Fault Str := do
  let entry ← index rmsg.keyValue.toList i
  entryValue entry

/-- `strconv.Atoi`, whose error ends the process. -/
def atoi (s : Str) : Except Fault Int :=
  match parseInt s with
  | some n => .ok n
  | none => .error .exit

/-- The start of `doAction`, up to the switch. -/
def decode (rmsg : RequestMessage) : Except Fault Fields := do
  let subcmd ← entryValue rmsg.subCmd
  let countText ← entryValue rmsg.fieldCount
  let count ← atoi countText
  let keyValue ← fillKeyValue (fieldValue rmsg) count
  pure ⟨subcmd, count, keyValue⟩

/-- The text of `net.IP (ipnet.Mask)`. -/
def maskString : IPNet → Str
  | .v4 _ mask => inetNtoa mask
  | .v6 _ mask => ipString mask

/-- The address text and the mask text of a network, whose error ends the process. -/
def networkTexts (s : Str) : Except Fault (Str × Str) :=
  match parseCIDR s with
  | some (_, ipnet) => .ok ((split ['/'] s).head (split_ne_nil _ _), maskString ipnet)
  | none => .error .exit

/-- The switch of `doAction`. -/
def action (host : Host) (subcmd : Str) (keyValue : Vector Str 16) : Except Fault Handled :=
  if subcmd = str "SET_HOST_NAME" then runScmd host (str "hostname " ++ keyValue.get 0)
  else if subcmd = str "REBOOT_SYSTEM" then runScmd host (str "reboot")
  else if subcmd = str "SET_ETHERNET_INTERFACE" then do
    let (ip, mask) ← networkTexts (keyValue.get 0)
    runScmd host (str "ip address " ++ keyValue.get 1 ++ ' ' :: ip ++ ' ' :: mask)
  else if subcmd = str "NO_SET_ETHERNET_INTERFACE" then
    runScmd host (str "no ip address " ++ keyValue.get 0)
  else if subcmd = str "ADD_ROUTE_ENTRY" then
    runScmd host (str "ip route " ++ keyValue.get 1 ++ ' ' :: keyValue.get 2 ++ ' ' :: keyValue.get 3 ++
      ' ' :: keyValue.get 0)
  else if subcmd = str "REMOVE_ROUTE_ENTRY" then
    runScmd host (str "no ip route " ++ keyValue.get 1 ++ ' ' :: keyValue.get 2)
  else if subcmd = str "SET_WIREGUARD_INTERFACE" then do
    let (ip, mask) ← networkTexts (keyValue.get 0)
    runScmd host (str "ip address wg0 " ++ ip ++ ' ' :: mask)
  else if subcmd = str "NO_SET_WIREGUARD_INTERFACE" then runScmd host (str "no ip address wg0")
  else if subcmd = str "SET_WIREGUARD_GLOBAL_CONFIG" then pure ⟨true, none, true⟩
  else if subcmd = str "ADD_WIREGUARD_PEER" then
    runScmd host (str "wg peer " ++ keyValue.get 0 ++ str " allowed-ips " ++ keyValue.get 1 ++
      str " endpoint " ++ keyValue.get 2 ++ str " persistent-keepalive 25")
  else if subcmd = str "REMOVE_WIREGUARD_PEER" then
    runScmd host (str "no wg peer " ++ keyValue.get 0)
  else pure ⟨false, none, false⟩

/-- `doAction`. -/
def doAction (host : Host) (rmsg : RequestMessage) : Except Fault Handled := do
  let fields ← decode rmsg
  action host fields.subcmd fields.keyValue

/-- `send_message`. -/
def sendMessage (host : Host) (handled : Handled) : Except Fault Handled :=
  if host.replied then .ok handled else .error .exit

/-- What a connection delivers: nothing, bytes that gob does not decode, or a request. -/
inductive Received where
  | nothing
  | undecodable
  | request (rmsg : RequestMessage)

/-- The switch of `handleConnection`. -/
def answer (host : Host) (cmd : Str) (rmsg : RequestMessage) : Except Fault Handled :=
  if cmd = str "HELLO" then doAction host rmsg
  else if cmd = str "BYE" then pure ⟨true, none, false⟩
  else pure ⟨false, none, false⟩

/-- `handleConnection`. There is no reply when nothing arrives. -/
def handleConnection (host : Host) : Received → Except Fault (Option Handled)
  | .nothing => .ok none
  | .undecodable => .error .exit
  | .request rmsg => do
    let cmd ← entryValue rmsg.cmd
    let handled ← answer host cmd rmsg
    let handled ← sendMessage host handled
    pure (some handled)

example : handleConnection ⟨true, true, true, true⟩ (.request (helloMessage
    (str "SET_WIREGUARD_INTERFACE") [(str "Addresses", str "10.0.0.1/24")])) =
    .ok (some ⟨true, some (str "#!/bin/sh\n/usr/bin/qrwg/vtysh -e \"ip address wg0 10.0.0.1 255.255.255.0\"\n"),
      true⟩) := by
  decide +kernel

end QrWireguard.WebAgent.Go
