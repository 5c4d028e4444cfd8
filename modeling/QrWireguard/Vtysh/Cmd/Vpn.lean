import QrWireguard.Vtysh.Vty

/-!
# WireGuard commands

`cmd_vpn.c`. The four forms of `wg peer` share their checks, the deletion by the key and the
shape of the line they store; each adds one more part to the line.
-/

namespace QrWireguard.Vtysh
open Cli

/-- `CONFIG_DIR`. -/
abbrev configDir : Str := str "/qrwg/config"

/-- `PRIVATEKEY_PATH`. -/
abbrev privatekeyPath : Str := str "/qrwg/config/privatekey"

/-- `PUBLICKEY_PATH`. -/
abbrev publickeyPath : Str := str "/qrwg/config/publickey"

/-- `PUBLICKEY_MAX_LEN`. -/
abbrev publickeyMaxLen : Nat := 44

/-- The end of `wg_listenport`, after `ENSURE_CONFIG`. The name of the old firewall rule is
read as a number. -/
def wgListenportApply (port : Str) : Cli Int := do
  let szInfo ← sprintf 1024 (str "wg set wg0 listen-port " ++ port ++ str " > /dev/null 2>&1")
  let _ ← system szInfo
  let _ ← system
    (str "uci show firewall  | grep \"Allow-WG-Inbound\" | awk -F'=' '\x7b print $1 \x7d' | sed s\"/.name//g\" > /tmp/.fwrule")
  let contents ← openRead (str "/tmp/.fwrule")
  let fwrule : Int := match (contents.getD []) |> fgets 256 with
    | [] => -1
    | xbuf :: _ => atoi (cstr xbuf)
  emit (.unlink (str "/tmp/.fwrule"))
  if 0 < fwrule then
    let _ ← system (str "uci delete " ++ itoa fwrule ++ str " > /dev/null 2>&1")
  let _ ← system (str "uci add firewall rule > /dev/null 2>&1")
  let _ ← system (str "uci set firewall.@rule[-1].src=\"*\" > /dev/null 2>&1")
  let _ ← system (str "uci set firewall.@rule[-1].target=\"ACCEPT\" > /dev/null 2>&1")
  let _ ← system (str "uci set firewall.@rule[-1].proto=\"udp\" > /dev/null 2>&1")
  let szInfo ← sprintf 1024
    (str "uci set firewall.@rule[-1].dest_port=\"" ++ port ++ str "\" > /dev/null 2>&1")
  let _ ← system szInfo
  let _ ← system (str "uci set firewall.@rule[-1].name=\"Allow-WG-Inbound\" > /dev/null 2>&1")
  let _ ← system (str "uci commit firewall > /dev/null 2>&1")
  let _ ← system (str "/etc/init.d/firewall restart > /dev/null 2>&1")
  return cmdSuccess

/-- `wg_listenport`. -/
def wgListenport (v : VtyRef) : List Str → Cli Int
  | [port] => do
    let nNum := atoi port
    delLineByleft (snprintf 1024 (str "wg listenport"))
    addLine (snprintf 1024 (str "wg listenport " ++ itoa nNum)) []
    ensureConfig v (wgListenportApply port)
  | _ => Proc.undefined

/-! ## Peers -/

/-- The checks of the `wg peer` handlers, in the order of the source. The first one that
fails prints its text and ends the command with its code. -/
inductive PeerCheck where
  | ok
  | fail (text : Str) (code : Int)

/-- The length and the last byte of a public key. -/
def publicKeyOk (key : Str) : Bool :=
  decide (key.length = publickeyMaxLen) && key.getLast? == some '='

def checkPublicKey (key : Str) : PeerCheck :=
  if publicKeyOk key then .ok
  else .fail (str "% Public key length mismatch \n") cmdErrNothingTodo

def checkAllowedIps (allowedIps : Str) : PeerCheck :=
  if isdigit (firstByte allowedIps) then .ok
  else .fail (str "% Invalid allowed-ips '" ++ allowedIps ++
    str "', Please input the correct value \n") cmdErrNothingTodo

def checkEndpoint (endpoint : Str) : PeerCheck :=
  if 128 < endpoint.length then
    .fail (str "% Invalid endpoint '" ++ endpoint ++ str "', Too long FQDN \n") cmdErrNothingTodo
  else if '/' ∈ endpoint then
    .fail (str "% Invalid endpoint '" ++ endpoint ++ str "', endpoint can't include slash.\n")
      cmdWarning
  else .ok

def checkKeepalive (keepalive : Str) : PeerCheck :=
  if isdigit (firstByte keepalive) ∧ (atoi keepalive < 1 ∨ 1800 < atoi keepalive) then
    .fail (str "% Invalid persistent-keepalive time '" ++ keepalive ++
      str "', Please input the correct value \n") cmdErrNothingTodo
  else .ok

/-- Run the checks up to the first that fails. -/
def peerChecks : List PeerCheck → Cli Int → Cli Int
  | [], rest => rest
  | .ok :: checks, rest => peerChecks checks rest
  | .fail text code :: _, _ => do
    vtyOut text
    return code

/-- The part of the `wg peer` handlers that stores the line and sets the peer: `tail` is what
follows the key in the stored line and in the `wg set` command. -/
def wgPeerStore (v : VtyRef) (key tail : Str) : Cli Int := do
  delLineByleft (snprintf 2048 (str "wg peer " ++ key))
  addLine (snprintf 2048 (str "wg peer " ++ key ++ tail)) []
  ensureConfig v do
    let szInfo ← sprintf 2048
      (str "wg set wg0 private-key " ++ privatekeyPath ++ str " peer " ++ key ++ tail ++
        str " > /dev/null 2>&1")
    let _ ← system szInfo
    return cmdSuccess

/-- The common body of the `wg peer` handlers. -/
def wgPeer (v : VtyRef) (checks : List PeerCheck) (key tail : Str) : Cli Int :=
  peerChecks checks do
    if !(← stat privatekeyPath) then
      let _ ← system
        (str "wg genkey | tee /qrwg/config/privatekey | wg pubkey > /qrwg/config/publickey")
    wgPeerStore v key tail

/-- `wg_peer_public_key`. -/
def wgPeerPublicKey (v : VtyRef) : List Str → Cli Int
  | [key] => wgPeer v [checkPublicKey key] key []
  | _ => Proc.undefined

/-- `wg_peer_allowed_ips`. -/
def wgPeerAllowedIps (v : VtyRef) : List Str → Cli Int
  | [key, allowedIps] =>
    wgPeer v [checkPublicKey key, checkAllowedIps allowedIps] key
      (str " allowed-ips " ++ allowedIps)
  | _ => Proc.undefined

/-- `wg_peer_endpoint`. -/
def wgPeerEndpoint (v : VtyRef) : List Str → Cli Int
  | [key, allowedIps, endpoint] =>
    wgPeer v [checkPublicKey key, checkAllowedIps allowedIps, checkEndpoint endpoint] key
      (str " allowed-ips " ++ allowedIps ++ str " endpoint " ++ endpoint)
  | _ => Proc.undefined

/-- `wg_peer_persistent_keepalive`. -/
def wgPeerPersistentKeepalive (v : VtyRef) : List Str → Cli Int
  | [key, allowedIps, endpoint, keepalive] =>
    wgPeer v
      [checkPublicKey key, checkAllowedIps allowedIps, checkEndpoint endpoint,
        checkKeepalive keepalive] key
      (str " allowed-ips " ++ allowedIps ++ str " endpoint " ++ endpoint ++
        str " persistent-keepalive " ++ keepalive)
  | _ => Proc.undefined

/-- `no_wg_peer`. The key is not checked. -/
def noWgPeer (v : VtyRef) : List Str → Cli Int
  | [key] => do
    delLineByleft (snprintf 1024 (str "wg peer " ++ key))
    ensureConfig v do
      let szInfo ← sprintf 1024 (str "wg set wg0 peer " ++ key ++ str " remove > /dev/null 2>&1")
      let _ ← system szInfo
      return cmdSuccess
  | _ => Proc.undefined

/-! ## Link and keys -/

/-- `wg_link`: every argument but `link-up` takes the link down. -/
def wgLink (v : VtyRef) : List Str → Cli Int
  | [arg] =>
    if arg = str "link-up" then do
      delLineByleft (str "wg link-up")
      delLineByleft (str "wg link-down")
      addLine (str "wg link-up") []
      ensureConfig v do
        let _ ← system (str "ip link set up dev wg0 > /dev/null 2>&1")
        return cmdSuccess
    else do
      delLineByleft (str "wg link-up")
      delLineByleft (str "wg link-down")
      addLine (str "wg link-down") []
      ensureConfig v do
        let _ ← system (str "ip link set down dev wg0 > /dev/null 2>&1")
        return cmdSuccess
  | _ => Proc.undefined

/-- `wg_rekey`. -/
def wgRekey (_argv : List Str) : Cli Int := do
  let _ ← system
    (str "wg genkey | tee /qrwg/config/privatekey | wg pubkey > /qrwg/config/publickey")
  let _ ← system (str "wg set wg0 private-key /qrwg/config/privatekey")
  vtyOut (str "My Private key => [hidden]\n")
  let contents ← openRead publickeyPath
  match fgets 1024 (contents.getD []) with
  | [] => return cmdSuccess
  | xbuf :: _ =>
    vtyOut (str "My Public key => " ++ cstr xbuf)
    return cmdSuccess

/-- `wg_clearkey`. -/
def wgClearkey (_argv : List Str) : Cli Int := do
  let _ ← system (str "rm /qrwg/config/publickey > /dev/null 2>&1")
  let _ ← system (str "rm /qrwg/config/privatekey > /dev/null 2>&1")
  return cmdSuccess

/-- `show_wg`. -/
def showWg (_argv : List Str) : Cli Int := do
  let _ ← system (str "wg show")
  return cmdSuccess

/-- `show_wg_conf`. -/
def showWgConf : List Str → Cli Int
  | [name] => do
    let szInfo ← sprintf 1024 (str "wg showconf " ++ name)
    let _ ← system szInfo
    return cmdSuccess
  | _ => Proc.undefined

end QrWireguard.Vtysh
