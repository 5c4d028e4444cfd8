import QrWireguard.WebUi.Model
import QrWireguard.Misc.GoNet
import QrWireguard.Misc.GoStr

/-!
# Client configurations

The text that a client downloads. The host and the port of its `Endpoint` line are taken from the
endpoint address of the settings, which is split at every colon.
-/

namespace QrWireguard.WebUi

/-- The host and the port for the clients. -/
def desiredEndpoint (server : Server) (setting : GlobalSetting) : Str × Int :=
  let desiredHost := setting.endpointAddress
  let desiredPort := server.interface.listenPort
  if ':' ∈ desiredHost then
    let pieces := split [':'] desiredHost
    (pieces.getD 0 [], (parseInt (pieces.getD 1 [])).getD desiredPort)
  else (desiredHost, desiredPort)

/-- The `Endpoint` line. -/
def peerEndpoint (server : Server) (setting : GlobalSetting) : Str :=
  let desired := desiredEndpoint server setting
  str "Endpoint = " ++ desired.1 ++ [':'] ++ itoa desired.2 ++ ['\n']

/-- `BuildClientConfig`. -/
def buildClientConfig (client : Client) (server : Server) (setting : GlobalSetting) : Str :=
  let clientAddress := str "Address = " ++ unsplit [','] client.allocatedIPs ++ ['\n']
  let clientPrivateKey := str "PrivateKey = " ++ client.privateKey ++ ['\n']
  let clientDNS :=
    if client.useServerDNS then str "DNS = " ++ unsplit [','] setting.dnsServers ++ ['\n'] else []
  let clientMTU := if 0 < setting.mtu then str "MTU = " ++ itoa setting.mtu ++ ['\n'] else []
  let peerPublicKey := str "PublicKey = " ++ server.keyPair.publicKey ++ ['\n']
  let peerPresharedKey :=
    if client.presharedKey ≠ [] then str "PresharedKey = " ++ client.presharedKey ++ ['\n'] else []
  let peerAllowedIPs := str "AllowedIPs = " ++ unsplit [','] client.allowedIPs ++ ['\n']
  let peerPersistentKeepalive :=
    if 0 < setting.persistentKeepalive then
      str "PersistentKeepalive = " ++ itoa setting.persistentKeepalive ++ ['\n']
    else []
  str "[Interface]\n" ++ clientAddress ++ clientPrivateKey ++ clientDNS ++ clientMTU ++
    str "\n[Peer]\n" ++ peerPublicKey ++ peerPresharedKey ++ peerAllowedIPs ++
    peerEndpoint server setting ++ peerPersistentKeepalive

/-! ## Endpoints -/

/-- A character that a host name may have. -/
def isHostChar (c : Char) : Bool := c != ':' && c != '[' && c != ']'

/-- A host that an endpoint address names. -/
inductive Host where
  | name (text : Str) (ne_nil : text ≠ []) (plain : text.all isHostChar = true)
  | ipv4 (text : Str) (valid : ∃ v4, parseAddr text = some (.inl v4))
  | ipv6 (text : Str) (valid : ∃ v6, parseAddr text = some (.inr v6))

/-- The text of a host. -/
def Host.text : Host → Str
  | name text _ _ => text
  | ipv4 text _ => text
  | ipv6 text _ => text

/-- The host is an IPv6 address. -/
def Host.IsIPv6 : Host → Prop
  | ipv6 _ _ => True
  | _ => False

/-- A decimal port. -/
structure Port where
  text : Str
  ne_nil : text ≠ []
  digits : text.all isdigit = true
  le : decimal text ≤ 65535

/-- A host with a port or without one. -/
structure Endpoint where
  host : Host
  port : Option Port

/-- The usual notation of an endpoint: an IPv6 address stands in brackets before a port. -/
def Endpoint.toText : Endpoint → Str
  | ⟨host, none⟩ => host.text
  | ⟨.ipv6 text _, some port⟩ => str "[" ++ text ++ str "]:" ++ port.text
  | ⟨host, some port⟩ => host.text ++ [':'] ++ port.text

/-- A text without the brackets around it. -/
def unbracket (s : Str) : Str :=
  if s.head? = some '[' ∧ s.getLast? = some ']' then s.tail.dropLast else s

/-- A host and a port, split at the last colon. -/
def splitPort (s : Str) : Option (Str × Str) :=
  match s.reverse.span (· ≠ ':') with
  | (port, _ :: host) => some (unbracket host.reverse, port.reverse)
  | (_, []) => none

/-- The host and the port of an `Endpoint` line. -/
def splitEndpoint (line : Str) : Option (Str × Str) :=
  if str "Endpoint = " <+: line then
    splitPort (trimSuffix ['\n'] (line.drop (str "Endpoint = ").length))
  else none

/-- The port a client has to use: the given one, or that of the server. -/
def Endpoint.portOr (endpoint : Endpoint) (listenPort : Int) : Int :=
  match endpoint.port with
  | some port => decimal port.text
  | none => listenPort

/-- The configuration has an `Endpoint` line that splits into the host and the port. -/
structure CarriesEndpoint (client : Client) (server : Server) (setting : GlobalSetting)
    (endpoint : Endpoint) : Prop where
  emitted : peerEndpoint server setting <:+: buildClientConfig client server setting
  split : splitEndpoint (peerEndpoint server setting) =
    some (endpoint.host.text, itoa (endpoint.portOr server.interface.listenPort))

section
variable {host port s : Str} {server : Server} {setting : GlobalSetting}

theorem splitPort_append (h : ':' ∉ port) :
    splitPort (host ++ [':'] ++ port) = some (unbracket host, port) := by
  have hspan : (host ++ [':'] ++ port).reverse.span (· ≠ ':') =
      (port.reverse, ':' :: host.reverse) := by
    apply span_ne_eq_iff.mpr
    exact ⟨by simp, by rwa [List.mem_reverse]⟩
  unfold splitPort
  rw [hspan]
  dsimp only
  rw [List.reverse_reverse, List.reverse_reverse]

/-- The line splits into the host and the port that were put into it. -/
theorem splitEndpoint_peerEndpoint : splitEndpoint (peerEndpoint server setting) = some
    (unbracket (desiredEndpoint server setting).1, itoa (desiredEndpoint server setting).2) := by
  have hcolon := not_mem_itoa_of (c := ':') (by decide) (by decide)
    (desiredEndpoint server setting).2
  rw [← splitPort_append hcolon]
  unfold splitEndpoint peerEndpoint
  dsimp only
  rw [if_pos (by simp only [List.append_assoc]; exact List.prefix_append _ _)]
  simp only [List.append_assoc, List.drop_left]
  rw [← List.append_assoc, ← List.append_assoc, trimSuffix_append, List.append_assoc]

theorem occurs_peerEndpoint {client : Client} :
    peerEndpoint server setting <:+: buildClientConfig client server setting := ⟨_, _, rfl⟩

theorem unbracket_of_not_mem (h : '[' ∉ s) : unbracket s = s := by
  unfold unbracket
  rw [if_neg]
  rintro ⟨hhead, -⟩
  exact h (List.mem_of_mem_head? hhead)

theorem mem_of_mem_unbracket {c : Char} (h : c ∈ unbracket s) : c ∈ s := by
  unfold unbracket at h
  split at h
  · exact List.mem_of_mem_tail (List.mem_of_mem_dropLast h)
  · exact h

/-- A host other than an IPv6 address has no colons and no brackets. -/
theorem Host.plain_text (host : Host) (h : ¬ host.IsIPv6) :
    ':' ∉ host.text ∧ '[' ∉ host.text := by
  cases host with
  | name text _ plain =>
    rw [List.all_eq_true] at plain
    constructor
    · intro hmem
      exact absurd (plain _ hmem) (by decide)
    · intro hmem
      exact absurd (plain _ hmem) (by decide)
  | ipv4 text valid =>
    obtain ⟨v4, hparse⟩ := valid
    have hchars : ∀ c ∈ text, c = '.' ∨ isdigit c = true := by
      unfold parseAddr at hparse
      split at hparse
      · obtain ⟨ip, hv4, -⟩ := Option.map_eq_some_iff.mp hparse
        exact mem_of_parseIPv4 hv4
      · obtain ⟨ip, -, hv6⟩ := Option.map_eq_some_iff.mp hparse
        cases hv6
      · cases hparse
    constructor
    · intro hmem
      exact absurd (hchars _ hmem) (by decide)
    · intro hmem
      exact absurd (hchars _ hmem) (by decide)
  | ipv6 text valid => exact absurd trivial h

theorem Host.colon_mem_text (host : Host) (h : host.IsIPv6) : ':' ∈ host.text := by
  cases host with
  | name text _ _ => cases h
  | ipv4 text _ => cases h
  | ipv6 text valid =>
    obtain ⟨v6, hparse⟩ := valid
    unfold parseAddr at hparse
    split at hparse
    · obtain ⟨ip, -, hv4⟩ := Option.map_eq_some_iff.mp hparse
      cases hv4
    · rename_i hfind
      exact List.mem_of_find?_eq_some hfind
    · cases hparse

theorem Port.not_mem_text (port : Port) : ':' ∉ port.text := by
  intro hmem
  cases List.all_eq_true.mp port.digits _ hmem

theorem Port.parseInt_text (port : Port) : parseInt port.text = some (decimal port.text : Int) := by
  have hle := port.le
  exact parseInt_of_digits port.ne_nil (List.all_eq_true.mp port.digits) (by omega)

theorem mem_getD {c : Char} {i : Nat} {pieces : List Str} (h : c ∈ pieces.getD i []) :
    ∃ w ∈ pieces, c ∈ w := by
  rw [List.getD_eq_getElem?_getD] at h
  cases hpiece : pieces[i]? with
  | none =>
    rw [hpiece] at h
    cases h
  | some w =>
    rw [hpiece] at h
    exact ⟨w, List.mem_of_getElem? hpiece, h⟩

/-- What stands before the first colon has none. -/
theorem colon_not_mem_desiredEndpoint (server : Server) (setting : GlobalSetting) :
    ':' ∉ (desiredEndpoint server setting).1 := by
  unfold desiredEndpoint
  dsimp only
  split
  · intro hmem
    obtain ⟨w, hw, hcolon⟩ := mem_getD hmem
    exact not_mem_of_mem_split hw hcolon
  · assumption

theorem desiredEndpoint_of_plain {endpoint : Endpoint}
    (haddress : setting.endpointAddress = endpoint.toText) (h : ¬ endpoint.host.IsIPv6) :
    desiredEndpoint server setting =
      (endpoint.host.text, endpoint.portOr server.interface.listenPort) := by
  obtain ⟨hcolon, -⟩ := endpoint.host.plain_text h
  obtain ⟨host, port⟩ := endpoint
  unfold desiredEndpoint
  rw [haddress]
  cases port with
  | none =>
    have htext : Endpoint.toText ⟨host, none⟩ = host.text := by cases host <;> rfl
    rw [htext, if_neg hcolon]
    rfl
  | some port =>
    have htext : Endpoint.toText ⟨host, some port⟩ = host.text ++ ':' :: port.text := by
      cases host with
      | name text _ _ => simp [Endpoint.toText, Host.text]
      | ipv4 text _ => simp [Endpoint.toText, Host.text]
      | ipv6 text _ => exact absurd trivial h
    have hport : ¬ [':'] <:+: port.text := by
      rw [List.singleton_infix_iff]
      exact port.not_mem_text
    rw [htext, if_pos (by simp)]
    dsimp only
    rw [split_append_char hcolon, split_of_not_infix hport]
    change (host.text, (parseInt port.text).getD server.interface.listenPort) = _
    rw [port.parseInt_text]
    rfl

/-- The emitted line carries the endpoint just when the host is no IPv6 address. -/
theorem carriesEndpoint_iff (client : Client) (server : Server) {setting : GlobalSetting}
    {endpoint : Endpoint} (haddress : setting.endpointAddress = endpoint.toText) :
    CarriesEndpoint client server setting endpoint ↔ ¬ endpoint.host.IsIPv6 := by
  constructor
  · intro h hv6
    have hsplit := h.split
    rw [splitEndpoint_peerEndpoint, Option.some.injEq, Prod.mk.injEq] at hsplit
    have hcolon := endpoint.host.colon_mem_text hv6
    rw [← hsplit.1] at hcolon
    exact colon_not_mem_desiredEndpoint server setting (mem_of_mem_unbracket hcolon)
  · intro h
    refine ⟨occurs_peerEndpoint, ?_⟩
    obtain ⟨-, hbracket⟩ := endpoint.host.plain_text h
    rw [splitEndpoint_peerEndpoint, desiredEndpoint_of_plain haddress h,
      unbracket_of_not_mem hbracket]

/-- The server and the settings that `Init` makes for an endpoint address. -/
def initServer : Server :=
  ⟨⟨[], [], .zero⟩, ⟨[str "10.252.1.0/24"], 51820, .zero, [], [], []⟩⟩

def initSetting (endpointAddress : Str) : GlobalSetting :=
  ⟨endpointAddress, [str "1.1.1.1"], 1450, 15, str "0xca6c", str "auto",
    str "/etc/wireguard/wg0.conf", .zero⟩

def hostPort : Endpoint :=
  ⟨.name (str "vpn.lan") (by decide) (by decide),
    some ⟨str "1194", by decide, by decide, by decide⟩⟩

theorem carriesEndpoint_hostPort :
    CarriesEndpoint .zero initServer (initSetting (str "vpn.lan:1194")) hostPort := by
  have haddress : (initSetting (str "vpn.lan:1194")).endpointAddress = hostPort.toText := rfl
  exact (carriesEndpoint_iff .zero initServer haddress).mpr id

theorem not_carriesEndpoint : ¬ ∀ client server setting endpoint,
    setting.endpointAddress = endpoint.toText → CarriesEndpoint client server setting endpoint := by
  intro h
  have hparse : parseAddr (str "2001:db8::1") =
      some (.inr 0x20010db8000000000000000000000001) := by decide +kernel
  have hcarries := h .zero initServer (initSetting (str "2001:db8::1"))
    ⟨.ipv6 (str "2001:db8::1") ⟨_, hparse⟩, none⟩ rfl
  have hsplit := hcarries.split
  rw [splitEndpoint_peerEndpoint] at hsplit
  have hline : desiredEndpoint initServer (initSetting (str "2001:db8::1")) =
      (str "2001", 51820) := by decide +kernel
  rw [hline] at hsplit
  cases hsplit

end

end QrWireguard.WebUi
