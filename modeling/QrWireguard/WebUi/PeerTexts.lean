import QrWireguard.Misc.Sections
import QrWireguard.WebUi.CommandTexts
import QrWireguard.WebUi.WgConf

/-!
# Texts of peers

A client becomes a peer of WireGuard in two ways: by the `wg peer` command that the agent makes of
a message, and by its section in `wg.conf`.
-/

namespace QrWireguard.WebUi

open BePlugin WebAgent

/-- What a text says about a peer. -/
structure Peer where
  publicKey : Str
  allowedIPs : List IPNet
  endpoint : Option Str
  persistentKeepalive : Option Nat
  deriving DecidableEq

/-- One peer: the allowed networks are a set. -/
structure Peer.Same (p q : Peer) : Prop where
  publicKey : p.publicKey = q.publicKey
  allowedIPs : ∀ net, net ∈ p.allowedIPs ↔ net ∈ q.allowedIPs
  endpoint : p.endpoint = q.endpoint
  persistentKeepalive : p.persistentKeepalive = q.persistentKeepalive

/-- A number in decimal digits. -/
def readNumber (s : Str) : Option Nat :=
  if s ≠ [] ∧ s.all isdigit = true then some (decimal s) else none

/-- The network of a CIDR text. -/
def readNet (cidr : Str) : Option IPNet := (parseCIDR cidr).map (·.2)

/-- The networks of a list with commas, all of whose elements have to be CIDR texts. -/
def readNets (s : Str) : Option (List IPNet) := (split [','] s).mapM readNet

/-! ## Commands -/

/-- A character that a shell takes as it is between double quotes. -/
def isQuotable (c : Char) : Bool := c != '"' && c != '$' && c != '\x60' && c != '\\'

/-- The command that a line for the shell hands to `vtysh`. -/
def vtyshText (command : Str) : Option Str :=
  let text := (command.drop (str "/usr/bin/qrwg/vtysh -e \"").length).dropLast
  if command = Cpp.shellText text ∧ text.all isQuotable = true then some text else none

/-- The peer of a `wg peer` command in its longest form. -/
def commandPeer (text : Str) : Option Peer :=
  match words isspace text with
  | [wg, peer, publicKey, allowedIps, nets, endpointWord, endpoint, keepaliveWord, keepalive] =>
    if [wg, peer, allowedIps, endpointWord, keepaliveWord] = [str "wg", str "peer",
        str "allowed-ips", str "endpoint", str "persistent-keepalive"] then do
      let allowedIPs ← readNets nets
      let keepalive ← readNumber keepalive
      return ⟨publicKey, allowedIPs, some endpoint, some keepalive⟩
    else none
  | _ => none

/-- The peer of the first line that the agent hands to a shell. -/
def handledPeer : Except Fault Cpp.Handled → Option Peer
  | .error _ => none
  | .ok handled => (handled.commands.head?.bind vtyshText).bind commandPeer

/-- The peer of the command that the C++ agent makes of a message. -/
def pushedPeer (smsg : RequestMessage) : Option Peer :=
  match handleConnectionCPP smsg with
  | none => none
  | some text => handledPeer (Cpp.onIncomingMsg text)

/-! ## Sections -/

/-- The lines of the template for a client from its heading on. -/
def peerLines (settings : GlobalSetting) (client : Client) : List Str :=
  (wgConfClient settings client).drop 7

/-- The value of a line for a key, and no value for a blank line. -/
def lineEntry (key line : Str) : Option (Option Str) :=
  match lineItems line with
  | some [] => some none
  | some [.entry other value] => if other = key then some (some value) else none
  | _ => none

/-- The peer of a section with one line for each field, as the template lays it out. -/
def sectionPeer (text : Str) : Option Peer :=
  match split ['\n'] text with
  | [heading, publicKey, presharedKey, allowedIPs, keepalive, endpoint] =>
    if lineItems heading = some [.header (str "[Peer]")] then do
      let publicKey ← (lineEntry (str "PublicKey") publicKey).join
      let _ ← lineEntry (str "PresharedKey") presharedKey
      let allowedIPs ← (lineEntry (str "AllowedIPs") allowedIPs).join.bind readNets
      let keepalive ← lineEntry (str "PersistentKeepalive") keepalive
      let keepalive ← keepalive.mapM readNumber
      let endpoint ← lineEntry (str "Endpoint") endpoint
      return ⟨publicKey, allowedIPs, endpoint, keepalive⟩
    else none
  | _ => none

/-- The peer of the section that the template renders for a client. -/
def renderedPeer (settings : GlobalSetting) (client : Client) : Option Peer :=
  sectionPeer (unsplit ['\n'] (peerLines settings client))

section
variable {key value : Str} {settings : GlobalSetting} {client : Client} {p : Peer}

theorem lineEntry_nil (key : Str) : lineEntry key [] = some none := by
  have hnil : lineItems [] = some [] := by decide
  rw [lineEntry, hnil]

theorem lineEntry_entry (hkey : IsKey key) (value : Str) :
    lineEntry key (key ++ str " = " ++ value) = some (some (entryValue value)) := by
  rw [lineEntry, lineItems_entry hkey]
  exact if_pos rfl

theorem lineEntry_templateIf (hkey : IsKey key) (b : Bool) (value : Str) :
    lineEntry key (templateIf b (key ++ str " = " ++ value)) =
      some (if b then some (entryValue value) else none) := by
  cases b with
  | false => exact lineEntry_nil key
  | true => exact lineEntry_entry hkey value

theorem peerLines_eq (settings : GlobalSetting) (h : client.enabled = true) :
    peerLines settings client =
      [str "[Peer]",
        str "PublicKey" ++ str " = " ++ client.publicKey,
        templateIf (client.presharedKey != [])
          (str "PresharedKey" ++ str " = " ++ client.presharedKey),
        str "AllowedIPs" ++ str " = " ++ wgConfAllowedIPs client,
        templateIf (settings.persistentKeepalive != 0)
          (str "PersistentKeepalive" ++ str " = " ++ itoa settings.persistentKeepalive),
        templateIf (client.endpoint != []) (str "Endpoint" ++ str " = " ++ client.endpoint)] := by
  unfold peerLines wgConfClient
  rw [if_pos h]
  rfl

/-- What is read of the section of a client. -/
structure SectionReads (settings : GlobalSetting) (client : Client) (p : Peer) : Prop where
  lines : ∀ text ∈ [client.publicKey, client.presharedKey, wgConfAllowedIPs client,
    client.endpoint], '\n' ∉ text
  publicKey : entryValue client.publicKey = p.publicKey
  allowedIPs : readNets (entryValue (wgConfAllowedIPs client)) = some p.allowedIPs
  keepalive : (if settings.persistentKeepalive != 0 then
    some (entryValue (itoa settings.persistentKeepalive)) else none).mapM readNumber =
      some p.persistentKeepalive
  endpoint : (if client.endpoint != [] then some (entryValue client.endpoint) else none) =
    p.endpoint

theorem newline_mem_entry {text : Str} (hkey : '\n' ∉ key) :
    '\n' ∈ key ++ str " = " ++ text ↔ '\n' ∈ text := by
  simp [hkey, str]

theorem newline_mem_templateIf {text : Str} (hkey : '\n' ∉ key) :
    '\n' ∈ templateIf (text != []) (key ++ str " = " ++ text) ↔ '\n' ∈ text := by
  cases text with
  | nil => simp [templateIf]
  | cons c text => exact newline_mem_entry hkey

/-- A line break in a field makes the section longer. -/
theorem newline_mem_peerLines (settings : GlobalSetting) (h : client.enabled = true) :
    (∀ line ∈ peerLines settings client, '\n' ∉ line) ↔
      ∀ text ∈ [client.publicKey, client.presharedKey, wgConfAllowedIPs client,
        client.endpoint], '\n' ∉ text := by
  have hheading : '\n' ∉ str "[Peer]" := by decide
  have hkeepalive : '\n' ∉ templateIf (settings.persistentKeepalive != 0)
      (str "PersistentKeepalive" ++ str " = " ++ itoa settings.persistentKeepalive) := by
    unfold templateIf
    split
    · rw [newline_mem_entry (by decide)]
      exact not_mem_itoa_of (by decide) (by decide) _
    · exact List.not_mem_nil
  rw [peerLines_eq settings h]
  simp only [List.forall_mem_cons, hheading, hkeepalive, not_false_eq_true, true_and,
    List.not_mem_nil, false_imp_iff, implies_true, and_true]
  rw [newline_mem_entry (by decide), newline_mem_templateIf (by decide),
    newline_mem_entry (by decide), newline_mem_templateIf (by decide)]

theorem sectionPeer_lines (settings : GlobalSetting) (h : client.enabled = true)
    (hlines : ∀ line ∈ peerLines settings client, '\n' ∉ line) :
    split ['\n'] (unsplit ['\n'] (peerLines settings client)) = peerLines settings client := by
  apply split_unsplit_of_not_mem _ hlines
  rw [peerLines_eq settings h]
  exact List.cons_ne_nil _ _

theorem renderedPeer_eq_some (h : client.enabled = true) :
    renderedPeer settings client = some p ↔ SectionReads settings client p := by
  by_cases hlines : ∀ line ∈ peerLines settings client, '\n' ∉ line
  · unfold renderedPeer sectionPeer
    rw [sectionPeer_lines settings h hlines, peerLines_eq settings h]
    dsimp only
    rw [lineEntry_entry ⟨by decide, by decide, by decide, by decide⟩,
      lineEntry_templateIf ⟨by decide, by decide, by decide, by decide⟩,
      lineEntry_entry ⟨by decide, by decide, by decide, by decide⟩,
      lineEntry_templateIf ⟨by decide, by decide, by decide, by decide⟩,
      lineEntry_templateIf ⟨by decide, by decide, by decide, by decide⟩, if_pos (by decide)]
    simp only [Option.bind_eq_bind, Option.join_some, Option.bind_some, Option.bind_eq_some_iff]
    constructor
    · rintro ⟨allowedIPs, hallowed, keepalive, hkeepalive, hpeer⟩
      obtain rfl := Option.some.inj hpeer
      exact ⟨(newline_mem_peerLines settings h).mp hlines, rfl, hallowed, hkeepalive, rfl⟩
    · intro hreads
      refine ⟨_, hreads.allowedIPs, _, hreads.keepalive, ?_⟩
      rw [hreads.publicKey, hreads.endpoint]
      rfl
  · apply iff_of_false
    · intro hread
      have hbroken : ∃ line ∈ peerLines settings client, '\n' ∈ line := by simpa using hlines
      have hlong := length_lt_split_unsplit hbroken
      rw [peerLines_eq settings h] at hlong
      unfold renderedPeer sectionPeer at hread
      rw [peerLines_eq settings h] at hread
      split at hread
      · rename_i hpieces
        rw [hpieces] at hlong
        exact absurd hlong (lt_irrefl _)
      · cases hread
    · intro hreads
      exact hlines ((newline_mem_peerLines settings h).mpr hreads.lines)

end

/-! ## The command of a message -/

/-- The command for a peer. -/
def peerScmd (publicKey allowedIPs endpoint : Str) : Str :=
  str "wg peer " ++ publicKey ++ str " allowed-ips " ++ allowedIPs ++ str " endpoint " ++
    endpoint ++ str " persistent-keepalive 25"

/-- The values that the agent reads for a peer make a command that fits. -/
structure CommandReads (fields : List (Str × Str)) (p : Peer) : Prop where
  reads : Cpp.ReadsAll fields
  short : (Cpp.readValue fields 0).length + (Cpp.readValue fields 1).length +
    (Cpp.readValue fields 2).length ≤ 175
  quotable : (peerScmd (Cpp.readValue fields 0) (Cpp.readValue fields 1)
    (Cpp.readValue fields 2)).all isQuotable = true
  command : commandPeer (peerScmd (Cpp.readValue fields 0) (Cpp.readValue fields 1)
    (Cpp.readValue fields 2)) = some p

section
variable {fields : List (Str × Str)} {p : Peer}

theorem commandPeer_eq_some {text : Str} : commandPeer text = some p ↔ ∃ nets e keepalive,
    words isspace text = [str "wg", str "peer", p.publicKey, str "allowed-ips", nets,
        str "endpoint", e, str "persistent-keepalive", keepalive] ∧
      readNets nets = some p.allowedIPs ∧ p.endpoint = some e ∧
        (readNumber keepalive).map some = some p.persistentKeepalive := by
  unfold commandPeer
  constructor
  · intro h
    split at h
    · rename_i wg peer publicKey allowedIps nets endpointWord e keepaliveWord keepalive hwords
      split at h
      · rename_i hnames
        simp only [List.cons.injEq, and_true] at hnames
        obtain ⟨rfl, rfl, rfl, rfl, rfl⟩ := hnames
        simp only [Option.bind_eq_bind, Option.bind_eq_some_iff] at h
        obtain ⟨allowedIPs, hnets, number, hnumber, hpeer⟩ := h
        obtain rfl := Option.some.inj hpeer
        exact ⟨nets, e, keepalive, hwords, hnets, rfl, by rw [hnumber]; rfl⟩
      · cases h
    · cases h
  · rintro ⟨nets, e, keepalive, hwords, hnets, he, hkeepalive⟩
    obtain ⟨number, hnumber, hp⟩ := Option.map_eq_some_iff.mp hkeepalive
    rw [hwords]
    dsimp only
    rw [if_pos rfl, hnets, hnumber]
    change some (Peer.mk p.publicKey p.allowedIPs (some e) (some number)) = some p
    rw [← he, hp]

theorem vtyshText_shellText (text : Str) :
    vtyshText (Cpp.shellText text) = if text.all isQuotable = true then some text else none := by
  have hinner : ((Cpp.shellText text).drop (str "/usr/bin/qrwg/vtysh -e \"").length).dropLast =
      text := by
    rw [Cpp.shellText, List.append_assoc, List.drop_left]
    exact List.dropLast_concat
  unfold vtyshText
  dsimp only
  rw [hinner]
  simp only [true_and]

theorem handledPeer_cons (ok : Bool) (command : Str) (commands : List Str) :
    handledPeer (.ok ⟨ok, command :: commands⟩) = (vtyshText command).bind commandPeer :=
  rfl

theorem runScmd_peer {publicKey allowedIPs endpoint : Str} {handled : Cpp.Handled} :
    Cpp.runScmd (peerScmd publicKey allowedIPs endpoint) = .ok handled ↔
      publicKey.length + allowedIPs.length + endpoint.length ≤ 175 ∧
        handled = ⟨true, [Cpp.shellText (peerScmd publicKey allowedIPs endpoint),
          str "/usr/bin/qrwg/vtysh -e \"write\""]⟩ := by
  have hlen : (peerScmd publicKey allowedIPs endpoint).length =
      publicKey.length + allowedIPs.length + endpoint.length + 55 := by
    unfold peerScmd
    simp only [List.length_append]
    rw [show (str "wg peer ").length = 8 from rfl, show (str " allowed-ips ").length = 13 from rfl,
      show (str " endpoint ").length = 10 from rfl,
      show (str " persistent-keepalive 25").length = 24 from rfl]
    omega
  rw [Cpp.runScmd_eq_ok, hlen]
  constructor
  · rintro ⟨hshort, rfl⟩
    exact ⟨by omega, rfl⟩
  · rintro ⟨hshort, rfl⟩
    exact ⟨by omega, rfl⟩

theorem action_peer (hlen : fields.length = 3) :
    Cpp.action (str "ADD_WIREGUARD_PEER") (Cpp.readValues fields) =
      Cpp.runScmd (peerScmd (Cpp.readValue fields 0) (Cpp.readValue fields 1)
        (Cpp.readValue fields 2)) := by
  have hcmd : Cpp.vtyshCmd (str "ADD_WIREGUARD_PEER") = some .addWireguardPeer := by decide
  unfold Cpp.action
  rw [hcmd]
  simp only [Cpp.get_readValues, hlen]
  rfl

theorem words_peerScmd {publicKey allowedIPs endpoint : Str}
    (hallowed : IsWord isspace allowedIPs) :
    words isspace (peerScmd publicKey allowedIPs endpoint) =
      str "wg" :: str "peer" :: (words isspace publicKey ++ str "allowed-ips" :: allowedIPs ::
        str "endpoint" :: (words isspace endpoint ++
          [str "persistent-keepalive", str "25"])) := by
  have hscmd : peerScmd publicKey allowedIPs endpoint = str "wg" ++ ' ' :: (str "peer" ++
      ' ' :: (publicKey ++ ' ' :: (str "allowed-ips" ++ ' ' :: (allowedIPs ++
        ' ' :: (str "endpoint" ++ ' ' :: (endpoint ++ ' ' :: (str "persistent-keepalive" ++
          ' ' :: str "25"))))))) := by
    simp [peerScmd, str]
  have hspace : isspace ' ' = true := by decide
  rw [hscmd, words_append_sep (by decide) hspace, words_append_sep (by decide) hspace,
    words_append_cons hspace publicKey, words_append_sep (by decide) hspace,
    words_append_sep hallowed hspace, words_append_sep (by decide) hspace,
    words_append_cons hspace endpoint, words_append_sep (by decide) hspace,
    @words_self _ isspace (str "25") (by decide)]

/-- A command for a peer has nine words when the key and the endpoint are one word each. -/
theorem commandPeer_peerScmd {publicKey allowedIPs endpoint : Str}
    (hkeys : str "allowed-ips" ∉ words isspace publicKey) (hallowed : IsWord isspace allowedIPs)
    (hname : allowedIPs ≠ str "allowed-ips") :
    commandPeer (peerScmd publicKey allowedIPs endpoint) = some p ↔
      words isspace publicKey = [p.publicKey] ∧ readNets allowedIPs = some p.allowedIPs ∧
        (∃ e, words isspace endpoint = [e] ∧ p.endpoint = some e) ∧
          p.persistentKeepalive = some 25 := by
  have hnumber : readNumber (str "25") = some 25 := by decide
  rw [commandPeer_eq_some, words_peerScmd hallowed]
  constructor
  · rintro ⟨nets, e, keepalive, hwords, hnets, he, hkeepalive⟩
    have hrest := (List.cons.inj (List.cons.inj hwords).2).2
    -- the fourth word is the name of the networks, so the key is one word
    cases hkey : words isspace publicKey with
    | nil =>
      rw [hkey] at hrest
      exact absurd (List.cons.inj (List.cons.inj hrest).2).1 hname
    | cons k ks =>
      rw [hkey] at hrest hkeys
      cases ks with
      | cons k' ks =>
        obtain rfl : k' = str "allowed-ips" := (List.cons.inj (List.cons.inj hrest).2).1
        exact absurd (List.mem_cons_of_mem _ List.mem_cons_self) hkeys
      | nil =>
        simp only [List.cons_append, List.nil_append, List.cons.injEq, true_and] at hrest
        obtain ⟨rfl, rfl, hback⟩ := hrest
        obtain ⟨hone, hlast⟩ := @List.append_inj' _ _ _ [e] _ hback rfl
        simp only [List.cons.injEq, true_and, and_true] at hlast
        rw [← hlast, hnumber] at hkeepalive
        exact ⟨rfl, hnets, ⟨e, hone, he⟩, (Option.some.inj hkeepalive).symm⟩
  · rintro ⟨hkey, hnets, ⟨e, hendpoint, he⟩, hkeepalive⟩
    rw [hkey, hendpoint]
    exact ⟨allowedIPs, e, str "25", rfl, hnets, he, by rw [hnumber, hkeepalive]; rfl⟩

/-- The agent makes a command of a message for a peer that is not too long. -/
theorem pushedPeer_eq_some (hlen : fields.length = 3) :
    pushedPeer (helloMessage (str "ADD_WIREGUARD_PEER") fields) = some p ↔
      (unlines (Cpp.messageLines (str "ADD_WIREGUARD_PEER") fields)).length ≤ Cpp.maxPacketSize ∧
        (cstr (unlines (Cpp.messageLines (str "ADD_WIREGUARD_PEER") fields))).length <
          Cpp.maxPacketSize ∧ CommandReads fields p := by
  have hsubcmd : Plain (str "ADD_WIREGUARD_PEER") := plain_of_not_mem (by decide) (.inl (by decide))
  have hnul : '\x00' ∉ str "ADD_WIREGUARD_PEER" := by decide
  unfold pushedPeer
  rw [Cpp.handleConnectionCPP_lines (by omega)]
  dsimp only
  rw [Cpp.onIncomingMsg_request hsubcmd hnul]
  by_cases hlong : Cpp.maxPacketSize <
      (unlines (Cpp.messageLines (str "ADD_WIREGUARD_PEER") fields)).length ∨ Cpp.maxPacketSize ≤
        (cstr (unlines (Cpp.messageLines (str "ADD_WIREGUARD_PEER") fields))).length
  · rw [if_pos hlong]
    apply iff_of_false
    · exact fun h => by cases h
    · rintro ⟨hpacket, hbuffer, -⟩
      omega
  · rw [if_neg hlong]
    rw [not_or, not_lt, not_le] at hlong
    constructor
    · intro h
      cases hdo : Cpp.doAction (cstr (unlines
          (Cpp.messageLines (str "ADD_WIREGUARD_PEER") fields))) with
      | error fault =>
        rw [hdo] at h
        cases h
      | ok handled =>
        rw [hdo] at h
        obtain ⟨hreads, haction⟩ := (Cpp.doAction_request (by omega) hsubcmd hnul).mp hdo
        rw [action_peer hlen, runScmd_peer] at haction
        obtain ⟨hshort, rfl⟩ := haction
        rw [handledPeer_cons, vtyshText_shellText] at h
        split at h
        · rename_i hquotable
          exact ⟨hlong.1, hlong.2, hreads, hshort, hquotable, h⟩
        · cases h
    · rintro ⟨-, -, hreads⟩
      have hdo := (Cpp.doAction_request (by omega) hsubcmd hnul).mpr ⟨hreads.reads, by
        rw [action_peer hlen, runScmd_peer]
        exact ⟨hreads.short, rfl⟩⟩
      rw [hdo, handledPeer_cons, vtyshText_shellText, if_pos hreads.quotable]
      exact hreads.command

end

end QrWireguard.WebUi
