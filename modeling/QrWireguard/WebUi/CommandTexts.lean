import QrWireguard.WebAgent.Overflow
import QrWireguard.WebUi.Messages

/-!
# Lengths of command texts

Nothing on the way from a form of the web UI to the buffers of the C++ agent limits the length of
a text. The texts of a record fit just when the record keeps them short.
-/

namespace QrWireguard.WebUi

open BePlugin WebAgent

/-- The C++ agent formats every text for a message into its buffer without an overflow, and the
text of the message is shorter than a packet may be. -/
def TextsFit (smsg : RequestMessage) : Prop :=
  ∀ text, handleConnectionCPP smsg = some text →
    text.length < Cpp.maxPacketSize ∧ Cpp.onIncomingMsg text ≠ .error .overflow

/-- The public key of a new client: the one of its body, or the one of a new key pair. -/
def newPublicKey (derive : Key → Key) (env : Env) (body : Client) : Str :=
  if body.publicKey = [] then (env.privateKey.map fun key => (derive key).toText).getD []
  else body.publicKey

/-- The fields of the message for a peer. -/
def peerFields (publicKey : Str) (client : Client) : List (Str × Str) :=
  [(str "PublicKey", publicKey),
    (str "AllowedIPs",
      if client.allowedIPs = [] then str "0.0.0.0/0" else unsplit [','] client.allowedIPs),
    (str "Endpoint", client.endpoint)]

/-- The texts of fields, and how long they are together. -/
def textLength (fields : List (Str × Str)) : Nat := (fields.map (·.2.length)).sum

/-- How long a message is without the texts of its fields. -/
def frameLength (subcmd : Str) (keys : List Str) : Nat :=
  34 + subcmd.length + (natDigits keys.length).length + (keys.map (·.length + 3)).sum

/-- The texts of a peer leave room in the packet and, as far as the agent reads them, on the
command line. -/
structure PeerShort (fields : List (Str × Str)) : Prop where
  packet : textLength fields ≤ 4006
  command : Cpp.ReadsAll fields → (Cpp.readValue fields 0).length +
    (Cpp.readValue fields 1).length + (Cpp.readValue fields 2).length ≤ 175

namespace RecordRequest

/-- The fields of the message of a request. -/
def fields (derive : Key → Key) : RecordRequest → List (Str × Str)
  | newClient env body => peerFields (newPublicKey derive env body) body
  | updateClient _ body => peerFields body.publicKey body
  | wireGuardServerInterfaces _ body =>
    [(str "Addresses", body.addresses.headD []), (str "ListenPort", itoa body.listenPort)]
  | globalSettingSubmit _ body =>
    [(str "EndpointAddress", body.endpointAddress), (str "MTU", itoa body.mtu),
      (str "PersistentKeepalive", itoa body.persistentKeepalive)]

/-- The texts of a request are short. -/
def TextsShort (derive : Key → Key) (r : RecordRequest) : Prop :=
  match r with
  | newClient _ _ => PeerShort (r.fields derive)
  | updateClient _ _ => PeerShort (r.fields derive)
  | wireGuardServerInterfaces _ _ => textLength (r.fields derive) ≤ 4012
  | globalSettingSubmit _ _ => textLength (r.fields derive) ≤ 3987

end RecordRequest

/-- The message of a request has its fields. -/
theorem message_eq_fields {derive : Key → Key} {db : Db} {r : RecordRequest} {smsg : RequestMessage}
    (h : ((r.prog derive).run db).1.message = some smsg) :
    smsg = helloMessage r.subcmd (r.fields derive) := by
  cases r with
  | newClient env body =>
    rcases (newClient_commits derive env body).run db with ⟨hgive, -⟩ | ⟨f, hf, hrun⟩
    · rw [RecordRequest.prog, hgive.2] at h
      cases h
    · obtain ⟨privateKey, publicKey, presharedKey, -, hpair, -, rfl⟩ := hf
      rw [RecordRequest.prog, hrun] at h
      obtain rfl := Option.some.inj (message_savingClient h)
      have hkey : publicKey = newPublicKey derive env body := by
        cases hpair with
        | generated key hempty hkey => rw [newPublicKey, if_pos hempty, hkey]; rfl
        | given hne => rw [newPublicKey, if_neg hne]
      rw [hkey]
      rfl
  | updateClient env body =>
    rw [RecordRequest.prog, updateClient] at h
    split at h
    · cases h
    · rw [Prog.run_bind, getClientByID, Prog.run_read] at h
      dsimp only at h
      split at h
      · cases h
      · rename_i client _
        rcases (updateStoredClient_commits env body client).run db with ⟨hgive, -⟩ | ⟨f, hf, hrun⟩
        · rw [hgive.2] at h
          cases h
        · obtain ⟨-, -, rfl⟩ := hf
          rw [hrun] at h
          obtain rfl := Option.some.inj (message_savingClient h)
          rfl
  | wireGuardServerInterfaces env body =>
    rw [RecordRequest.prog, wireGuardServerInterfaces] at h
    split at h
    · cases h
    · rw [Prog.run_bind, Prog.run_modifyGet] at h
      dsimp only at h
      split at h
      · split at h
        · cases h
        · rename_i address rest haddresses
          obtain rfl := Option.some.inj h
          rw [RecordRequest.fields, haddresses]
          rfl
      · cases h
  | globalSettingSubmit env body =>
    rw [RecordRequest.prog, globalSettingSubmit] at h
    split at h
    · cases h
    · rw [Prog.run_bind, Prog.run_modifyGet] at h
      split at h
      · obtain rfl := Option.some.inj h
        rfl
      · cases h

section
variable {subcmd : Str} {fields : List (Str × Str)}

theorem length_fieldLine (key value : Str) :
    (fieldLine key value).length = key.length + value.length + 2 := by
  rw [fieldLine, List.length_append, List.length_append, show (str ":=").length = 2 from rfl]
  omega

theorem length_messageLines (subcmd : Str) (fields : List (Str × Str)) :
    (unlines (Cpp.messageLines subcmd fields)).length =
      textLength fields + frameLength subcmd (fields.map (·.1)) := by
  have hfields : (unlines (fields.map fun f => fieldLine f.1 f.2)).length =
      textLength fields + ((fields.map (·.1)).map (·.length + 3)).sum := by
    unfold textLength
    induction fields with
    | nil => rfl
    | cons f fields ih =>
      simp only [List.map_cons, unlines_cons, List.length_append, List.length_cons, List.sum_cons,
        length_fieldLine, ih]
      omega
  have hhead : (unlines (Cpp.headLines subcmd fields.length)).length =
      34 + subcmd.length + (natDigits fields.length).length := by
    simp only [Cpp.headLines, unlines_cons, unlines_nil, List.length_append, List.length_cons,
      List.length_nil, length_fieldLine]
    rw [show (str "cmd:=HELLO").length = 10 from rfl, show (str "subcmd").length = 6 from rfl,
      show (str "field_count").length = 11 from rfl]
    omega
  rw [Cpp.unlines_messageLines, List.length_append, hhead, hfields, frameLength, List.length_map]
  omega

theorem length_peerMessage (publicKey : Str) (client : Client) :
    (unlines (Cpp.messageLines (str "ADD_WIREGUARD_PEER") (peerFields publicKey client))).length =
      textLength (peerFields publicKey client) + 89 := by
  have hframe : frameLength (str "ADD_WIREGUARD_PEER")
      [str "PublicKey", str "AllowedIPs", str "Endpoint"] = 89 := by
    decide
  rw [length_messageLines]
  exact congrArg _ hframe

/-- A message fits when its text is short and the values that are read fit the command line. -/
theorem textsFit_helloMessage (hlen : fields.length ≤ 16) (hsubcmd : Plain subcmd)
    (hnul : '\x00' ∉ subcmd) :
    TextsFit (helloMessage subcmd fields) ↔
      (unlines (Cpp.messageLines subcmd fields)).length < Cpp.maxPacketSize ∧
        (Cpp.ReadsAll fields → Cpp.Fits subcmd (Cpp.readValues fields)) := by
  unfold TextsFit
  rw [Cpp.handleConnectionCPP_lines hlen]
  constructor
  · intro h
    obtain ⟨hshort, hfits⟩ := h _ rfl
    refine ⟨hshort, fun hreads => ?_⟩
    by_contra hnot
    exact hfits ((Cpp.onIncomingMsg_overflow hlen hsubcmd hnul hshort).mpr ⟨hreads, hnot⟩)
  · rintro ⟨hshort, hfits⟩ text htext
    obtain rfl := Option.some.inj htext
    refine ⟨hshort, fun hoverflow => ?_⟩
    obtain ⟨hreads, hnot⟩ := (Cpp.onIncomingMsg_overflow hlen hsubcmd hnul hshort).mp hoverflow
    exact hnot (hfits hreads)

/-- The message of a peer fits when its texts are short. -/
theorem textsFit_peer (publicKey : Str) (client : Client) :
    TextsFit (helloMessage (str "ADD_WIREGUARD_PEER") (peerFields publicKey client)) ↔
      PeerShort (peerFields publicKey client) := by
  have hsubcmd : Plain (str "ADD_WIREGUARD_PEER") :=
    plain_of_not_mem (by decide) (.inl (by decide))
  rw [textsFit_helloMessage (by simp [peerFields]) hsubcmd (by decide), length_peerMessage]
  have hfits : Cpp.Fits (str "ADD_WIREGUARD_PEER") (Cpp.readValues (peerFields publicKey client)) ↔
      (Cpp.readValue (peerFields publicKey client) 0).length +
        (Cpp.readValue (peerFields publicKey client) 1).length +
        (Cpp.readValue (peerFields publicKey client) 2).length ≤ 175 := by
    have hcmd : Cpp.vtyshCmd (str "ADD_WIREGUARD_PEER") = some .addWireguardPeer := by decide
    unfold Cpp.Fits
    rw [hcmd]
    simp only [Cpp.get_readValues]
    rfl
  rw [hfits]
  constructor
  · rintro ⟨hshort, hcommand⟩
    exact ⟨by unfold Cpp.maxPacketSize at hshort; omega, hcommand⟩
  · intro h
    have hpacket := h.packet
    exact ⟨by unfold Cpp.maxPacketSize; omega, h.command⟩

/-- Plain texts are read as they are, and their lengths count. -/
theorem peerShort_of_plain {publicKey : Str} {client : Client}
    (hvalues : ∀ f ∈ peerFields publicKey client, Plain f.2 ∧ '\x00' ∉ f.2) :
    PeerShort (peerFields publicKey client) ↔ textLength (peerFields publicKey client) ≤ 175 := by
  have hnames : ∀ key ∈ [str "PublicKey", str "AllowedIPs", str "Endpoint"],
      Plain key ∧ '\x00' ∉ key := by decide
  have hkeys : ∀ f ∈ peerFields publicKey client, Plain f.1 ∧ '\x00' ∉ f.1 := by
    intro f hf
    apply hnames
    exact List.mem_map_of_mem hf
  obtain ⟨hreads, hvalue⟩ := Cpp.readValue_of_plain hkeys hvalues
  have hsum : textLength (peerFields publicKey client) =
      (Cpp.readValue (peerFields publicKey client) 0).length +
        (Cpp.readValue (peerFields publicKey client) 1).length +
        (Cpp.readValue (peerFields publicKey client) 2).length := by
    rw [hvalue 0 (by simp [peerFields]), hvalue 1 (by simp [peerFields]),
      hvalue 2 (by simp [peerFields])]
    simp only [textLength, peerFields, List.map_cons, List.map_nil, List.sum_cons, List.sum_nil,
      List.getElem_cons_zero, List.getElem_cons_succ]
    omega
  constructor
  · intro h
    have hcommand := h.command hreads
    omega
  · intro h
    exact ⟨by omega, fun _ => by omega⟩

/-- A message whose subcommand formats no text of the request fits when its text is short. -/
theorem textsFit_of_fits {room : Nat} (hlen : fields.length ≤ 16) (hsubcmd : Plain subcmd)
    (hnul : '\x00' ∉ subcmd) (hfits : ∀ keyValue, Cpp.Fits subcmd keyValue)
    (hroom : frameLength subcmd (fields.map (·.1)) + room = 4095) :
    TextsFit (helloMessage subcmd fields) ↔ textLength fields ≤ room := by
  rw [textsFit_helloMessage hlen hsubcmd hnul, length_messageLines]
  unfold Cpp.maxPacketSize
  constructor
  · rintro ⟨hshort, -⟩
    omega
  · intro h
    exact ⟨by omega, fun _ => hfits _⟩

/-- The message of an interface fits when its texts are short: the address that goes to the
command line has been written by `inet_ntoa`. -/
theorem textsFit_interface (address : Str) (listenPort : Int) :
    TextsFit (helloMessage (str "SET_WIREGUARD_INTERFACE")
      [(str "Addresses", address), (str "ListenPort", itoa listenPort)]) ↔
      textLength [(str "Addresses", address), (str "ListenPort", itoa listenPort)] ≤ 4012 := by
  have hroom : frameLength (str "SET_WIREGUARD_INTERFACE") [str "Addresses", str "ListenPort"] +
      4012 = 4095 := by
    decide
  have hcmd : Cpp.vtyshCmd (str "SET_WIREGUARD_INTERFACE") = some .setWireguardInterface := by decide
  apply textsFit_of_fits (by simp) (plain_of_not_mem (by decide) (.inl (by decide))) (by decide)
    ?_ hroom
  intro keyValue
  unfold Cpp.Fits
  rw [hcmd]
  trivial

/-- The message of the settings fits when its texts are short: it makes no command line. -/
theorem textsFit_settings (endpointAddress : Str) (mtu persistentKeepalive : Int) :
    TextsFit (helloMessage (str "SET_WIREGUARD_GLOBAL_CONFIG")
      [(str "EndpointAddress", endpointAddress), (str "MTU", itoa mtu),
        (str "PersistentKeepalive", itoa persistentKeepalive)]) ↔
      textLength [(str "EndpointAddress", endpointAddress), (str "MTU", itoa mtu),
        (str "PersistentKeepalive", itoa persistentKeepalive)] ≤ 3987 := by
  have hroom : frameLength (str "SET_WIREGUARD_GLOBAL_CONFIG")
      [str "EndpointAddress", str "MTU", str "PersistentKeepalive"] + 3987 = 4095 := by
    decide
  have hcmd : Cpp.vtyshCmd (str "SET_WIREGUARD_GLOBAL_CONFIG") = some .setWireguardGlobalConfig := by
    decide
  apply textsFit_of_fits (by simp) (plain_of_not_mem (by decide) (.inl (by decide))) (by decide)
    ?_ hroom
  intro keyValue
  unfold Cpp.Fits
  rw [hcmd]
  trivial

end

/-- The texts for the message of a record fit their buffers just when the texts of the record are
short. -/
theorem commandTexts_fit {derive : Key → Key} {db : Db} {r : RecordRequest} {smsg : RequestMessage}
    (h : ((r.prog derive).run db).1.message = some smsg) :
    TextsFit smsg ↔ r.TextsShort derive := by
  rw [message_eq_fields h]
  cases r with
  | newClient env body => exact textsFit_peer _ _
  | updateClient env body => exact textsFit_peer _ _
  | wireGuardServerInterfaces env body => exact textsFit_interface _ _
  | globalSettingSubmit env body => exact textsFit_settings _ _ _

/-- A new client with the given allowed networks. -/
def newClientFor (allowedIPs : List Str) : RecordRequest :=
  .newClient usualEnv { usualBody with allowedIPs := allowedIPs }

theorem commandTexts_fit_usual : ∃ smsg,
    (((newClientFor usualBody.allowedIPs).prog alphaDerive).run freshDb).1.message = some smsg ∧
      TextsFit smsg := by
  have hmessage : (((newClientFor usualBody.allowedIPs).prog alphaDerive).run freshDb).1.message =
      some (helloMessage (str "ADD_WIREGUARD_PEER")
        ((newClientFor usualBody.allowedIPs).fields alphaDerive)) := by
    decide +kernel
  refine ⟨_, hmessage, (commandTexts_fit hmessage).mpr ?_⟩
  have hchars : ∀ f ∈ (newClientFor usualBody.allowedIPs).fields alphaDerive,
      '\n' ∉ f.2 ∧ (':' ∉ f.2 ∨ '=' ∉ f.2) ∧ '\x00' ∉ f.2 := by
    decide +kernel
  apply (peerShort_of_plain fun f hf => ?_).mpr
  · decide +kernel
  · exact ⟨plain_of_not_mem (hchars f hf).1 (hchars f hf).2.1, (hchars f hf).2.2⟩

/-- Eight allowed networks make a command line that is longer than its buffer. -/
theorem commandTexts_not_fit : ∃ smsg,
    (((newClientFor (List.replicate 8 (str "192.168.100.0/24"))).prog alphaDerive).run
        freshDb).1.message = some smsg ∧
      ¬ TextsFit smsg := by
  refine ⟨helloMessage (str "ADD_WIREGUARD_PEER")
    ((newClientFor (List.replicate 8 (str "192.168.100.0/24"))).fields alphaDerive),
    by decide +kernel, fun h => ?_⟩
  have hchars : ∀ f ∈ (newClientFor (List.replicate 8 (str "192.168.100.0/24"))).fields alphaDerive,
      '\n' ∉ f.2 ∧ (':' ∉ f.2 ∨ '=' ∉ f.2) ∧ '\x00' ∉ f.2 := by
    decide +kernel
  have hshort := (peerShort_of_plain fun f hf =>
    ⟨plain_of_not_mem (hchars f hf).1 (hchars f hf).2.1, (hchars f hf).2.2⟩).mp
    ((textsFit_peer _ _).mp h)
  revert hshort
  decide +kernel

end QrWireguard.WebUi
