import QrWireguard.WebAgent.Messages
import QrWireguard.WebUi.KeyPairs
import QrWireguard.WebUi.Server

/-!
# Messages of the web UI

The messages that the handlers send for the records they accept, and which of them the agents
read back.
-/

namespace QrWireguard.WebUi

open BePlugin WebAgent

/-- A request that sends the agent a record it has accepted. -/
inductive RecordRequest where
  | newClient (env : Env) (body : Client)
  | updateClient (env : Env) (body : Client)
  | wireGuardServerInterfaces (env : Env) (body : ServerInterface)
  | globalSettingSubmit (env : Env) (body : GlobalSetting)

namespace RecordRequest

/-- The handler of a request. -/
def prog (derive : Key → Key) : RecordRequest → Prog Db Reply
  | newClient env body => WebUi.newClient derive env body
  | updateClient env body => WebUi.updateClient env body
  | wireGuardServerInterfaces env body => WebUi.wireGuardServerInterfaces env body
  | globalSettingSubmit env body => WebUi.globalSettingSubmit env body

/-- The subcommand of its message. -/
def subcmd : RecordRequest → Str
  | newClient _ _ | updateClient _ _ => str "ADD_WIREGUARD_PEER"
  | wireGuardServerInterfaces _ _ => str "SET_WIREGUARD_INTERFACE"
  | globalSettingSubmit _ _ => str "SET_WIREGUARD_GLOBAL_CONFIG"

/-- The keys of its message. -/
def keys : RecordRequest → List Str
  | newClient _ _ | updateClient _ _ => [str "PublicKey", str "AllowedIPs", str "Endpoint"]
  | wireGuardServerInterfaces _ _ => [str "Addresses", str "ListenPort"]
  | globalSettingSubmit _ _ => [str "EndpointAddress", str "MTU", str "PersistentKeepalive"]

/-- The texts of the body that go into the message and that no check keeps plain. -/
def freeTexts : RecordRequest → List Str
  | newClient _ body | updateClient _ body => [body.publicKey, body.endpoint]
  | wireGuardServerInterfaces _ _ => []
  | globalSettingSubmit _ body => [body.endpointAddress]

end RecordRequest

/-- A text without a newline is plain when it lacks a character of the other separator. -/
theorem plain_of_not_mem {s : Str} (hnewline : '\n' ∉ s) (h : ':' ∉ s ∨ '=' ∉ s) : Plain s := by
  refine ⟨hnewline, fun hoccurs => ?_⟩
  rcases h with hcolon | heq
  · exact hcolon (hoccurs.subset (by decide))
  · exact heq (hoccurs.subset (by decide))

theorem plain_itoa (n : Int) : Plain (itoa n) := by
  apply plain_of_not_mem
  · exact not_mem_itoa_of (by decide) (by decide) n
  · exact .inl (not_mem_itoa_of (by decide) (by decide) n)

/-- A text of CIDR characters is plain. -/
theorem plain_of_cidrs {s : Str}
    (h : ∀ c ∈ s, c = ',' ∨ ∃ cidr, validateCIDR cidr = true ∧ c ∈ cidr) : Plain s := by
  have hchars : ∀ c ∈ s, isAddrChar c = true ∨ c = '/' ∨ c = ',' := by
    intro c hc
    rcases h c hc with hcomma | ⟨cidr, hcidr, hmem⟩
    · exact .inr (.inr hcomma)
    · obtain ⟨r, hr⟩ := Option.isSome_iff_exists.mp hcidr
      rcases isAddrChar_of_parseCIDR hr c hmem with haddr | hslash
      · exact .inl haddr
      · exact .inr (.inl hslash)
  apply plain_of_not_mem
  · exact fun hmem => absurd (hchars _ hmem) (by decide)
  · exact .inr fun hmem => absurd (hchars _ hmem) (by decide)

theorem plain_allowedIPs {cidrs : List Str} (h : validateAllowedIPs cidrs = true) :
    Plain (unsplit [','] cidrs) := by
  have hall := List.all_eq_true.mp h
  apply plain_of_cidrs
  intro c hc
  rcases mem_unsplit hc with hcomma | ⟨cidr, hcidr, hmem⟩
  · exact .inl (List.mem_singleton.mp hcomma)
  · exact .inr ⟨cidr, hall cidr hcidr, hmem⟩

theorem plain_toText (key : Key) : Plain key.toText := by
  apply plain_of_not_mem
  · exact fun hmem => absurd (isBase64Char_of_mem_encode key.lt_256 _ hmem) (by decide)
  · exact .inl fun hmem => absurd (isBase64Char_of_mem_encode key.lt_256 _ hmem) (by decide)

/-- The value of the allowed addresses in a message. -/
theorem plain_allowedIPs_value {client : Client} (h : validateAllowedIPs client.allowedIPs = true) :
    Plain (if client.allowedIPs = [] then str "0.0.0.0/0" else unsplit [','] client.allowedIPs) := by
  split
  · exact plain_of_not_mem (by decide) (.inl (by decide))
  · exact plain_allowedIPs h

theorem message_savingClient {faults : StoreFaults} {client : Client} {reply : Reply} {db : Db}
    {smsg : RequestMessage} (h : (savingClient faults client reply db).1.message = some smsg) :
    reply.message = some smsg := by
  unfold savingClient at h
  dsimp only at h
  split at h
  · exact h
  · cases h

/-- The message of a request has its keys, and the values are plain when the free texts are. -/
structure SentFor (r : RecordRequest) (smsg : RequestMessage) (values : List Str) : Prop where
  message : smsg = helloMessage r.subcmd (r.keys.zip values)
  length : values.length = r.keys.length
  plain : (∀ value ∈ values, Plain value) ↔ ∀ text ∈ r.freeTexts, Plain text

theorem sentFor_newClient {derive : Key → Key} {db : Db} {env : Env} {body : Client}
    {smsg : RequestMessage} (h : ((newClient derive env body).run db).1.message = some smsg) :
    ∃ values, SentFor (.newClient env body) smsg values := by
  rcases (newClient_commits derive env body).run db with ⟨hgive, -⟩ | ⟨f, hf, hrun⟩
  · rw [hgive.2] at h
    cases h
  · obtain ⟨privateKey, publicKey, presharedKey, hbody, hpair, -, rfl⟩ := hf
    rw [hrun] at h
    obtain rfl := Option.some.inj (message_savingClient h)
    have hkey : Plain publicKey ↔ Plain body.publicKey := by
      cases hpair with
      | generated key hempty =>
        rw [hempty]
        exact iff_of_true (plain_toText _) (plain_of_not_mem (by decide) (.inl (by decide)))
      | given => exact Iff.rfl
    have hallowed := @plain_allowedIPs_value body hbody.allowedIPs
    refine ⟨[publicKey, _, body.endpoint], rfl, rfl, ?_⟩
    simp only [List.forall_mem_cons, RecordRequest.freeTexts, hkey]
    tauto

theorem sentFor_updateClient {db : Db} {env : Env} {body : Client} {smsg : RequestMessage}
    (h : ((updateClient env body).run db).1.message = some smsg) :
    ∃ values, SentFor (.updateClient env body) smsg values := by
  unfold updateClient at h
  split at h
  · cases h
  · rw [Prog.run_bind, getClientByID, Prog.run_read] at h
    dsimp only at h
    split at h
    · cases h
    · rename_i client _
      rcases (updateStoredClient_commits env body client).run db with ⟨hgive, -⟩ | ⟨f, hf, hrun⟩
      · rw [hgive.2] at h
        cases h
      · obtain ⟨hbody, -, rfl⟩ := hf
        rw [hrun] at h
        obtain rfl := Option.some.inj (message_savingClient h)
        have hallowed := @plain_allowedIPs_value body hbody.allowedIPs
        refine ⟨[body.publicKey, _, body.endpoint], rfl, rfl, ?_⟩
        simp only [List.forall_mem_cons, RecordRequest.freeTexts]
        tauto

theorem sentFor_wireGuardServerInterfaces {db : Db} {env : Env} {body : ServerInterface}
    {smsg : RequestMessage}
    (h : ((wireGuardServerInterfaces env body).run db).1.message = some smsg) :
    ∃ values, SentFor (.wireGuardServerInterfaces env body) smsg values := by
  unfold wireGuardServerInterfaces at h
  split at h
  · cases h
  · rename_i hvalid
    rw [Bool.not_eq_true', Bool.not_eq_false] at hvalid
    have hall := List.all_eq_true.mp hvalid
    rw [Prog.run_bind, Prog.run_modifyGet] at h
    dsimp only at h
    split at h
    · split at h
      · cases h
      · rename_i address rest haddresses
        obtain rfl := Option.some.inj h
        have haddress : Plain address := by
          have hcidr := hall address (haddresses ▸ List.mem_cons_self)
          exact plain_of_cidrs fun c hc => .inr ⟨address, hcidr, hc⟩
        refine ⟨[address, itoa body.listenPort], rfl, rfl, ?_⟩
        have hport := plain_itoa body.listenPort
        simp only [List.forall_mem_cons, RecordRequest.freeTexts]
        tauto
    · cases h

theorem sentFor_globalSettingSubmit {db : Db} {env : Env} {body : GlobalSetting}
    {smsg : RequestMessage} (h : ((globalSettingSubmit env body).run db).1.message = some smsg) :
    ∃ values, SentFor (.globalSettingSubmit env body) smsg values := by
  unfold globalSettingSubmit at h
  split at h
  · cases h
  · rw [Prog.run_bind, Prog.run_modifyGet] at h
    split at h
    · obtain rfl := Option.some.inj h
      have hmtu := plain_itoa body.mtu
      have hkeepalive := plain_itoa body.persistentKeepalive
      refine ⟨[body.endpointAddress, itoa body.mtu, itoa body.persistentKeepalive], rfl, rfl, ?_⟩
      simp only [List.forall_mem_cons, RecordRequest.freeTexts]
      tauto
    · cases h

theorem sentFor_request {derive : Key → Key} {db : Db} {r : RecordRequest} {smsg : RequestMessage}
    (h : ((r.prog derive).run db).1.message = some smsg) : ∃ values, SentFor r smsg values := by
  cases r with
  | newClient env body => exact sentFor_newClient h
  | updateClient env body => exact sentFor_updateClient h
  | wireGuardServerInterfaces env body => exact sentFor_wireGuardServerInterfaces h
  | globalSettingSubmit env body => exact sentFor_globalSettingSubmit h

/-- The agents decode the message of a request to the values it was built from just when the
free texts of the request have no separators in them. -/
theorem message_decodes {derive : Key → Key} {db : Db} {r : RecordRequest} {smsg : RequestMessage}
    (h : ((r.prog derive).run db).1.message = some smsg) :
    ∃ values, values.length = r.keys.length ∧ smsg = helloMessage r.subcmd (r.keys.zip values) ∧
      (DecodesTo smsg ⟨r.subcmd, r.keys.length, keyValues values⟩ ↔
        ∀ text ∈ r.freeTexts, Plain text) := by
  obtain ⟨values, hsent⟩ := sentFor_request h
  have hlen : (r.keys.zip values).length = r.keys.length := by
    rw [List.length_zip, hsent.length, min_self]
  have hvalues : (r.keys.zip values).map (·.2) = values := List.map_snd_zip hsent.length.le
  have hsmall : r.keys.length ≤ 16 := by
    cases r <;> simp only [RecordRequest.keys] <;> decide
  have hsubcmd : '\n' ∉ r.subcmd ∧ ':' ∉ r.subcmd := by
    cases r <;> simp only [RecordRequest.subcmd] <;> decide
  have hkeys : ∀ key ∈ r.keys, Plain key := by
    cases r <;> simp only [RecordRequest.keys] <;> decide
  have hiff := decodesTo_iff (hlen.trans_le hsmall) (plain_of_not_mem hsubcmd.1 (.inl hsubcmd.2)) fun f hf =>
    hkeys f.1 (List.of_mem_zip hf).1
  rw [hlen, hvalues] at hiff
  refine ⟨values, hsent.length, hsent.message, ?_⟩
  rw [hsent.message, hiff, ← hsent.plain]
  constructor
  · intro hplain value hmem
    rw [← hvalues] at hmem
    obtain ⟨f, hf, rfl⟩ := List.mem_map.mp hmem
    exact hplain f hf
  · intro hplain f hf
    exact hplain f.2 (List.of_mem_zip hf).2

/-- A new client's body with its endpoint. -/
def newClientAt (endpoint : Str) : RecordRequest :=
  .newClient usualEnv { usualBody with endpoint := endpoint }

/-- The values of its message. -/
def valuesAt (endpoint : Str) : List Str := [alphaPublicKey.toText, str "0.0.0.0/0", endpoint]

theorem message_newClientAt (endpoint : Str) :
    (((newClientAt endpoint).prog alphaDerive).run freshDb).1.message =
      some (helloMessage (newClientAt endpoint).subcmd
        ((newClientAt endpoint).keys.zip (valuesAt endpoint))) := rfl

theorem message_decodes_usual : ∃ smsg values,
    (((newClientAt usualBody.endpoint).prog alphaDerive).run freshDb).1.message = some smsg ∧
      DecodesTo smsg ⟨str "ADD_WIREGUARD_PEER", 3, keyValues values⟩ := by
  have hplain : ∀ text ∈ (newClientAt usualBody.endpoint).freeTexts, Plain text := by
    intro text htext
    have hchars : ∀ text ∈ (newClientAt usualBody.endpoint).freeTexts,
        '\n' ∉ text ∧ '=' ∉ text := by decide
    exact plain_of_not_mem (hchars text htext).1 (.inr (hchars text htext).2)
  obtain ⟨values, -, -, hdecodes⟩ := message_decodes (message_newClientAt usualBody.endpoint)
  exact ⟨_, values, message_newClientAt _, hdecodes.mpr hplain⟩

/-- A newline in the endpoint of a new client cuts the value that the C++ agent decodes. -/
theorem message_not_decoded : ∃ (r : RecordRequest) (smsg : RequestMessage) (values : List Str),
    ((r.prog alphaDerive).run freshDb).1.message = some smsg ∧
      smsg = helloMessage r.subcmd (r.keys.zip values) ∧
      ¬ DecodesTo smsg ⟨r.subcmd, r.keys.length, keyValues values⟩ := by
  refine ⟨newClientAt (str "198.51.100.7:51820\n"), _, valuesAt (str "198.51.100.7:51820\n"),
    message_newClientAt _, rfl, fun h => ?_⟩
  have hsubcmd : Plain (str "ADD_WIREGUARD_PEER") :=
    plain_of_not_mem (by decide) (.inl (by decide))
  have hplain := (@decodesTo_iff _ ((newClientAt []).keys.zip
    (valuesAt (str "198.51.100.7:51820\n"))) (by decide) hsubcmd (by decide)).mp h
  exact (hplain (str "Endpoint", str "198.51.100.7:51820\n") (by decide)).1 (by decide)

end QrWireguard.WebUi
