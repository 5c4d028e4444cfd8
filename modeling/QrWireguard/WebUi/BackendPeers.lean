import Mathlib.Data.Finset.Insert
import QrWireguard.WebUi.Listing
import QrWireguard.WebUi.WgConf

/-!
# The peers of the backend

Whether the peers that the agent has configured are the enabled clients of the store. New clients
and updates add the public key of the record they have saved, whether the client is enabled or not,
and leave the key it had before; a change of the status sends nothing.
-/

namespace QrWireguard.WebUi

open BePlugin Prog

/-- The store, and the public keys of the peers that the backend has. -/
structure Backed where
  db : Db
  peers : Finset Str

/-- The public key in a message about a peer. -/
def publicKeyOf (message : RequestMessage) : Str := ((message.keyValue.get 0).drop 11).dropLast

/-- The peers after a message: an added peer replaces the one with the same key. -/
def applyMessage (message : RequestMessage) (peers : Finset Str) : Finset Str :=
  if message.subCmd = field (str "subcmd") (str "ADD_WIREGUARD_PEER") then
    insert (publicKeyOf message) peers
  else if message.subCmd = field (str "subcmd") (str "REMOVE_WIREGUARD_PEER") then
    peers.erase (publicKeyOf message)
  else peers

/-- A request served alone, and its message applied. -/
def Backed.serve (derive : Key → Key) (b : Backed) (r : ClientRequest) : Backed where
  db := ((r.prog derive).run b.db).2
  peers := ((r.prog derive).run b.db).1.message.elim b.peers (applyMessage · b.peers)

/-- The public keys of the enabled clients. -/
def enabledKeys (clients : Dir Str Client) : List Str :=
  (clients.readAll.filter (·.enabled)).map (·.publicKey)

/-- The public keys in the sections of the default template. -/
def renderedKeys (settings : GlobalSetting) (clients : Dir Str Client) : List Str :=
  clients.readAll.filterMap fun client => (wgConfClient settings client)[8]?.map (·.drop 12)

/-- The peers of the backend are the enabled clients, which the template renders. -/
structure PeersFollow (b : Backed) : Prop where
  enabled : ∀ key, key ∈ b.peers ↔ key ∈ enabledKeys b.db.clients
  rendered : ∀ settings key, key ∈ b.peers ↔ key ∈ renderedKeys settings b.db.clients

/-- A key is the public key of an enabled client. -/
def KeyHeld (clients : Dir Str Client) (key : Str) : Prop :=
  ∃ name client, clients.read name = some client ∧ client.enabled = true ∧ client.publicKey = key

/-- A key is the public key of an enabled client other than the one with the given ID. -/
def KeyHeldElsewhere (clients : Dir Str Client) (clientID key : Str) : Prop :=
  ∃ name client, name ≠ clientID ∧ clients.read name = some client ∧ client.enabled = true ∧
    client.publicKey = key

/-- The peers are the public keys of the enabled clients. -/
def Follows (clients : Dir Str Client) (peers : Finset Str) : Prop :=
  ∀ key, key ∈ peers ↔ KeyHeld clients key

/-- A key is the public key of an enabled client when a record is saved over that of a client. -/
def StaysHeld (clients : Dir Str Client) (clientID : Str) (r : Client) (key : Str) : Prop :=
  r.enabled = true ∧ r.publicKey = key ∨ KeyHeldElsewhere clients clientID key

/-- Every client is stored under its own ID. -/
def Named (clients : Dir Str Client) : Prop :=
  ∀ name client, clients.read name = some client → client.id = name

section
variable {clients : Dir Str Client} {peers : Finset Str} {clientID key : Str} {client r : Client}

theorem renderedKeys_eq (settings : GlobalSetting) (clients : Dir Str Client) :
    renderedKeys settings clients = enabledKeys clients := by
  unfold renderedKeys enabledKeys
  induction clients.readAll with
  | nil => rfl
  | cons client rest ih =>
    rw [List.filterMap_cons, ih]
    by_cases henabled : client.enabled = true
    · simp [wgConfClient, henabled, str]
    · simp [wgConfClient, henabled]

theorem mem_enabledKeys : key ∈ enabledKeys clients ↔ KeyHeld clients key := by
  rw [enabledKeys, List.mem_map]
  constructor
  · rintro ⟨client, hclient, rfl⟩
    obtain ⟨hmem, henabled⟩ := List.mem_filter.mp hclient
    obtain ⟨name, hread⟩ := Dir.mem_readAll.mp hmem
    exact ⟨name, client, hread, henabled, rfl⟩
  · rintro ⟨name, client, hread, henabled, rfl⟩
    exact ⟨client, List.mem_filter.mpr ⟨Dir.mem_readAll.mpr ⟨name, hread⟩, henabled⟩, rfl⟩

theorem peersFollow_iff {b : Backed} : PeersFollow b ↔ Follows b.db.clients b.peers := by
  constructor
  · exact fun h key => (h.enabled key).trans mem_enabledKeys
  · intro h
    have henabled : ∀ key, key ∈ b.peers ↔ key ∈ enabledKeys b.db.clients := fun key =>
      (h key).trans mem_enabledKeys.symm
    exact ⟨henabled, fun settings key => by rw [renderedKeys_eq]; exact henabled key⟩

theorem held_write : KeyHeld (clients.write clientID r) key ↔ StaysHeld clients clientID r key := by
  constructor
  · rintro ⟨name, client, hread, henabled, hkey⟩
    rcases Dir.read_write_eq_some.mp hread with ⟨-, rfl⟩ | ⟨hne, hold⟩
    · exact .inl ⟨henabled, hkey⟩
    · exact .inr ⟨name, client, hne, hold, henabled, hkey⟩
  · rintro (⟨henabled, hkey⟩ | ⟨name, client, hne, hold, henabled, hkey⟩)
    · exact ⟨clientID, r, Dir.read_write_self _ _ _, henabled, hkey⟩
    · exact ⟨name, client, Dir.read_write_eq_some.mpr (.inr ⟨hne, hold⟩), henabled, hkey⟩

theorem held_delete :
    KeyHeld (clients.delete clientID) key ↔ KeyHeldElsewhere clients clientID key := by
  constructor
  · rintro ⟨name, client, hread, henabled, hkey⟩
    obtain ⟨hne, hold⟩ := Dir.read_delete_eq_some.mp hread
    exact ⟨name, client, hne, hold, henabled, hkey⟩
  · rintro ⟨name, client, hne, hold, henabled, hkey⟩
    exact ⟨name, client, Dir.read_delete_eq_some.mpr ⟨hne, hold⟩, henabled, hkey⟩

theorem held_iff (clientID : Str) : KeyHeld clients key ↔
    (∃ client, clients.read clientID = some client ∧ client.enabled = true ∧
      client.publicKey = key) ∨ KeyHeldElsewhere clients clientID key := by
  constructor
  · rintro ⟨name, client, hread, henabled, hkey⟩
    by_cases hname : name = clientID
    · exact .inl ⟨client, hname ▸ hread, henabled, hkey⟩
    · exact .inr ⟨name, client, hname, hread, henabled, hkey⟩
  · rintro (⟨client, hread, henabled, hkey⟩ | ⟨name, client, -, hread, henabled, hkey⟩)
    · exact ⟨clientID, client, hread, henabled, hkey⟩
    · exact ⟨name, client, hread, henabled, hkey⟩

/-- A record may be saved over that of a client and its key added when the key is that of an
enabled client then, and the old one too if it was. -/
theorem Follows.write_insert_iff (h : Follows clients peers) :
    Follows (clients.write clientID r) (insert r.publicKey peers) ↔
      (∀ client, clients.read clientID = some client → client.enabled = true →
        StaysHeld clients clientID r client.publicKey) ∧
      StaysHeld clients clientID r r.publicKey := by
  constructor
  · intro hafter
    refine ⟨fun client hread henabled => ?_,
      held_write.mp ((hafter _).mp (Finset.mem_insert_self _ _))⟩
    refine held_write.mp ((hafter _).mp (Finset.mem_insert_of_mem ((h _).mpr ?_)))
    exact (held_iff clientID).mpr (.inl ⟨client, hread, henabled, rfl⟩)
  · rintro ⟨hold, hnew⟩ key
    rw [Finset.mem_insert, h, held_iff clientID, held_write]
    constructor
    · rintro (rfl | ⟨client, hread, henabled, rfl⟩ | helsewhere)
      · exact hnew
      · exact hold client hread henabled
      · exact .inr helsewhere
    · rintro (⟨-, hkey⟩ | helsewhere)
      · exact .inl hkey.symm
      · exact .inr (.inr helsewhere)

theorem Follows.write_iff (h : Follows clients peers) :
    Follows (clients.write clientID r) peers ↔
      (∀ client, clients.read clientID = some client → client.enabled = true →
        StaysHeld clients clientID r client.publicKey) ∧
      (r.enabled = true → KeyHeld clients r.publicKey) := by
  constructor
  · intro hafter
    constructor
    · intro client hread henabled
      refine held_write.mp ((hafter _).mp ((h _).mpr ?_))
      exact (held_iff clientID).mpr (.inl ⟨client, hread, henabled, rfl⟩)
    · exact fun henabled => (h _).mp ((hafter _).mpr (held_write.mpr (.inl ⟨henabled, rfl⟩)))
  · rintro ⟨hold, hnew⟩ key
    rw [h, held_write]
    constructor
    · intro hheld
      rcases (held_iff clientID).mp hheld with ⟨client, hread, henabled, rfl⟩ | helsewhere
      · exact hold client hread henabled
      · exact .inr helsewhere
    · rintro (⟨henabled, rfl⟩ | helsewhere)
      · exact hnew henabled
      · exact (held_iff clientID).mpr (.inr helsewhere)

theorem Follows.delete_erase_iff (h : Follows clients peers)
    (hread : clients.read clientID = some client) :
    Follows (clients.delete clientID) (peers.erase client.publicKey) ↔
      ¬ KeyHeldElsewhere clients clientID client.publicKey := by
  constructor
  · intro hafter helsewhere
    exact Finset.notMem_erase _ _ ((hafter _).mpr (held_delete.mpr helsewhere))
  · intro hnot key
    rw [Finset.mem_erase, h, held_iff clientID, held_delete]
    constructor
    · rintro ⟨hne, ⟨other, hother, -, hkey⟩ | helsewhere⟩
      · rw [hread] at hother
        cases hother
        exact absurd hkey.symm hne
      · exact helsewhere
    · intro helsewhere
      exact ⟨fun heq => hnot (heq ▸ helsewhere), .inr helsewhere⟩

theorem Follows.erase_iff (h : Follows clients peers) :
    Follows clients (peers.erase key) ↔ ¬ KeyHeld clients key := by
  constructor
  · exact fun hafter hheld => Finset.notMem_erase _ _ ((hafter _).mpr hheld)
  · intro hnot other
    rw [Finset.mem_erase, h]
    exact and_iff_right_of_imp fun hheld heq => hnot (heq ▸ hheld)

theorem publicKeyOf_hello (subcmd key : Str) (rest : List (Str × Str)) :
    publicKeyOf (helloMessage subcmd ((str "PublicKey", key) :: rest)) = key := by
  have hfirst : (helloMessage subcmd ((str "PublicKey", key) :: rest)).keyValue.get 0 =
      field (str "PublicKey") key := keyValues_getElem (Nat.zero_lt_succ 15)
  rw [publicKeyOf, hfirst]
  change (key ++ ['\n']).dropLast = key
  rw [List.dropLast_concat]

theorem applyMessage_add (client : Client) (peers : Finset Str) :
    applyMessage (addWireguardPeer client) peers = insert client.publicKey peers := by
  have hkey : publicKeyOf (addWireguardPeer client) = client.publicKey :=
    publicKeyOf_hello _ _ _
  have hadd : (addWireguardPeer client).subCmd =
      field (str "subcmd") (str "ADD_WIREGUARD_PEER") := rfl
  rw [applyMessage, if_pos hadd, hkey]

theorem applyMessage_remove (client : Client) (peers : Finset Str) :
    applyMessage (removeWireguardPeer client) peers = peers.erase client.publicKey := by
  have hkey : publicKeyOf (removeWireguardPeer client) = client.publicKey :=
    publicKeyOf_hello _ _ _
  have hadd : (removeWireguardPeer client).subCmd ≠
      field (str "subcmd") (str "ADD_WIREGUARD_PEER") := by
    change field (str "subcmd") (str "REMOVE_WIREGUARD_PEER") ≠ _
    decide
  have hremove : (removeWireguardPeer client).subCmd =
      field (str "subcmd") (str "REMOVE_WIREGUARD_PEER") := rfl
  rw [applyMessage, if_neg hadd, if_pos hremove, hkey]

end

/-! ## Steps -/

/-- What is generated is new: the ID of a new client is not in use, and the public key of a
generated private key is not that of an enabled client. -/
def GeneratesNew (derive : Key → Key) (db : Db) : ClientRequest → Prop
  | .newClient env body => db.clients.read env.guid.text = none ∧
    (body.publicKey = [] → ∀ key, env.privateKey = some key →
      ¬ KeyHeld db.clients (derive key).toText)
  | _ => True

/-- The condition on a request. A new client is enabled just when its message is sent. The key of
an enabled client that is updated, and the key that its message adds, are those of enabled clients
then. The status of a client changes only when another enabled client has its key. A client that is
removed has its key alone, and is removed if it is enabled. -/
def KeepsPeers (db : Db) : ClientRequest → Prop
  | .newClient env body => NewPasses db env body → env.faults.writeOk = true →
    env.faults.permsOk = body.enabled
  | .updateClient env body => ∀ client, validXid body.id = true →
    db.clients.read body.id = some client → UpdatePasses (· = db) db client body →
    env.faults.writeOk = true →
      (client.enabled = true → StaysHeld db.clients body.id body client.publicKey) ∧
      (env.faults.permsOk = true → StaysHeld db.clients body.id body body.publicKey) ∧
      (env.faults.permsOk = false → body.enabled = true → KeyHeld db.clients body.publicKey)
  | .setClientStatus env body => ∀ clientID status client,
    body = some ⟨some clientID, some status⟩ →
    validXid clientID = true → db.clients.read clientID = some client →
    env.faults.writeOk = true →
      status = client.enabled ∨ KeyHeldElsewhere db.clients clientID client.publicKey
  | .removeClient env clientID => ∀ client, validXid clientID = true →
    db.clients.read clientID = some client →
      ¬ KeyHeldElsewhere db.clients clientID client.publicKey ∧
      (client.enabled = true → env.faults.deleteOk = true)

section
variable {derive : Key → Key} {b : Backed} {env : Env}

/-- The peers and the clients after the last step of a handler that saves a client. -/
theorem follows_savingClient {faults : StoreFaults} {client : Client} {reply : Reply} {db : Db}
    {peers : Finset Str} :
    Follows (savingClient faults client reply db).2.clients
        ((savingClient faults client reply db).1.message.elim peers (applyMessage · peers)) ↔
      if faults.writeOk = true then
        Follows (db.clients.write client.id client)
          (if faults.permsOk = true then reply.message.elim peers (applyMessage · peers) else peers)
      else Follows db.clients peers := by
  unfold savingClient Db.saveClient
  by_cases hwrite : faults.writeOk = true
  · rw [if_pos hwrite, if_pos hwrite]
    by_cases hperms : faults.permsOk = true
    · simp only [if_pos hperms]
    · simp only [if_neg hperms]
      exact Iff.rfl
  · rw [if_neg hwrite, if_neg hwrite]
    exact Iff.rfl

theorem follows_newClient (h : Follows b.db.clients b.peers) {body : Client}
    (hnew : GeneratesNew derive b.db (.newClient env body)) :
    Follows (b.serve derive (.newClient env body)).db.clients
        (b.serve derive (.newClient env body)).peers ↔
      KeepsPeers b.db (.newClient env body) := by
  obtain ⟨hid, hgenerated⟩ := hnew
  change Follows ((newClient derive env body).run b.db).2.clients
    (((newClient derive env body).run b.db).1.message.elim b.peers (applyMessage · b.peers)) ↔ _
  rcases newClient_cases derive env body b.db with
    ⟨hnot, hclients, hmessage⟩ | ⟨hpasses, privateKey, publicKey, presharedKey, hpair, hrun⟩
  · rw [hclients, hmessage]
    exact iff_of_true h fun hpasses => absurd hpasses hnot
  · rw [hrun, follows_savingClient]
    have hkey : ¬ KeyHeld b.db.clients publicKey := by
      cases hpair with
      | generated key hbody henv => exact hgenerated hbody key henv
      | given hbody hkey =>
        rintro ⟨name, client, hread, -, hsame⟩
        rcases hpasses.publicKey with ⟨hempty, -⟩ | ⟨-, -, hany⟩
        · exact hbody hempty
        · have hno := List.any_eq_false.mp hany client (Dir.mem_readAll.mpr ⟨name, hread⟩)
          rw [hsame] at hno
          simp at hno
    have hread : ∀ client, b.db.clients.read env.guid.text ≠ some client := by
      intro client hsome
      rw [hid] at hsome
      cases hsome
    by_cases hwrite : env.faults.writeOk = true
    · rw [if_pos hwrite]
      have hstays : StaysHeld b.db.clients env.guid.text
          (newRecord env body privateKey publicKey presharedKey) publicKey ↔
            body.enabled = true := by
        refine ⟨?_, fun henabled => .inl ⟨henabled, rfl⟩⟩
        rintro (⟨henabled, -⟩ | helsewhere)
        · exact henabled
        · exact absurd ((held_iff env.guid.text).mpr (.inr helsewhere)) hkey
      have hsame : KeepsPeers b.db (.newClient env body) ↔
          env.faults.permsOk = body.enabled :=
        ⟨fun hkeeps => hkeeps hpasses hwrite, fun heq _ _ => heq⟩
      rw [hsame]
      cases env.faults.permsOk with
      | true =>
        rw [if_pos rfl, Option.elim_some, applyMessage_add]
        refine h.write_insert_iff.trans ((and_iff_right fun client hsome => ?_).trans ?_)
        · exact absurd hsome (hread client)
        · exact hstays.trans eq_comm
      | false =>
        rw [if_neg (by decide)]
        refine h.write_iff.trans ((and_iff_right fun client hsome => ?_).trans ?_)
        · exact absurd hsome (hread client)
        · constructor
          · exact fun hheld => (Bool.eq_false_of_not_eq_true fun hen => hkey (hheld hen)).symm
          · intro hdisabled henabled
            exact absurd (hdisabled.trans henabled) (by decide)
    · rw [if_neg hwrite]
      exact iff_of_true h fun _ hw => absurd hw hwrite

theorem follows_updateClient (h : Follows b.db.clients b.peers) (hnamed : Named b.db.clients)
    {body : Client} :
    Follows (b.serve derive (.updateClient env body)).db.clients
        (b.serve derive (.updateClient env body)).peers ↔
      KeepsPeers b.db (.updateClient env body) := by
  change Follows ((updateClient env body).run b.db).2.clients
    (((updateClient env body).run b.db).1.message.elim b.peers (applyMessage · b.peers)) ↔ _
  rcases updateClient_cases env body b.db with
    ⟨hnot, hclients, hmessage⟩ | ⟨client, hxid, hread, hpasses, hrun⟩
  · rw [hclients, hmessage]
    refine iff_of_true h fun client hxid hread hpasses => ?_
    exact absurd ⟨hxid, client, hread, hpasses⟩ hnot
  · have hid : (updatedRecord env.now client body).id = body.id := hnamed body.id client hread
    rw [hrun, updating, follows_savingClient, hid]
    by_cases hwrite : env.faults.writeOk = true
    · have hkeeps : KeepsPeers b.db (.updateClient env body) ↔
          (client.enabled = true → StaysHeld b.db.clients body.id body client.publicKey) ∧
          (env.faults.permsOk = true → StaysHeld b.db.clients body.id body body.publicKey) ∧
          (env.faults.permsOk = false → body.enabled = true →
            KeyHeld b.db.clients body.publicKey) := by
        refine ⟨fun hkeeps => hkeeps client hxid hread hpasses hwrite, ?_⟩
        intro hkeeps other _ hother _ _
        rw [hread] at hother
        cases hother
        exact hkeeps
      have hold : (∀ other, b.db.clients.read body.id = some other → other.enabled = true →
          StaysHeld b.db.clients body.id (updatedRecord env.now client body) other.publicKey) ↔
          (client.enabled = true → StaysHeld b.db.clients body.id body client.publicKey) := by
        refine ⟨fun hall => hall client hread, fun hclient other hother => ?_⟩
        rw [hread] at hother
        cases hother
        exact hclient
      rw [if_pos hwrite, hkeeps]
      cases env.faults.permsOk with
      | true =>
        rw [if_pos rfl, Option.elim_some, applyMessage_add]
        refine h.write_insert_iff.trans (and_congr hold ?_)
        exact ⟨fun hnew => ⟨fun _ => hnew, fun hfalse => absurd hfalse (by decide)⟩,
          fun hnew => hnew.1 rfl⟩
      | false =>
        rw [if_neg (by decide)]
        refine h.write_iff.trans (and_congr hold ?_)
        exact ⟨fun hnew => ⟨fun hfalse => absurd hfalse (by decide), fun _ => hnew⟩,
          fun hnew => hnew.2 rfl⟩
    · rw [if_neg hwrite]
      exact iff_of_true h fun _ _ _ _ hw => absurd hw hwrite

/-- What a change of the status comes to: the flag of a record is saved, or nothing changes. -/
theorem setClientStatus_cases (env : Env) (body : Option StatusBody) (db : Db) :
    ((∀ clientID status client, body = some ⟨some clientID, some status⟩ →
        validXid clientID = true → db.clients.read clientID ≠ some client) ∧
      (setClientStatus env body).run db = (((setClientStatus env body).run db).1.answer.only, db)) ∨
    ∃ clientID status client, body = some ⟨some clientID, some status⟩ ∧
      validXid clientID = true ∧ db.clients.read clientID = some client ∧
      (setClientStatus env body).run db =
        savingClient env.faults { client with enabled := status }
          (Answer.json 200 true (str "Changed client status successfully")).only db := by
  rcases body with - | ⟨- | clientID, - | status⟩
  · exact .inl ⟨fun _ _ _ hbody => (by cases hbody), rfl⟩
  · exact .inl ⟨fun _ _ _ hbody => (by cases hbody), rfl⟩
  · exact .inl ⟨fun _ _ _ hbody => (by cases hbody), rfl⟩
  · exact .inl ⟨fun _ _ _ hbody => (by cases hbody), rfl⟩
  · unfold setClientStatus
    dsimp only
    by_cases hxid : validXid clientID = true
    · rw [if_neg (by simp [hxid]), run_bind, getClientByID, run_read]
      dsimp only
      cases hread : db.clients.read clientID with
      | none =>
        refine .inl ⟨?_, rfl⟩
        rintro _ _ client ⟨⟩ - hsome
        rw [hread] at hsome
        cases hsome
      | some client =>
        refine .inr ⟨clientID, status, client, rfl, hxid, hread, ?_⟩
        unfold saveClientStatus
        dsimp only
        rw [modifyGet_bind_ite]
        rfl
    · rw [if_pos (by simp [hxid])]
      refine .inl ⟨?_, rfl⟩
      rintro _ _ client ⟨⟩ hvalid
      exact absurd hvalid hxid

theorem follows_setClientStatus (h : Follows b.db.clients b.peers) (hnamed : Named b.db.clients)
    {body : Option StatusBody} :
    Follows (b.serve derive (.setClientStatus env body)).db.clients
        (b.serve derive (.setClientStatus env body)).peers ↔
      KeepsPeers b.db (.setClientStatus env body) := by
  change Follows ((setClientStatus env body).run b.db).2.clients
    (((setClientStatus env body).run b.db).1.message.elim b.peers (applyMessage · b.peers)) ↔ _
  rcases setClientStatus_cases env body b.db with
    ⟨hnot, hrun⟩ | ⟨clientID, status, client, rfl, hxid, hread, hrun⟩
  · rw [hrun]
    refine iff_of_true h fun clientID status client hbody hxid hread => ?_
    exact absurd hread (hnot clientID status client hbody hxid)
  · have hid : ({ client with enabled := status } : Client).id = clientID :=
      hnamed clientID client hread
    rw [hrun, follows_savingClient, hid]
    by_cases hwrite : env.faults.writeOk = true
    · have hkeeps : KeepsPeers b.db (.setClientStatus env (some ⟨some clientID, some status⟩)) ↔
          status = client.enabled ∨ KeyHeldElsewhere b.db.clients clientID client.publicKey := by
        refine ⟨fun hkeeps => hkeeps clientID status client rfl hxid hread hwrite, ?_⟩
        rintro hkeeps _ _ other ⟨⟩ - hother -
        rw [hread] at hother
        cases hother
        exact hkeeps
      rw [if_pos hwrite, hkeeps]
      change Follows _ (if env.faults.permsOk = true then b.peers else b.peers) ↔ _
      rw [ite_self, h.write_iff]
      constructor
      · rintro ⟨hold, hnew⟩
        by_cases hsame : status = client.enabled
        · exact .inl hsame
        · refine .inr ?_
          by_cases henabled : client.enabled = true
          · rcases hold client hread henabled with ⟨hstatus, -⟩ | helsewhere
            · exact absurd (hstatus.trans henabled.symm) hsame
            · exact helsewhere
          · have hstatus : status = true := by
              rw [Bool.eq_false_of_not_eq_true henabled] at hsame
              exact Bool.eq_true_of_not_eq_false hsame
            rcases (held_iff clientID).mp (hnew hstatus) with ⟨other, hother, hon, -⟩ | helsewhere
            · rw [hread] at hother
              cases hother
              exact absurd hon henabled
            · exact helsewhere
      · rintro (rfl | helsewhere)
        · refine ⟨fun other hother henabled => ?_, fun henabled => ?_⟩
          · rw [hread] at hother
            cases hother
            exact .inl ⟨henabled, rfl⟩
          · exact (held_iff clientID).mpr (.inl ⟨client, hread, henabled, rfl⟩)
        · refine ⟨fun other hother _ => ?_, fun _ => (held_iff clientID).mpr (.inr helsewhere)⟩
          rw [hread] at hother
          cases hother
          exact .inr helsewhere
    · rw [if_neg hwrite]
      exact iff_of_true h fun _ _ _ _ _ _ hw => absurd hw hwrite

/-- In a store whose clients stand under their IDs the search for an ID finds what is stored under
it. -/
theorem Named.find?_readAll {clients : Dir Str Client} (h : Named clients) (clientID : Str) :
    clients.readAll.find? (·.id == clientID) = clients.read clientID := by
  cases hfind : clients.readAll.find? (·.id == clientID) with
  | none =>
    rw [List.find?_eq_none] at hfind
    cases hread : clients.read clientID with
    | none => rfl
    | some client =>
      have hid := hfind client (Dir.mem_readAll.mpr ⟨clientID, hread⟩)
      simp [h clientID client hread] at hid
  | some client =>
    obtain ⟨name, hread⟩ := Dir.mem_readAll.mp (List.mem_of_find?_eq_some hfind)
    have hid : client.id = clientID := by simpa using List.find?_some hfind
    rw [← hid, h name client hread, hread]

theorem run_removeClient (env : Env) {clientID : Str} {db : Db} (hnamed : Named db.clients)
    (hxid : validXid clientID = true) :
    ((removeClient env clientID).run db).1.message =
        (db.clients.read clientID).map removeWireguardPeer ∧
      ((removeClient env clientID).run db).2.clients =
        if env.faults.deleteOk && (db.clients.read clientID).isSome then
          db.clients.delete clientID
        else db.clients := by
  unfold removeClient
  rw [if_neg (by simp [hxid]), run_bind, getClients, run_read, modifyGet_bind_ite,
    hnamed.find?_readAll]
  constructor
  · change Reply.message (if (db.deleteClient env.faults clientID).1 then _ else _) = _
    split
    · rfl
    · rfl
  · change (db.deleteClient env.faults clientID).2.clients = _
    unfold Db.deleteClient
    dsimp only
    split
    · rfl
    · rfl

theorem follows_removeClient (h : Follows b.db.clients b.peers) (hnamed : Named b.db.clients)
    {clientID : Str} :
    Follows (b.serve derive (.removeClient env clientID)).db.clients
        (b.serve derive (.removeClient env clientID)).peers ↔
      KeepsPeers b.db (.removeClient env clientID) := by
  change Follows ((removeClient env clientID).run b.db).2.clients
    (((removeClient env clientID).run b.db).1.message.elim b.peers (applyMessage · b.peers)) ↔ _
  by_cases hxid : validXid clientID = true
  · obtain ⟨hmessage, hclients⟩ := run_removeClient env hnamed hxid
    rw [hmessage, hclients]
    cases hread : b.db.clients.read clientID with
    | none =>
      rw [Option.isSome_none, Bool.and_false, if_neg (by decide)]
      refine iff_of_true h fun client _ hsome => ?_
      rw [hread] at hsome
      cases hsome
    | some client =>
      have hkeeps : KeepsPeers b.db (.removeClient env clientID) ↔
          ¬ KeyHeldElsewhere b.db.clients clientID client.publicKey ∧
            (client.enabled = true → env.faults.deleteOk = true) := by
        refine ⟨fun hkeeps => hkeeps client hxid hread, fun hkeeps other _ hother => ?_⟩
        rw [hread] at hother
        cases hother
        exact hkeeps
      rw [Option.isSome_some, Bool.and_true, Option.map_some, Option.elim_some,
        applyMessage_remove, hkeeps]
      cases env.faults.deleteOk with
      | true =>
        rw [if_pos rfl, h.delete_erase_iff hread]
        exact (and_iff_left fun _ => rfl).symm
      | false =>
        rw [if_neg (by decide), h.erase_iff, held_iff clientID, hread]
        simp only [Option.some.injEq, Bool.false_eq_true, imp_false, not_or]
        constructor
        · rintro ⟨halone, helsewhere⟩
          exact ⟨helsewhere, fun henabled => halone ⟨client, rfl, henabled, rfl⟩⟩
        · rintro ⟨helsewhere, hdisabled⟩
          refine ⟨?_, helsewhere⟩
          rintro ⟨other, rfl, henabled, -⟩
          exact hdisabled henabled
  · have hrun : (removeClient env clientID).run b.db =
        ((Answer.json 400 false (str "Please provide a valid client ID")).only, b.db) := by
      unfold removeClient
      rw [if_pos (by simp [hxid])]
      rfl
    rw [hrun]
    exact iff_of_true h fun _ hvalid => absurd hvalid hxid

/-- A request after which the peers follow the clients is one that meets the condition. -/
theorem follows_serve (h : Follows b.db.clients b.peers) (hnamed : Named b.db.clients)
    {r : ClientRequest} (hnew : GeneratesNew derive b.db r) :
    Follows (b.serve derive r).db.clients (b.serve derive r).peers ↔ KeepsPeers b.db r := by
  cases r with
  | newClient env body => exact follows_newClient h hnew
  | updateClient env body => exact follows_updateClient h hnamed
  | setClientStatus env body => exact follows_setClientStatus h hnamed
  | removeClient env clientID => exact follows_removeClient h hnamed

theorem ClientEffect.named {db db' : Db} {r : ClientRequest} (h : ClientEffect derive db r db')
    (hnamed : Named db.clients) : Named db'.clients := by
  intro name client hread
  rcases h.clients with hsame | ⟨clientID, hdelete⟩ | ⟨record, -, hwrite⟩
  · exact hnamed name client (hsame ▸ hread)
  · rw [hdelete] at hread
    exact hnamed name client (Dir.read_delete_eq_some.mp hread).2
  · rw [hwrite] at hread
    rcases Dir.read_write_eq_some.mp hread with ⟨rfl, rfl⟩ | ⟨-, hold⟩
    · rfl
    · exact hnamed name client hold

end

/-- The clients stand under their IDs, and the peers follow them. -/
def InStep (b : Backed) : Prop := Named b.db.clients ∧ Follows b.db.clients b.peers

/-- Neither clients nor peers. -/
def NoPeers (b : Backed) : Prop := b.db.clients = .empty ∧ b.peers = ∅

/-- A request served alone. -/
def BackedStep (derive : Key → Key) (b : Backed) (r : ClientRequest) (b' : Backed) : Prop :=
  b.serve derive r = b'

theorem inStep_of_noPeers {b : Backed} (h : NoPeers b) : InStep b := by
  obtain ⟨hclients, hpeers⟩ := h
  rw [InStep, hclients, hpeers]
  constructor
  · intro name client hread
    cases hread
  · refine fun key => iff_of_false (Finset.notMem_empty key) ?_
    rintro ⟨name, client, hread, -⟩
    cases hread

/-- In a run whose requests meet the condition the peers of the backend are the enabled clients,
and the first request that does not meet it ends that. -/
theorem peersFollow_of_reach {derive : Key → Key} {b : Backed}
    (h : Reach NoPeers (BackedStep derive)
      (fun b r => GeneratesNew derive b.db r ∧ KeepsPeers b.db r) b) :
    PeersFollow b ∧ ∀ r b', GeneratesNew derive b.db r → BackedStep derive b r b' →
      (PeersFollow b' ↔ KeepsPeers b.db r) := by
  have hstep : InStep b := by
    refine h.invariant (fun _ hinit => inStep_of_noPeers hinit) ?_
    rintro b r _ ⟨hnamed, hfollows⟩ ⟨hnew, hkeeps⟩ rfl
    have heffect : ClientStep derive b.db r (b.serve derive r).db := rfl
    exact ⟨heffect.effect.named hnamed, (follows_serve hfollows hnamed hnew).mpr hkeeps⟩
  refine ⟨peersFollow_iff.mpr hstep.2, ?_⟩
  rintro r _ hnew rfl
  exact peersFollow_iff.trans (follows_serve hstep.2 hstep.1 hnew)

/-- A store without clients, and a backend without peers. -/
def freshBacked : Backed := ⟨freshDb, ∅⟩

theorem generatesNew_usual : GeneratesNew alphaDerive freshDb (.newClient usualEnv usualBody) := by
  refine ⟨rfl, fun _ _ _ hheld => ?_⟩
  obtain ⟨name, client, hread, -⟩ := hheld
  cases hread

/-- The backend after a new client. -/
def annBacked : Backed := freshBacked.serve alphaDerive (.newClient usualEnv usualBody)

theorem peersFollow_of_reach_ann : PeersFollow annBacked ∧
    ∀ r b', GeneratesNew alphaDerive annBacked.db r → BackedStep alphaDerive annBacked r b' →
      (PeersFollow b' ↔ KeepsPeers annBacked.db r) := by
  have hkeeps : KeepsPeers freshDb (.newClient usualEnv usualBody) := fun _ _ => rfl
  exact peersFollow_of_reach (.step (.init ⟨rfl, rfl⟩) ⟨generatesNew_usual, hkeeps⟩ rfl)

/-- A client that is disabled stays a peer. -/
theorem not_peersFollow : ∃ b : Backed,
    Reach NoPeers (BackedStep alphaDerive) (fun b r => GeneratesNew alphaDerive b.db r) b ∧
      ¬ PeersFollow b := by
  have hann : Reach NoPeers (BackedStep alphaDerive)
      (fun b r => GeneratesNew alphaDerive b.db r) annBacked :=
    .step (.init ⟨rfl, rfl⟩) generatesNew_usual rfl
  refine ⟨annBacked.serve alphaDerive
    (.setClientStatus usualEnv (some ⟨some usualXid.text, some false⟩)), ?_, fun h => ?_⟩
  · exact hann.step (i := .setClientStatus usualEnv (some ⟨some usualXid.text, some false⟩))
      trivial rfl
  · have hpeer := (h.enabled alphaPublicKey.toText).mp (by decide +kernel)
    revert hpeer
    decide +kernel

end QrWireguard.WebUi
