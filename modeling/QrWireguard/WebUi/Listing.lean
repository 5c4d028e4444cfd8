import QrWireguard.WebUi.Validation

/-!
# Requests and the listing of addresses

A client gets its addresses after they have been compared with the addresses of the server and of
the other clients. The error of that listing is dropped, and then nothing is compared; and an
address of the server that is no CIDR text lets the check panic.
-/

namespace QrWireguard.WebUi

open Prog

/-! ## The listing -/

/-- The addresses of the server and of clients, as the store has them. -/
def Db.heldCIDRs (db : Db) (clients : List Client) : List Str :=
  (db.interfaces.elim [] (·.addresses)) ++ clients.flatMap (·.allocatedIPs)

/-- The clients that the listing for a request looks at. -/
def Db.listedClients (db : Db) (ignoreClientID : Str) : List Client :=
  db.clients.readAll.filter (·.id ≠ ignoreClientID)

/-- When all texts can be parsed, the listing has all their addresses. -/
theorem allocatedIPs_of_valid {db : Db} {ignoreClientID : Str} {interface : ServerInterface}
    (hinterface : db.interfaces = some interface)
    (hvalid : ∀ held ∈ db.heldCIDRs (db.listedClients ignoreClientID), validateCIDR held = true) :
    ∃ ips, db.allocatedIPs ignoreClientID = some ips ∧
      ∀ held ∈ db.heldCIDRs (db.listedClients ignoreClientID), ∀ ip net,
        parseCIDR held = some (ip, net) → ipString ip ∈ ips := by
  have hparse : ∀ held ∈ db.heldCIDRs (db.listedClients ignoreClientID),
      (getIPFromCIDR held).isSome = true := by
    intro held hheld
    rw [getIPFromCIDR, Option.isSome_map]
    exact hvalid held hheld
  rw [Db.heldCIDRs, hinterface, Option.elim_some] at hparse ⊢
  have hserver := mapM_eq_some_iff.mpr ⟨fun a ha => hparse a (List.mem_append_left _ ha), rfl⟩
  have hips := mapM_eq_some_iff.mpr ⟨fun a ha => hparse a (List.mem_append_right _ ha), rfl⟩
  refine ⟨interface.addresses.filterMap getIPFromCIDR ++
    ((db.listedClients ignoreClientID).flatMap (·.allocatedIPs)).filterMap getIPFromCIDR, ?_, ?_⟩
  · rw [allocatedIPs_eq, hinterface, Option.bind_some, hserver, Option.bind_some, clientIPs,
      show (db.clients.readAll.filter (·.id ≠ ignoreClientID)).flatMap (·.allocatedIPs) =
        (db.listedClients ignoreClientID).flatMap (·.allocatedIPs) from rfl, hips, Option.map_some]
  · intro held hheld ip net hip
    have hget : getIPFromCIDR held = some (ipString ip) := by
      rw [getIPFromCIDR, hip, Option.map_some]
    rcases List.mem_append.mp hheld with hmem | hmem
    · exact List.mem_append_left _ (List.mem_filterMap.mpr ⟨held, hmem, hget⟩)
    · exact List.mem_append_right _ (List.mem_filterMap.mpr ⟨held, hmem, hget⟩)

/-! ## What a request comes to -/

/-- Every requested address has been compared with all addresses of the server and of the other
clients, and is free and in a network of the server. -/
def CompleteCheck (db : Db) (others : List Client) (cidrs : List Str) : Prop :=
  (∀ held ∈ db.heldCIDRs others, validateCIDR held = true) ∧
    ∀ cidr ∈ cidrs, ∃ ip net, parseCIDR cidr = some (ip, net) ∧
      (∀ held ∈ db.heldCIDRs others, ∀ heldNet, parseCIDR held ≠ some (ip, heldNet)) ∧
      InSomeNetwork (db.interfaces.elim [] (·.addresses)) ip

/-- A request is answered with an error and leaves the clients as they are. -/
def Refuses (db : Db) (r : Reply × Db) : Prop :=
  r.1.answer.success = false ∧ r.1.answer ≠ .panic ∧ r.2.clients = db.clients

/-- Whether a handler checks the requested addresses completely, whatever becomes of the files it
writes. -/
def ChecksAllocation (prog : StoreFaults → Prog Db Reply) (db : Db) (others : List Client)
    (cidrs : List Str) : Prop :=
  ∀ faults, CompleteCheck db others cidrs ∨ Refuses db ((prog faults).run db)

/-- The three ends of a handler that saves a client: the check of the addresses panics, the client
is saved, or the request is refused. -/
def Ends (panics passes : Prop) (faults : StoreFaults) (db : Db) (r : Reply × Db) : Prop :=
  (panics ∧ r = (Answer.panic.only, db)) ∨
    (¬ panics ∧ passes ∧ ∃ client reply, reply.answer.success = true ∧
      r = savingClient faults client reply db) ∨
    (¬ panics ∧ ¬ passes ∧ Refuses db r)

theorem checksAllocation_iff {prog : StoreFaults → Prog Db Reply} {db : Db}
    {panics passes : Prop} {others : List Client} {cidrs : List Str}
    (h : ∀ faults, Ends panics passes faults db ((prog faults).run db)) :
    ChecksAllocation prog db others cidrs ↔
      CompleteCheck db others cidrs ∨ ¬ panics ∧ ¬ passes := by
  constructor
  · intro hchecks
    refine (hchecks .none).imp_right fun hrefuses => ?_
    rcases h .none with ⟨-, hrun⟩ | ⟨-, -, client, reply, hsuccess, hrun⟩ | ⟨hpanics, hpasses, -⟩
    · rw [hrun] at hrefuses
      exact absurd rfl hrefuses.2.1
    · rw [hrun] at hrefuses
      exact absurd hrefuses.1 (by simp [savingClient, Db.saveClient, StoreFaults.none, hsuccess])
    · exact ⟨hpanics, hpasses⟩
  · rintro (hcomplete | ⟨hpanics, hpasses⟩) faults
    · exact .inl hcomplete
    · rcases h faults with ⟨hpanic, -⟩ | ⟨-, hpass, -⟩ | ⟨-, -, hrefuses⟩
      · exact absurd hpanic hpanics
      · exact absurd hpass hpasses
      · exact .inr hrefuses

/-- The addresses of a body make the check panic: at the first entry that it does not go on behind
it meets an address of the server that is no CIDR text. -/
def ListPanics (db : Db) (ignoreClientID : Str) (body : Client) : Prop :=
  validTgUserid body.tgUserid = true ∧ ∃ server, db.server = some server ∧ ∃ cidr,
    body.allocatedIPs.find? (fun cidr => !entryPasses server.interface.addresses
      ((db.allocatedIPs ignoreClientID).getD []) cidr) = some cidr ∧
    entryPanics server.interface.addresses ((db.allocatedIPs ignoreClientID).getD []) cidr = true

theorem listPanics_iff {db : Db} {ignoreClientID : Str} {body : Client} :
    ListPanics db ignoreClientID body ↔
      validTgUserid body.tgUserid = true ∧ ∃ server, db.server = some server ∧
        validateIPAllocation server.interface.addresses
          ((db.allocatedIPs ignoreClientID).getD []) body.allocatedIPs = some .panic := by
  simp only [ListPanics, validateIPAllocation_eq_panic]

theorem checkAddresses_panic {server : Server} {ips : Option (List Str)} {body : Client}
    {extraText : Str} : checkAddresses server ips body extraText = some .panic ↔
      validateIPAllocation server.interface.addresses (ips.getD []) body.allocatedIPs =
        some .panic := by
  unfold checkAddresses
  split
  · next answer h => rw [h]
  · next h =>
    rw [h]
    simp only [reduceCtorEq, iff_false]
    split
    · simp
    · split
      · simp
      · simp

/-- Whether a new client gets a key pair. -/
def KeyPairGiven (db : Db) (env : Env) (publicKey : Str) : Prop :=
  publicKey = [] ∧ env.privateKey ≠ none ∨
    publicKey ≠ [] ∧ (parseKey publicKey).isSome ∧
      db.clients.readAll.any (·.publicKey == publicKey) = false

/-- Whether a new client gets a preshared key. -/
def PresharedKeyGiven (env : Env) (presharedKey : Str) : Prop :=
  presharedKey = [] ∧ env.presharedKey ≠ none ∨
    presharedKey ≠ [] ∧ (presharedKey = ['-'] ∨ (parseKey presharedKey).isSome)

theorem run_newClientKeyPair (derive : Key → Key) (env : Env) (client : Client) (db : Db) :
    (KeyPairGiven db env client.publicKey ∧ ∃ privateKey publicKey,
      (newClientKeyPair derive env client).run db =
        (.ok { client with privateKey := privateKey, publicKey := publicKey }, db)) ∨
    (¬ KeyPairGiven db env client.publicKey ∧ ∃ message,
      (newClientKeyPair derive env client).run db = (.error (.json 500 false message), db)) := by
  unfold newClientKeyPair KeyPairGiven
  by_cases hempty : client.publicKey = []
  · rw [if_pos hempty]
    cases hkey : env.privateKey with
    | none => exact .inr ⟨by simp [hempty], _, rfl⟩
    | some key => exact .inl ⟨by simp [hempty], _, _, rfl⟩
  · rw [if_neg hempty]
    cases hkey : parseKey client.publicKey with
    | none => exact .inr ⟨by simp [hempty], _, rfl⟩
    | some key =>
      rw [if_neg (by simp), run_bind, getClients, run_read]
      dsimp only
      cases hany : db.clients.readAll.any (·.publicKey == client.publicKey) with
      | true => exact .inr ⟨by simp [hempty], _, rfl⟩
      | false => exact .inl ⟨by simp [hempty], client.privateKey, client.publicKey, rfl⟩

theorem newClientPresharedKey_cases (env : Env) (client : Client) :
    (PresharedKeyGiven env client.presharedKey ∧ ∃ presharedKey,
      newClientPresharedKey env client = .ok { client with presharedKey := presharedKey }) ∨
    (¬ PresharedKeyGiven env client.presharedKey ∧ ∃ message,
      newClientPresharedKey env client = .error (.json 500 false message)) := by
  unfold newClientPresharedKey PresharedKeyGiven
  by_cases hempty : client.presharedKey = []
  · rw [if_pos hempty]
    cases hkey : env.presharedKey with
    | none => exact .inr ⟨by simp [hempty], _, rfl⟩
    | some key => exact .inl ⟨by simp [hempty], _, rfl⟩
  · rw [if_neg hempty]
    by_cases hskip : client.presharedKey = ['-']
    · exact .inl ⟨by simp [hskip], [], by rw [if_pos hskip]⟩
    · rw [if_neg hskip]
      cases hkey : parseKey client.presharedKey with
      | none => exact .inr ⟨by simp [hempty, hskip], _, rfl⟩
      | some key => exact .inl ⟨by simp [hempty], client.presharedKey, rfl⟩

/-- What a new client that is saved has passed. -/
structure NewPasses (db : Db) (env : Env) (body : Client) : Prop where
  tgUserid : validTgUserid body.tgUserid = true
  addresses : ∃ server, db.server = some server ∧ checkAddresses server (db.allocatedIPs []) body
    (str "Extra AllowedIPs must be in CIDR format") = none
  publicKey : KeyPairGiven db env body.publicKey
  presharedKey : PresharedKeyGiven env body.presharedKey

theorem refuses_only {db : Db} {answer : Answer} (hsuccess : answer.success = false)
    (hpanic : answer ≠ .panic) : Refuses db (answer.only, db) := ⟨hsuccess, hpanic, rfl⟩

theorem run_saveNewClient (env : Env) (client : Client) (db : Db) :
    (saveNewClient env client).run db =
      let saved := { client with createdAt := env.now, updatedAt := env.now }
      savingClient env.faults saved ⟨.client saved, some (addWireguardPeer saved)⟩ db := by
  unfold saveNewClient
  rw [modifyGet_bind_ite]
  rfl

/-- The steps that a new client and an update begin with: the id of the user, the server, and the
addresses against the listing. -/
theorem ends_of_rest {passes : Prop} {faults : StoreFaults} {db : Db} {ignoreClientID : Str}
    {body : Client} {extraText : Str} {invalid noServer : Answer} {rest : Prog Db Reply}
    (hinvalid : Refuses db (invalid.only, db)) (hnoServer : Refuses db (noServer.only, db))
    (htg : passes → validTgUserid body.tgUserid = true)
    (haddresses : passes → ∃ server, db.server = some server ∧
      checkAddresses server (db.allocatedIPs ignoreClientID) body extraText = none)
    (hrest : validTgUserid body.tgUserid = true →
      (∃ server, db.server = some server ∧
        checkAddresses server (db.allocatedIPs ignoreClientID) body extraText = none) →
      (passes ∧ ∃ client reply, reply.answer.success = true ∧
        rest.run db = savingClient faults client reply db) ∨ ¬ passes ∧ Refuses db (rest.run db)) :
    Ends (ListPanics db ignoreClientID body) passes faults db
      ((if !validTgUserid body.tgUserid then pure invalid.only
        else do
          match ← getServer with
          | none => pure noServer.only
          | some server =>
            let allocatedIPs ← getAllocatedIPs ignoreClientID
            match checkAddresses server allocatedIPs body extraText with
            | some answer => pure answer.only
            | none => rest : Prog Db Reply).run db) := by
  by_cases hvalid : validTgUserid body.tgUserid = true
  · rw [if_neg (by simp [hvalid]), run_bind, run_getServer]
    dsimp only
    cases hserver : db.server with
    | none =>
      refine .inr (.inr ⟨fun h => ?_, fun h => ?_, hnoServer⟩)
      · obtain ⟨-, server, hsome, -⟩ := listPanics_iff.mp h
        exact absurd (hserver.symm.trans hsome) nofun
      · obtain ⟨server, hsome, -⟩ := haddresses h
        exact absurd (hserver.symm.trans hsome) nofun
    | some server =>
      have hpanics : ListPanics db ignoreClientID body ↔
          checkAddresses server (db.allocatedIPs ignoreClientID) body extraText =
            some .panic := by
        rw [listPanics_iff, hserver, checkAddresses_panic]
        simp [hvalid]
      rw [run_bind, run_getAllocatedIPs]
      dsimp only
      rw [Ends, hpanics]
      cases hcheck : checkAddresses server (db.allocatedIPs ignoreClientID) body extraText with
      | some answer =>
        by_cases hpanic : answer = .panic
        · rw [hpanic]
          exact .inl ⟨rfl, rfl⟩
        · refine .inr (.inr ⟨fun h => hpanic (Option.some.inj h), fun h => ?_,
            refuses_only (checkAddresses_some hcheck) hpanic⟩)
          obtain ⟨other, hother, hnone⟩ := haddresses h
          rw [Option.some.inj (hother.symm.trans hserver), hcheck] at hnone
          cases hnone
      | none =>
        rcases hrest hvalid ⟨server, hserver, hcheck⟩ with ⟨hpasses, hsaves⟩ | ⟨hpasses, hrefuses⟩
        · exact .inr (.inl ⟨nofun, hpasses, hsaves⟩)
        · exact .inr (.inr ⟨nofun, hpasses, hrefuses⟩)
  · rw [if_pos (by simp [hvalid])]
    exact .inr (.inr ⟨fun h => hvalid h.1, fun h => hvalid (htg h), hinvalid⟩)

theorem ends_newClient (derive : Key → Key) (env : Env) (body : Client) (db : Db) :
    Ends (ListPanics db [] body) (NewPasses db env body) env.faults db
      ((newClient derive env body).run db) := by
  unfold newClient
  refine ends_of_rest (refuses_only rfl nofun) (refuses_only rfl nofun) (·.tgUserid)
    (·.addresses) fun htg haddresses => ?_
  rw [run_bind]
  rcases run_newClientKeyPair derive env { body with id := env.guid.text } db with
    ⟨hpair, privateKey, publicKey, hrun⟩ | ⟨hpair, message, hrun⟩
  · rw [hrun]
    dsimp only
    rcases newClientPresharedKey_cases env { body with
      id := env.guid.text, privateKey := privateKey, publicKey := publicKey } with
      ⟨hpreshared, presharedKey, hok⟩ | ⟨hpreshared, message, herror⟩
    · rw [hok]
      let saved := newRecord env body privateKey publicKey presharedKey
      exact .inl ⟨⟨htg, haddresses, hpair, hpreshared⟩, saved,
        ⟨.client saved, some (addWireguardPeer saved)⟩, rfl, run_saveNewClient env _ db⟩
    · rw [herror]
      exact .inr ⟨fun h => hpreshared h.presharedKey, refuses_only rfl nofun⟩
  · rw [hrun]
    exact .inr ⟨fun h => hpair h.publicKey, refuses_only rfl nofun⟩

theorem run_updateClientKeyPair_error {client body : Client} {db : Db}
    (h : ¬ PublicKeyPasses (· = db) client body) :
    ∃ message,
      (updateClientKeyPair client body).run db = (.error (.json 500 false message), db) := by
  have hnew : client.publicKey ≠ body.publicKey ∧ body.publicKey ≠ [] :=
    ⟨fun hsame => h (.inl hsame), fun hempty => h (.inr (.inl hempty))⟩
  unfold updateClientKeyPair
  rw [if_pos hnew]
  cases hkey : parseKey body.publicKey with
  | none => exact ⟨_, rfl⟩
  | some key =>
    rw [if_neg (by simp), run_bind, getClients, run_read]
    dsimp only
    cases hany : db.clients.readAll.any (·.publicKey == body.publicKey) with
    | true => exact ⟨_, rfl⟩
    | false => exact absurd (.inr (.inr ⟨by rw [hkey]; rfl, db, rfl, hany⟩)) h

theorem ends_updateStoredClient (env : Env) (body client : Client) (db : Db) :
    Ends (ListPanics db client.id body) (UpdatePasses (· = db) db client body) env.faults db
      ((updateStoredClient env body client).run db) := by
  unfold updateStoredClient
  refine ends_of_rest (refuses_only rfl nofun) (refuses_only rfl nofun) (·.tgUserid)
    (·.addresses) fun htg haddresses => ?_
  rw [run_bind]
  by_cases hkey : PublicKeyPasses (· = db) client body
  · rw [run_updateClientKeyPair hkey]
    dsimp only
    by_cases hpreshared : badPresharedKey client body = true
    · rw [if_pos hpreshared]
      refine .inr ⟨fun h => ?_, refuses_only rfl nofun⟩
      exact absurd (hpreshared.symm.trans h.presharedKey) nofun
    · rw [if_neg hpreshared]
      exact .inl ⟨⟨htg, haddresses, hkey, by simpa using hpreshared⟩, _, _, rfl,
        run_saveUpdatedClient env (mapNewData env.now _ body) db⟩
  · obtain ⟨message, hrun⟩ := run_updateClientKeyPair_error hkey
    rw [hrun]
    exact .inr ⟨fun h => hkey h.publicKey, refuses_only rfl nofun⟩

/-- A record that an update reads has a property. -/
def UpdateReads (db : Db) (body : Client) (P : Client → Prop) : Prop :=
  validXid body.id = true ∧ ∃ client, db.clients.read body.id = some client ∧ P client

theorem ends_updateClient (env : Env) (body : Client) (db : Db) :
    Ends (UpdateReads db body fun client => ListPanics db client.id body)
      (UpdateReads db body fun client => UpdatePasses (· = db) db client body) env.faults db
      ((updateClient env body).run db) := by
  unfold updateClient
  by_cases hxid : validXid body.id = true
  · rw [if_neg (by simp [hxid]), run_bind, getClientByID, run_read]
    dsimp only
    cases hread : db.clients.read body.id with
    | none =>
      refine .inr (.inr ⟨fun h => ?_, fun h => ?_, refuses_only rfl (by simp)⟩) <;>
      · obtain ⟨-, client, hsome, -⟩ := h
        rw [hread] at hsome
        cases hsome
    | some client =>
      have hiff : ∀ P : Client → Prop, UpdateReads db body P ↔ P client := fun P => by
        simp [UpdateReads, hxid, hread]
      rw [hiff, hiff]
      exact ends_updateStoredClient env body client db
  · rw [if_pos (by simp [hxid])]
    exact .inr (.inr ⟨fun h => hxid h.1, fun h => hxid h.1, refuses_only rfl (by simp)⟩)

theorem clients_savingClient (faults : StoreFaults) (client : Client) (reply : Reply) (db : Db) :
    (savingClient faults client reply db).2.clients = db.clients ∨
      (savingClient faults client reply db).2.clients = db.clients.write client.id client := by
  unfold savingClient Db.saveClient
  split
  · exact .inr rfl
  · exact .inl rfl

/-- A reply that reports a failure of the store comes without a message. -/
theorem noMessage_savingClient {faults : StoreFaults} {client : Client} {reply : Reply} {db : Db}
    (hreply : reply.answer.success = true)
    (h : (savingClient faults client reply db).1.answer.success = false) :
    (savingClient faults client reply db).1.message = none := by
  unfold savingClient at h ⊢
  split at h
  · rw [hreply] at h
    cases h
  · next hfails =>
    dsimp only
    rw [if_neg hfails]
    rfl

theorem run_newClient {derive : Key → Key} {env : Env} {body : Client} {db : Db}
    (h : NewPasses db env body) : ∃ privateKey publicKey presharedKey,
      NewKeyPair derive env body privateKey publicKey ∧
      (newClient derive env body).run db =
        savingClient env.faults (newRecord env body privateKey publicKey presharedKey)
          ⟨.client (newRecord env body privateKey publicKey presharedKey),
            some (addWireguardPeer (newRecord env body privateKey publicKey presharedKey))⟩ db := by
  obtain ⟨server, hserver, haddresses⟩ := h.addresses
  have hpair := (newClientKeyPair_reads derive env body).run_fst db
  rcases run_newClientKeyPair derive env { body with id := env.guid.text } db with
    ⟨-, privateKey, publicKey, hkeys⟩ | ⟨hnone, -⟩
  · rw [hkeys] at hpair
    obtain ⟨privateKey', publicKey', hpair, hsame⟩ := hpair
    rcases newClientPresharedKey_cases env { body with
      id := env.guid.text, privateKey := privateKey', publicKey := publicKey' } with
      ⟨-, presharedKey, hpreshared⟩ | ⟨hnone, -⟩
    · refine ⟨privateKey', publicKey', presharedKey, hpair, ?_⟩
      unfold newClient
      rw [if_neg (by simp [h.tgUserid]), run_bind, run_getServer, hserver]
      dsimp only
      rw [run_bind, run_getAllocatedIPs]
      dsimp only
      rw [haddresses]
      dsimp only
      rw [run_bind, hkeys]
      dsimp only at hsame ⊢
      rw [hsame, hpreshared]
      exact run_saveNewClient env _ db
    · exact absurd h.presharedKey hnone
  · exact absurd h.publicKey hnone

/-- What a new client comes to: a record is saved that has passed the checks, or the clients stay
as they are and there is no message. -/
theorem newClient_cases (derive : Key → Key) (env : Env) (body : Client) (db : Db) :
    (¬ NewPasses db env body ∧ ((newClient derive env body).run db).2.clients = db.clients ∧
        ((newClient derive env body).run db).1.message = none) ∨
      NewPasses db env body ∧ ∃ privateKey publicKey presharedKey,
        NewKeyPair derive env body privateKey publicKey ∧
        (newClient derive env body).run db =
          savingClient env.faults (newRecord env body privateKey publicKey presharedKey)
            ⟨.client (newRecord env body privateKey publicKey presharedKey),
              some (addWireguardPeer (newRecord env body privateKey publicKey presharedKey))⟩ db := by
  by_cases hpasses : NewPasses db env body
  · exact .inr ⟨hpasses, run_newClient hpasses⟩
  · refine .inl ⟨hpasses, ?_⟩
    rcases ends_newClient derive env body db with ⟨-, hpanic⟩ | ⟨-, hpass, -⟩ | ⟨-, -, hrefuses⟩
    · rw [hpanic]
      exact ⟨rfl, rfl⟩
    · exact absurd hpass hpasses
    · refine ⟨hrefuses.2.2, ?_⟩
      rcases (newClient_commits derive env body).run db with ⟨⟨-, hmessage⟩, -⟩ | ⟨f, hf, hrun⟩
      · exact hmessage
      · obtain ⟨privateKey, publicKey, presharedKey, -, -, -, rfl⟩ := hf
        have hfails := hrefuses.1
        rw [hrun] at hfails ⊢
        exact noMessage_savingClient rfl hfails

theorem updateClient_cases (env : Env) (body : Client) (db : Db) :
    (¬ UpdateReads db body (fun client => UpdatePasses (· = db) db client body) ∧
        ((updateClient env body).run db).2.clients = db.clients ∧
        ((updateClient env body).run db).1.message = none) ∨
      ∃ client, validXid body.id = true ∧ db.clients.read body.id = some client ∧
        UpdatePasses (· = db) db client body ∧
        (updateClient env body).run db = updating env body client db := by
  by_cases hreads : UpdateReads db body fun client => UpdatePasses (· = db) db client body
  · obtain ⟨hxid, client, hread, hpasses⟩ := hreads
    refine .inr ⟨client, hxid, hread, hpasses, ?_⟩
    unfold updateClient
    rw [if_neg (by simp [hxid]), run_bind, getClientByID, run_read, hread]
    exact run_updateStoredClient hpasses
  · refine .inl ⟨hreads, ?_⟩
    rcases ends_updateClient env body db with ⟨-, hpanic⟩ | ⟨-, hpass, -⟩ | ⟨-, -, hrefuses⟩
    · rw [hpanic]
      exact ⟨rfl, rfl⟩
    · exact absurd hpass hreads
    · refine ⟨hrefuses.2.2, ?_⟩
      have hcommits := (Edit.update env body).commits.run db
      change (Rejected ((updateClient env body).run db).1 ∧ _) ∨ _ at hcommits
      rcases hcommits with ⟨⟨-, hmessage⟩, -⟩ | ⟨f, ⟨client, rfl⟩, hrun⟩
      · exact hmessage
      · change (updateClient env body).run db = updating env body client db at hrun
        have hfails := hrefuses.1
        rw [hrun] at hfails ⊢
        exact noMessage_savingClient rfl hfails

/-- What a new client changes: a record is written that has passed the checks. -/
theorem clients_newClient (derive : Key → Key) (env : Env) (body : Client) (db : Db) :
    ((newClient derive env body).run db).2.clients = db.clients ∨
      NewPasses db env body ∧ ∃ privateKey publicKey presharedKey,
        NewKeyPair derive env body privateKey publicKey ∧
        ((newClient derive env body).run db).2.clients = db.clients.write env.guid.text
          (newRecord env body privateKey publicKey presharedKey) := by
  rcases newClient_cases derive env body db with
    ⟨-, hsame, -⟩ | ⟨hpasses, privateKey, publicKey, presharedKey, hpair, hrun⟩
  · exact .inl hsame
  · rw [hrun]
    exact (clients_savingClient _ _ _ db).imp_right fun hwrite =>
      ⟨hpasses, privateKey, publicKey, presharedKey, hpair, hwrite⟩

theorem clients_updateClient (env : Env) (body : Client) (db : Db) :
    ((updateClient env body).run db).2.clients = db.clients ∨
      ∃ client, db.clients.read body.id = some client ∧
        UpdatePasses (· = db) db client body ∧
        ((updateClient env body).run db).2.clients =
          db.clients.write client.id (updatedRecord env.now client body) := by
  rcases updateClient_cases env body db with ⟨-, hsame, -⟩ | ⟨client, -, hread, hpasses, hrun⟩
  · exact .inl hsame
  · rw [hrun]
    exact (clients_savingClient _ _ _ db).imp_right fun hwrite =>
      ⟨client, hread, hpasses, hwrite⟩

/-! ## When the check is complete -/

/-- The listing of addresses succeeds and misses none of those that are requested: the addresses of
the server and of the other clients are CIDR texts, and a client that the listing leaves out has
none of the requested ones. -/
def ListingComplete (db : Db) (others : List Client) (ignoreClientID : Str) (cidrs : List Str) :
    Prop :=
  (∀ held ∈ db.heldCIDRs others, validateCIDR held = true) ∧
    ∀ client ∈ others, client.id = ignoreClientID → ∀ held ∈ client.allocatedIPs,
      ∀ cidr ∈ cidrs, ∀ ip heldNet net, parseCIDR held = some (ip, heldNet) →
        parseCIDR cidr ≠ some (ip, net)

/-- The client whose addresses the listing for an update leaves out. -/
def Db.updatedID (db : Db) (body : Client) : Str := (db.clients.read body.id).elim body.id (·.id)

section
variable {db : Db} {others : List Client} {ignoreClientID : Str} {cidrs : List Str}

theorem interfaces_of_server {server : Server} (h : db.server = some server) :
    db.interfaces = some server.interface := by
  rw [server_eq] at h
  obtain ⟨interface, hinterface, hserver⟩ := Option.bind_eq_some_iff.mp h
  obtain ⟨keyPair, -, rfl⟩ := Option.map_eq_some_iff.mp hserver
  exact hinterface

theorem mem_heldCIDRs {held : Str} : held ∈ db.heldCIDRs others ↔
    (∃ interface, db.interfaces = some interface ∧ held ∈ interface.addresses) ∨
      ∃ client ∈ others, held ∈ client.allocatedIPs := by
  rw [Db.heldCIDRs, List.mem_append, List.mem_flatMap]
  refine or_congr_left ?_
  cases db.interfaces <;> simp

theorem ListingComplete.ne_panic {server : Server}
    (h : ListingComplete db others ignoreClientID cidrs) (hserver : db.server = some server) (ips : List Str) :
    validateIPAllocation server.interface.addresses ips cidrs ≠ some .panic :=
  validateIPAllocation_ne_panic fun held hheld =>
    h.1 held (mem_heldCIDRs.mpr (.inl ⟨_, interfaces_of_server hserver, hheld⟩))

/-- With a complete listing, a list that is accepted has been checked completely. -/
theorem ListingComplete.completeCheck {server : Server}
    (h : ListingComplete db others ignoreClientID cidrs)
    (hothers : ∀ client ∈ db.listedClients ignoreClientID, client ∈ others)
    (hlisted : ∀ client ∈ others, client.id ≠ ignoreClientID →
      client ∈ db.listedClients ignoreClientID)
    (hserver : db.server = some server)
    (haccepted : validateIPAllocation server.interface.addresses
      ((db.allocatedIPs ignoreClientID).getD []) cidrs = none) :
    CompleteCheck db others cidrs := by
  have hinterface := interfaces_of_server hserver
  have hsub : ∀ held ∈ db.heldCIDRs (db.listedClients ignoreClientID),
      held ∈ db.heldCIDRs others := by
    intro held hheld
    rw [mem_heldCIDRs] at hheld ⊢
    exact hheld.imp_right fun ⟨client, hclient, hmem⟩ => ⟨client, hothers client hclient, hmem⟩
  obtain ⟨ips, hips, hall⟩ := allocatedIPs_of_valid hinterface fun held hheld =>
    h.1 held (hsub held hheld)
  rw [hips, Option.getD_some, validateIPAllocation_eq_none] at haccepted
  refine ⟨h.1, fun cidr hcidr => ?_⟩
  obtain ⟨ip, net, hparse, hfree, hin⟩ := haccepted cidr hcidr
  refine ⟨ip, net, hparse, fun held hheld heldNet heq => ?_, ?_⟩
  · have hnotListed : held ∉ db.heldCIDRs (db.listedClients ignoreClientID) := fun hmem =>
      hfree (hall held hmem ip heldNet heq)
    rcases mem_heldCIDRs.mp hheld with hof | ⟨client, hclient, hmem⟩
    · exact hnotListed (mem_heldCIDRs.mpr (.inl hof))
    · by_cases hid : client.id = ignoreClientID
      · exact h.2 client hclient hid held hmem cidr hcidr ip heldNet net heq hparse
      · exact hnotListed (mem_heldCIDRs.mpr (.inr ⟨client, hlisted client hclient hid, hmem⟩))
  · rw [hinterface, Option.elim_some]
    exact inServerNetwork_true hin

theorem CompleteCheck.listingComplete (h : CompleteCheck db others cidrs) :
    ListingComplete db others ignoreClientID cidrs := by
  refine ⟨h.1, fun client hclient _ held hheld cidr hcidr ip heldNet net hparse hcidrParse => ?_⟩
  obtain ⟨ip', net', hcidr', hne, -⟩ := h.2 cidr hcidr
  obtain ⟨rfl, -⟩ := Prod.mk.inj (Option.some.inj (hcidrParse.symm.trans hcidr'))
  exact hne held (mem_heldCIDRs.mpr (.inr ⟨client, hclient, hheld⟩)) heldNet hparse

theorem completeCheck_or_iff {panics passes : Prop}
    (hothers : ∀ client ∈ db.listedClients ignoreClientID, client ∈ others)
    (hlisted : ∀ client ∈ others, client.id ≠ ignoreClientID →
      client ∈ db.listedClients ignoreClientID)
    (hpanics : panics → ∃ server, db.server = some server ∧
      validateIPAllocation server.interface.addresses
        ((db.allocatedIPs ignoreClientID).getD []) cidrs = some .panic)
    (hpasses : passes → ∃ server, db.server = some server ∧
      validateIPAllocation server.interface.addresses
        ((db.allocatedIPs ignoreClientID).getD []) cidrs = none) :
    (CompleteCheck db others cidrs ∨ ¬ panics ∧ ¬ passes) ↔
      (ListingComplete db others ignoreClientID cidrs ∨ ¬ panics ∧ ¬ passes) := by
  constructor
  · exact Or.imp_left CompleteCheck.listingComplete
  · rintro (hcomplete | hrefused)
    · by_cases hpass : passes
      · obtain ⟨server, hserver, haccepted⟩ := hpasses hpass
        exact .inl (hcomplete.completeCheck hothers hlisted hserver haccepted)
      · refine .inr ⟨fun hpanic => ?_, hpass⟩
        obtain ⟨server, hserver, hpanicked⟩ := hpanics hpanic
        exact hcomplete.ne_panic hserver _ hpanicked
    · exact .inr hrefused

end

theorem validateIPAllocation_of_checkAddresses {server : Server} {ips : Option (List Str)}
    {body : Client} {extraText : Str} (h : checkAddresses server ips body extraText = none) :
    validateIPAllocation server.interface.addresses (ips.getD []) body.allocatedIPs = none := by
  unfold checkAddresses at h
  split at h
  · cases h
  · assumption

/-- A new client and an update check the requested addresses completely when the listing is
complete, or when they refuse the request for another reason. -/
theorem checksAllocation_iff_listing (derive : Key → Key) (env : Env) (body : Client) (db : Db) :
    (ChecksAllocation (fun faults => newClient derive { env with faults := faults } body) db
        db.clients.readAll body.allocatedIPs ↔
      ListingComplete db db.clients.readAll [] body.allocatedIPs ∨
        ¬ ListPanics db [] body ∧ ¬ NewPasses db env body) ∧
    (ChecksAllocation (fun faults => updateClient { env with faults := faults } body) db
        (db.listedClients (db.updatedID body)) body.allocatedIPs ↔
      ListingComplete db (db.listedClients (db.updatedID body)) (db.updatedID body)
          body.allocatedIPs ∨
        ¬ UpdateReads db body (fun client => ListPanics db client.id body) ∧
          ¬ UpdateReads db body fun client => UpdatePasses (· = db) db client body) := by
  constructor
  · have hends : ∀ faults, Ends (ListPanics db [] body) (NewPasses db env body) faults db
        ((newClient derive { env with faults := faults } body).run db) := by
      intro faults
      have h := ends_newClient derive { env with faults := faults } body db
      have hsame : NewPasses db { env with faults := faults } body ↔ NewPasses db env body :=
        ⟨fun h => ⟨h.1, h.2, h.3, h.4⟩, fun h => ⟨h.1, h.2, h.3, h.4⟩⟩
      rwa [hsame] at h
    rw [checksAllocation_iff hends]
    refine completeCheck_or_iff (fun client h => List.mem_of_mem_filter h)
      (fun client hmem hid => ?_) (fun h => (listPanics_iff.mp h).2) fun h => ?_
    · exact List.mem_filter.mpr ⟨hmem, by simpa using hid⟩
    · obtain ⟨server, hserver, haccepted⟩ := h.addresses
      exact ⟨server, hserver, validateIPAllocation_of_checkAddresses haccepted⟩
  · have hid : ∀ client, db.clients.read body.id = some client → db.updatedID body = client.id := by
      intro client hread
      rw [Db.updatedID, hread, Option.elim_some]
    rw [checksAllocation_iff fun faults => ends_updateClient { env with faults := faults } body db]
    refine completeCheck_or_iff (fun client h => h) (fun client hmem _ => hmem) ?_ ?_
    · rintro ⟨-, client, hread, hpanics⟩
      obtain ⟨-, server, hserver, hpanic⟩ := listPanics_iff.mp hpanics
      rw [hid client hread]
      exact ⟨server, hserver, hpanic⟩
    · rintro ⟨-, client, hread, hpasses⟩
      obtain ⟨server, hserver, haccepted⟩ := hpasses.addresses
      rw [hid client hread]
      exact ⟨server, hserver, validateIPAllocation_of_checkAddresses haccepted⟩

/-- A store whose server has an address with a space in front of it, as a list in the environment
may have it. -/
def spacedDb : Db :=
  initDb alphaDerive
    { endpointAddress := str "203.0.113.1"
      serverAddresses := [str "10.252.1.1/24", str " fd00::1/64"] } alphaKey usualTime .empty
    fun _ => none

/-- An address of the server that is no CIDR text lets a client have the address of the server. -/
theorem not_checksAllocation :
    ¬ ChecksAllocation (fun faults => newClient alphaDerive { usualEnv with faults := faults }
      { usualBody with allocatedIPs := [str "10.252.1.1/32"] }) spacedDb spacedDb.clients.readAll
      [str "10.252.1.1/32"] := by
  intro h
  rcases h .none with ⟨hvalid, -⟩ | ⟨hfails, -⟩
  · have hspaced : str " fd00::1/64" ∈ spacedDb.heldCIDRs spacedDb.clients.readAll := by
      decide +kernel
    have hno : validateCIDR (str " fd00::1/64") = false := by decide +kernel
    rw [hvalid _ hspaced] at hno
    cases hno
  · have hsaved : ((newClient alphaDerive { usualEnv with faults := .none }
        { usualBody with allocatedIPs := [str "10.252.1.1/32"] }).run
          spacedDb).1.answer.success = true := by
      decide +kernel
    rw [hsaved] at hfails
    cases hfails

end QrWireguard.WebUi
