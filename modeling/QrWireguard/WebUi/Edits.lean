import QrWireguard.Misc.TwoProgs
import QrWireguard.WebUi.KeyPairs

/-!
# Two edits of one client

Requests that update a client or set its status, two at a time. Each of them reads the record
of the client in its first step and writes the whole record back in its last one, so an edit
that starts before the other has returned can undo what the other has changed.
-/

namespace QrWireguard.WebUi

open BePlugin Prog

/-- What `GetServer` reads in a store. -/
def Db.server (db : Db) : Option Server := (getServer.run db).1

/-- What `GetAllocatedIPs` reads in a store. -/
def Db.allocatedIPs (db : Db) (ignoreClientID : Str) : Option (List Str) :=
  ((getAllocatedIPs ignoreClientID).run db).1

theorem run_getServer (db : Db) : getServer.run db = (db.server, db) :=
  Prod.ext rfl (reads_getServer.run_snd db)

theorem run_getAllocatedIPs (db : Db) (ignoreClientID : Str) :
    (getAllocatedIPs ignoreClientID).run db = (db.allocatedIPs ignoreClientID, db) :=
  Prod.ext rfl ((reads_getAllocatedIPs ignoreClientID).run_snd db)

/-- Stores that agree on everything but one client and what follows from requests to it. -/
structure SameBut (clientID : Str) (db s : Db) : Prop where
  interfaces : s.interfaces = db.interfaces
  keypair : s.keypair = db.keypair
  others : s.clients.readAll.filter (·.id ≠ clientID) = db.clients.readAll.filter (·.id ≠ clientID)

theorem server_eq (db : Db) :
    db.server = db.interfaces.bind fun interface => db.keypair.map fun keyPair =>
      ⟨keyPair, interface⟩ := by
  unfold Db.server getServer
  rw [run_bind, run_read]
  cases db.interfaces with
  | none => rfl
  | some interface =>
    dsimp only
    rw [run_bind, run_read]
    cases db.keypair <;> rfl

theorem allocatedIPs_eq (db : Db) (ignoreClientID : Str) :
    db.allocatedIPs ignoreClientID = db.interfaces.bind fun interface =>
      (interface.addresses.mapM getIPFromCIDR).bind fun serverIPs =>
        (clientIPs ignoreClientID db.clients.readAll).map (serverIPs ++ ·) := by
  unfold Db.allocatedIPs getAllocatedIPs
  rw [run_bind, run_read]
  cases db.interfaces with
  | none => rfl
  | some interface =>
    dsimp only [Option.bind_some]
    cases interface.addresses.mapM getIPFromCIDR with
    | none => rfl
    | some serverIPs => rfl

theorem SameBut.server {clientID : Str} {db s : Db} (h : SameBut clientID db s) :
    s.server = db.server := by
  rw [server_eq, server_eq, h.interfaces, h.keypair]

theorem SameBut.clientIPs {clientID : Str} {db s : Db} (h : SameBut clientID db s) :
    clientIPs clientID s.clients.readAll = clientIPs clientID db.clients.readAll := by
  unfold WebUi.clientIPs
  rw [h.others]

theorem SameBut.allocatedIPs {clientID : Str} {db s : Db} (h : SameBut clientID db s) :
    s.allocatedIPs clientID = db.allocatedIPs clientID := by
  rw [allocatedIPs_eq, allocatedIPs_eq, h.interfaces, h.clientIPs]

section
variable {I : Db → Prop} {db : Db} {clientID : Str}

theorem yields_getServer (hI : ∀ s, I s → SameBut clientID db s) {server : Option Server}
    (h : Yields I getServer server) : server = db.server := by
  obtain ⟨interface, -, hyield, hrest⟩ := (Reads.read _).yields_of_bind h
  obtain ⟨s, hs, rfl⟩ := yields_read hyield
  rw [server_eq]
  rw [(hI s hs).interfaces] at hrest
  cases hinterface : db.interfaces with
  | none =>
    rw [hinterface] at hrest
    cases hrest
    rfl
  | some interface =>
    rw [hinterface] at hrest
    obtain ⟨keyPair, -, hyield, hrest⟩ := (Reads.read _).yields_of_bind hrest
    obtain ⟨t, ht, rfl⟩ := yields_read hyield
    rw [(hI t ht).keypair] at hrest
    cases hkeypair : db.keypair with
    | none =>
      rw [hkeypair] at hrest
      cases hrest
      rfl
    | some keyPair =>
      rw [hkeypair] at hrest
      cases hrest
      rfl

theorem yields_getAllocatedIPs (hI : ∀ s, I s → SameBut clientID db s)
    {allocatedIPs : Option (List Str)} (h : Yields I (getAllocatedIPs clientID) allocatedIPs) :
    allocatedIPs = db.allocatedIPs clientID := by
  obtain ⟨interface, -, hyield, hrest⟩ := (Reads.read _).yields_of_bind h
  obtain ⟨s, hs, rfl⟩ := yields_read hyield
  rw [allocatedIPs_eq]
  rw [(hI s hs).interfaces] at hrest
  cases hinterface : db.interfaces with
  | none =>
    rw [hinterface] at hrest
    cases hrest
    rfl
  | some interface =>
    rw [hinterface] at hrest
    dsimp only at hrest
    cases hips : interface.addresses.mapM getIPFromCIDR with
    | none =>
      rw [hips] at hrest
      cases hrest
      simp [hips]
    | some serverIPs =>
      rw [hips] at hrest
      obtain ⟨clients, -, hyield, hrest⟩ := (Reads.read _).yields_of_bind hrest
      obtain ⟨t, ht, rfl⟩ := yields_read hyield
      cases hrest
      simp [hips, (hI t ht).clientIPs]

/-- The check of the public key of an update passes in stores with a property. -/
def PublicKeyPasses (I : Db → Prop) (client body : Client) : Prop :=
  client.publicKey = body.publicKey ∨ body.publicKey = [] ∨ (parseKey body.publicKey).isSome ∧
    ∃ s, I s ∧ s.clients.readAll.any (·.publicKey == body.publicKey) = false

theorem yields_updateClientKeyPair {client body kept : Client}
    (h : Yields I (updateClientKeyPair client body) (.ok kept)) :
    PublicKeyPasses I client body := by
  unfold updateClientKeyPair at h
  by_cases hnew : client.publicKey ≠ body.publicKey ∧ body.publicKey ≠ []
  · rw [if_pos hnew] at h
    by_cases hkey : (parseKey body.publicKey).isNone = true
    · rw [if_pos hkey] at h
      cases h
    · rw [if_neg hkey] at h
      obtain ⟨clients, -, hyield, hrest⟩ := (Reads.read _).yields_of_bind h
      obtain ⟨s, hs, rfl⟩ := yields_read hyield
      split at hrest
      · cases hrest
      · rename_i hany
        refine .inr (.inr ⟨Option.isSome_iff_ne_none.mpr (by simpa using hkey), s, hs, ?_⟩)
        simpa using hany
  · by_cases hsame : client.publicKey = body.publicKey
    · exact .inl hsame
    · exact .inr (.inl (by_contra fun hne => hnew ⟨hsame, hne⟩))

/-- What an update that comes to its end has found. -/
structure UpdatePasses (I : Db → Prop) (db : Db) (client body : Client) : Prop where
  tgUserid : validTgUserid body.tgUserid = true
  addresses : ∃ server, db.server = some server ∧
    checkAddresses server (db.allocatedIPs client.id) body
      (str "Extra Allowed IPs must be in CIDR format") = none
  publicKey : PublicKeyPasses I client body
  presharedKey : badPresharedKey client body = false

/-- The last step of an update. -/
def updating (env : Env) (body client : Client) : Db → Reply × Db :=
  savingClient env.faults (updatedRecord env.now client body)
    ⟨.json 200 true (str "Updated client successfully"),
      some (addWireguardPeer (updatedRecord env.now client body))⟩

theorem finishes_updateStoredClient {client body : Client} {env : Env} {f : Db → Reply × Db}
    (hI : ∀ s, I s → SameBut client.id db s)
    (h : Finishes I (updateStoredClient env body client) f) :
    UpdatePasses I db client body ∧ f = updating env body client := by
  have hf := h.change (updateStoredClient_commits env body client)
  refine ⟨?_, hf.2.2⟩
  unfold updateStoredClient at h
  split at h
  · cases h
  · rename_i htg
    obtain ⟨server, -, hserver, h⟩ := reads_getServer.finishes_of_bind h
    rw [yields_getServer hI hserver] at h
    cases hdb : db.server with
    | none =>
      rw [hdb] at h
      cases h
    | some server =>
      rw [hdb] at h
      obtain ⟨allocatedIPs, -, hallocated, h⟩ :=
        (reads_getAllocatedIPs client.id).finishes_of_bind h
      rw [yields_getAllocatedIPs hI hallocated] at h
      split at h
      · cases h
      · rename_i haddresses
        obtain ⟨keys, -, hkeys, h⟩ := (updateClientKeyPair_reads client body).finishes_of_bind h
        cases keys with
        | error => cases h
        | ok kept =>
          dsimp only at h
          split at h
          · cases h
          · rename_i hpreshared
            exact ⟨by simpa using htg, ⟨server, hdb, haddresses⟩,
              yields_updateClientKeyPair hkeys, by simpa using hpreshared⟩

end

theorem run_updateClientKeyPair {s : Db} {client body : Client}
    (h : PublicKeyPasses (· = s) client body) :
    (updateClientKeyPair client body).run s =
      (.ok { client with privateKey := privateKeyLeft client body }, s) := by
  unfold updateClientKeyPair privateKeyLeft
  by_cases hnew : client.publicKey ≠ body.publicKey ∧ body.publicKey ≠ []
  · rw [if_pos hnew, if_pos hnew]
    rcases h with hsame | hempty | ⟨hkey, t, rfl, hany⟩
    · exact absurd hsame hnew.1
    · exact absurd hempty hnew.2
    · have hsome : ¬ (parseKey body.publicKey).isNone = true := by
        simpa [Option.isSome_iff_ne_none] using hkey
      rw [if_neg hsome, run_bind, getClients, run_read]
      dsimp only
      rw [if_neg (by simp [hany])]
      rfl
  · rw [if_neg hnew, if_neg hnew]
    rfl

theorem run_saveUpdatedClient (env : Env) (client : Client) (s : Db) :
    (saveUpdatedClient env client).run s = savingClient env.faults client
      ⟨.json 200 true (str "Updated client successfully"), some (addWireguardPeer client)⟩ s := by
  unfold saveUpdatedClient
  rw [modifyGet_bind_ite]
  rfl

theorem run_updateStoredClient {s : Db} {client body : Client} {env : Env}
    (h : UpdatePasses (· = s) s client body) :
    (updateStoredClient env body client).run s = updating env body client s := by
  obtain ⟨server, hserver, haddresses⟩ := h.addresses
  unfold updateStoredClient
  rw [if_neg (by simp [h.tgUserid]), run_bind, run_getServer, hserver]
  dsimp only
  rw [run_bind, run_getAllocatedIPs]
  dsimp only
  rw [haddresses]
  dsimp only
  rw [run_bind, run_updateClientKeyPair h.publicKey]
  dsimp only
  rw [if_neg (by simp [h.presharedKey])]
  exact run_saveUpdatedClient env _ s

/-- A request that edits a client, with the fields of its body that the handler reads. -/
inductive Edit where
  | update (env : Env) (body : Client)
  | status (env : Env) (clientID : Str) (enabled : Bool)

namespace Edit

/-- The client a request is about. -/
def clientID : Edit → Str
  | update _ body => body.id
  | status _ clientID _ => clientID

/-- The handler of a request. -/
def prog : Edit → Prog Db Reply
  | update env body => updateClient env body
  | status env clientID enabled => setClientStatus env (some ⟨some clientID, some enabled⟩)

/-- The record a request saves over the one it has read. -/
def saved : Edit → Client → Client
  | update env body, client => updatedRecord env.now client body
  | status _ _ enabled, client => { client with enabled := enabled }

/-- The last step of a request that has read a record. -/
def saving : Edit → Client → Db → Reply × Db
  | update env body, client => updating env body client
  | status env _ enabled, client => savingClient env.faults { client with enabled := enabled }
      (Answer.json 200 true (str "Changed client status successfully")).only

/-- What a request that comes to its end has found. -/
def Passes (I : Db → Prop) (db : Db) (client : Client) : Edit → Prop
  | update _ body => UpdatePasses I db client body
  | status _ _ _ => True

theorem id_saved (edit : Edit) (client : Client) : (edit.saved client).id = client.id := by
  cases edit <;> rfl

theorem commits (edit : Edit) :
    edit.prog.Commits Rejected fun f => ∃ client, f = edit.saving client := by
  cases edit with
  | update env body =>
    change (updateClient env body).Commits Rejected _
    unfold updateClient
    split
    · exact .ret ⟨rfl, rfl⟩
    · apply (Reads.read _).bind_commits
      intro client _
      cases client with
      | none => exact .ret ⟨rfl, rfl⟩
      | some client =>
        exact (updateStoredClient_commits env body client).mono (fun _ h => h)
          fun f hf => ⟨client, hf.2.2⟩
  | status env clientID enabled =>
    change (setClientStatus env (some ⟨some clientID, some enabled⟩)).Commits Rejected _
    unfold setClientStatus
    dsimp only
    split
    · exact .ret ⟨rfl, rfl⟩
    · apply (Reads.read _).bind_commits
      intro client _
      cases client with
      | none => exact .ret ⟨rfl, rfl⟩
      | some client =>
        exact (saveClientStatus_commits env enabled client).mono (fun _ h => h)
          fun f hf => ⟨client, hf⟩

/-- A request that comes to its end has read the record of its client in one of the states it
has seen. -/
theorem finishes {edit : Edit} {I : Db → Prop} {f : Db → Reply × Db}
    (h : Finishes I edit.prog f) : ∃ s client, I s ∧ s.clients.read edit.clientID = some client ∧
      f = edit.saving client ∧ validXid edit.clientID = true ∧
      ∀ db, (∀ t, I t → SameBut client.id db t) → edit.Passes I db client := by
  cases edit with
  | update env body =>
    change Finishes I (updateClient env body) f at h
    unfold updateClient at h
    split at h
    · cases h
    · rename_i hxid
      obtain ⟨read, -, hyield, h⟩ := (Reads.read _).finishes_of_bind h
      obtain ⟨s, hs, rfl⟩ := yields_read hyield
      cases hread : s.clients.read body.id with
      | none =>
        rw [hread] at h
        cases h
      | some client =>
        rw [hread] at h
        have hf := (h.change (updateStoredClient_commits env body client)).2.2
        have hvalid : validXid body.id = true := by simpa using hxid
        refine ⟨s, client, hs, hread, hf, hvalid, ?_⟩
        intro db hI
        exact (finishes_updateStoredClient hI h).1
  | status env clientID enabled =>
    change Finishes I (setClientStatus env (some ⟨some clientID, some enabled⟩)) f at h
    unfold setClientStatus at h
    dsimp only at h
    split at h
    · cases h
    · rename_i hxid
      obtain ⟨read, -, hyield, h⟩ := (Reads.read _).finishes_of_bind h
      obtain ⟨s, hs, rfl⟩ := yields_read hyield
      cases hread : s.clients.read clientID with
      | none =>
        rw [hread] at h
        cases h
      | some client =>
        rw [hread] at h
        have hf := h.change (saveClientStatus_commits env enabled client)
        have hvalid : validXid clientID = true := by simpa using hxid
        exact ⟨s, client, hs, hread, hf, hvalid, fun _ _ => trivial⟩

/-- A request whose checks pass saves the record when it runs alone. -/
theorem run_prog {edit : Edit} {s : Db} {client : Client}
    (hread : s.clients.read edit.clientID = some client) (hxid : validXid edit.clientID = true)
    (hpasses : edit.Passes (· = s) s client) : edit.prog.run s = edit.saving client s := by
  cases edit with
  | update env body =>
    change (updateClient env body).run s = _
    unfold updateClient
    rw [if_neg (by simpa [clientID] using hxid), run_bind, getClientByID, run_read]
    change s.clients.read body.id = some client at hread
    rw [hread]
    exact run_updateStoredClient hpasses
  | status env clientID enabled =>
    change (setClientStatus env (some ⟨some clientID, some enabled⟩)).run s = _
    unfold setClientStatus
    change validXid clientID = true at hxid
    change s.clients.read clientID = some client at hread
    dsimp only
    rw [if_neg (by simpa using hxid), run_bind, getClientByID, run_read, hread]
    dsimp only
    unfold saveClientStatus
    rw [modifyGet_bind_ite]
    rfl

/-- A request that reports success has written its record. -/
theorem saving_success {edit : Edit} {client : Client} {s : Db}
    (h : (edit.saving client s).1.answer.success = true) :
    (edit.saving client s).2.clients = s.clients.write client.id (edit.saved client) ∧
      (edit.saving client s).2.interfaces = s.interfaces ∧
      (edit.saving client s).2.keypair = s.keypair := by
  have hsaving : ∀ (faults : StoreFaults) (saved : Client) (reply : Reply),
      (savingClient faults saved reply s).1.answer.success = true →
        (savingClient faults saved reply s).2.clients = s.clients.write saved.id saved ∧
        (savingClient faults saved reply s).2.interfaces = s.interfaces ∧
        (savingClient faults saved reply s).2.keypair = s.keypair := by
    intro faults saved reply hsuccess
    unfold savingClient Db.saveClient at hsuccess ⊢
    by_cases hwrite : faults.writeOk = true
    · rw [if_pos hwrite]
      exact ⟨rfl, rfl, rfl⟩
    · rw [if_neg hwrite] at hsuccess
      cases hsuccess
  cases edit with
  | update env body => exact hsaving _ _ _ h
  | status env clientID enabled => exact hsaving _ _ _ h

/-- Whether the last step succeeds does not depend on the record and the store. -/
theorem saving_answer (edit : Edit) (client other : Client) (s t : Db) :
    (edit.saving client s).1.answer.success = (edit.saving other t).1.answer.success := by
  have hsaving : ∀ (faults : StoreFaults) (saved : Client) (reply : Reply) (s : Db),
      reply.answer.success = true → (savingClient faults saved reply s).1.answer.success =
        (faults.writeOk && faults.permsOk) := by
    intro faults saved reply s hreply
    unfold savingClient Db.saveClient
    cases faults.writeOk with
    | false => rfl
    | true =>
      cases faults.permsOk with
      | false => rfl
      | true => exact hreply
  cases edit with
  | update env body => exact (hsaving _ _ _ _ rfl).trans (hsaving _ _ _ _ rfl).symm
  | status env clientID enabled => exact (hsaving _ _ _ _ rfl).trans (hsaving _ _ _ _ rfl).symm

/-- A request leaves the store as it is, or it saves over the record it has read. -/
theorem run_prog_state (edit : Edit) (s : Db) :
    (edit.prog.run s).2 = s ∨ ∃ client, s.clients.read edit.clientID = some client ∧
      (edit.prog.run s).2 = (edit.saving client s).2 := by
  rcases edit.commits.run_finishes s with hsame | ⟨f, hf, hrun⟩
  · exact .inl hsame
  · obtain ⟨t, client, rfl, hread, rfl, -⟩ := finishes hf
    exact .inr ⟨client, hread, by rw [hrun]⟩

theorem read_saving {edit : Edit} {client : Client} {s : Db} {name : Str} (h : name ≠ client.id) :
    (edit.saving client s).2.clients.read name = s.clients.read name := by
  have hsaving : ∀ (faults : StoreFaults) (saved : Client) (reply : Reply), name ≠ saved.id →
      (savingClient faults saved reply s).2.clients.read name = s.clients.read name := by
    intro faults saved reply hne
    unfold savingClient Db.saveClient
    split
    · exact Dir.read_write_of_ne hne
    · rfl
  cases edit with
  | update env body => exact hsaving _ _ _ h
  | status env clientID enabled => exact hsaving _ _ _ h

end Edit

/-- The store after a client is saved agrees with the one before on everything else. -/
theorem sameBut_write {db s : Db} {client saved : Client} (hread : db.clients.read client.id = some client)
    (hid : saved.id = client.id) (hclients : s.clients = db.clients.write client.id saved)
    (hinterfaces : s.interfaces = db.interfaces) (hkeypair : s.keypair = db.keypair) :
    SameBut client.id db s := by
  refine ⟨hinterfaces, hkeypair, ?_⟩
  rw [hclients]
  apply Dir.filter_readAll_write
  · simp [hid]
  · intro old hold
    rw [hread] at hold
    obtain rfl := Option.some.inj hold
    simp

/-- An edit that comes first and does no harm when the other one overwrites the record as it
was before: one that sets the status, or an update after which the keys of the second update
are checked and kept as before. -/
def Harmless (db : Db) (client : Client) : Edit → Edit → Prop
  | .status _ _ _, _ => True
  | .update _ _, .status _ _ _ => False
  | .update _ first, .update _ second =>
    (first.publicKey = client.publicKey ∨ first.publicKey = second.publicKey ∨
      (second.publicKey ≠ client.publicKey ∧ second.publicKey ≠ []) ∨
      client.privateKey = [] ∧ (second.publicKey = [] ∨ (parseKey second.publicKey).isSome ∧
        ∀ name other, db.clients.read name = some other → name ≠ client.id →
          other.publicKey ≠ second.publicKey)) ∧
    (first.presharedKey = client.presharedKey ∨ second.presharedKey = [] ∨
      (parseKey second.presharedKey).isSome)

theorem privateKeyLeft_updated {now : Time} {client first second : Client}
    (h : first.publicKey = client.publicKey ∨ first.publicKey = second.publicKey ∨
      (second.publicKey ≠ client.publicKey ∧ second.publicKey ≠ []) ∨ client.privateKey = []) :
    privateKeyLeft (updatedRecord now client first) second = privateKeyLeft client second := by
  change (if first.publicKey ≠ second.publicKey ∧ second.publicKey ≠ [] then []
    else privateKeyLeft client first) = _
  unfold privateKeyLeft
  rcases h with hkept | hsame | ⟨hnew, hne⟩ | hempty
  · rw [hkept]
    simp
  · rw [hsame]
    simp
  · rw [if_pos (c := client.publicKey ≠ second.publicKey ∧ second.publicKey ≠ []) ⟨Ne.symm hnew, hne⟩]
    by_cases hsame : first.publicKey = second.publicKey
    · rw [hsame]
      simp [Ne.symm hnew, hne]
    · rw [if_pos ⟨hsame, hne⟩]
  · rw [hempty]
    simp

/-- No client but the one of the given id has a public key. -/
def NoOther (db : Db) (clientID publicKey : Str) : Prop :=
  ∀ name other, db.clients.read name = some other → name ≠ clientID → other.publicKey ≠ publicKey

theorem noOther_of_any {db s : Db} {client saved : Client} {publicKey : Str}
    (hclients : s.clients = db.clients.write client.id saved) {t : Db} (ht : t = db ∨ t = s)
    (hany : t.clients.readAll.any (·.publicKey == publicKey) = false) :
    NoOther db client.id publicKey := by
  intro name other hother hne
  have hread : t.clients.read name = some other := by
    rcases ht with rfl | rfl
    · exact hother
    · rw [hclients, Dir.read_write_of_ne hne]
      exact hother
  have hdiffer := Dir.any_readAll_eq_false.mp hany name other hread
  simpa using hdiffer

theorem any_of_noOther {db s : Db} {client saved : Client} {publicKey : Str}
    (hclients : s.clients = db.clients.write client.id saved)
    (hother : NoOther db client.id publicKey) (hsaved : saved.publicKey ≠ publicKey) :
    s.clients.readAll.any (·.publicKey == publicKey) = false := by
  rw [Dir.any_readAll_eq_false, hclients]
  intro name other hread
  by_cases equal : name = client.id
  · rw [equal, Dir.read_write_self] at hread
    obtain rfl := Option.some.inj hread
    simpa using hsaved
  · rw [Dir.read_write_of_ne equal] at hread
    simpa using hother name other hread equal

/-- The public key of an update passes over the record that the first edit has saved. -/
theorem publicKeyPasses_saved {db s : Db} {client saved body : Client}
    (hclients : s.clients = db.clients.write client.id saved)
    (h : saved.publicKey = body.publicKey ∨ body.publicKey = [] ∨
      (parseKey body.publicKey).isSome ∧ NoOther db client.id body.publicKey) :
    PublicKeyPasses (· = s) saved body := by
  by_cases hsame : saved.publicKey = body.publicKey
  · exact .inl hsame
  · rcases h with heq | hempty | ⟨hkey, hother⟩
    · exact absurd heq hsame
    · exact .inr (.inl hempty)
    · exact .inr (.inr ⟨hkey, s, rfl, any_of_noOther hclients hother hsame⟩)

section
variable {db s : Db} {client : Client} {first second : Edit}

/-- The checks of the second edit pass again when it has read what the first one has saved. -/
theorem passes_again (hclients : s.clients = db.clients.write client.id (first.saved client))
    (h : second.Passes (fun t => t = db ∨ t = s) s (first.saved client)) :
    second.Passes (· = s) s (first.saved client) := by
  cases second with
  | status => trivial
  | update env body =>
    refine ⟨h.tgUserid, h.addresses, publicKeyPasses_saved hclients ?_, h.presharedKey⟩
    rcases h.publicKey with hsame | hempty | ⟨hkey, t, ht, hany⟩
    · exact .inl hsame
    · exact .inr (.inl hempty)
    · exact .inr (.inr ⟨hkey, noOther_of_any hclients ht hany⟩)

/-- After a harmless first edit the checks of the second one pass, and it saves what it saves
over the record as it was before. -/
theorem harmless_passes (hclients : s.clients = db.clients.write client.id (first.saved client))
    (hharmless : Harmless db client first second)
    (h : second.Passes (fun t => t = db ∨ t = s) s client) :
    second.Passes (· = s) s (first.saved client) ∧
      second.saved (first.saved client) = second.saved client := by
  cases second with
  | status =>
    cases first with
    | update => cases hharmless
    | status => exact ⟨trivial, rfl⟩
  | update env body =>
    have hkey : client.publicKey = body.publicKey ∨ body.publicKey = [] ∨
        (parseKey body.publicKey).isSome ∧ NoOther db client.id body.publicKey := by
      rcases h.publicKey with hsame | hempty | ⟨hkey, t, ht, hany⟩
      · exact .inl hsame
      · exact .inr (.inl hempty)
      · exact .inr (.inr ⟨hkey, noOther_of_any hclients ht hany⟩)
    cases first with
    | status _ _ enabled =>
      exact ⟨⟨h.tgUserid, h.addresses, publicKeyPasses_saved hclients hkey, h.presharedKey⟩, rfl⟩
    | update firstEnv firstBody =>
      obtain ⟨hpublic, hpreshared⟩ := hharmless
      refine ⟨⟨h.tgUserid, h.addresses, publicKeyPasses_saved hclients ?_, ?_⟩, ?_⟩
      · change firstBody.publicKey = body.publicKey ∨ _
        rcases hpublic with hkept | hsame | ⟨hnew, hne⟩ | ⟨-, hempty | hother⟩
        · rw [hkept]
          exact hkey
        · exact .inl hsame
        · rcases hkey with heq | hrest
          · exact absurd heq.symm hnew
          · exact .inr hrest
        · exact .inr (.inl hempty)
        · exact .inr (.inr hother)
      · have hbad := h.presharedKey
        unfold badPresharedKey at hbad ⊢
        change (firstBody.presharedKey != body.presharedKey && _ && _) = false
        rcases hpreshared with hkept | hempty | hparse
        · rw [hkept]
          exact hbad
        · simp [hempty]
        · simp [Option.isNone_eq_false_iff.mpr hparse]
      · have hleft : privateKeyLeft (updatedRecord firstEnv.now client firstBody) body =
            privateKeyLeft client body := privateKeyLeft_updated (by tauto)
        change updatedRecord env.now (updatedRecord firstEnv.now client firstBody) body = _
        unfold updatedRecord at hleft ⊢
        rw [hleft]
        rfl

end

/-- Two edits that share a store. -/
def editPool (db : Db) (edits : Bool → Edit) : Pool Bool Db Reply := ⟨db, fun i => (edits i).prog⟩

/-- The store after the two edits, one after the other. -/
def editsInTurn (db : Db) (edits : Bool → Edit) (first : Bool) : Db :=
  ((edits !first).prog.run ((edits first).prog.run db).2).2

theorem not_rejected {reply : Reply} (h : reply.answer.success = true) : ¬ Rejected reply := by
  intro hrejected
  rw [hrejected.1] at h
  cases h

/-- A client that is stored under another name than its id is not changed by edits. -/
theorem read_editsInTurn {db : Db} {edits : Bool → Edit} {clientID : Str} {client : Client}
    (hclient : ∀ i, (edits i).clientID = clientID) (hread : db.clients.read clientID = some client)
    (hname : clientID ≠ client.id) (first : Bool) :
    (editsInTurn db edits first).clients.read clientID = some client := by
  have hstep : ∀ (i : Bool) (s : Db), s.clients.read clientID = some client →
      ((edits i).prog.run s).2.clients.read clientID = some client := by
    intro i s hs
    rcases (edits i).run_prog_state s with hsame | ⟨other, hother, hsaved⟩
    · rw [hsame]
      exact hs
    · rw [hclient i, hs] at hother
      obtain rfl := Option.some.inj hother
      rw [hsaved, Edit.read_saving hname]
      exact hs
  exact hstep (!first) _ (hstep first db hread)

/-- Two edits, the second of which may have read the record before or after the first one has
saved it, leave what they leave one after the other if the first one does no harm. -/
theorem overlapping_serial {db : Db} {first second : Edit} {client : Client}
    {f g : Db → Reply × Db} (hclient : second.clientID = first.clientID)
    (hread : db.clients.read first.clientID = some client) (hname : first.clientID = client.id)
    (hf : Finishes (· = db) first.prog f)
    (hg : Finishes (fun t => t = db ∨ t = (f db).2) second.prog g)
    (hokf : (f db).1.answer.success = true) (hokg : (g (f db).2).1.answer.success = true)
    (hharmless : Harmless db client first second) :
    (g (f db).2).2.clients.read client.id =
      (second.prog.run (first.prog.run db).2).2.clients.read client.id := by
  rw [hf.run]
  obtain ⟨t, other, rfl, hother, hsaving, hxid, -⟩ := Edit.finishes hf
  rw [hread] at hother
  obtain rfl := Option.some.inj hother
  subst hsaving
  obtain ⟨hclients, hinterfaces, hkeypair⟩ := Edit.saving_success hokf
  generalize (first.saving client t).2 = s at *
  rw [hname] at hread hclient hxid
  have hid : (first.saved client).id = client.id := Edit.id_saved first client
  have hsame : SameBut client.id t s :=
    sameBut_write hread hid hclients hinterfaces hkeypair
  have hseen : ∀ u, u = t ∨ u = s → SameBut client.id s u := by
    rintro u (rfl | rfl)
    · exact ⟨hinterfaces.symm, hkeypair.symm, hsame.others.symm⟩
    · exact ⟨rfl, rfl, rfl⟩
  have hsaved : s.clients.read second.clientID = some (first.saved client) := by
    rw [hclients, hclient, Dir.read_write_self]
  have hxid' : validXid second.clientID = true := hclient ▸ hxid
  obtain ⟨u, other, hu, hother, rfl, -, hpasses⟩ := Edit.finishes hg
  have hwritten := (Edit.saving_success hokg).1
  rw [hclient] at hother
  rcases hu with rfl | rfl
  · -- the second edit has read the record as it was before
    rw [hread] at hother
    obtain rfl := Option.some.inj hother
    obtain ⟨hagain, hequal⟩ := harmless_passes hclients hharmless (hpasses s hseen)
    -- its change on top of the first one, and the change it would make when it ran second
    have hokagain : (second.saving (first.saved client) s).1.answer.success = true :=
      (Edit.saving_answer second _ client s s).trans hokg
    have hwrittenAgain := (Edit.saving_success hokagain).1
    rw [Edit.run_prog hsaved hxid' hagain, hwritten, hwrittenAgain, hid, hequal]
  · rw [hclients, Dir.read_write_self] at hother
    obtain rfl := Option.some.inj hother
    have hagain := passes_again hclients (hpasses u (by rwa [hid]))
    rw [Edit.run_prog hsaved hxid' hagain]

/-- Two edits of one client leave the record that they leave one after the other, when they do
not overlap or the one that returns first does no harm. -/
theorem edits_serial {db : Db} {edits : Bool → Edit} {clientID : Str} {client : Client}
    (hclient : ∀ i, (edits i).clientID = clientID) (hread : db.clients.read clientID = some client)
    {schedule : List Bool}
    (hsuccess : ∀ i, (((editPool db edits).run schedule).answer i).any (·.answer.success) = true)
    (hcond : (editPool db edits).ApartFrom [] schedule ∨
      ∀ i, (editPool db edits).ReturnsFirst i schedule → Harmless db client (edits i) (edits !i)) :
    ∃ first, ((editPool db edits).run schedule).state.clients.read clientID =
      (editsInTurn db edits first).clients.read clientID := by
  have hanswers : ∀ i, ∃ reply, ((editPool db edits).run schedule).answer i = some reply ∧
      reply.answer.success = true := fun i => by
    have hi := hsuccess i
    rwa [Option.any_eq_true] at hi
  choose reply hreply hok using hanswers
  have hcommits : ∀ i, ((editPool db edits).progs i).Commits Rejected
      fun f => ∃ client, f = (edits i).saving client := fun i => (edits i).commits
  have hgive : ∀ i, ¬ Rejected (reply i) := fun i => not_rejected (hok i)
  rcases hcond with hapart | hharmless
  · obtain ⟨i, hordered⟩ := Pool.run_apart hcommits hapart hreply hgive
    exact ⟨i, by rw [hordered.run_run]; rfl⟩
  · obtain ⟨i, hfirst, f, g, hf, hg, hstate, hanswer, hanswer'⟩ :=
      Pool.run_ordered hcommits hreply hgive
    have hokf := hok i
    have hokg := hok !i
    rw [hreply] at hanswer hanswer'
    rw [Option.some.inj hanswer] at hokf
    rw [Option.some.inj hanswer'] at hokg
    refine ⟨i, ?_⟩
    rw [hstate]
    by_cases hname : clientID = client.id
    · rw [hname] at hclient hread ⊢
      refine overlapping_serial ((hclient _).trans (hclient i).symm) ?_ ?_ hf hg hokf hokg
        (hharmless i hfirst)
      · rw [hclient i]
        exact hread
      · exact hclient i
    · rw [read_editsInTurn hclient hread hname]
      obtain ⟨t, other, ht, hother, rfl, -⟩ := Edit.finishes hf
      obtain ⟨u, another, hu, hanother, rfl, -⟩ := Edit.finishes hg
      obtain rfl : t = db := ht
      rw [hclient] at hother hanother
      rw [hread] at hother
      obtain rfl := Option.some.inj hother
      have hfirstRead : ((edits i).saving client t).2.clients.read clientID = some client := by
        rw [Edit.read_saving hname]
        exact hread
      have hanotherRead : some another = some client := by
        rcases hu with rfl | rfl
        · rw [← hanother]
          exact hread
        · rw [← hanother]
          exact hfirstRead
      obtain rfl := Option.some.inj hanotherRead
      rw [Edit.read_saving hname]
      exact hfirstRead

/-- An update that gives the client another name, as the page sends it. -/
def renameAnn : Edit := .update usualEnv { annRecord with name := str "bob" }

/-- Two requests that set its status. -/
def statusEdits (i : Bool) : Edit := .status usualEnv annRecord.id i

theorem edits_serial_status : ∃ first,
    ((editPool annDb statusEdits).run [false, true, true, false]).state.clients.read annRecord.id =
      (editsInTurn annDb statusEdits first).clients.read annRecord.id := by
  have hclient : ∀ i, (statusEdits i).clientID = annRecord.id := fun _ => rfl
  have hread : annDb.clients.read annRecord.id = some annRecord := by decide +kernel
  exact edits_serial hclient hread (by decide +kernel) (.inr fun _ _ => trivial)

/-- A request that disables a client and has read its record before an update saves its own
takes all the changes of the update back. -/
theorem edits_not_serial : ∃ (db : Db) (edits : Bool → Edit) (clientID : Str) (schedule : List Bool),
    (∀ i, (edits i).clientID = clientID) ∧ (db.clients.read clientID).isSome = true ∧
      (∀ i, (((editPool db edits).run schedule).answer i).any (·.answer.success) = true) ∧
      ∀ first, ((editPool db edits).run schedule).state.clients.read clientID ≠
        (editsInTurn db edits first).clients.read clientID :=
  ⟨annDb, fun i => if i then renameAnn else .status usualEnv annRecord.id false, annRecord.id,
    [false, true, true, true, true, true, true, false], by decide, by decide +kernel,
    by decide +kernel, by decide +kernel⟩

end QrWireguard.WebUi
