import QrWireguard.Misc.Run
import QrWireguard.WebUi.Saves

/-!
# Runs of the client routes

The client store under requests that are served one after the other: which records a request
can save, and which parts of the store no request to these routes touches.
-/

namespace QrWireguard.WebUi

/-- A request to the client routes, with what the libraries give it. -/
inductive ClientRequest where
  | newClient (env : Env) (body : Client)
  | updateClient (env : Env) (body : Client)
  | setClientStatus (env : Env) (body : Option StatusBody)
  | removeClient (env : Env) (clientID : Str)

/-- The handler of a request. -/
def ClientRequest.prog (derive : Key → Key) : ClientRequest → Prog Db Reply
  | newClient env body => WebUi.newClient derive env body
  | updateClient env body => WebUi.updateClient env body
  | setClientStatus env body => WebUi.setClientStatus env body
  | removeClient env clientID => WebUi.removeClient env clientID

/-- A request served alone. -/
def ClientStep (derive : Key → Key) (db : Db) (r : ClientRequest) (db' : Db) : Prop :=
  ((r.prog derive).run db).2 = db'

/-- The records a request can save into a store. -/
inductive SavedBy (derive : Key → Key) (db : Db) : ClientRequest → Client → Prop
  | newClient {env : Env} {body : Client} {privateKey publicKey presharedKey : Str}
      (hbody : CheckedBody body) (hpair : NewKeyPair derive env body privateKey publicKey)
      (hpreshared : NewPresharedKey env body presharedKey) :
      SavedBy derive db (.newClient env body) (newRecord env body privateKey publicKey presharedKey)
  | updateClient {env : Env} {body client : Client}
      (hread : db.clients.read body.id = some client) (hbody : CheckedBody body)
      (hkeys : CheckedKeys client body) :
      SavedBy derive db (.updateClient env body) (updatedRecord env.now client body)
  | setClientStatus {env : Env} {clientID : Str} {status : Bool} {client : Client}
      (hread : db.clients.read clientID = some client) :
      SavedBy derive db (.setClientStatus env (some ⟨some clientID, some status⟩))
        { client with enabled := status }

/-- The parts of the store that the client routes do not touch. -/
structure SameSettings (db db' : Db) : Prop where
  interfaces : db'.interfaces = db.interfaces
  keypair : db'.keypair = db.keypair
  globalSettings : db'.globalSettings = db.globalSettings
  hashes : db'.hashes = db.hashes
  files : db'.files = db.files

theorem SameSettings.refl (db : Db) : SameSettings db db := ⟨rfl, rfl, rfl, rfl, rfl⟩

/-- What a request does to the store. -/
structure ClientEffect (derive : Key → Key) (db : Db) (r : ClientRequest) (db' : Db) : Prop where
  settings : SameSettings db db'
  clients : db'.clients = db.clients ∨ (∃ clientID, db'.clients = db.clients.delete clientID) ∨
    ∃ client, SavedBy derive db r client ∧ db'.clients = db.clients.write client.id client

theorem clientEffect_refl (derive : Key → Key) (db : Db) (r : ClientRequest) :
    ClientEffect derive db r db := ⟨.refl db, .inl rfl⟩

theorem clientEffect_saving {derive : Key → Key} {db : Db} {r : ClientRequest} {client : Client}
    (faults : StoreFaults) (reply : Reply) (h : SavedBy derive db r client) :
    ClientEffect derive db r (savingClient faults client reply db).2 := by
  unfold savingClient Db.saveClient
  by_cases hwrite : faults.writeOk = true
  · rw [if_pos hwrite]
    exact ⟨⟨rfl, rfl, rfl, rfl, rfl⟩, .inr (.inr ⟨client, h, rfl⟩)⟩
  · rw [if_neg hwrite]
    exact ⟨⟨rfl, rfl, rfl, rfl, rfl⟩, .inl rfl⟩

theorem clientEffect_deleteClient {derive : Key → Key} {db : Db} {r : ClientRequest}
    (faults : StoreFaults) (clientID : Str) :
    ClientEffect derive db r (db.deleteClient faults clientID).2 := by
  unfold Db.deleteClient
  dsimp only
  split
  · exact ⟨⟨rfl, rfl, rfl, rfl, rfl⟩, .inr (.inl ⟨clientID, rfl⟩)⟩
  · exact ⟨⟨rfl, rfl, rfl, rfl, rfl⟩, .inl rfl⟩

theorem clientEffect_updateClient (derive : Key → Key) (db : Db) (env : Env) (body : Client) :
    ClientEffect derive db (.updateClient env body) ((updateClient env body).run db).2 := by
  unfold updateClient
  split
  · exact clientEffect_refl ..
  · rw [Prog.run_bind, getClientByID, Prog.run_read]
    dsimp only
    split
    · exact clientEffect_refl ..
    · rename_i client hread
      rcases (updateStoredClient_commits env body client).run db with ⟨-, hsame⟩ | ⟨f, hf, hrun⟩
      · rw [hsame]
        exact clientEffect_refl ..
      · obtain ⟨hbody, hkeys, rfl⟩ := hf
        rw [hrun]
        exact clientEffect_saving _ _ (.updateClient hread hbody hkeys)

theorem clientEffect_setClientStatus (derive : Key → Key) (db : Db) (env : Env)
    (body : Option StatusBody) :
    ClientEffect derive db (.setClientStatus env body) ((setClientStatus env body).run db).2 := by
  unfold setClientStatus
  split
  · exact clientEffect_refl ..
  · rename_i clientID status
    split
    · exact clientEffect_refl ..
    · rw [Prog.run_bind, getClientByID, Prog.run_read]
      dsimp only
      split
      · exact clientEffect_refl ..
      · rename_i client hread
        rcases (saveClientStatus_commits env status client).run db with ⟨-, hsame⟩ | ⟨f, hf, hrun⟩
        · rw [hsame]
          exact clientEffect_refl ..
        · obtain rfl := hf
          rw [hrun]
          exact clientEffect_saving _ _ (.setClientStatus hread)
  · exact clientEffect_refl ..

theorem clientEffect_removeClient (derive : Key → Key) (db : Db) (env : Env) (clientID : Str) :
    ClientEffect derive db (.removeClient env clientID) ((removeClient env clientID).run db).2 := by
  unfold removeClient
  split
  · exact clientEffect_refl ..
  · rw [Prog.run_bind, getClients, Prog.run_read, modifyGet_bind_ite]
    exact clientEffect_deleteClient env.faults clientID

/-- A request saves one checked record, deletes one, or leaves the clients as they are. -/
theorem ClientStep.effect {derive : Key → Key} {db db' : Db} {r : ClientRequest}
    (h : ClientStep derive db r db') : ClientEffect derive db r db' := by
  obtain rfl : ((r.prog derive).run db).2 = db' := h
  cases r with
  | newClient env body =>
    rcases (newClient_commits derive env body).run db with ⟨-, hsame⟩ | ⟨f, hf, hrun⟩
    · rw [ClientRequest.prog, hsame]
      exact clientEffect_refl ..
    · obtain ⟨privateKey, publicKey, presharedKey, hbody, hpair, hpreshared, rfl⟩ := hf
      rw [ClientRequest.prog, hrun]
      exact clientEffect_saving _ _ (.newClient hbody hpair hpreshared)
  | updateClient env body => exact clientEffect_updateClient derive db env body
  | setClientStatus env body => exact clientEffect_setClientStatus derive db env body
  | removeClient env clientID => exact clientEffect_removeClient derive db env clientID

/-- A property of the stored records is kept when the records saved have it. -/
theorem ClientEffect.forall_clients {derive : Key → Key} {db db' : Db} {r : ClientRequest}
    {P : Client → Prop} (h : ClientEffect derive db r db')
    (hclients : ∀ client ∈ db.clients.readAll, P client)
    (hsaved : ∀ client, SavedBy derive db r client → P client) :
    ∀ client ∈ db'.clients.readAll, P client := by
  intro client hmem
  obtain ⟨name, hread⟩ := Dir.mem_readAll.mp hmem
  have hold : db.clients.read name = some client → P client := fun hread =>
    hclients client (Dir.mem_readAll.mpr ⟨name, hread⟩)
  rcases h.clients with hsame | ⟨clientID, hdelete⟩ | ⟨saved, hsave, hwrite⟩
  · rw [hsame] at hread
    exact hold hread
  · rw [hdelete] at hread
    exact hold (Dir.read_delete_eq_some.mp hread).2
  · rw [hwrite] at hread
    rcases Dir.read_write_eq_some.mp hread with ⟨-, rfl⟩ | ⟨-, hread⟩
    · exact hsaved _ hsave
    · exact hold hread

end QrWireguard.WebUi
