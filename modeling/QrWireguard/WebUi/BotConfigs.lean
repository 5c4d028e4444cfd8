import QrWireguard.WebUi.Apply
import QrWireguard.WebUi.BackendPeers
import QrWireguard.WebUi.ClientConfig
import QrWireguard.WebUi.Telegram

/-!
# The configurations that the bot sends

A Telegram user who writes to the bot gets the configurations of the clients that the map has under
the user. Each of them is read again and goes to the user that its record names.
-/

namespace QrWireguard.WebUi

/-! ## The start of the store -/

/-- The body of the loop of `Init` over the clients. -/
def keepTgUser (tg : Int → List Str) (client : Client) : Int → List Str :=
  if client.enabled && client.tgUserid != [] then
    match parseInt client.tgUserid with
    | some userid => updateTgToClientID tg userid client.id
    | none => tg
  else tg

/-- `Init`: the files that are missing are made, and the map is filled from the clients. `user` is
the user that is made when there is none. -/
def Db.init (derive : Key → Key) (env : InitEnv) (key : Key) (now : Time) (user : User) (db : Db) :
    Db :=
  let fresh := initDb derive env key now db.users db.files
  { db with
    interfaces := db.interfaces <|> fresh.interfaces
    keypair := db.keypair <|> fresh.keypair
    globalSettings := db.globalSettings <|> fresh.globalSettings
    hashes := db.hashes <|> fresh.hashes
    users := if db.users.readAll = [] then db.users.write user.username user else db.users
    tgUseridToClientID := db.clients.readAll.foldl keepTgUser fun _ => [] }

/-! ## The bot -/

/-- What the bot and the libraries give a request, by the number of the client in the list: whether
there is a bot, whether a text has a QR code, and which of the two messages arrive. -/
structure BotLink where
  bot : Nat → Bool
  encodes : Str → Bool
  photoOk : Nat → Bool
  documentOk : Nat → Bool

/-- What the bot sends: a picture with the QR code of a text, which is empty when there is none, and
a file. -/
inductive BotMessage where
  | photo (userid : Int) (caption : Str) (qrData : Option Str)
  | document (userid : Int) (name confData : Str)
  deriving DecidableEq

/-- The user a message goes to. -/
def BotMessage.userid : BotMessage → Int
  | photo userid _ _ => userid
  | document userid _ _ => userid

/-- `SendConfig` behind the flood control: the messages, and whether it reports success. -/
def sendConfigFiles (link : BotLink) (i : Nat) (userid : Int) (clientName confData : Str)
    (qrData : Option Str) : List BotMessage × Bool :=
  let photo := BotMessage.photo userid clientName qrData
  let document := BotMessage.document userid (clientName ++ str ".conf") confData
  if link.bot i = false then ([], false)
  else if link.photoOk i = false then ([photo], false)
  else if link.documentOk i = false then ([photo, document], false)
  else ([photo, document], true)

/-- What a request leaves behind: the messages, and the list of the clients that failed, which is
missing when the function panics. -/
structure Requested where
  failedList : Option (List Str)
  messages : List BotMessage
  deriving DecidableEq

/-- One part of a request after another. A panic ends it. -/
def Requested.append (first rest : Requested) : Requested :=
  match first.failedList with
  | none => first
  | some failed => ⟨rest.failedList.map (failed ++ ·), first.messages ++ rest.messages⟩

/-- `model.GlobalSetting{}`. -/
def GlobalSetting.zero : GlobalSetting where
  endpointAddress := []
  dnsServers := []
  mtu := 0
  persistentKeepalive := 0
  firewallMark := []
  table := []
  configFilePath := []
  updatedAt := Time.zero

/-- The rest of the body of the loop, for a client and a server that could be read. -/
def sendClientConfig (link : BotLink) (i : Nat) (client : Client) (server : Server)
    (globalSettings : GlobalSetting) : Requested :=
  let config := buildClientConfig client server globalSettings
  if client.privateKey ≠ [] ∧ link.encodes config = false then ⟨some [client.name], []⟩
  else match parseInt client.tgUserid with
    | none => ⟨some [client.name], []⟩
    | some userid =>
      let qrData := if client.privateKey ≠ [] then some config else none
      let sent := sendConfigFiles link i userid client.name config qrData
      ⟨some (if sent.2 then [] else [client.name]), sent.1⟩

/-- The body of the loop. The error of `GetServer` is dropped, and the server has no key pair then. -/
def sendRequestedConfig (link : BotLink) (i : Nat) (clid : Str) : Prog Db Requested := do
  match ← getClientByID clid with
  | none => pure ⟨some [clid], []⟩
  | some client =>
    let server ← getServer
    let globalSettings ← getGlobalSettings
    match server with
    | none => pure ⟨none, []⟩
    | some server =>
      pure (sendClientConfig link i client server (globalSettings.getD GlobalSetting.zero))

/-- The loop over the clients of the user. -/
def sendRequestedConfigs (link : BotLink) : Nat → List Str → Prog Db Requested
  | _, [] => pure ⟨some [], []⟩
  | i, clid :: clids => do
    let first ← sendRequestedConfig link i clid
    match first.failedList with
    | none => pure first
    | some _ =>
      let rest ← sendRequestedConfigs link (i + 1) clids
      pure (first.append rest)

/-- `SendRequestedConfigsToTelegram`. -/
def sendRequestedConfigsToTelegram (link : BotLink) (userid : Int) : Prog Db Requested := do
  let clids ← Prog.read fun db : Db => db.tgUseridToClientID userid
  sendRequestedConfigs link 0 clids

/-! ## Runs -/

/-- The ends of the store operations of a request. -/
def ClientRequest.faults : ClientRequest → StoreFaults
  | newClient env _ => env.faults
  | updateClient env _ => env.faults
  | setClientStatus env _ => env.faults
  | removeClient env _ => env.faults

/-- The ends of the store operations of a request. -/
def WriteRequest.faults : WriteRequest → StoreFaults
  | client r => r.faults
  | interfaces env _ => env.faults
  | keyPair env => env.faults
  | globalSettings env _ => env.faults

/-- A request that is served, or a new start of the process. -/
inductive DbEvent where
  | request (r : WriteRequest)
  | restart (env : InitEnv) (key : Key) (now : Time) (user : User)

/-- The store after an event. -/
def DbEvent.after (derive : Key → Key) (db : Db) : DbEvent → Db
  | request r => ((r.prog derive).run db).2
  | restart env key now user => db.init derive env key now user

/-- No file fails to be written or deleted. -/
def DbEvent.Stores : DbEvent → Prop
  | request r => r.faults.writeOk = true ∧ r.faults.deleteOk = true
  | restart _ _ _ _ => True

/-- The records bear the names of their files and have Telegram users that were checked. -/
structure RecordsOk (clients : Dir Str Client) : Prop where
  named : Named clients
  valid : ∀ name client, clients.read name = some client → ValidTg client

/-- `Init` has read what an earlier process has left. -/
def Db.Start (derive : Key → Key) (db : Db) : Prop :=
  ∃ env key now user left, RecordsOk left.clients ∧ db = Db.init derive env key now user left

/-- A client that is enabled and is a Telegram user's. -/
structure Owned (db : Db) (userid : Int) (client : Client) : Prop where
  stored : db.clients.read client.id = some client
  enabled : client.enabled = true
  tgUserid : parseInt client.tgUserid = some userid

/-- The files of the server and the settings are there. -/
structure Provided (db : Db) : Prop where
  interfaces : db.interfaces.isSome
  keypair : db.keypair.isSome
  globalSettings : db.globalSettings.isSome

/-! ## The map along a run -/

section
variable {derive : Key → Key} {db db' : Db} {faults : StoreFaults} {s : TgStore}

/-- What an event can do to the clients and the map. -/
inductive IndexStep (faults : StoreFaults) (db db' : Db) : Prop
  | same (hclients : db'.clients = db.clients)
      (htg : db'.tgUseridToClientID = db.tgUseridToClientID)
  | save (client : Client) (hvalid : ValidTg client) (hsave : db' = (db.saveClient faults client).2)
  | delete (clientID : Str) (hdelete : db' = (db.deleteClient faults clientID).2)

theorem tgUserid_checked {tgUserid : Str} (h : validTgUserid tgUserid = true) :
    tgUserid = [] ∨ (parseInt tgUserid).isSome := by
  unfold validTgUserid at h
  rw [Bool.or_eq_true, beq_iff_eq] at h
  rcases h with hnil | hnumber
  · exact .inl hnil
  · refine .inr ?_
    cases hparse : parseInt tgUserid with
    | none =>
      rw [hparse] at hnumber
      cases hnumber
    | some idNum => rfl

theorem indexStep_updateClient (env : Env) (body : Client) :
    IndexStep env.faults db ((updateClient env body).run db).2 := by
  unfold updateClient
  split
  · exact .same rfl rfl
  · rw [Prog.run_bind, getClientByID, Prog.run_read]
    dsimp only
    split
    · exact .same rfl rfl
    · rename_i client hread
      rcases (updateStoredClient_commits env body client).run db with ⟨-, hsame⟩ | ⟨f, hf, hrun⟩
      · rw [hsame]
        exact .same rfl rfl
      · obtain ⟨hbody, -, rfl⟩ := hf
        rw [hrun]
        exact .save (updatedRecord env.now client body) (tgUserid_checked hbody.tgUserid) rfl

theorem indexStep_setClientStatus (env : Env) (body : Option StatusBody)
    (h : RecordsOk db.clients) :
    IndexStep env.faults db ((setClientStatus env body).run db).2 := by
  unfold setClientStatus
  split
  · exact .same rfl rfl
  · rename_i clientID status
    split
    · exact .same rfl rfl
    · rw [Prog.run_bind, getClientByID, Prog.run_read]
      dsimp only
      split
      · exact .same rfl rfl
      · rename_i client hread
        rcases (saveClientStatus_commits env status client).run db with ⟨-, hsame⟩ | ⟨f, hf, hrun⟩
        · rw [hsame]
          exact .same rfl rfl
        · obtain rfl := hf
          have hvalid : ValidTg client := h.valid _ _ hread
          rw [hrun]
          exact .save { client with enabled := status } hvalid rfl
  · exact .same rfl rfl

theorem indexStep_client (r : ClientRequest) (h : RecordsOk db.clients) :
    IndexStep r.faults db ((r.prog derive).run db).2 := by
  cases r with
  | newClient env body =>
    rcases (newClient_commits derive env body).run db with ⟨-, hsame⟩ | ⟨f, hf, hrun⟩
    · rw [ClientRequest.prog, hsame]
      exact .same rfl rfl
    · obtain ⟨privateKey, publicKey, presharedKey, hbody, -, -, rfl⟩ := hf
      rw [ClientRequest.prog, hrun]
      exact .save (newRecord env body privateKey publicKey presharedKey)
        (tgUserid_checked hbody.tgUserid) rfl
  | updateClient env body => exact indexStep_updateClient env body
  | setClientStatus env body => exact indexStep_setClientStatus env body h
  | removeClient env clientID =>
    rw [ClientRequest.prog, removeClient]
    split
    · exact .same rfl rfl
    · rw [Prog.run_bind, getClients, Prog.run_read, modifyGet_bind_ite]
      exact .delete clientID rfl

/-- What a request to the server routes can do to the store. -/
inductive SettingsStep (db db' : Db) : Prop
  | same (h : db' = db)
  | interfaces (serverInterface : ServerInterface)
      (h : db' = { db with interfaces := some serverInterface })
  | keypair (serverKeyPair : ServerKeypair) (h : db' = { db with keypair := some serverKeyPair })
  | globalSettings (globalSettings : GlobalSetting)
      (h : db' = { db with globalSettings := some globalSettings })

theorem settingsStep_interfaces (env : Env) (body : ServerInterface) :
    SettingsStep db ((wireGuardServerInterfaces env body).run db).2 := by
  unfold wireGuardServerInterfaces
  split
  · exact .same rfl
  · rw [Prog.run_bind, Prog.run_modifyGet, Db.saveServerInterface]
    by_cases hwrite : env.faults.writeOk = true
    · simp only [hwrite, if_true]
      cases env.faults.permsOk with
      | true =>
        cases body.addresses <;> exact .interfaces _ rfl
      | false => exact .interfaces _ rfl
    · simp only [hwrite]
      exact .same rfl

theorem settingsStep_keyPair (env : Env) :
    SettingsStep db ((wireGuardServerKeyPair derive env).run db).2 := by
  unfold wireGuardServerKeyPair
  split
  · exact .same rfl
  · rw [Prog.run_bind, Prog.run_modifyGet, Db.saveServerKeyPair]
    by_cases hwrite : env.faults.writeOk = true
    · simp only [hwrite, if_true]
      cases env.faults.permsOk <;> exact .keypair _ rfl
    · simp only [hwrite]
      exact .same rfl

theorem settingsStep_globalSettings (env : Env) (body : GlobalSetting) :
    SettingsStep db ((globalSettingSubmit env body).run db).2 := by
  unfold globalSettingSubmit
  split
  · exact .same rfl
  · rw [Prog.run_bind, Prog.run_modifyGet, Db.saveGlobalSettings]
    by_cases hwrite : env.faults.writeOk = true
    · simp only [hwrite, if_true]
      cases env.faults.permsOk <;> exact .globalSettings _ rfl
    · simp only [hwrite]
      exact .same rfl

theorem SettingsStep.index (h : SettingsStep db db') : IndexStep faults db db' := by
  cases h with
  | same h => exact .same (by rw [h]) (by rw [h])
  | interfaces _ h => exact .same (by rw [h]) (by rw [h])
  | keypair _ h => exact .same (by rw [h]) (by rw [h])
  | globalSettings _ h => exact .same (by rw [h]) (by rw [h])

theorem SettingsStep.provided (h : SettingsStep db db') (hprovided : Provided db) :
    Provided db' := by
  cases h with
  | same h => rwa [h]
  | interfaces _ h =>
    rw [h]
    exact ⟨rfl, hprovided.keypair, hprovided.globalSettings⟩
  | keypair _ h =>
    rw [h]
    exact ⟨hprovided.interfaces, rfl, hprovided.globalSettings⟩
  | globalSettings _ h =>
    rw [h]
    exact ⟨hprovided.interfaces, hprovided.keypair, rfl⟩

theorem indexStep_write (derive : Key → Key) (r : WriteRequest) (h : RecordsOk db.clients) :
    IndexStep r.faults db ((r.prog derive).run db).2 := by
  cases r with
  | client r => exact indexStep_client r h
  | interfaces env body => exact (settingsStep_interfaces env body).index
  | keyPair env => exact (settingsStep_keyPair env).index
  | globalSettings env body => exact (settingsStep_globalSettings env body).index

theorem Provided.write (h : Provided db) (r : WriteRequest) :
    Provided ((r.prog derive).run db).2 := by
  cases r with
  | client r =>
    have hstep : ClientStep derive db r ((r.prog derive).run db).2 := rfl
    have heffect := hstep.effect.settings
    refine ⟨?_, ?_, ?_⟩
    · rw [WriteRequest.prog, heffect.interfaces]
      exact h.interfaces
    · rw [WriteRequest.prog, heffect.keypair]
      exact h.keypair
    · rw [WriteRequest.prog, heffect.globalSettings]
      exact h.globalSettings
  | interfaces env body => exact (settingsStep_interfaces env body).provided h
  | keyPair env => exact (settingsStep_keyPair env).provided h
  | globalSettings env body => exact (settingsStep_globalSettings env body).provided h

theorem RecordsOk.step (h : RecordsOk db.clients) (hstep : IndexStep faults db db') :
    RecordsOk db'.clients := by
  cases hstep with
  | same hclients htg => rwa [hclients]
  | save client hvalid hsave =>
    rw [hsave, Db.saveClient]
    split
    · constructor
      · intro name stored hread
        rcases Dir.read_write_eq_some.mp hread with ⟨rfl, rfl⟩ | ⟨-, hread⟩
        · rfl
        · exact h.named _ _ hread
      · intro name stored hread
        rcases Dir.read_write_eq_some.mp hread with ⟨rfl, rfl⟩ | ⟨-, hread⟩
        · exact hvalid
        · exact h.valid _ _ hread
    · exact h
  | delete clientID hdelete =>
    rw [hdelete, Db.deleteClient]
    dsimp only
    split
    · constructor
      · intro name stored hread
        exact h.named _ _ (Dir.read_delete_eq_some.mp hread).2
      · intro name stored hread
        exact h.valid _ _ (Dir.read_delete_eq_some.mp hread).2
    · exact h

/-- The map lists clients that are enabled and are the user's, each of them once. -/
structure TgStore.Lists (s : TgStore) : Prop where
  held : ∀ userid clientID, s.tgUseridToClientID.Holds userid clientID →
    ∃ client, s.clients.read clientID = some client ∧ client.enabled = true ∧
      parseInt client.tgUserid = some userid
  wellFormed : s.tgUseridToClientID.WellFormed

theorem TgStore.Mirrors.lists (h : s.Mirrors) : s.Lists :=
  ⟨fun userid clientID => (h.holds_iff userid clientID).mp, h.wellFormed⟩

theorem TgStore.Lists.saveClient (h : s.Lists) {loop : RangeOrder} {client : Client}
    (hvalid : ValidTg client) : (s.saveClient loop faults client).Lists := by
  refine ⟨fun userid clientID hheld => ?_, wellFormed_saveClient h.wellFormed⟩
  by_cases hwrite : faults.writeOk = true
  · have hclients : (s.saveClient loop faults client).clients =
        s.clients.write client.id client := by
      rw [TgStore.saveClient, if_pos hwrite]
    rw [hclients, Dir.read_write]
    rcases (holds_saveClient hwrite hvalid).mp hheld with ⟨rfl, howned⟩ | ⟨hheld, hne⟩
    · exact ⟨client, by rw [if_pos rfl], howned⟩
    · rw [if_neg hne]
      exact h.held userid clientID hheld
  · rw [TgStore.saveClient, if_neg hwrite] at hheld ⊢
    exact h.held userid clientID (TgIndex.holds_remove.mp hheld).1

theorem TgStore.Lists.deleteClient (h : s.Lists) {loop : RangeOrder} {clientID : Str} :
    (s.deleteClient loop faults clientID).Lists := by
  have htg : (s.deleteClient loop faults clientID).tgUseridToClientID =
      s.tgUseridToClientID.removeTgToClientID loop clientID := by
    unfold TgStore.deleteClient
    dsimp only
    split <;> rfl
  have hclients : ∀ name, name ≠ clientID →
      (s.deleteClient loop faults clientID).clients.read name = s.clients.read name := by
    intro name hne
    unfold TgStore.deleteClient
    dsimp only
    split
    · exact Dir.read_delete_of_ne hne
    · rfl
  constructor
  · intro userid other hheld
    rw [htg, TgIndex.holds_remove] at hheld
    rw [hclients other hheld.2]
    exact h.held userid other hheld.1
  · rw [htg]
    exact h.wellFormed.remove

/-- An event keeps the map in step with the clients, and does not forget one when the store
operations succeed. -/
theorem TgStore.step (hstep : IndexStep faults db db') (hrep : s.Represents db) :
    ∃ s' : TgStore, s'.Represents db' ∧ (s.Lists → s'.Lists) ∧
      (faults.writeOk = true → faults.deleteOk = true → s.Mirrors → s'.Mirrors) := by
  cases hstep with
  | same hclients htg =>
    exact ⟨s, ⟨hclients.trans hrep.1, htg.trans hrep.2⟩, id, fun _ _ => id⟩
  | save client hvalid hsave =>
    refine ⟨s.saveClient inOrder faults client, ?_, fun h => h.saveClient hvalid,
      fun hwrite _ h => h.saveClient hwrite hvalid⟩
    rw [hsave]
    exact hrep.saveClient inOrder faults client
  | delete clientID hdelete =>
    refine ⟨s.deleteClient inOrder faults clientID, ?_, fun h => h.deleteClient,
      fun _ hdel h => h.deleteClient hdel⟩
    rw [hdelete]
    exact hrep.deleteClient inOrder faults clientID

theorem lists_foldl_initClient (loops : Str → RangeOrder) (l : List Client) (tg : TgIndex) :
    (l.foldl (initClient loops) tg).lists = l.foldl keepTgUser tg.lists := by
  induction l generalizing tg with
  | nil => rfl
  | cons client rest ih =>
    rw [List.foldl_cons, List.foldl_cons, ih]
    congr 1
    unfold initClient keepTgUser
    split
    · cases parseInt client.tgUserid with
      | none => rfl
      | some userid => exact TgIndex.lists_update ..
    · rfl

/-- The start fills the map from the clients. -/
theorem represents_init (derive : Key → Key) (env : InitEnv) (key : Key) (now : Time) (user : User)
    (h : Named db.clients) :
    ∃ s : TgStore, s.Represents (db.init derive env key now user) ∧ s.Mirrors := by
  refine ⟨TgStore.init (fun _ => TgStore.inOrder) db.clients, ⟨rfl, ?_⟩, ?_⟩
  · exact (lists_foldl_initClient (fun _ => TgStore.inOrder) db.clients.readAll Dir.empty).symm
  · exact TgStore.Start.mirrors ⟨_, _, h, rfl⟩

theorem provided_init (derive : Key → Key) (env : InitEnv) (key : Key) (now : Time) (user : User)
    (db : Db) : Provided (db.init derive env key now user) := by
  refine ⟨?_, ?_, ?_⟩
  · cases hinterfaces : db.interfaces <;> simp [Db.init, initDb, hinterfaces]
  · cases hkeypair : db.keypair <;> simp [Db.init, initDb, hkeypair]
  · cases hsettings : db.globalSettings <;> simp [Db.init, initDb, hsettings]

/-- What holds along a run. -/
structure Indexed (db : Db) : Prop where
  records : RecordsOk db.clients
  provided : Provided db
  listed : ∃ s : TgStore, s.Represents db ∧ s.Lists

theorem indexed_start (h : Db.Start derive db) : Indexed db ∧
    ∃ s : TgStore, s.Represents db ∧ s.Mirrors := by
  obtain ⟨env, key, now, user, left, hrecords, rfl⟩ := h
  obtain ⟨s, hrep, hmirrors⟩ := represents_init derive env key now user hrecords.named
  exact ⟨⟨hrecords, provided_init derive env key now user left, s, hrep, hmirrors.lists⟩,
    s, hrep, hmirrors⟩

theorem Indexed.after (h : Indexed db) (ev : DbEvent) : Indexed (ev.after derive db) := by
  cases ev with
  | request r =>
    have hstep := indexStep_write derive r h.records
    obtain ⟨s, hrep, hlists⟩ := h.listed
    obtain ⟨s', hrep', hlists', -⟩ := TgStore.step hstep hrep
    exact ⟨h.records.step hstep, h.provided.write r, s', hrep', hlists' hlists⟩
  | restart env key now user =>
    exact (indexed_start ⟨env, key, now, user, db, h.records, rfl⟩).1

/-- The stores of a run, under events that meet a condition. -/
abbrev DbReach (derive : Key → Key) (ok : DbEvent → Prop) : Db → Prop :=
  Reach (Db.Start derive) (fun db ev db' => ev.after derive db = db') fun _ ev => ok ev

theorem indexed_of_reach {ok : DbEvent → Prop} (h : DbReach derive ok db) : Indexed db := by
  apply Reach.invariant _ _ h
  · intro db hstart
    exact (indexed_start hstart).1
  · intro db ev db' hindexed _ hafter
    rw [← hafter]
    exact hindexed.after ev

theorem mirrors_of_reach (h : DbReach derive DbEvent.Stores db) :
    ∃ s : TgStore, s.Represents db ∧ s.Mirrors := by
  have hinv : Indexed db ∧ ∃ s : TgStore, s.Represents db ∧ s.Mirrors := by
    apply Reach.invariant _ _ h
    · intro db hstart
      exact indexed_start hstart
    · intro db ev db' hboth hok hafter
      obtain ⟨hindexed, s, hrep, hmirrors⟩ := hboth
      rw [← hafter]
      refine ⟨hindexed.after ev, ?_⟩
      cases ev with
      | request r =>
        have hstep := indexStep_write derive r hindexed.records
        obtain ⟨s', hrep', -, hkeeps⟩ := TgStore.step hstep hrep
        exact ⟨s', hrep', hkeeps hok.1 hok.2 hmirrors⟩
      | restart env key now user =>
        exact represents_init derive env key now user hindexed.records.named
  exact hinv.2

/-! ## The answer to a message -/

/-- The clients that the map has under a user are the user's, each once. -/
theorem owned_of_listed (userid : Int) (hrecords : RecordsOk db.clients) (hrep : s.Represents db)
    (hlists : s.Lists) : ∃ owned : List Client, owned.Nodup ∧
      db.tgUseridToClientID userid = owned.map (·.id) ∧ ∀ client ∈ owned, Owned db userid client := by
  obtain ⟨hclients, htg⟩ := hrep
  have hread : ∀ clid ∈ db.tgUseridToClientID userid, ∃ client, client.id = clid ∧
      Owned db userid client := by
    intro clid hclid
    rw [htg, TgIndex.lists] at hclid
    cases htgread : s.tgUseridToClientID.read userid with
    | none =>
      rw [htgread] at hclid
      cases hclid
    | some ids =>
      rw [htgread] at hclid
      obtain ⟨client, hread, henabled, hparse⟩ := hlists.held userid clid ⟨ids, htgread, hclid⟩
      rw [← hclients] at hread
      obtain rfl := hrecords.named _ _ hread
      exact ⟨client, rfl, hread, henabled, hparse⟩
  have hnodup : (db.tgUseridToClientID userid).Nodup := by
    rw [htg, TgIndex.lists]
    cases htgread : s.tgUseridToClientID.read userid with
    | none => exact List.nodup_nil
    | some ids => exact hlists.wellFormed.nodup userid ids htgread
  generalize db.tgUseridToClientID userid = clids at hread hnodup
  induction clids with
  | nil => exact ⟨[], List.nodup_nil, rfl, by simp⟩
  | cons clid clids ih =>
    rw [List.nodup_cons] at hnodup
    obtain ⟨client, rfl, howned⟩ := hread clid List.mem_cons_self
    obtain ⟨owned, hfresh, rfl, hall⟩ :=
      ih (fun other hother => hread other (List.mem_cons_of_mem _ hother)) hnodup.2
    refine ⟨client :: owned, List.nodup_cons.mpr ⟨fun hmem => ?_, hfresh⟩, rfl, ?_⟩
    · exact hnodup.1 (List.mem_map_of_mem hmem)
    · exact List.forall_mem_cons.mpr ⟨howned, hall⟩

/-- The messages with the configuration of a client. -/
def configMessages (server : Server) (globalSettings : GlobalSetting) (userid : Int)
    (client : Client) : List BotMessage :=
  let config := buildClientConfig client server globalSettings
  [.photo userid client.name (if client.privateKey ≠ [] then some config else none),
    .document userid (client.name ++ str ".conf") config]

/-- Nothing fails between the bot and its users. -/
structure BotLink.Works (link : BotLink) : Prop where
  bot : ∀ i, link.bot i = true
  encodes : ∀ text, link.encodes text = true
  photoOk : ∀ i, link.photoOk i = true
  documentOk : ∀ i, link.documentOk i = true

/-- A user is served with the configurations of some clients: nothing else is sent, and nothing
twice; unless a failure is reported everything is sent; and none is reported without reason. -/
structure Serves (link : BotLink) (server : Server) (globalSettings : GlobalSetting) (userid : Int)
    (clients : List Client) (r : Requested) : Prop where
  sent : r.messages.Sublist (clients.flatMap (configMessages server globalSettings userid))
  finished : ∃ failed, r.failedList = some failed ∧ failed.Sublist (clients.map (·.name))
  complete : r.failedList = some [] →
    r.messages = clients.flatMap (configMessages server globalSettings userid)
  works : link.Works → r.failedList = some []

variable {link : BotLink} {server : Server} {globalSettings : GlobalSetting} {userid : Int}
  {i : Nat} {client : Client} {clients : List Client} {first rest : Requested}

theorem serves_nil : Serves link server globalSettings userid [] ⟨some [], []⟩ :=
  ⟨.slnil, ⟨[], rfl, .slnil⟩, fun _ => rfl, fun _ => rfl⟩

theorem sendConfigFiles_spec (link : BotLink) (i : Nat) (userid : Int) (clientName confData : Str)
    (qrData : Option Str) :
    let sent := sendConfigFiles link i userid clientName confData qrData
    let messages := [BotMessage.photo userid clientName qrData,
      BotMessage.document userid (clientName ++ str ".conf") confData]
    sent.1.Sublist messages ∧ (sent.2 = true → sent.1 = messages) ∧ (link.Works → sent.2 = true) := by
  unfold sendConfigFiles
  cases hbot : link.bot i with
  | false =>
    refine ⟨List.nil_sublist _, fun hsent => absurd hsent Bool.false_ne_true, fun hworks => ?_⟩
    rw [hworks.bot] at hbot
    cases hbot
  | true =>
    cases hphoto : link.photoOk i with
    | false =>
      refine ⟨(List.nil_sublist _).cons_cons _, fun hsent => absurd hsent Bool.false_ne_true,
        fun hworks => ?_⟩
      rw [hworks.photoOk] at hphoto
      cases hphoto
    | true =>
      cases hdocument : link.documentOk i with
      | false =>
        refine ⟨.refl _, fun hsent => absurd hsent Bool.false_ne_true, fun hworks => ?_⟩
        rw [hworks.documentOk] at hdocument
        cases hdocument
      | true => exact ⟨.refl _, fun _ => rfl, fun _ => rfl⟩

/-- One client is served. -/
theorem serves_sendClientConfig (h : parseInt client.tgUserid = some userid) :
    Serves link server globalSettings userid [client]
      (sendClientConfig link i client server globalSettings) := by
  unfold sendClientConfig
  dsimp only
  split
  · next hencodes =>
    refine ⟨List.nil_sublist _, ⟨_, rfl, .refl _⟩, fun hnil => absurd hnil (by simp),
      fun hworks => ?_⟩
    rw [hworks.encodes] at hencodes
    cases hencodes.2
  · obtain ⟨hsub, hall, hworks⟩ := sendConfigFiles_spec link i userid client.name
      (buildClientConfig client server globalSettings)
      (if client.privateKey ≠ [] then some (buildClientConfig client server globalSettings) else none)
    rw [h]
    dsimp only
    generalize sendConfigFiles link i userid client.name _ _ = sent at hsub hall hworks
    refine ⟨?_, ?_, fun hnil => ?_, fun hlink => ?_⟩
    · rwa [List.flatMap_singleton]
    · cases sent.2 with
      | true => exact ⟨_, rfl, List.nil_sublist _⟩
      | false => exact ⟨_, rfl, .refl _⟩
    · rw [List.flatMap_singleton]
      apply hall
      by_contra hsent
      rw [if_neg hsent] at hnil
      cases hnil
    · rw [if_pos (hworks hlink)]

/-- One client after another is served. -/
theorem Serves.append (h : Serves link server globalSettings userid [client] first)
    (hrest : Serves link server globalSettings userid clients rest) :
    Serves link server globalSettings userid (client :: clients) (first.append rest) := by
  obtain ⟨failed, hfirst, hsub⟩ := h.finished
  obtain ⟨failed', hrest', hsub'⟩ := hrest.finished
  have happend : first.append rest = ⟨some (failed ++ failed'), first.messages ++ rest.messages⟩ := by
    rw [Requested.append, hfirst, hrest']
    rfl
  have hsplit : (client :: clients).flatMap (configMessages server globalSettings userid) =
      [client].flatMap (configMessages server globalSettings userid) ++
        clients.flatMap (configMessages server globalSettings userid) := by
    rw [← List.flatMap_append]
    rfl
  rw [happend]
  constructor
  · rw [hsplit]
    exact h.sent.append hrest.sent
  · exact ⟨_, rfl, hsub.append hsub'⟩
  · intro hnil
    obtain ⟨rfl, rfl⟩ := List.append_eq_nil_iff.mp (Option.some.inj hnil)
    rw [hsplit, h.complete hfirst, hrest.complete hrest']
  · intro hworks
    obtain rfl := Option.some.inj (hfirst.symm.trans (h.works hworks))
    obtain rfl := Option.some.inj (hrest'.symm.trans (hrest.works hworks))
    rfl

theorem run_sendRequestedConfig (hserver : db.server = some server)
    (hsettings : db.globalSettings = some globalSettings)
    (hread : db.clients.read client.id = some client) :
    (sendRequestedConfig link i client.id).run db =
      (sendClientConfig link i client server globalSettings, db) := by
  rw [sendRequestedConfig, Prog.run_bind, getClientByID, Prog.run_read, hread]
  dsimp only
  rw [Prog.run_bind, run_getServer, hserver, Prog.run_bind, getGlobalSettings, Prog.run_read,
    hsettings]
  rfl

/-- The loop serves the clients of the list. -/
theorem serves_sendRequestedConfigs (link : BotLink) (i : Nat) (hserver : db.server = some server)
    (hsettings : db.globalSettings = some globalSettings)
    (howned : ∀ client ∈ clients, Owned db userid client) :
    ∃ r, (sendRequestedConfigs link i (clients.map (·.id))).run db = (r, db) ∧
      Serves link server globalSettings userid clients r := by
  induction clients generalizing i with
  | nil => exact ⟨_, rfl, serves_nil⟩
  | cons client clients ih =>
    obtain ⟨hclient, hclients⟩ := List.forall_mem_cons.mp howned
    obtain ⟨rest, hrun, hrest⟩ := ih (i + 1) hclients
    have hfirst : Serves link server globalSettings userid [client]
        (sendClientConfig link i client server globalSettings) :=
      serves_sendClientConfig hclient.tgUserid
    obtain ⟨failed, hfailed, -⟩ := hfirst.finished
    refine ⟨_, ?_, hfirst.append hrest⟩
    rw [List.map_cons, sendRequestedConfigs, Prog.run_bind,
      run_sendRequestedConfig hserver hsettings hclient.stored]
    dsimp only
    rw [hfailed]
    dsimp only
    rw [Prog.run_bind, hrun]
    rfl

/-- A message to the bot is answered with the configurations of clients that are enabled and are the
sender's, each once and to the sender only, as they are built from the store. As long as no store
operation fails these are all such clients, also behind a new start of the process. -/
theorem configs_delivered (link : BotLink) (userid : Int) (h : DbReach derive (fun _ => True) db) :
    ∃ (server : Server) (globalSettings : GlobalSetting) (owned : List Client) (r : Requested),
      db.server = some server ∧ db.globalSettings = some globalSettings ∧
      (sendRequestedConfigsToTelegram link userid).run db = (r, db) ∧
      owned.Nodup ∧ (∀ client ∈ owned, Owned db userid client) ∧
      (DbReach derive DbEvent.Stores db → ∀ client, Owned db userid client → client ∈ owned) ∧
      Serves link server globalSettings userid owned r ∧ ∀ m ∈ r.messages, m.userid = userid := by
  have hindexed := indexed_of_reach h
  obtain ⟨interface, hinterfaces⟩ := Option.isSome_iff_exists.mp hindexed.provided.interfaces
  obtain ⟨keyPair, hkeypair⟩ := Option.isSome_iff_exists.mp hindexed.provided.keypair
  obtain ⟨settings, hsettings⟩ := Option.isSome_iff_exists.mp hindexed.provided.globalSettings
  obtain ⟨s, hrep, hlists⟩ := hindexed.listed
  obtain ⟨owned, hnodup, htg, howned⟩ :=
    owned_of_listed userid hindexed.records hrep hlists
  have hserver : db.server = some ⟨keyPair, interface⟩ := by
    rw [server_eq, hinterfaces, hkeypair]
    rfl
  obtain ⟨r, hrun, hserves⟩ := serves_sendRequestedConfigs link 0 hserver hsettings howned
  refine ⟨⟨keyPair, interface⟩, settings, owned, r, hserver, hsettings, ?_, hnodup, howned,
    fun hstores client hclient => ?_, hserves, fun m hm => ?_⟩
  · rw [sendRequestedConfigsToTelegram, Prog.run_bind, Prog.run_read, htg]
    exact hrun
  · obtain ⟨s', ⟨hclients', htg'⟩, hmirrors⟩ := mirrors_of_reach hstores
    have hstored := hclient.stored
    rw [hclients'] at hstored
    obtain ⟨ids, htgread, hmem⟩ := (hmirrors.holds_iff userid client.id).mpr
      ⟨client, hstored, hclient.enabled, hclient.tgUserid⟩
    rw [htg', TgIndex.lists, htgread, Option.getD_some] at htg
    rw [htg] at hmem
    obtain ⟨other, hother, hid⟩ := List.mem_map.mp hmem
    have hread := (howned other hother).stored
    rw [hid, hclient.stored] at hread
    obtain rfl := Option.some.inj hread
    exact hother
  · obtain ⟨client, -, hmem⟩ := List.mem_flatMap.mp (hserves.sent.subset hm)
    rcases List.mem_cons.mp hmem with rfl | hmem
    · rfl
    · rw [List.mem_singleton.mp hmem]
      rfl

end

/-- A store without files. -/
def emptyDb : Db :=
  ⟨.empty, none, none, none, none, .empty, fun _ => [], fun _ => none⟩

/-- The first start. -/
def startedDb : Db :=
  emptyDb.init alphaDerive { endpointAddress := str "vpn.example.com" } alphaKey usualTime
    ⟨str "admin", [], str "hash", true⟩

/-- A bot that works. -/
def workingLink : BotLink := ⟨fun _ => true, fun _ => true, fun _ => true, fun _ => true⟩

/-- The user 42 asks for the configuration of a new client. -/
theorem configs_delivered_ann :
    let body := { usualBody with tgUserid := str "42", enabled := true }
    let db := ((newClient alphaDerive usualEnv body).run startedDb).2
    ∃ r, (sendRequestedConfigsToTelegram workingLink 42).run db = (r, db) ∧
      r.failedList = some [] ∧ ∀ m ∈ r.messages, m.userid = 42 := by
  intro body db
  have hstart : Db.Start alphaDerive startedDb := by
    refine ⟨_, _, _, _, emptyDb, ⟨?_, ?_⟩, rfl⟩
    · intro name client hread
      cases hread
    · intro name client hread
      cases hread
  have hreach : DbReach alphaDerive (fun _ => True) db :=
    .step (i := .request (.client (.newClient usualEnv body))) (.init hstart) trivial rfl
  obtain ⟨server, settings, owned, r, -, -, hrun, -, -, -, hserves, hto⟩ :=
    configs_delivered workingLink 42 hreach
  have hworks : workingLink.Works := ⟨fun _ => rfl, fun _ => rfl, fun _ => rfl, fun _ => rfl⟩
  exact ⟨r, hrun, hserves.works hworks, hto⟩

end QrWireguard.WebUi
