import QrWireguard.WebUi.BackendPeers
import QrWireguard.WebUi.PeerFile

/-!
# The store and the configuration file

The web UI with its agent and `vtysh` behind it. While the texts of the clients are carried, this
is a backend that keeps its peers in the configuration file: every run of the whole is one of the
store with a set of peers, and the set is read off the lines of the file.
-/

namespace QrWireguard.WebUi

open BePlugin WebAgent Vtysh

/-- The store, and what the configuration file of the backend holds. -/
structure Deployed where
  db : Db
  contents : Option Str

/-- A request served alone, and its message handled by the agent. -/
inductive DeployedStep (derive : Key → Key) (sh : Str → List Str) (d : Deployed)
    (r : ClientRequest) : Deployed → Prop
  | silent (h : ((r.prog derive).run d.db).1.message = none) :
      DeployedStep derive sh d r ⟨((r.prog derive).run d.db).2, d.contents⟩
  | told {smsg : RequestMessage} {contents : Option Str}
      (h : ((r.prog derive).run d.db).1.message = some smsg)
      (hruns : AgentRuns sh smsg d.contents contents) :
      DeployedStep derive sh d r ⟨((r.prog derive).run d.db).2, contents⟩

/-- The texts of the record that a request saves are carried. -/
def ClientRequest.Carried (derive : Key → Key) : ClientRequest → Prop
  | newClient env body => WebUi.Carried (newPublicKey derive env body)
    (unsplit [','] (pushedIPs body)) body.endpoint
  | updateClient _ body => CarriedClient body
  | setClientStatus _ _ => True
  | removeClient _ _ => True

/-- The key of the peer that a line is about. -/
def linePeer (line : Str) : Option Str :=
  match configKey line with
  | .peer key => some key
  | _ => none

/-- The keys of the peers in a configuration. -/
def filePeers (config : List Str) : Finset Str := (config.filterMap linePeer).toFinset

/-- The lines that are about no peer are the same. -/
def SameOthers (config config' : List Str) : Prop :=
  ∀ line, linePeer line = none → (line ∈ config' ↔ line ∈ config)

/-- A store without clients, and a file without peers. -/
def NotDeployed (config : List Str) (d : Deployed) : Prop :=
  d.db.clients = .empty ∧ Saved config d.contents ∧ Restorable config ∧ filePeers config = ∅

/-- What is checked of a stored client: its key is the text that keys are printed as. -/
def KeyPrinted (client : Client) : Prop :=
  CheckedPeer client ∧ ∃ key : Key, client.publicKey = key.toText

/-- The backend that a store and its file stand for. -/
structure Stands (config₀ : List Str) (d : Deployed) (b : Backed) : Prop where
  db : b.db = d.db
  named : Named d.db.clients
  clients : ∀ client ∈ d.db.clients.readAll, KeyPrinted client
  file : ∃ config, Saved config d.contents ∧ Restorable config ∧ SameOthers config₀ config ∧
    b.peers = filePeers config

section
variable {derive : Key → Key} {sh : Str → List Str} {db : Db} {r : ClientRequest}
  {config config' config₀ : List Str} {line key : Str} {client : Client}

theorem linePeer_eq_some : linePeer line = some key ↔ configKey line = .peer key := by
  unfold linePeer
  split
  · next k hk => simp [hk]
  · next hne =>
    constructor
    · intro h
      cases h
    · intro h
      exact absurd h (hne key)

theorem mem_filePeers : key ∈ filePeers config ↔ ∃ line ∈ config, configKey line = .peer key := by
  simp only [filePeers, List.mem_toFinset, List.mem_filterMap, linePeer_eq_some]

/-- What a message does to the lines of the file it does to the keys of the peers. -/
theorem filePeers_of_peerSet {change : PeerChange} (hcarried : change.Carried)
    (h : PeerSet change.publicKey change.line config config') :
    filePeers config' = applyMessage change.message (filePeers config) := by
  ext key
  rw [mem_filePeers]
  cases change with
  | add client =>
    change _ ↔ key ∈ applyMessage (addWireguardPeer client) (filePeers config)
    rw [applyMessage_add, Finset.mem_insert, mem_filePeers]
    constructor
    · rintro ⟨line, hline, hkey⟩
      rcases (h.mem line).mp hline with hset | ⟨hmem, -⟩
      · rw [hcarried.configKey hset] at hkey
        exact .inl (Key.peer.inj hkey).symm
      · exact .inr ⟨line, hmem, hkey⟩
    · rintro (rfl | ⟨line, hmem, hkey⟩)
      · exact ⟨clientLine client, (h.mem _).mpr (.inl rfl), hcarried.configKey rfl⟩
      · by_cases hsame : configKey line = .peer client.publicKey
        · rw [hsame] at hkey
          obtain rfl := Key.peer.inj hkey
          exact ⟨clientLine client, (h.mem _).mpr (.inl rfl), hcarried.configKey rfl⟩
        · exact ⟨line, (h.mem line).mpr (.inr ⟨hmem, hsame⟩), hkey⟩
  | remove client =>
    change _ ↔ key ∈ applyMessage (removeWireguardPeer client) (filePeers config)
    rw [applyMessage_remove, Finset.mem_erase, mem_filePeers]
    constructor
    · rintro ⟨line, hline, hkey⟩
      rcases (h.mem line).mp hline with hset | ⟨hmem, hne⟩
      · cases hset
      · refine ⟨?_, line, hmem, hkey⟩
        rintro rfl
        exact hne hkey
    · rintro ⟨hne, line, hmem, hkey⟩
      refine ⟨line, (h.mem line).mpr (.inr ⟨hmem, fun hsame => hne ?_⟩), hkey⟩
      rw [hkey] at hsame
      exact Key.peer.inj hsame

theorem sameOthers_of_peerSet {change : PeerChange} (hcarried : change.Carried)
    (h : PeerSet change.publicKey change.line config config') : SameOthers config config' := by
  intro line hline
  have hkey : ∀ key, configKey line ≠ .peer key := fun key hkey => by
    rw [linePeer_eq_some.mpr hkey] at hline
    cases hline
  rw [h.mem line]
  constructor
  · rintro (hset | ⟨hmem, -⟩)
    · exact absurd (hcarried.configKey hset) (hkey _)
    · exact hmem
  · intro hmem
    exact .inr ⟨hmem, hkey _⟩

theorem SavedBy.keyPrinted (h : SavedBy derive db r client) (hr : r.Carried derive)
    (hclients : ∀ client ∈ db.clients.readAll, KeyPrinted client) : KeyPrinted client := by
  refine ⟨h.checkedPeer fun client hmem => (hclients client hmem).1, ?_⟩
  cases h with
  | newClient hbody hpair hpreshared =>
    cases hpair with
    | generated key => exact ⟨derive key, rfl⟩
    | given hne =>
      obtain ⟨key, hkey⟩ := hr.key
      rw [newPublicKey, if_neg hne] at hkey
      exact ⟨key, hkey⟩
  | updateClient => exact hr.key
  | setClientStatus hread => exact (hclients _ (Dir.mem_readAll.mpr ⟨_, hread⟩)).2

/-- The message of a request is about a peer whose texts are carried. -/
theorem message_eq_change (hr : r.Carried derive) (hnamed : Named db.clients)
    (hclients : ∀ client ∈ db.clients.readAll, KeyPrinted client) {smsg : RequestMessage}
    (h : ((r.prog derive).run db).1.message = some smsg) :
    ∃ change : PeerChange, change.Carried ∧ smsg = change.message := by
  have hchecked : ∀ client ∈ db.clients.readAll, CheckedPeer client := fun client hmem =>
    (hclients client hmem).1
  cases r with
  | newClient env body =>
    obtain ⟨client, hsaved, rfl, -, -⟩ := savedBy_newClient h
    refine ⟨.add client, ⟨hsaved.checkedPeer hchecked, ?_⟩, rfl⟩
    cases hsaved with
    | newClient hbody hpair hpreshared =>
      cases hpair with
      | generated key hempty hkey =>
        rw [ClientRequest.Carried, newPublicKey, if_pos hempty, hkey] at hr
        exact hr
      | given hne =>
        rw [ClientRequest.Carried, newPublicKey, if_neg hne] at hr
        exact hr
  | updateClient env body =>
    obtain ⟨client, hsaved, rfl, -, -⟩ := @savedBy_updateClient derive _ _ _ _ h
    refine ⟨.add client, ⟨hsaved.checkedPeer hchecked, ?_⟩, rfl⟩
    cases hsaved with
    | updateClient => exact hr
  | setClientStatus env body =>
    rcases setClientStatus_cases env body db with ⟨-, hrun⟩ | ⟨_, _, _, -, -, -, hrun⟩
    · have hnone := congrArg (·.1.message) hrun
      exact absurd (h.symm.trans hnone) (by simp [Answer.only])
    · rw [ClientRequest.prog, hrun] at h
      cases message_savingClient h
  | removeClient env clientID =>
    by_cases hxid : validXid clientID = true
    · rw [ClientRequest.prog, (run_removeClient env hnamed hxid).1] at h
      obtain ⟨client, hread, rfl⟩ := Option.map_eq_some_iff.mp h
      exact ⟨.remove client, (hclients client (Dir.mem_readAll.mpr ⟨clientID, hread⟩)).2, rfl⟩
    · rw [ClientRequest.prog, removeClient, if_pos (by simp [hxid])] at h
      cases h

/-- One step of the whole is one step of the backend it stands for. -/
theorem Stands.step (hsh : RunsQuoted sh) {d d' : Deployed} {b : Backed} (h : Stands config₀ d b)
    (hr : r.Carried derive) (hstep : DeployedStep derive sh d r d') :
    Stands config₀ d' (b.serve derive r) := by
  have heffect : ClientEffect derive d.db r ((r.prog derive).run d.db).2 :=
    ClientStep.effect rfl
  have hclients := heffect.forall_clients h.clients fun client hsaved =>
    hsaved.keyPrinted hr h.clients
  have hdb : (b.serve derive r).db = ((r.prog derive).run d.db).2 := by
    rw [← h.db]
    rfl
  have hpeers : (b.serve derive r).peers =
      ((r.prog derive).run d.db).1.message.elim b.peers (applyMessage · b.peers) := by
    rw [← h.db]
    rfl
  obtain ⟨config, hsaved, hconfig, hothers, hfile⟩ := h.file
  cases hstep with
  | silent hnone =>
    rw [hnone] at hpeers
    exact ⟨hdb, heffect.named h.named, hclients, config, hsaved, hconfig, hothers,
      hpeers.trans hfile⟩
  | told hmessage hruns =>
    obtain ⟨change, hcarried, rfl⟩ := message_eq_change hr h.named h.clients hmessage
    obtain ⟨config', hset, hsaved'⟩ := hruns.peerSet hsh hcarried hsaved hconfig
    rw [hmessage, Option.elim_some, hfile] at hpeers
    refine ⟨hdb, heffect.named h.named, hclients, config', hsaved', hset.restorable, ?_, ?_⟩
    · intro line hline
      rw [sameOthers_of_peerSet hcarried hset line hline, hothers line hline]
    · rw [hpeers, filePeers_of_peerSet hcarried hset]

theorem stands_of_notDeployed {d : Deployed} (h : NotDeployed config₀ d) :
    Stands config₀ d ⟨d.db, ∅⟩ := by
  obtain ⟨hclients, hsaved, hconfig, hpeers⟩ := h
  refine ⟨rfl, ?_, ?_, config₀, hsaved, hconfig, fun _ _ => Iff.rfl, hpeers.symm⟩
  · intro name client hread
    rw [hclients] at hread
    cases hread
  · intro client hmem
    rw [hclients] at hmem
    cases hmem

end

/-- A step from nothing to a new client. -/
theorem deployedStep_ann : ∃ contents, DeployedStep alphaDerive quotedSh ⟨freshDb, none⟩
    (.newClient usualEnv usualBody) ⟨annDb, contents⟩ := by
  have hmessage : (((newClient alphaDerive usualEnv usualBody)).run freshDb).1.message =
      some (addWireguardPeer annRecord) := rfl
  obtain ⟨contents, hruns⟩ := exists_agentRuns quotedSh (addWireguardPeer annRecord) none
  exact ⟨contents, .told hmessage hruns⟩

theorem notDeployed_fresh : NotDeployed [] ⟨freshDb, none⟩ :=
  ⟨rfl, .absent rfl, restorable_nil, rfl⟩

theorem carried_usual : (ClientRequest.newClient usualEnv usualBody).Carried alphaDerive :=
  carried_annRecord.2

section
variable {derive : Key → Key} {sh : Str → List Str} {config₀ : List Str}

end

end QrWireguard.WebUi
