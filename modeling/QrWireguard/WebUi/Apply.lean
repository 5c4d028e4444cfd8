import QrWireguard.Misc.Rely
import QrWireguard.WebUi.KeyPairs
import QrWireguard.WebUi.WgConf

/-!
# Applying the server configuration

The configuration is written from what has been read of the store, and its hashes are taken from
the store again after that. As long as nothing that has been read changes before it is hashed,
unchanged hashes mean that the file is what the store says.
-/

namespace QrWireguard.WebUi

open Prog

/-- The parts of the store that an apply has read and not yet hashed when it has taken `n` steps
are as they were. -/
structure LeavesRead (n : Nat) (s t : Db) : Prop where
  interfaces : 1 ≤ n → n < 9 → t.interfaces = s.interfaces
  keypair : 2 ≤ n → n < 10 → t.keypair = s.keypair
  clients : 3 ≤ n → n < 7 → t.clients = s.clients
  globalSettings : 5 ≤ n → n < 8 → t.globalSettings = s.globalSettings

instance (n : Nat) (s t : Db) : Decidable (LeavesRead n s t) :=
  decidable_of_iff
    ((1 ≤ n → n < 9 → t.interfaces = s.interfaces) ∧ (2 ≤ n → n < 10 → t.keypair = s.keypair) ∧
      (3 ≤ n → n < 7 → t.clients = s.clients) ∧
      (5 ≤ n → n < 8 → t.globalSettings = s.globalSettings))
    ⟨fun h => ⟨h.1, h.2.1, h.2.2.1, h.2.2.2⟩,
      fun h => ⟨h.interfaces, h.keypair, h.clients, h.globalSettings⟩⟩

/-- What only an apply writes is as it was. -/
def LeavesApplied (s t : Db) : Prop := t.hashes = s.hashes ∧ t.files = s.files

/-- The steps of other requests while an apply has taken `n` steps. -/
def ApplyRely (n : Nat) (s t : Db) : Prop := LeavesApplied s t ∧ LeavesRead n s t

/-- The hash of the server files of a store. -/
def Db.serverHash (hash : DirHash) (db : Db) : Str :=
  match db.globalSettings, db.interfaces, db.keypair with
  | some settings, some interface, some keyPair => hash.hash1 settings interface keyPair
  | _, _, _ => []

theorem run_hashServer (hash : DirHash) (db : Db) :
    (hashServer hash).run db = (db.serverHash hash, db) := by
  unfold hashServer Db.serverHash
  rw [run_bind, getGlobalSettings, run_read]
  cases db.globalSettings with
  | none => rfl
  | some settings =>
    dsimp only
    rw [run_bind, run_read]
    cases db.interfaces with
    | none => rfl
    | some interface =>
      dsimp only
      rw [run_bind, run_read]
      cases db.keypair <;> rfl

theorem run_hashesChanged (hash : DirHash) (db : Db) :
    (hashesChanged hash).run db =
      ((db.hashes.getD ⟨[], []⟩).client != hash.hashDir db.clients ||
        (db.hashes.getD ⟨[], []⟩).server != db.serverHash hash, db) := by
  unfold hashesChanged getCurrentHash
  rw [run_bind, run_read, run_bind, run_bind, run_read, run_bind, run_hashServer]
  rfl

/-- The hashes tell the stores of a run apart: those of the client directories, and those of
the server files of a store that has them all. -/
structure DirHash.NoCollision (hash : DirHash) (I : Db → Prop) : Prop where
  hashDir : ∀ s t, I s → I t → hash.hashDir s.clients = hash.hashDir t.clients →
    s.clients = t.clients
  serverHash : ∀ s t, I s → I t →
    s.globalSettings.isSome → s.interfaces.isSome → s.keypair.isSome →
    s.serverHash hash = t.serverHash hash →
    s.globalSettings = t.globalSettings ∧ s.interfaces = t.interfaces ∧ s.keypair = t.keypair

/-- The configuration file is the rendering of what the store holds. -/
def Db.ConfigCurrent (tmpl : Template) (db : Db) : Prop :=
  ∃ interface keyPair settings, db.interfaces = some interface ∧ db.keypair = some keyPair ∧
    db.globalSettings = some settings ∧ db.files settings.configFilePath =
      some (serverConfigText tmpl ⟨keyPair, interface⟩ db.clients.readAll settings)

section
variable {hash : DirHash} {tmpl : Template} {I : Db → Prop} {interface : ServerInterface}
  {keyPair : ServerKeypair} {settings : GlobalSetting} {clients : Dir Str Client}

/-- What an apply promises about the store after it has returned. -/
def Applied (hash : DirHash) (tmpl : Template) (reply : Reply) (db : Db) : Prop :=
  reply.answer.success = true → ((hashesChanged hash).run db).1 = false → db.ConfigCurrent tmpl

theorem configCurrent_of_hashes (hI : hash.NoCollision I) {s u db : Db} (hs : I s) (hu : I u)
    (hdb : I db) (hclients : s.clients = clients) (hinterface : u.interfaces = some interface)
    (hkeyPair : u.keypair = some keyPair) (hsettings : u.globalSettings = some settings)
    (hhashes : db.hashes = some ⟨hash.hashDir clients, hash.hash1 settings interface keyPair⟩)
    (hfile : db.files settings.configFilePath =
      some (serverConfigText tmpl ⟨keyPair, interface⟩ clients.readAll settings))
    (hsame : ((hashesChanged hash).run db).1 = false) : db.ConfigCurrent tmpl := by
  rw [run_hashesChanged, hhashes] at hsame
  simp only [Option.getD_some, Bool.or_eq_false_iff, bne_eq_false_iff_eq] at hsame
  obtain ⟨hdir, hserver⟩ := hsame
  rw [← hclients] at hdir
  have hsaved := hI.hashDir s db hs hdb hdir
  have hu' : u.serverHash hash = hash.hash1 settings interface keyPair := by
    unfold Db.serverHash
    rw [hinterface, hkeyPair, hsettings]
  obtain ⟨hg, hi, hk⟩ := hI.serverHash u db hu hdb (by simp [hsettings]) (by simp [hinterface])
    (by simp [hkeyPair]) (hu'.trans hserver)
  refine ⟨interface, keyPair, settings, hi ▸ hinterface, hk ▸ hkeyPair, hg ▸ hsettings, ?_⟩
  rw [hfile, ← hsaved, hclients]

/-- What an apply relies on after `n` steps: the values it has read and not yet hashed. -/
structure Held (n : Nat) (interface : Option ServerInterface) (keyPair : Option ServerKeypair)
    (clients : Dir Str Client) (settings : Option GlobalSetting) (db : Db) : Prop where
  interfaces : 1 ≤ n → n < 9 → db.interfaces = interface
  keypair : 2 ≤ n → n < 10 → db.keypair = keyPair
  clients : 3 ≤ n → n < 7 → db.clients = clients
  globalSettings : 5 ≤ n → n < 8 → db.globalSettings = settings

theorem stable_held {n : Nat} {interface : Option ServerInterface}
    {keyPair : Option ServerKeypair} {clients : Dir Str Client} {settings : Option GlobalSetting} :
    Stable ApplyRely n (Held n interface keyPair clients settings) := by
  intro s t hs hrely
  have hleaves := hrely.2
  refine ⟨?_, ?_, ?_, ?_⟩
  · intro hlo hhi
    rw [hleaves.interfaces hlo hhi]
    exact hs.interfaces hlo hhi
  · intro hlo hhi
    rw [hleaves.keypair hlo hhi]
    exact hs.keypair hlo hhi
  · intro hlo hhi
    rw [hleaves.clients hlo hhi]
    exact hs.clients hlo hhi
  · intro hlo hhi
    rw [hleaves.globalSettings hlo hhi]
    exact hs.globalSettings hlo hhi

/-- The configuration file has been written with a text. -/
def FileWritten (path text : Str) (db : Db) : Prop := db.files path = some text

theorem stable_and_written {n : Nat} {P : Db → Prop} (h : Stable ApplyRely n P) (path text : Str) :
    Stable ApplyRely n fun db => P db ∧ FileWritten path text db := by
  intro s t hs hrely
  refine ⟨h s t hs.1 hrely, ?_⟩
  have hfiles := hrely.1.2
  unfold FileWritten
  rw [hfiles]
  exact hs.2

/-- A step that reads nothing new. -/
theorem Held.succ {n : Nat} {interface : Option ServerInterface} {keyPair : Option ServerKeypair}
    {clients : Dir Str Client} {settings : Option GlobalSetting} {db : Db}
    (h : Held n interface keyPair clients settings db) (hn : n = 3 ∨ 5 ≤ n) :
    Held (n + 1) interface keyPair clients settings db := by
  refine ⟨?_, ?_, ?_, ?_⟩
  · intro hlo hhi
    exact h.interfaces (by omega) (by omega)
  · intro hlo hhi
    exact h.keypair (by omega) (by omega)
  · intro hlo hhi
    exact h.clients (by omega) (by omega)
  · intro hlo hhi
    exact h.globalSettings (by omega) (by omega)

/-- What an apply relies on between the writing of the file and the saving of the hashes. -/
def HeldWritten (n : Nat) (interface : ServerInterface) (keyPair : ServerKeypair)
    (clients : Dir Str Client) (settings : GlobalSetting) (text : Str) (db : Db) : Prop :=
  Held n (some interface) (some keyPair) clients (some settings) db ∧
    FileWritten settings.configFilePath text db

theorem stable_heldWritten {n : Nat} {interface : ServerInterface} {keyPair : ServerKeypair}
    {clients : Dir Str Client} {settings : GlobalSetting} {text : Str} :
    Stable ApplyRely n (HeldWritten n interface keyPair clients settings text) :=
  stable_and_written stable_held _ _

theorem HeldWritten.succ {n : Nat} {interface : ServerInterface} {keyPair : ServerKeypair}
    {clients : Dir Str Client} {settings : GlobalSetting} {text : Str} {db : Db}
    (h : HeldWritten n interface keyPair clients settings text db) (hn : 5 ≤ n) :
    HeldWritten (n + 1) interface keyPair clients settings text db :=
  ⟨h.1.succ (.inr hn), h.2⟩

/-- The outline of the hashing of the server files. -/
theorem outline_hashServer {text : Str} :
    (hashServer hash).Outline I ApplyRely (fun n server P => n = 10 ∧
      server = hash.hash1 settings interface keyPair ∧
      P = HeldWritten 10 interface keyPair clients settings text) 7
      (HeldWritten 7 interface keyPair clients settings text) := by
  unfold hashServer
  refine .bind (.read stable_heldWritten
    (Q := fun _ => HeldWritten 8 interface keyPair clients settings text)
    (fun s h => h.succ (by omega)) fun s _ hs => ?_)
  rw [hs.1.globalSettings (by omega) (by omega)]
  refine .bind (.read stable_heldWritten
    (Q := fun _ => HeldWritten 9 interface keyPair clients settings text)
    (fun s h => h.succ (by omega)) fun s _ hs => ?_)
  rw [hs.1.interfaces (by omega) (by omega)]
  refine .bind (.read stable_heldWritten
    (Q := fun _ => HeldWritten 10 interface keyPair clients settings text)
    (fun s h => h.succ (by omega)) fun s _ hs => ?_)
  rw [hs.1.keypair (by omega) (by omega)]
  exact .ret ⟨rfl, rfl, rfl⟩

/-- The outline of the saving of the hashes. -/
theorem holds_saveHashes (faults : StoreFaults) (hI : hash.NoCollision I) {s u : Db} (hs : I s)
    (hu : I u) (hclients : s.clients = clients) (hinterface : u.interfaces = some interface)
    (hkeyPair : u.keypair = some keyPair) (hsettings : u.globalSettings = some settings)
    {text : Str}
    (htext : text = serverConfigText tmpl ⟨keyPair, interface⟩ clients.readAll settings) :
    (Prog.modifyGet (Db.saveHashes faults
        ⟨hash.hashDir clients, hash.hash1 settings interface keyPair⟩) >>= fun ok =>
      if ok then
        pure (Answer.json 200 true (str "Applied server config successfully")).only
      else pure (Answer.error 500).only : Prog Db Reply).Holds I ApplyRely (Applied hash tmpl) 10
      (HeldWritten 10 interface keyPair clients settings text) := by
  by_cases hwrite : faults.writeOk = true
  · refine .bind (.modifyGet stable_heldWritten (Q := fun _ db =>
      db.hashes = some ⟨hash.hashDir clients, hash.hash1 settings interface keyPair⟩ ∧
        FileWritten settings.configFilePath text db) ?_ fun t _ _ => ?_)
    · intro t ht
      unfold Db.saveHashes
      rw [if_pos hwrite]
      exact ⟨rfl, ht.2⟩
    · have hstable : Stable ApplyRely 11 fun db =>
          db.hashes = some ⟨hash.hashDir clients, hash.hash1 settings interface keyPair⟩ ∧
            FileWritten settings.configFilePath text db := by
        apply stable_and_written
        intro db db' hdb hrely
        rw [hrely.1.1]
        exact hdb
      have hpost : ∀ (reply : Reply) (db : Db), I db →
          (db.hashes = some ⟨hash.hashDir clients, hash.hash1 settings interface keyPair⟩ ∧
            FileWritten settings.configFilePath text db) → Applied hash tmpl reply db := by
        intro reply db hdb hsaved _ hsame
        exact configCurrent_of_hashes hI hs hu hdb hclients hinterface hkeyPair hsettings hsaved.1
          (htext ▸ hsaved.2) hsame
      split
      · exact .ret ⟨hstable, hpost _⟩
      · exact .ret ⟨hstable, hpost _⟩
  · refine .bind (.modifyGet stable_heldWritten (Q := fun _ _ => True) (fun _ _ => trivial)
      fun t _ _ => ?_)
    have hfails : (t.saveHashes faults
        ⟨hash.hashDir clients, hash.hash1 settings interface keyPair⟩).1 = false := by
      unfold Db.saveHashes
      rw [if_neg hwrite]
    rw [hfails]
    exact .ret ⟨fun _ _ _ _ => trivial, fun _ _ _ hok => by cases hok⟩

/-- The outline of the hashing: the clients are those of a state of the run, and the server
files all stood in one state of it. -/
theorem holds_applyHashes (faults : StoreFaults) (hI : hash.NoCollision I) {s u : Db} (hs : I s)
    (hu : I u) (hclients : s.clients = clients) (hinterface : u.interfaces = some interface)
    (hkeyPair : u.keypair = some keyPair) (hsettings : u.globalSettings = some settings)
    {text : Str}
    (htext : text = serverConfigText tmpl ⟨keyPair, interface⟩ clients.readAll settings) :
    (applyHashes hash faults).Holds I ApplyRely (Applied hash tmpl) 6
      (HeldWritten 6 interface keyPair clients settings text) := by
  unfold applyHashes updateHashes getCurrentHash
  refine .bind (.bind (.bind (.read stable_heldWritten
    (Q := fun _ => HeldWritten 7 interface keyPair clients settings text)
    (fun s h => h.succ (by omega)) fun t _ ht => ?_)))
  rw [ht.1.clients (by omega) (by omega)]
  refine .bind (outline_hashServer.mono ?_)
  rintro n server P ⟨rfl, rfl, rfl⟩
  have hsave := holds_saveHashes faults hI hs hu hclients hinterface hkeyPair hsettings htext
  exact .ret (Outline.bind_iff.mp hsave)

/-- An apply that fails promises nothing. -/
theorem holds_fail {n : Nat} {reply : Reply} {P : Db → Prop} (hstable : Stable ApplyRely n P)
    (h : reply.answer.success = false) :
    (Prog.ret reply : Prog Db Reply).Holds I ApplyRely (Applied hash tmpl) n P := by
  refine .ret ⟨hstable, fun _ _ _ hok => ?_⟩
  rw [h] at hok
  cases hok

theorem writeServerConfig_done {path text : Str} {db : Db} :
    (db.writeServerConfig .done path text).1 = true ∧
      FileWritten path text (db.writeServerConfig .done path text).2 :=
  ⟨rfl, Function.update_self ..⟩

theorem writeServerConfig_fails {written : ConfigWrite} (h : written ≠ .done) (path text : Str)
    (db : Db) : (db.writeServerConfig written path text).1 = false := by
  cases written with
  | notCreated => rfl
  | brokenOff => rfl
  | done => exact absurd rfl h

/-- Writing the configuration leaves what has been read as it was. -/
theorem Held.writeServerConfig {n : Nat} {interface : Option ServerInterface}
    {keyPair : Option ServerKeypair} {settings : Option GlobalSetting} {db : Db}
    (h : Held n interface keyPair clients settings db) (written : ConfigWrite) (path text : Str) :
    Held n interface keyPair clients settings (db.writeServerConfig written path text).2 := by
  cases written <;> exact ⟨h.interfaces, h.keypair, h.clients, h.globalSettings⟩

/-- The outline from the reading of the settings on: the settings complete the server files of
one state. -/
theorem holds_applyClients (written : ConfigWrite) (faults : StoreFaults)
    (hI : hash.NoCollision I) {s : Db} (hs : I s) (hclients : s.clients = clients) :
    (applyClients hash tmpl written faults ⟨keyPair, interface⟩ clients.readAll).Holds I ApplyRely
      (Applied hash tmpl) 3 (Held 3 (some interface) (some keyPair) clients none) := by
  unfold applyClients
  refine .bind (.read stable_held (Q := fun _ => Held 4 (some interface) (some keyPair) clients none)
    (fun t h => h.succ (.inl rfl)) fun t _ _ => ?_)
  refine .bind (.read stable_held
    (Q := fun u => Held 5 (some interface) (some keyPair) clients u.globalSettings) ?_
    fun u hu held => ?_)
  · intro u h
    exact ⟨fun _ _ => h.interfaces (by omega) (by omega),
      fun _ _ => h.keypair (by omega) (by omega), fun _ _ => h.clients (by omega) (by omega),
      fun _ _ => rfl⟩
  have hinterface := held.interfaces (by omega) (by omega)
  have hkeyPair := held.keypair (by omega) (by omega)
  cases hsettings : u.globalSettings with
  | none => exact holds_fail stable_held rfl
  | some settings =>
    by_cases hdone : written = .done
    · subst hdone
      refine .bind (.modifyGet stable_held (Q := fun _ => HeldWritten 6 interface keyPair clients
        settings (serverConfigText tmpl ⟨keyPair, interface⟩ clients.readAll settings)) ?_
        fun v _ _ => ?_)
      · intro db h
        exact ⟨(h.succ (.inr (by omega))).writeServerConfig .. , writeServerConfig_done.2⟩
      · exact holds_applyHashes faults hI hs hu hclients hinterface hkeyPair hsettings rfl
    · refine .bind (.modifyGet stable_held (Q := fun _ _ => True) (fun _ _ => trivial)
        fun v _ _ => ?_)
      rw [writeServerConfig_fails hdone]
      exact holds_fail (fun _ _ _ _ => trivial) rfl

/-- The outline of an apply. -/
theorem holds_applyServerConfig (written : ConfigWrite) (faults : StoreFaults)
    (hI : hash.NoCollision I) :
    (applyServerConfig hash tmpl written faults).Holds I ApplyRely (Applied hash tmpl) 0
      fun _ => True := by
  unfold applyServerConfig getServer
  refine .bind (.bind (.read (fun _ _ _ _ => trivial)
    (Q := fun s => Held 1 s.interfaces none .empty none) ?_ fun s _ _ => ?_))
  · intro s _
    exact ⟨fun _ _ => rfl, by omega, by omega, by omega⟩
  cases hinterface : s.interfaces with
  | none => exact .ret (holds_fail stable_held rfl)
  | some interface =>
    refine .bind (.read stable_held
      (Q := fun t => Held 2 (some interface) t.keypair .empty none) ?_ fun t _ _ => ?_)
    · intro t h
      exact ⟨fun _ _ => h.interfaces (by omega) (by omega), fun _ _ => rfl, by omega, by omega⟩
    cases hkeyPair : t.keypair with
    | none => exact .ret (holds_fail stable_held rfl)
    | some keyPair =>
      refine .ret (.bind (.read stable_held
        (Q := fun u => Held 3 (some interface) (some keyPair) u.clients none) ?_ fun u hu _ => ?_))
      · intro u h
        exact ⟨fun _ _ => h.interfaces (by omega) (by omega),
          fun _ _ => h.keypair (by omega) (by omega), fun _ _ => rfl, by omega⟩
      · exact holds_applyClients written faults hI hu rfl

end

/-- A request that writes clients, the interface, the key pair or the settings. -/
inductive WriteRequest where
  | client (r : ClientRequest)
  | interfaces (env : Env) (body : ServerInterface)
  | keyPair (env : Env)
  | globalSettings (env : Env) (body : GlobalSetting)

/-- The handler of a request. -/
def WriteRequest.prog (derive : Key → Key) : WriteRequest → Prog Db Reply
  | client r => r.prog derive
  | interfaces env body => wireGuardServerInterfaces env body
  | keyPair env => wireGuardServerKeyPair derive env
  | globalSettings env body => globalSettingSubmit env body

theorem leavesApplied_savingClient (faults : StoreFaults) (client : Client) (reply : Reply)
    (db : Db) : LeavesApplied db (savingClient faults client reply db).2 := by
  unfold savingClient Db.saveClient
  split <;> exact ⟨rfl, rfl⟩

theorem leavesApplied_deleteClient (faults : StoreFaults) (clientID : Str) (db : Db) :
    LeavesApplied db (db.deleteClient faults clientID).2 := by
  unfold Db.deleteClient
  dsimp only
  split <;> exact ⟨rfl, rfl⟩

theorem keeps_newClient (derive : Key → Key) (env : Env) (body : Client) :
    (newClient derive env body).Keeps LeavesApplied := by
  apply (newClient_commits derive env body).keeps
  rintro f ⟨privateKey, publicKey, presharedKey, -, -, -, rfl⟩ db
  apply leavesApplied_savingClient

theorem keeps_updateClient (env : Env) (body : Client) :
    (updateClient env body).Keeps LeavesApplied := by
  unfold updateClient
  split
  · trivial
  · rw [getClientByID, read_bind]
    intro db
    dsimp only
    split
    · trivial
    · rename_i client _
      apply (updateStoredClient_commits env body client).keeps
      rintro f ⟨-, -, rfl⟩ db'
      apply leavesApplied_savingClient

theorem keeps_setClientStatus (env : Env) (body : Option StatusBody) :
    (setClientStatus env body).Keeps LeavesApplied := by
  unfold setClientStatus
  split
  · trivial
  · rename_i clientID status
    split
    · trivial
    · rw [getClientByID, read_bind]
      intro db
      dsimp only
      split
      · trivial
      · rename_i client _
        apply (saveClientStatus_commits env status client).keeps
        rintro f rfl db'
        apply leavesApplied_savingClient
  · trivial

theorem keeps_removeClient (env : Env) (clientID : Str) :
    (removeClient env clientID).Keeps LeavesApplied := by
  unfold removeClient
  split
  · trivial
  · intro db
    apply keeps_modifyGet_bind
    · intro db'
      apply leavesApplied_deleteClient
    · intro ok
      split <;> trivial

theorem keeps_clientRequest (derive : Key → Key) (r : ClientRequest) :
    (r.prog derive).Keeps LeavesApplied := by
  cases r with
  | newClient env body => exact keeps_newClient derive env body
  | updateClient env body => exact keeps_updateClient env body
  | setClientStatus env body => exact keeps_setClientStatus env body
  | removeClient env clientID => exact keeps_removeClient env clientID

theorem keeps_wireGuardServerInterfaces (env : Env) (body : ServerInterface) :
    (wireGuardServerInterfaces env body).Keeps LeavesApplied := by
  unfold wireGuardServerInterfaces
  split
  · trivial
  · apply keeps_modifyGet_bind
    · intro db
      unfold Db.saveServerInterface
      split <;> exact ⟨rfl, rfl⟩
    · intro ok
      split
      · split <;> trivial
      · trivial

theorem keeps_wireGuardServerKeyPair (derive : Key → Key) (env : Env) :
    (wireGuardServerKeyPair derive env).Keeps LeavesApplied := by
  unfold wireGuardServerKeyPair
  split
  · trivial
  · apply keeps_modifyGet_bind
    · intro db
      unfold Db.saveServerKeyPair
      split <;> exact ⟨rfl, rfl⟩
    · intro ok
      split <;> trivial

theorem keeps_globalSettingSubmit (env : Env) (body : GlobalSetting) :
    (globalSettingSubmit env body).Keeps LeavesApplied := by
  unfold globalSettingSubmit
  split
  · trivial
  · apply keeps_modifyGet_bind
    · intro db
      unfold Db.saveGlobalSettings
      split <;> exact ⟨rfl, rfl⟩
    · intro ok
      split <;> trivial

/-- The other requests write neither the hashes nor a configuration file. -/
theorem WriteRequest.keeps (derive : Key → Key) (r : WriteRequest) :
    (r.prog derive).Keeps LeavesApplied := by
  cases r with
  | client r => exact keeps_clientRequest derive r
  | interfaces env body => exact keeps_wireGuardServerInterfaces env body
  | keyPair env => exact keeps_wireGuardServerKeyPair derive env
  | globalSettings env body => exact keeps_globalSettingSubmit env body

/-- An apply among other requests. -/
def applyPool {κ : Type} (derive : Key → Key) (hash : DirHash) (tmpl : Template)
    (written : ConfigWrite) (faults : StoreFaults) (db : Db) (requests : κ → WriteRequest) :
    Pool (Option κ) Db Reply :=
  ⟨db, fun i => i.elim (applyServerConfig hash tmpl written faults) fun k =>
    (requests k).prog derive⟩

/-- When no request writes what the apply has read and not yet hashed, unchanged hashes after it
mean that the configuration file is current. -/
theorem hashesChanged_truthful {κ : Type} [DecidableEq κ] {derive : Key → Key} {hash : DirHash}
    {tmpl : Template} {written : ConfigWrite} {faults : StoreFaults} {db : Db}
    {requests : κ → WriteRequest} {schedule : List (Option κ)} {reply : Reply}
    (hcollision : hash.NoCollision
      (· ∈ (applyPool derive hash tmpl written faults db requests).states schedule))
    (hspares : (applyPool derive hash tmpl written faults db requests).Spares LeavesRead none 0
      schedule)
    (hreply : ((applyPool derive hash tmpl written faults db requests).run schedule).answer none =
      some reply)
    (hsuccess : reply.answer.success = true)
    (hsame : ((hashesChanged hash).run
      ((applyPool derive hash tmpl written faults db requests).run schedule).state).1 = false) :
    ((applyPool derive hash tmpl written faults db requests).run schedule).state.ConfigCurrent
      tmpl := by
  have hrely := hspares.and_keeps (K := LeavesApplied) (fun _ => ⟨rfl, rfl⟩) (by
    rintro (_ | k) hne
    · exact absurd rfl hne
    · exact (requests k).keeps derive)
  have happlied := Pool.run_holds (holds_applyServerConfig written faults hcollision) trivial
    (fun s hs => hs) hrely hreply
  exact happlied hsuccess hsame

/-- Hashes that tell clients apart by their status only. -/
def statusHash : DirHash where
  hashDir clients := clients.readAll.map fun client => if client.enabled then '1' else '0'
  hash1 settings _ _ := settings.endpointAddress

/-- An apply among one request that disables the client. -/
def disablePool : Pool (Option Unit) Db Reply :=
  applyPool alphaDerive statusHash wgConf .done .none annDb fun _ =>
    .client (.setClientStatus usualEnv (some ⟨some annRecord.id, some false⟩))

/-- The apply with the other request after its first `n` steps. -/
def disableAfter (n : Nat) : List (Option Unit) :=
  List.replicate n none ++ [some (), some ()] ++ List.replicate (11 - n) none

theorem noCollision_of_forall {hash : DirHash} {l : List Db}
    (hclients : ∀ s ∈ l, ∀ t ∈ l, hash.hashDir s.clients = hash.hashDir t.clients →
      s.clients = t.clients)
    (hserver : ∀ s ∈ l, ∀ t ∈ l, s.globalSettings = t.globalSettings ∧
      s.interfaces = t.interfaces ∧ s.keypair = t.keypair) : hash.NoCollision (· ∈ l) :=
  ⟨fun s t hs ht h => hclients s hs t ht h, fun s t hs ht _ _ _ _ => hserver s hs t ht⟩

theorem hashesChanged_truthful_disable :
    (disablePool.run (disableAfter 2)).state.ConfigCurrent wgConf := by
  have hcollision : statusHash.NoCollision (· ∈ disablePool.states (disableAfter 2)) :=
    noCollision_of_forall (by decide +kernel) (by decide +kernel)
  have hreply : (disablePool.run (disableAfter 2)).answer none =
      some (Answer.json 200 true (str "Applied server config successfully")).only := by
    decide +kernel
  exact hashesChanged_truthful hcollision (by decide +kernel) hreply rfl (by decide +kernel)

/-- A client that is disabled after an apply has read the clients and before it hashes them
stays in the file as an enabled one, and the hashes do not show it. -/
theorem hashesChanged_not_truthful :
    statusHash.NoCollision (· ∈ disablePool.states (disableAfter 3)) ∧
      ((disablePool.run (disableAfter 3)).answer none).any (·.answer.success) = true ∧
      ((hashesChanged statusHash).run (disablePool.run (disableAfter 3)).state).1 = false ∧
      ¬ (disablePool.run (disableAfter 3)).state.ConfigCurrent wgConf := by
  refine ⟨noCollision_of_forall (by decide +kernel) (by decide +kernel), by decide +kernel,
    by decide +kernel, ?_⟩
  rintro ⟨interface, keyPair, settings, hinterface, hkeyPair, hsettings, hfile⟩
  have hfiles : ∀ settings ∈ (disablePool.run (disableAfter 3)).state.globalSettings,
      ∀ interface ∈ (disablePool.run (disableAfter 3)).state.interfaces,
      ∀ keyPair ∈ (disablePool.run (disableAfter 3)).state.keypair,
      (disablePool.run (disableAfter 3)).state.files settings.configFilePath ≠
        some (serverConfigText wgConf ⟨keyPair, interface⟩
          (disablePool.run (disableAfter 3)).state.clients.readAll settings) := by
    decide +kernel
  exact hfiles settings hsettings interface hinterface keyPair hkeyPair hfile

end QrWireguard.WebUi
