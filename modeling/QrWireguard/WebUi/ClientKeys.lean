import QrWireguard.WebUi.Listing

/-!
# Public keys as identities

Whether the stored public keys tell the clients apart. A new key is compared with the stored ones
as a text, so another spelling of a stored key passes; and an update takes the key of its body
also when that is empty.
-/

namespace QrWireguard.WebUi

open Prog

/-- Every client is stored under its own ID and has a public key, and no two have the same one. -/
structure KeysIdentify (clients : Dir Str Client) : Prop where
  id_eq : ∀ name client, clients.read name = some client → client.id = name
  isSome : ∀ name client, clients.read name = some client → (parseKey client.publicKey).isSome
  ne : ∀ name client name' client', clients.read name = some client →
    clients.read name' = some client' → name ≠ name' →
      parseKey client.publicKey ≠ parseKey client'.publicKey

namespace KeysIdentify
variable {clients : Dir Str Client}

theorem empty : KeysIdentify .empty where
  id_eq _ _ h := by cases h
  isSome _ _ h := by cases h
  ne _ _ _ _ h := by cases h

theorem delete (h : KeysIdentify clients) (clientID : Str) :
    KeysIdentify (clients.delete clientID) := by
  have hold : ∀ name client, (clients.delete clientID).read name = some client →
      clients.read name = some client :=
    fun _ _ hread => (Dir.read_delete_eq_some.mp hread).2
  exact ⟨fun name client hread => h.id_eq name client (hold _ _ hread),
    fun name client hread => h.isSome name client (hold _ _ hread),
    fun name client name' client' hread hread' =>
      h.ne name client name' client' (hold _ _ hread) (hold _ _ hread')⟩

/-- A record may be written when its key is not the one of another client. -/
theorem write (h : KeysIdentify clients) {r : Client} (hkey : (parseKey r.publicKey).isSome)
    (hother : ∀ name client, clients.read name = some client → name ≠ r.id →
      parseKey client.publicKey ≠ parseKey r.publicKey) :
    KeysIdentify (clients.write r.id r) := by
  refine ⟨fun name client hread => ?_, fun name client hread => ?_,
    fun name client name' client' hread hread' hne => ?_⟩
  · rcases Dir.read_write_eq_some.mp hread with ⟨rfl, rfl⟩ | ⟨-, hold⟩
    · rfl
    · exact h.id_eq name client hold
  · rcases Dir.read_write_eq_some.mp hread with ⟨-, rfl⟩ | ⟨-, hold⟩
    · exact hkey
    · exact h.isSome name client hold
  · rcases Dir.read_write_eq_some.mp hread with ⟨rfl, rfl⟩ | ⟨hname, hold⟩
    · rcases Dir.read_write_eq_some.mp hread' with ⟨rfl, -⟩ | ⟨hname', hold'⟩
      · exact absurd rfl hne
      · exact (hother name' client' hold' hname').symm
    · rcases Dir.read_write_eq_some.mp hread' with ⟨-, rfl⟩ | ⟨-, hold'⟩
      · exact hother name client hold hname
      · exact h.ne name client name' client' hold hold' hne

end KeysIdentify

/-- Generated keys are new: the public key of the private key that a new client gets is not one of
a stored client. -/
def GeneratesFresh (derive : Key → Key) (db : Db) : ClientRequest → Prop
  | .newClient env body => body.publicKey = [] → ∀ key, env.privateKey = some key →
    ∀ name client, db.clients.read name = some client →
      parseKey client.publicKey ≠ some (derive key)
  | _ => True

/-- The condition on a request: an update of a stored client has a public key, and a key that is
given is not another spelling of the one of another client. -/
def SpellsKeys (db : Db) : ClientRequest → Prop
  | .newClient _ body => ∀ name client, db.clients.read name = some client →
    parseKey client.publicKey = parseKey body.publicKey → client.publicKey = body.publicKey
  | .updateClient _ body => ∀ stored, db.clients.read body.id = some stored →
    body.publicKey ≠ [] ∧ ∀ name client, db.clients.read name = some client → name ≠ body.id →
      parseKey client.publicKey = parseKey body.publicKey → client.publicKey = body.publicKey
  | _ => True

section
variable {derive : Key → Key} {db db' : Db}

/-- A key that is no text of a stored one and no other spelling of one is new. -/
theorem ne_of_any {body : Client} {name : Str} {client : Client}
    (hany : db.clients.readAll.any (·.publicKey == body.publicKey) = false)
    (hread : db.clients.read name = some client)
    (hspell : parseKey client.publicKey = parseKey body.publicKey →
      client.publicKey = body.publicKey) :
    parseKey client.publicKey ≠ parseKey body.publicKey := by
  intro heq
  have hno := List.any_eq_false.mp hany client (Dir.mem_readAll.mpr ⟨name, hread⟩)
  rw [hspell heq] at hno
  simp at hno

theorem KeysIdentify.newClient (h : KeysIdentify db.clients) {env : Env} {body : Client}
    (hfresh : GeneratesFresh derive db (.newClient env body))
    (hspell : SpellsKeys db (.newClient env body)) :
    KeysIdentify ((newClient derive env body).run db).2.clients := by
  rcases clients_newClient derive env body db with
    hsame | ⟨hpasses, privateKey, publicKey, presharedKey, hpair, hwrite⟩
  · rwa [hsame]
  · rw [hwrite]
    cases hpair with
    | generated key hbody henv =>
      have hparse : parseKey (newRecord env body key.toText (derive key).toText
          presharedKey).publicKey = some (derive key) := parseKey_toText _
      refine h.write (by rw [hparse]; rfl) fun name client hread _ => ?_
      rw [hparse]
      exact hfresh hbody key henv name client hread
    | given hbody hkey =>
      have hany : db.clients.readAll.any (·.publicKey == body.publicKey) = false := by
        rcases hpasses.publicKey with ⟨hempty, -⟩ | ⟨-, -, hany⟩
        · exact absurd hempty hbody
        · exact hany
      refine h.write (r := newRecord env body body.privateKey body.publicKey presharedKey) hkey
        fun name client hread _ => ?_
      exact ne_of_any hany hread (hspell name client hread)

theorem KeysIdentify.updateClient (h : KeysIdentify db.clients) {env : Env} {body : Client}
    (hspell : SpellsKeys db (.updateClient env body)) :
    KeysIdentify ((updateClient env body).run db).2.clients := by
  rcases clients_updateClient env body db with hsame | ⟨client, hread, hpasses, hwrite⟩
  · rwa [hsame]
  · obtain ⟨hne, hspelled⟩ := hspell client hread
    have hid : client.id = body.id := h.id_eq body.id client hread
    rw [hwrite]
    rcases hpasses.publicKey with hsame | hempty | ⟨hkey, _, rfl, hany⟩
    · -- the key stays as it is
      refine h.write (r := updatedRecord env.now client body)
        (hsame ▸ h.isSome body.id client hread) fun name other hother hname => ?_
      change parseKey other.publicKey ≠ parseKey body.publicKey
      rw [← hsame]
      exact h.ne name other body.id client hother hread (hid ▸ hname)
    · exact absurd hempty hne
    · refine h.write (r := updatedRecord env.now client body) hkey
        fun name other hother hname => ?_
      exact ne_of_any hany hother (hspelled name other hother (hid ▸ hname))

/-- A request that meets the condition keeps the keys apart. -/
theorem KeysIdentify.step (h : KeysIdentify db.clients) {r : ClientRequest}
    (hfresh : GeneratesFresh derive db r) (hspell : SpellsKeys db r)
    (hstep : ClientStep derive db r db') : KeysIdentify db'.clients := by
  have heffect := hstep.effect
  obtain rfl : ((r.prog derive).run db).2 = db' := hstep
  cases r with
  | newClient env body => exact h.newClient hfresh hspell
  | updateClient env body => exact h.updateClient hspell
  | setClientStatus env body =>
    rcases heffect.clients with hsame | ⟨clientID, hdelete⟩ | ⟨record, hsaved, hwrite⟩
    · rwa [hsame]
    · rw [hdelete]
      exact h.delete clientID
    · rw [hwrite]
      cases hsaved with
      | @setClientStatus _ clientID status client hread =>
        refine h.write (h.isSome clientID client hread) fun name other hother hname => ?_
        exact h.ne name other clientID client hother hread (h.id_eq clientID client hread ▸ hname)
  | removeClient env clientID =>
    rcases heffect.clients with hsame | ⟨clientID, hdelete⟩ | ⟨record, hsaved, -⟩
    · rwa [hsame]
    · rw [hdelete]
      exact h.delete clientID
    · cases hsaved

end

/-- As long as the keys that are given are keys, and no other spellings of stored ones, the stored
public keys tell the clients apart. -/
theorem publicKeys_identify {derive : Key → Key} {db : Db}
    (h : Reach (fun db => db.clients = .empty) (ClientStep derive)
      (fun db r => GeneratesFresh derive db r ∧ SpellsKeys db r) db) :
    (∀ client ∈ db.clients.readAll, client.publicKey ≠ [] ∧ (parseKey client.publicKey).isSome) ∧
      ∀ name client name' client', db.clients.read name = some client →
        db.clients.read name' = some client' → name ≠ name' →
          parseKey client.publicKey ≠ parseKey client'.publicKey := by
  have hkeys : KeysIdentify db.clients :=
    h.invariant (I := fun db => KeysIdentify db.clients)
      (fun _ hempty => by rw [hempty]; exact .empty)
      fun _ _ _ hI hr hstep => hI.step hr.1 hr.2 hstep
  refine ⟨fun client hmem => ?_, hkeys.ne⟩
  obtain ⟨name, hread⟩ := Dir.mem_readAll.mp hmem
  have hsome := hkeys.isSome name client hread
  refine ⟨fun hempty => ?_, hsome⟩
  rw [hempty] at hsome
  revert hsome
  decide

theorem publicKeys_identify_generated :
    (∀ client ∈ annDb.clients.readAll,
      client.publicKey ≠ [] ∧ (parseKey client.publicKey).isSome) ∧
      ∀ name client name' client', annDb.clients.read name = some client →
        annDb.clients.read name' = some client' → name ≠ name' →
          parseKey client.publicKey ≠ parseKey client'.publicKey := by
  have hempty : ∀ name client, freshDb.clients.read name ≠ some client := fun _ _ => nofun
  have hfresh : GeneratesFresh alphaDerive freshDb (.newClient usualEnv usualBody) :=
    fun _ _ _ name client hread => absurd hread (hempty name client)
  have hspell : SpellsKeys freshDb (.newClient usualEnv usualBody) :=
    fun name client hread => absurd hread (hempty name client)
  have hstep : ClientStep alphaDerive freshDb (.newClient usualEnv usualBody) annDb := rfl
  exact publicKeys_identify (.step (.init rfl) ⟨hfresh, hspell⟩ hstep)

/-- An update that leaves the public key out stores an empty one. -/
theorem not_publicKeys_identify : ∃ db : Db,
    Reach (fun db => db.clients = .empty) (ClientStep alphaDerive) (GeneratesFresh alphaDerive) db ∧
      ∃ client ∈ db.clients.readAll, client.publicKey = [] := by
  have hfresh : GeneratesFresh alphaDerive freshDb (.newClient usualEnv usualBody) :=
    fun _ _ _ _ _ hread => by cases hread
  have hupdate : GeneratesFresh alphaDerive annDb
      (.updateClient usualEnv { usualBody with id := usualXid.text }) := trivial
  refine ⟨freshDb.serveAll alphaDerive [.newClient usualEnv usualBody,
    .updateClient usualEnv { usualBody with id := usualXid.text }], ?_, by decide +kernel⟩
  exact .step (.step (.init rfl) hfresh rfl) hupdate rfl

end QrWireguard.WebUi
