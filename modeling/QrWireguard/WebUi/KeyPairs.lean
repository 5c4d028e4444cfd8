import QrWireguard.WebUi.ClientRuns

/-!
# Key pairs of the clients

Whether the public key of a stored client belongs to its private key. Two requests can part
them: a new client may bring any private key along with its public key, and an update with an
empty public key keeps the private key.
-/

namespace QrWireguard.WebUi

/-- The public key is the one derived from the private key, if there is a private key. -/
def Client.Matched (derive : Key → Key) (client : Client) : Prop :=
  client.privateKey ≠ [] →
    (parseKey client.privateKey).map (fun key => (derive key).toText) = some client.publicKey

instance (derive : Key → Key) (client : Client) : Decidable (client.Matched derive) :=
  inferInstanceAs (Decidable (_ → _))

/-- The condition on a request: a new client that brings a public key brings no private key that
does not match it, and an update leaves the public key of a client with a private key in place. -/
def KeepsPairs (derive : Key → Key) (db : Db) : ClientRequest → Prop
  | .newClient _ body => body.publicKey = [] ∨ body.Matched derive
  | .updateClient _ body =>
    body.publicKey = [] → ∀ client, db.clients.read body.id = some client → client.privateKey = []
  | _ => True

variable {derive : Key → Key}

theorem NewKeyPair.matched {env : Env} {body : Client} {privateKey publicKey : Str}
    (h : NewKeyPair derive env body privateKey publicKey)
    (hbody : body.publicKey = [] ∨ body.Matched derive) (presharedKey : Str) :
    (newRecord env body privateKey publicKey presharedKey).Matched derive := by
  cases h with
  | generated key =>
    intro _
    change (parseKey key.toText).map _ = _
    rw [parseKey_toText]
    rfl
  | given hne =>
    rcases hbody with hempty | hmatched
    · exact absurd hempty hne
    · exact hmatched

theorem matched_updatedRecord {now : Time} {client body : Client} (h : client.Matched derive)
    (hbody : body.publicKey = [] → client.privateKey = []) :
    (updatedRecord now client body).Matched derive := by
  intro hkey
  change privateKeyLeft client body ≠ [] at hkey
  change (parseKey (privateKeyLeft client body)).map _ = some body.publicKey
  unfold privateKeyLeft at hkey ⊢
  by_cases hnew : client.publicKey ≠ body.publicKey ∧ body.publicKey ≠ []
  · rw [if_pos hnew] at hkey
    exact absurd rfl hkey
  · rw [if_neg hnew] at hkey ⊢
    by_cases hempty : body.publicKey = []
    · exact absurd (hbody hempty) hkey
    · have hsame : client.publicKey = body.publicKey := by_contra fun hne => hnew ⟨hne, hempty⟩
      rw [← hsame]
      exact h hkey

theorem SavedBy.matched {db : Db} {r : ClientRequest} {client : Client}
    (h : SavedBy derive db r client) (hr : KeepsPairs derive db r)
    (hclients : ∀ client ∈ db.clients.readAll, client.Matched derive) : client.Matched derive := by
  cases h with
  | newClient hbody hpair hpreshared => exact hpair.matched hr _
  | updateClient hread hbody hkeys =>
    have hold := hclients _ (Dir.mem_readAll.mpr ⟨_, hread⟩)
    exact matched_updatedRecord hold fun hempty => hr hempty _ hread
  | setClientStatus hread =>
    have hold := hclients _ (Dir.mem_readAll.mpr ⟨_, hread⟩)
    exact hold

/-- As long as no request parts a pair, all stored pairs match. -/
theorem clients_matched {db : Db}
    (h : Reach (fun db => db.clients = .empty) (ClientStep derive) (KeepsPairs derive) db) :
    ∀ client ∈ db.clients.readAll, client.Matched derive := by
  refine h.invariant (I := fun db => ∀ client ∈ db.clients.readAll, client.Matched derive) ?_ ?_
  · intro db hempty client hmem
    rw [hempty] at hmem
    cases hmem
  · intro db r db' hclients hr hstep
    exact hstep.effect.forall_clients hclients fun client hsaved => hsaved.matched hr hclients

/-- A private key and its public key. -/
def alphaKey : Key where
  bytes := [136, 211, 246, 173, 104, 91, 149, 158, 173, 112, 34, 81, 142, 26, 247, 108, 216, 22,
    248, 232, 236, 124, 205, 218, 30, 212, 1, 142, 143, 34, 35, 120]
  length_eq := rfl
  lt_256 := by decide

def alphaPublicKey : Key where
  bytes := [142, 185, 199, 240, 81, 251, 141, 156, 74, 18, 205, 200, 18, 69, 202, 28, 191, 98, 6,
    69, 61, 116, 193, 116, 173, 203, 228, 197, 227, 34, 238, 76]
  length_eq := rfl
  lt_256 := by decide

/-- The derivation on the one key that is generated below. -/
def alphaDerive (_ : Key) : Key := alphaPublicKey

def usualTime : Time := ⟨2025, 3, 9, 7, 5, 1, 120000000⟩

def usualXid : Xid := ⟨str "9m4e2mr0ui3e8a215n4g", by decide⟩

/-- A request's surroundings in which nothing fails. -/
def usualEnv : Env := ⟨usualTime, usualXid, some alphaKey, some alphaPublicKey, .none⟩

/-- A store after its first start. -/
def freshDb : Db :=
  initDb alphaDerive { endpointAddress := str "203.0.113.1" } alphaKey usualTime .empty fun _ => none

/-- A body as the page for new clients sends it. -/
def usualBody : Client :=
  { Client.zero with
    name := str "ann"
    email := str "ann@example.com"
    allocatedIPs := [str "10.252.1.2/32"]
    allowedIPs := [str "0.0.0.0/0"]
    endpoint := str "198.51.100.7:51820"
    useServerDNS := true
    enabled := true }

/-- The store after requests that are served one after the other. -/
def Db.serveAll (derive : Key → Key) (db : Db) (requests : List ClientRequest) : Db :=
  requests.foldl (fun db r => ((r.prog derive).run db).2) db

/-- A store with one client, whose keys have been generated. -/
def annDb : Db := freshDb.serveAll alphaDerive [.newClient usualEnv usualBody]

/-- The record of that client. -/
def annRecord : Client :=
  newRecord usualEnv usualBody alphaKey.toText alphaPublicKey.toText alphaPublicKey.toText

theorem clients_matched_generated :
    (freshDb.serveAll alphaDerive [.newClient usualEnv usualBody]).clients.readAll.length = 1 ∧
      ∀ client ∈ (freshDb.serveAll alphaDerive [.newClient usualEnv usualBody]).clients.readAll,
        client.Matched alphaDerive :=
  ⟨by decide +kernel, clients_matched (.step (.init rfl) (i := .newClient usualEnv usualBody)
    (.inl rfl) rfl)⟩

/-- An update that leaves the public key out keeps the private key of the client. -/
theorem clients_not_matched : ∃ db : Db,
    Reach (fun db => db.clients = .empty) (ClientStep alphaDerive) (fun _ _ => True) db ∧
      ∃ client ∈ db.clients.readAll, ¬ client.Matched alphaDerive := by
  refine ⟨freshDb.serveAll alphaDerive [.newClient usualEnv usualBody,
    .updateClient usualEnv { usualBody with id := usualXid.text }], ?_, by decide +kernel⟩
  exact .step (.step (.init rfl) trivial rfl) trivial rfl

end QrWireguard.WebUi
