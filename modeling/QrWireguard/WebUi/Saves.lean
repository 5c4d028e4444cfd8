import QrWireguard.WebUi.Clients

/-!
# What the client routes save

Every handler of the client routes reads the store and, in its last step, saves or deletes one
client, or it gives up and leaves the store as it is.
-/

namespace QrWireguard.WebUi

open BePlugin

/-- The last step of a handler that saves a client, with its reply when the store reports
success. -/
def savingClient (faults : StoreFaults) (client : Client) (reply : Reply) (db : Db) :
    Reply × Db :=
  (if (db.saveClient faults client).1 then reply else (Answer.error 500).only,
    (db.saveClient faults client).2)

theorem modifyGet_bind_ite {σ α : Type} (f : σ → Bool × σ) (a b : α) :
    (Prog.modifyGet f >>= fun ok => if ok then pure a else pure b : Prog σ α) =
      .act (fun s => (f s).2) fun s => .ret (if (f s).1 then a else b) := by
  rw [Prog.modifyGet_bind]
  congr 1
  funext s
  cases (f s).1 <;> rfl

theorem commits_saveClient (faults : StoreFaults) (client : Client) (reply : Reply) :
    (Prog.modifyGet (Db.saveClient faults client) >>= fun ok =>
        if ok then pure reply else pure (Answer.error 500).only : Prog Db Reply).Commits
      Rejected (· = savingClient faults client reply) := by
  rw [modifyGet_bind_ite]
  exact .act (f := savingClient faults client reply) rfl

theorem reads_getServer : getServer.Reads fun _ => True := by
  unfold getServer
  apply (Prog.Reads.read _).bind
  intro interface _
  cases interface with
  | none => exact .ret trivial
  | some interface =>
    apply (Prog.Reads.read _).bind
    intro keyPair _
    cases keyPair <;> exact .ret trivial

theorem reads_getAllocatedIPs (ignoreClientID : Str) :
    (getAllocatedIPs ignoreClientID).Reads fun _ => True := by
  unfold getAllocatedIPs
  apply (Prog.Reads.read _).bind
  intro interface _
  cases interface with
  | none => exact .ret trivial
  | some interface =>
    dsimp only
    split
    · exact .ret trivial
    · exact (Prog.Reads.read _).bind fun _ _ => .ret trivial

theorem validateIPAllocation_some {serverAddresses ipAllocatedList cidrs : List Str}
    {answer : Answer} (h : validateIPAllocation serverAddresses ipAllocatedList cidrs = some answer) :
    answer.success = false := by
  induction cidrs with
  | nil => cases h
  | cons cidr rest ih =>
    unfold validateIPAllocation at h
    split at h
    · cases h
      rfl
    · split at h
      · cases h
        rfl
      · split at h
        · cases h
          rfl
        · exact ih h
        · cases h
          rfl

theorem validateIPAllocation_none {serverAddresses ipAllocatedList cidrs : List Str}
    (h : validateIPAllocation serverAddresses ipAllocatedList cidrs = none) :
    ∀ cidr ∈ cidrs, validateCIDR cidr = true := by
  induction cidrs with
  | nil => simp
  | cons cidr rest ih =>
    unfold validateIPAllocation at h
    split at h
    · cases h
    · rename_i ip net hparse
      split at h
      · cases h
      · split at h
        · cases h
        · have hrest := ih h
          intro other hother
          rcases List.mem_cons.mp hother with rfl | hmem
          · simp [validateCIDR, hparse]
          · exact hrest other hmem
        · cases h

theorem checkAddresses_some {server : Server} {allocatedIPs : Option (List Str)} {body : Client}
    {extraText : Str} {answer : Answer}
    (h : checkAddresses server allocatedIPs body extraText = some answer) :
    answer.success = false := by
  unfold checkAddresses at h
  split at h
  · rename_i other hother
    obtain rfl := Option.some.inj h
    exact validateIPAllocation_some hother
  · split at h
    · cases h
      rfl
    · split at h
      · cases h
        rfl
      · cases h

/-- What the checks of a body that is saved have found. -/
structure CheckedBody (body : Client) : Prop where
  tgUserid : validTgUserid body.tgUserid = true
  allocatedIPs : ∀ cidr ∈ body.allocatedIPs, validateCIDR cidr = true
  allowedIPs : validateAllowedIPs body.allowedIPs = true
  extraAllowedIPs : validateExtraAllowedIPs body.extraAllowedIPs = true

theorem checkedBody {server : Server} {allocatedIPs : Option (List Str)} {body : Client}
    {extraText : Str} (htg : validTgUserid body.tgUserid = true)
    (h : checkAddresses server allocatedIPs body extraText = none) : CheckedBody body := by
  unfold checkAddresses at h
  split at h
  · cases h
  · rename_i hallocation
    split at h
    · cases h
    · rename_i hallowed
      split at h
      · cases h
      · rename_i hextra
        exact ⟨htg, validateIPAllocation_none hallocation, by simpa using hallowed,
          by simpa using hextra⟩

/-- The key pairs a new client may get. -/
inductive NewKeyPair (derive : Key → Key) (env : Env) (body : Client) : Str → Str → Prop
  | generated (key : Key) (hbody : body.publicKey = []) (henv : env.privateKey = some key) :
      NewKeyPair derive env body key.toText (derive key).toText
  | given (hbody : body.publicKey ≠ []) (hkey : (parseKey body.publicKey).isSome) :
      NewKeyPair derive env body body.privateKey body.publicKey

/-- The preshared keys a new client may get. -/
inductive NewPresharedKey (env : Env) (body : Client) : Str → Prop
  | generated (key : Key) (hbody : body.presharedKey = []) (henv : env.presharedKey = some key) :
      NewPresharedKey env body key.toText
  | skipped (hbody : body.presharedKey = ['-']) : NewPresharedKey env body []
  | given (hkey : (parseKey body.presharedKey).isSome) : NewPresharedKey env body body.presharedKey

/-- The record of a new client. -/
def newRecord (env : Env) (body : Client) (privateKey publicKey presharedKey : Str) : Client :=
  { body with
    id := env.guid.text
    privateKey := privateKey
    publicKey := publicKey
    presharedKey := presharedKey
    createdAt := env.now
    updatedAt := env.now }

/-- The changes a new client can make to the store. -/
def NewClientSaves (derive : Key → Key) (env : Env) (body : Client) (f : Db → Reply × Db) : Prop :=
  ∃ privateKey publicKey presharedKey, CheckedBody body ∧
    NewKeyPair derive env body privateKey publicKey ∧ NewPresharedKey env body presharedKey ∧
    let client := newRecord env body privateKey publicKey presharedKey
    f = savingClient env.faults client ⟨.client client, some (addWireguardPeer client)⟩

theorem newClientKeyPair_reads (derive : Key → Key) (env : Env) (body : Client) :
    (newClientKeyPair derive env { body with id := env.guid.text }).Reads fun
      | .error answer => answer.success = false
      | .ok client => ∃ privateKey publicKey, NewKeyPair derive env body privateKey publicKey ∧
          client = { body with
            id := env.guid.text, privateKey := privateKey, publicKey := publicKey } := by
  unfold newClientKeyPair
  by_cases hempty : body.publicKey = []
  · rw [if_pos hempty]
    split
    · exact .ret rfl
    · rename_i key hkey
      exact .ret ⟨key.toText, (derive key).toText, .generated key hempty hkey, rfl⟩
  · rw [if_neg hempty]
    by_cases hkey : (parseKey body.publicKey).isNone = true
    · rw [if_pos hkey]
      exact .ret rfl
    · rw [if_neg hkey]
      apply (Prog.Reads.read _).bind
      intro clients _
      split
      · exact .ret rfl
      · exact .ret ⟨body.privateKey, body.publicKey, .given hempty
          (Option.isSome_iff_ne_none.mpr (by simpa using hkey)), rfl⟩

theorem newClientPresharedKey_error {env : Env} {client : Client} {answer : Answer}
    (h : newClientPresharedKey env client = .error answer) : answer.success = false := by
  unfold newClientPresharedKey at h
  split at h
  · split at h
    · cases h
      rfl
    · cases h
  · split at h
    · cases h
    · split at h
      · cases h
        rfl
      · cases h

theorem newClientPresharedKey_ok {env : Env} {client saved : Client} (body : Client)
    (h : newClientPresharedKey env client = .ok saved)
    (hbody : client.presharedKey = body.presharedKey) :
    ∃ presharedKey, NewPresharedKey env body presharedKey ∧
      saved = { client with presharedKey := presharedKey } := by
  unfold newClientPresharedKey at h
  rw [hbody] at h
  split at h
  · rename_i hempty
    split at h
    · cases h
    · rename_i key hkey
      cases h
      exact ⟨key.toText, .generated key hempty hkey, rfl⟩
  · split at h
    · rename_i hskip
      cases h
      exact ⟨[], .skipped hskip, rfl⟩
    · split at h
      · cases h
      · rename_i hkey
        cases h
        exact ⟨body.presharedKey, .given (Option.isSome_iff_ne_none.mpr (by simpa using hkey)),
          by rw [← hbody]⟩

theorem newClient_commits (derive : Key → Key) (env : Env) (body : Client) :
    (newClient derive env body).Commits Rejected (NewClientSaves derive env body) := by
  unfold newClient
  split
  · exact .ret ⟨rfl, rfl⟩
  · rename_i htg
    apply reads_getServer.bind_commits
    intro server _
    cases server with
    | none => exact .ret ⟨rfl, rfl⟩
    | some server =>
      apply (reads_getAllocatedIPs []).bind_commits
      intro allocatedIPs _
      split
      · rename_i answer hanswer
        exact .ret ⟨checkAddresses_some hanswer, rfl⟩
      · rename_i haddresses
        apply (newClientKeyPair_reads derive env body).bind_commits
        intro keys hkeys
        cases keys with
        | error answer => exact .ret ⟨hkeys, rfl⟩
        | ok client =>
          obtain ⟨privateKey, publicKey, hpair, rfl⟩ := hkeys
          dsimp only
          split
          · rename_i answer hanswer
            exact .ret ⟨newClientPresharedKey_error hanswer, rfl⟩
          · rename_i saved hsaved
            obtain ⟨presharedKey, hpreshared, rfl⟩ := newClientPresharedKey_ok body hsaved rfl
            refine (commits_saveClient _ _ _).mono (fun _ h => h) ?_
            rintro f rfl
            exact ⟨privateKey, publicKey, presharedKey, checkedBody (by simpa using htg) haddresses,
              hpair, hpreshared, rfl⟩

/-- The private key that an update leaves. -/
def privateKeyLeft (client body : Client) : Str :=
  if client.publicKey ≠ body.publicKey ∧ body.publicKey ≠ [] then [] else client.privateKey

/-- The record an update saves over the one it has read. -/
def updatedRecord (now : Time) (client body : Client) : Client :=
  mapNewData now { client with privateKey := privateKeyLeft client body } body

/-- What the checks of the keys of an update have found. -/
structure CheckedKeys (client body : Client) : Prop where
  publicKey : client.publicKey = body.publicKey ∨ body.publicKey = [] ∨
    (parseKey body.publicKey).isSome
  presharedKey : badPresharedKey client body = false

/-- The changes an update can make to the store. -/
def UpdateSaves (env : Env) (body client : Client) (f : Db → Reply × Db) : Prop :=
  CheckedBody body ∧ CheckedKeys client body ∧
    let saved := updatedRecord env.now client body
    f = savingClient env.faults saved
      ⟨.json 200 true (str "Updated client successfully"), some (addWireguardPeer saved)⟩

theorem updateClientKeyPair_reads (client body : Client) :
    (updateClientKeyPair client body).Reads fun
      | .error answer => answer.success = false
      | .ok kept => kept = { client with privateKey := privateKeyLeft client body } ∧
          (client.publicKey = body.publicKey ∨ body.publicKey = [] ∨
            (parseKey body.publicKey).isSome) := by
  unfold updateClientKeyPair
  by_cases hnew : client.publicKey ≠ body.publicKey ∧ body.publicKey ≠ []
  · rw [if_pos hnew]
    by_cases hkey : (parseKey body.publicKey).isNone = true
    · rw [if_pos hkey]
      exact .ret rfl
    · rw [if_neg hkey]
      apply (Prog.Reads.read _).bind
      intro clients _
      split
      · exact .ret rfl
      · refine .ret ⟨by rw [privateKeyLeft, if_pos hnew], .inr (.inr ?_)⟩
        exact Option.isSome_iff_ne_none.mpr (by simpa using hkey)
  · rw [if_neg hnew]
    refine .ret ⟨by rw [privateKeyLeft, if_neg hnew], ?_⟩
    by_cases hsame : client.publicKey = body.publicKey
    · exact .inl hsame
    · exact .inr (.inl (by_contra fun hne => hnew ⟨hsame, hne⟩))

theorem updateStoredClient_commits (env : Env) (body client : Client) :
    (updateStoredClient env body client).Commits Rejected (UpdateSaves env body client) := by
  unfold updateStoredClient
  split
  · exact .ret ⟨rfl, rfl⟩
  · rename_i htg
    apply reads_getServer.bind_commits
    intro server _
    cases server with
    | none => exact .ret ⟨rfl, rfl⟩
    | some server =>
      apply (reads_getAllocatedIPs client.id).bind_commits
      intro allocatedIPs _
      split
      · rename_i answer hanswer
        exact .ret ⟨checkAddresses_some hanswer, rfl⟩
      · rename_i haddresses
        apply (updateClientKeyPair_reads client body).bind_commits
        intro keys hkeys
        cases keys with
        | error answer => exact .ret ⟨hkeys, rfl⟩
        | ok kept =>
          obtain ⟨rfl, hpublic⟩ := hkeys
          dsimp only
          split
          · exact .ret ⟨rfl, rfl⟩
          · rename_i hpreshared
            refine (commits_saveClient _ _ _).mono (fun _ h => h) ?_
            rintro f rfl
            exact ⟨checkedBody (by simpa using htg) haddresses,
              ⟨hpublic, by simpa using hpreshared⟩, rfl⟩

/-- The change that `SetClientStatus` makes to the store. -/
def StatusSaves (env : Env) (status : Bool) (client : Client) (f : Db → Reply × Db) : Prop :=
  f = savingClient env.faults { client with enabled := status }
    (Answer.json 200 true (str "Changed client status successfully")).only

theorem saveClientStatus_commits (env : Env) (status : Bool) (client : Client) :
    (saveClientStatus env status client).Commits Rejected (StatusSaves env status client) :=
  commits_saveClient _ _ _

end QrWireguard.WebUi
