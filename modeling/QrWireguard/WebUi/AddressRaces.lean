import QrWireguard.Misc.Rely
import QrWireguard.WebUi.Addresses

/-!
# Requests for addresses at the same time

New clients and updates whose steps alternate. Between the step in which a request reads the
clients for its listing and the one in which it saves its record another request may save a client
with the same address, and nothing compares them again.
-/

namespace QrWireguard.WebUi

open Prog

/-- A request that gives a client its addresses. -/
inductive AllocRequest where
  | newClient (env : Env) (body : Client)
  | updateClient (env : Env) (body : Client)

namespace AllocRequest

/-- The handler of a request. -/
def prog (derive : Key → Key) : AllocRequest → Prog Db Reply
  | newClient env body => WebUi.newClient derive env body
  | updateClient env body => WebUi.updateClient env body

/-- The ID of the record that a request saves. -/
def clientID : AllocRequest → Str
  | newClient env _ => env.guid.text
  | updateClient _ body => body.id

/-- The entries that a request asks for. -/
def cidrs : AllocRequest → List Str
  | newClient _ body => body.allocatedIPs
  | updateClient _ body => body.allocatedIPs

/-- The number of steps after which a request has read the clients for its listing. -/
def listed : AllocRequest → Nat
  | newClient _ _ => 4
  | updateClient _ _ => 5

end AllocRequest

theorem freeFor_iff_entries {clients : Dir Str Client} {clientID : Str} {cidrs : List Str} :
    FreeFor clients clientID cidrs ↔ ∀ e ∈ clients.entries, e.1 ≠ clientID →
      ∀ ip ∈ hostIPs e.2.allocatedIPs, ip ∉ hostIPs cidrs := by
  constructor
  · rintro h ⟨name, client⟩ hmem hne
    exact fun ip hip hheld =>
      h name client ((Dir.lookup_eq_some_iff clients.sorted).mpr hmem) hne hip hheld
  · intro h name client hread hne ip hip hheld
    exact h (name, client) ((Dir.lookup_eq_some_iff clients.sorted).mp hread) hne ip hip hheld

instance decidableFreeFor (clients : Dir Str Client) (clientID : Str) (cidrs : List Str) :
    Decidable (FreeFor clients clientID cidrs) := decidable_of_iff' _ freeFor_iff_entries

/-- A step while a request has taken `n` steps: when the request has read the clients, no other
client than its own gets an address that it asks for. -/
def LeavesFree (listed : Nat) (clientID : Str) (cidrs : List Str) (n : Nat) (s t : Db) : Prop :=
  listed ≤ n → FreeFor s.clients clientID cidrs → FreeFor t.clients clientID cidrs

instance decidableLeavesFree (listed : Nat) (clientID : Str) (cidrs : List Str) (n : Nat)
    (s t : Db) : Decidable (LeavesFree listed clientID cidrs n s t) :=
  inferInstanceAs (Decidable (_ → _ → _))

/-- The addresses that were free in a store are free. -/
def StillFree (clientID : Str) (cidrs : List Str) (s t : Db) : Prop :=
  FreeFor s.clients clientID cidrs → FreeFor t.clients clientID cidrs

/-- The server has this interface, and the addresses of the clients are kept. -/
def KeptWith (interface : ServerInterface) (db : Db) : Prop :=
  db.interfaces = some interface ∧ AddressesKept interface.addresses db.clients

/-- No address is held by two clients. -/
def ClientsApart (db : Db) : Prop :=
  ∀ name client name' client', db.clients.read name = some client →
    db.clients.read name' = some client' → name ≠ name' →
      List.Disjoint (hostIPs client.allocatedIPs) (hostIPs client'.allocatedIPs)

section
variable {interface : ServerInterface} {clientID : Str} {cidrs : List Str} {n listed : Nat}
  {post : Nat → Reply → (Db → Prop) → Prop}

theorem stable_stillFree (hn : listed ≤ n) (s : Db) :
    Stable (LeavesFree listed clientID cidrs) n (StillFree clientID cidrs s) :=
  fun _ _ hstill hleaves hfree => hleaves hn (hstill hfree)

theorem stable_true : Stable (LeavesFree listed clientID cidrs) n fun _ => True :=
  fun _ _ _ _ => trivial

theorem KeptWith.saveClient {db : Db} (h : KeptWith interface db) (faults : StoreFaults)
    {r : Client} (hid : r.id ≠ []) (hsuits : Suits interface.addresses r.allocatedIPs)
    (hfree : FreeFor db.clients r.id r.allocatedIPs) :
    KeptWith interface (db.saveClient faults r).2 := by
  unfold Db.saveClient
  split
  · exact ⟨h.1, h.2.write hid hsuits hfree⟩
  · exact h

/-- The last step of a request keeps the addresses. -/
theorem guards_saveClient {faults : StoreFaults} {r : Client} {k : Bool → Prog Db Reply} {s : Db}
    (hpost : ∀ n a P, post n a P) (hk : ∀ ok, ∃ a, k ok = pure a)
    (hn : listed ≤ n) (hid : r.id ≠ []) (hsuits : Suits interface.addresses r.allocatedIPs)
    (hfree : FreeFor s.clients r.id r.allocatedIPs) :
    Guards (KeptWith interface) (LeavesFree listed r.id r.allocatedIPs) post n
      (Prog.modifyGet (Db.saveClient faults r) >>= k) (StillFree r.id r.allocatedIPs s) := by
  refine .bind (.modifyGet (Q := fun _ _ => True) (stable_stillFree hn s) (fun _ _ => trivial) ?_
    fun t _ _ => ?_)
  · intro t ht hstill
    exact ht.saveClient faults hid hsuits (hstill hfree)
  · obtain ⟨a, ha⟩ := hk (t.saveClient faults r).1
    rw [ha]
    exact .ret (hpost _ _ _)

/-- The steps that a new client and an update begin with, up to the check of the addresses. -/
theorem guards_of_rest {body : Client} {ignoreClientID extraText : Str} {invalid noServer : Answer}
    {rest : Prog Db Reply} (hpost : ∀ n a P, post n a P)
    (hserver : ∀ cidr ∈ interface.addresses, validateCIDR cidr = true)
    (hignore : ∀ s, KeptWith interface s → FreeFor s.clients ignoreClientID body.allocatedIPs →
      FreeFor s.clients clientID body.allocatedIPs)
    (hrest : ∀ s, Suits interface.addresses body.allocatedIPs →
      FreeFor s.clients clientID body.allocatedIPs →
      Guards (KeptWith interface) (LeavesFree (n + 4) clientID body.allocatedIPs) post (n + 4) rest
        (StillFree clientID body.allocatedIPs s)) :
    Guards (KeptWith interface) (LeavesFree (n + 4) clientID body.allocatedIPs) post n
      (if !validTgUserid body.tgUserid then pure invalid.only
        else do
          match ← getServer with
          | none => pure noServer.only
          | some server =>
            let allocatedIPs ← getAllocatedIPs ignoreClientID
            match checkAddresses server allocatedIPs body extraText with
            | some answer => pure answer.only
            | none => rest : Prog Db Reply) fun _ => True := by
  split
  · exact .ret (hpost _ _ _)
  · -- the interface and the key pair of the server
    unfold getServer
    refine .bind (.bind (.read (Q := fun _ _ => True) stable_true (fun _ _ => trivial)
      fun s hs _ => ?_))
    rw [hs.1]
    refine .bind (.read (Q := fun _ _ => True) stable_true (fun _ _ => trivial) fun s hs _ => ?_)
    cases s.keypair with
    | none => exact .ret (.ret (hpost _ _ _))
    | some keyPair =>
      -- the interface and the clients for the listing
      refine .ret ?_
      unfold getAllocatedIPs
      refine .bind (.bind (.read (Q := fun _ _ => True) stable_true (fun _ _ => trivial)
        fun s hs _ => ?_))
      rw [hs.1]
      obtain ⟨serverIPs, hserverIPs⟩ : ∃ serverIPs,
          interface.addresses.mapM getIPFromCIDR = some serverIPs :=
        ⟨_, mapM_eq_some_iff.mpr ⟨fun cidr hcidr => by
          rw [getIPFromCIDR, Option.isSome_map]
          exact hserver cidr hcidr, rfl⟩⟩
      dsimp only
      rw [hserverIPs]
      refine .bind (.read (Q := StillFree clientID body.allocatedIPs) stable_true
        (fun _ _ hfree => hfree) fun s hs _ => ?_)
      refine .ret ?_
      split
      · exact .ret (hpost _ _ _)
      · next hpasses =>
        have hlisted : (clientIPs ignoreClientID s.clients.readAll).map (serverIPs ++ ·) =
            listedIPs interface.addresses ignoreClientID s.clients.readAll := by
          rw [listedIPs, hserverIPs, Option.bind_some]
        have haccepted := validateIPAllocation_of_checkAddresses hpasses
        rw [hlisted] at haccepted
        obtain ⟨hsuits, hfree⟩ := suits_of_accepted hserver hs.2 haccepted
        exact hrest s hsuits (hignore s hs hfree)

theorem guards_newClient (derive : Key → Key) (env : Env) (body : Client)
    (hpost : ∀ n a P, post n a P)
    (hserver : ∀ cidr ∈ interface.addresses, validateCIDR cidr = true) :
    Guards (KeptWith interface) (LeavesFree 4 env.guid.text body.allocatedIPs) post 0
      (newClient derive env body) fun _ => True := by
  unfold newClient
  refine guards_of_rest (n := 0) hpost hserver ?_ fun s hsuits hfree => ?_
  · intro s hs hfree name client hread _
    exact hfree name client hread (hs.2.named name client hread).2
  · refine .bind_reads (newClientKeyPair_reads derive env body)
      (fun m hm => stable_stillFree hm s) fun m keys hm hkeys => ?_
    cases keys with
    | error answer => exact .ret (hpost _ _ _)
    | ok client =>
      obtain ⟨privateKey, publicKey, -, rfl⟩ := hkeys
      dsimp only
      split
      · exact .ret (hpost _ _ _)
      · next saved hsaved =>
        obtain ⟨presharedKey, -, rfl⟩ := newClientPresharedKey_ok body hsaved rfl
        refine guards_saveClient (r := newRecord env body privateKey publicKey presharedKey) hpost
          (fun ok => ?_) hm env.guid.text_ne_nil hsuits hfree
        cases ok
        · exact ⟨_, rfl⟩
        · exact ⟨_, rfl⟩

theorem guards_updateClient (env : Env) (body : Client) (hpost : ∀ n a P, post n a P)
    (hserver : ∀ cidr ∈ interface.addresses, validateCIDR cidr = true) :
    Guards (KeptWith interface) (LeavesFree 5 body.id body.allocatedIPs) post 0
      (updateClient env body) fun _ => True := by
  unfold updateClient
  split
  · exact .ret (hpost _ _ _)
  · refine .bind (.read (Q := fun _ _ => True) stable_true (fun _ _ => trivial) fun s hs _ => ?_)
    cases hread : s.clients.read body.id with
    | none => exact .ret (hpost _ _ _)
    | some client =>
      obtain ⟨hid, hne⟩ := hs.2.named body.id client hread
      unfold updateStoredClient
      refine guards_of_rest (n := 1) hpost hserver ?_ fun s hsuits hfree => ?_
      · intro s _ hfree
        rwa [hid] at hfree
      · refine .bind_reads (updateClientKeyPair_reads client body)
          (fun m hm => stable_stillFree hm s) fun m keys hm hkeys => ?_
        cases keys with
        | error answer => exact .ret (hpost _ _ _)
        | ok kept =>
          obtain ⟨rfl, -⟩ := hkeys
          dsimp only
          split
          · exact .ret (hpost _ _ _)
          · rw [← hid] at hfree hne ⊢
            refine guards_saveClient (r := updatedRecord env.now client body) hpost (fun ok => ?_)
              hm hne hsuits hfree
            cases ok
            · exact ⟨_, rfl⟩
            · exact ⟨_, rfl⟩

theorem AllocRequest.guards (derive : Key → Key) (r : AllocRequest) (hpost : ∀ n a P, post n a P)
    (hserver : ∀ cidr ∈ interface.addresses, validateCIDR cidr = true) :
    Guards (KeptWith interface) (LeavesFree r.listed r.clientID r.cidrs) post 0 (r.prog derive)
      fun _ => True := by
  cases r with
  | newClient env body => exact guards_newClient derive env body hpost hserver
  | updateClient env body => exact guards_updateClient env body hpost hserver

end

/-- Requests that start in a store. -/
def startRequests {ι : Type} (derive : Key → Key) (db : Db) (requests : ι → AllocRequest) :
    Pool ι Db Reply :=
  ⟨db, fun i => (requests i).prog derive⟩

/-- As long as no step of another request gives away an address that a request has found free and
has not saved yet, no two clients get the same address. -/
theorem clientsApart_of_minds {ι : Type} [DecidableEq ι] {derive : Key → Key} {db : Db}
    {interface : ServerInterface} (hinterface : db.interfaces = some interface)
    (hserver : ∀ cidr ∈ interface.addresses, validateCIDR cidr = true)
    (hclients : AddressesKept interface.addresses db.clients) (requests : ι → AllocRequest)
    {schedule : List ι}
    (hminds : (startRequests derive db requests).Minds
      (fun i => LeavesFree (requests i).listed (requests i).clientID (requests i).cidrs)
      (fun _ => 0) schedule) :
    ClientsApart ((startRequests derive db requests).run schedule).state := by
  have hkept : KeptWith interface ((startRequests derive db requests).run schedule).state := by
    have hguards : ∀ i, Guards (KeptWith interface)
        (LeavesFree (requests i).listed (requests i).clientID (requests i).cidrs)
        (fun _ _ _ => True) 0 ((requests i).prog derive) fun _ => True := fun i =>
      (requests i).guards derive (fun _ _ _ => trivial) hserver
    exact Pool.run_guards (P := fun _ _ => True) (fun i _ => ⟨hguards i, trivial⟩)
      ⟨hinterface, hclients⟩ hminds
  intro name client name' client' hread hread' hne
  exact (hkept.2.free name client hread name' client' hread' (Ne.symm hne)).symm

/-- Two new clients that ask for the given addresses. -/
def twoNewClients (first second : Str) : Bool → AllocRequest
  | false => .newClient usualEnv { usualBody with allocatedIPs := [first] }
  | true => .newClient
      { usualEnv with
        guid := ⟨str "9m4e2mr0ui3e8a215n50", by decide⟩, privateKey := some alphaPublicKey }
      { usualBody with name := str "bob", allocatedIPs := [second] }

/-- Both requests read, and then both save. -/
def readsThenSaves : List Bool :=
  [false, false, false, false, true, true, true, true, false, true]

theorem clientsApart_of_minds_two :
    ClientsApart ((startRequests alphaDerive freshDb
      (twoNewClients (str "10.252.1.2/32") (str "10.252.1.3/32"))).run readsThenSaves).state :=
  clientsApart_of_minds rfl (by decide +kernel) (.empty _) _ (by decide +kernel)

/-- The store after two new clients that ask for one address. -/
def sharedAddressDb : Db :=
  ((startRequests alphaDerive freshDb
    (twoNewClients (str "10.252.1.2/32") (str "10.252.1.2/32"))).run readsThenSaves).state

/-- Two new clients can get the same address. -/
theorem not_clientsApart : ¬ ClientsApart sharedAddressDb := by
  intro h
  have hips : ∀ name ∈ [usualXid.text, str "9m4e2mr0ui3e8a215n50"],
      (sharedAddressDb.clients.read name).map (·.allocatedIPs) = some [str "10.252.1.2/32"] := by
    decide +kernel
  obtain ⟨client, hread, hclient⟩ := Option.map_eq_some_iff.mp (hips _ List.mem_cons_self)
  obtain ⟨client', hread', hclient'⟩ :=
    Option.map_eq_some_iff.mp (hips (str "9m4e2mr0ui3e8a215n50") (by decide))
  have hdisjoint := h _ client _ client' hread hread' (by decide)
  rw [hclient, hclient'] at hdisjoint
  exact hdisjoint (a := str "10.252.1.2") (by decide +kernel) (by decide +kernel)

end QrWireguard.WebUi
