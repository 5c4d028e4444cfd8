import QrWireguard.WebUi.Interfaces
import QrWireguard.WebUi.Listing

/-!
# Addresses and their owners

Whether an address has one owner, a client or the server, and lies in a network of the server. A
new client and an update compare their addresses with those of the server and of the other
clients. An update of the interface compares the addresses of the server with nothing.
-/

namespace QrWireguard.WebUi

open Prog

/-- The addresses of CIDR texts, without the lengths of their networks. -/
def hostIPs (cidrs : List Str) : List Str := cidrs.filterMap getIPFromCIDR

/-- The addresses of the server. -/
def Db.serverCIDRs (db : Db) : List Str := db.interfaces.elim [] (·.addresses)

/-- No address is held by two clients or by a client and the server, and the addresses of the
clients lie in networks of the server. -/
structure AddressesUnique (db : Db) : Prop where
  clients : ∀ name client name' client', db.clients.read name = some client →
    db.clients.read name' = some client' → name ≠ name' →
      List.Disjoint (hostIPs client.allocatedIPs) (hostIPs client'.allocatedIPs)
  server : ∀ client ∈ db.clients.readAll,
    List.Disjoint (hostIPs client.allocatedIPs) (hostIPs db.serverCIDRs)
  inside : ∀ client ∈ db.clients.readAll, ∀ cidr ∈ client.allocatedIPs, ∃ ip net,
    parseCIDR cidr = some (ip, net) ∧ InSomeNetwork db.serverCIDRs ip

/-- The entries of a client suit the server: each is a CIDR text with an address in a network of
the server that is none of the server's own. -/
def Suits (serverAddresses cidrs : List Str) : Prop :=
  ∀ cidr ∈ cidrs, ∃ ip net, parseCIDR cidr = some (ip, net) ∧
    ipString ip ∉ hostIPs serverAddresses ∧ InSomeNetwork serverAddresses ip

/-- No client but the one with the given ID has an address of the entries. -/
def FreeFor (clients : Dir Str Client) (clientID : Str) (cidrs : List Str) : Prop :=
  ∀ name client, clients.read name = some client → name ≠ clientID →
    List.Disjoint (hostIPs client.allocatedIPs) (hostIPs cidrs)

/-- Every client is stored under its own ID, its entries suit the server, and no other client has
one of its addresses. -/
structure AddressesKept (serverAddresses : List Str) (clients : Dir Str Client) : Prop where
  named : ∀ name client, clients.read name = some client → client.id = name ∧ name ≠ []
  suits : ∀ name client, clients.read name = some client →
    Suits serverAddresses client.allocatedIPs
  free : ∀ name client, clients.read name = some client →
    FreeFor clients name client.allocatedIPs

/-- What the listing of addresses is made of. -/
def listedIPs (serverAddresses : List Str) (clientID : Str) (clients : List Client) :
    Option (List Str) :=
  (serverAddresses.mapM getIPFromCIDR).bind fun serverIPs =>
    (clientIPs clientID clients).map (serverIPs ++ ·)

section
variable {serverAddresses cidrs : List Str} {clients : Dir Str Client} {clientID : Str}

theorem mem_hostIPs {ip : Str} : ip ∈ hostIPs cidrs ↔
    ∃ cidr ∈ cidrs, ∃ a net, parseCIDR cidr = some (a, net) ∧ ip = ipString a := by
  rw [hostIPs, List.mem_filterMap]
  refine exists_congr fun cidr => and_congr_right fun _ => ?_
  rw [getIPFromCIDR, Option.map_eq_some_iff]
  constructor
  · rintro ⟨⟨a, net⟩, hparse, rfl⟩
    exact ⟨a, net, hparse, rfl⟩
  · rintro ⟨a, net, hparse, rfl⟩
    exact ⟨(a, net), hparse, rfl⟩

theorem Suits.validateCIDR (h : Suits serverAddresses cidrs) :
    ∀ cidr ∈ cidrs, validateCIDR cidr = true := by
  intro cidr hcidr
  obtain ⟨ip, net, hparse, -⟩ := h cidr hcidr
  simp [WebUi.validateCIDR, hparse]

theorem Suits.disjoint (h : Suits serverAddresses cidrs) :
    List.Disjoint (hostIPs cidrs) (hostIPs serverAddresses) := by
  intro ip hip
  obtain ⟨cidr, hcidr, a, net, hparse, rfl⟩ := mem_hostIPs.mp hip
  obtain ⟨b, net', hparse', hserver, -⟩ := h cidr hcidr
  obtain ⟨rfl, rfl⟩ := Prod.mk.inj (Option.some.inj (hparse.symm.trans hparse'))
  exact hserver

namespace AddressesKept

theorem empty (serverAddresses : List Str) : AddressesKept serverAddresses .empty where
  named _ _ h := by cases h
  suits _ _ h := by cases h
  free _ _ h := by cases h

theorem delete (h : AddressesKept serverAddresses clients) (clientID : Str) :
    AddressesKept serverAddresses (clients.delete clientID) := by
  have hold : ∀ name client, (clients.delete clientID).read name = some client →
      clients.read name = some client :=
    fun _ _ hread => (Dir.read_delete_eq_some.mp hread).2
  exact ⟨fun name client hread => h.named name client (hold _ _ hread),
    fun name client hread => h.suits name client (hold _ _ hread),
    fun name client hread name' client' hread' =>
      h.free name client (hold _ _ hread) name' client' (hold _ _ hread')⟩

/-- A record may be written when its entries suit the server and no other client has an address of
them. -/
theorem write (h : AddressesKept serverAddresses clients) {r : Client} (hid : r.id ≠ [])
    (hsuits : Suits serverAddresses r.allocatedIPs) (hfree : FreeFor clients r.id r.allocatedIPs) :
    AddressesKept serverAddresses (clients.write r.id r) := by
  refine ⟨fun name client hread => ?_, fun name client hread => ?_,
    fun name client hread name' client' hread' hne => ?_⟩
  · rcases Dir.read_write_eq_some.mp hread with ⟨rfl, rfl⟩ | ⟨-, hold⟩
    · exact ⟨rfl, hid⟩
    · exact h.named name client hold
  · rcases Dir.read_write_eq_some.mp hread with ⟨-, rfl⟩ | ⟨-, hold⟩
    · exact hsuits
    · exact h.suits name client hold
  · rcases Dir.read_write_eq_some.mp hread with ⟨rfl, rfl⟩ | ⟨hname, hold⟩
    · rcases Dir.read_write_eq_some.mp hread' with ⟨rfl, -⟩ | ⟨hname', hold'⟩
      · exact absurd rfl hne
      · exact hfree name' client' hold' hname'
    · rcases Dir.read_write_eq_some.mp hread' with ⟨-, rfl⟩ | ⟨-, hold'⟩
      · exact (hfree name client hold hname).symm
      · exact h.free name client hold name' client' hold' hne

/-- A record may be replaced by one with the same ID and the same entries. -/
theorem rewrite (h : AddressesKept serverAddresses clients) {name : Str} {client r : Client}
    (hread : clients.read name = some client) (hid : r.id = client.id)
    (hips : r.allocatedIPs = client.allocatedIPs) :
    AddressesKept serverAddresses (clients.write r.id r) := by
  obtain ⟨hname, hne⟩ := h.named name client hread
  have hrid : r.id = name := hid.trans hname
  refine h.write (hrid ▸ hne) (hips ▸ h.suits name client hread) ?_
  rw [hrid, hips]
  exact h.free name client hread

end AddressesKept

/-- The listing of a store in which the addresses are kept has all of them. -/
theorem listing_of_kept
    (hserver : ∀ cidr ∈ serverAddresses, validateCIDR cidr = true)
    (h : AddressesKept serverAddresses clients) (clientID : Str) :
    ∃ ips, listedIPs serverAddresses clientID clients.readAll = some ips ∧
      (∀ ip ∈ hostIPs serverAddresses, ip ∈ ips) ∧
      ∀ name client, clients.read name = some client → name ≠ clientID →
        ∀ ip ∈ hostIPs client.allocatedIPs, ip ∈ ips := by
  have hparse : ∀ {cidr}, validateCIDR cidr = true → (getIPFromCIDR cidr).isSome = true := by
    intro cidr hvalid
    rw [getIPFromCIDR, Option.isSome_map]
    exact hvalid
  have hvalid : ∀ cidr ∈ (clients.readAll.filter (·.id ≠ clientID)).flatMap (·.allocatedIPs),
      validateCIDR cidr = true := by
    intro cidr hcidr
    obtain ⟨client, hclient, hmem⟩ := List.mem_flatMap.mp hcidr
    obtain ⟨name, hread⟩ := Dir.mem_readAll.mp (List.mem_of_mem_filter hclient)
    exact (h.suits name client hread).validateCIDR cidr hmem
  refine ⟨hostIPs serverAddresses ++
    hostIPs ((clients.readAll.filter (·.id ≠ clientID)).flatMap (·.allocatedIPs)), ?_,
    fun ip hip => List.mem_append_left _ hip, ?_⟩
  · rw [listedIPs, mapM_eq_some_iff.mpr ⟨fun cidr hcidr => hparse (hserver cidr hcidr), rfl⟩,
      Option.bind_some, clientIPs, mapM_eq_some_iff.mpr ⟨fun cidr hcidr => hparse (hvalid cidr hcidr), rfl⟩,
      Option.map_some]
    rfl
  · intro name client hread hne ip hip
    refine List.mem_append_right _ ?_
    obtain ⟨cidr, hcidr, hget⟩ := List.mem_filterMap.mp hip
    refine List.mem_filterMap.mpr ⟨cidr, List.mem_flatMap.mpr ⟨client, ?_, hcidr⟩, hget⟩
    refine List.mem_filter.mpr ⟨Dir.mem_readAll.mpr ⟨name, hread⟩, ?_⟩
    simpa [(h.named name client hread).1] using hne

/-- Entries that are accepted suit the server, and no other client has an address of them. -/
theorem suits_of_accepted (hserver : ∀ cidr ∈ serverAddresses, validateCIDR cidr = true)
    (h : AddressesKept serverAddresses clients)
    (haccepted : validateIPAllocation serverAddresses
      ((listedIPs serverAddresses clientID clients.readAll).getD []) cidrs = none) :
    Suits serverAddresses cidrs ∧ FreeFor clients clientID cidrs := by
  obtain ⟨ips, hips, hserverIPs, hclientIPs⟩ := listing_of_kept hserver h clientID
  rw [hips, Option.getD_some, validateIPAllocation_eq_none] at haccepted
  constructor
  · intro cidr hcidr
    obtain ⟨ip, net, hparse, hfree, hin⟩ := haccepted cidr hcidr
    exact ⟨ip, net, hparse, fun hheld => hfree (hserverIPs _ hheld), inServerNetwork_true hin⟩
  · intro name client hread hne ip hip hheld
    obtain ⟨cidr, hcidr, a, net, hparse, rfl⟩ := mem_hostIPs.mp hheld
    obtain ⟨b, net', hparse', hfree, -⟩ := haccepted cidr hcidr
    obtain ⟨rfl, rfl⟩ := Prod.mk.inj (Option.some.inj (hparse.symm.trans hparse'))
    exact hfree (hclientIPs name client hread hne _ hip)

end

/-! ## Runs -/

/-- A request to the client routes or an update of the interface. -/
inductive AddressRequest where
  | client (r : ClientRequest)
  | interface (env : Env) (body : ServerInterface)

/-- The handler of a request. -/
def AddressRequest.prog (derive : Key → Key) : AddressRequest → Prog Db Reply
  | client r => r.prog derive
  | interface env body => wireGuardServerInterfaces env body

/-- A request served alone. -/
def AddressStep (derive : Key → Key) (db : Db) (r : AddressRequest) (db' : Db) : Prop :=
  ((r.prog derive).run db).2 = db'

/-- The condition on a request: the entries of the stored clients suit the addresses that an update
of the interface gives the server. -/
def KeepsAddresses (db : Db) : AddressRequest → Prop
  | .client _ => True
  | .interface env body => validateServerAddresses body.addresses = true →
    env.faults.writeOk = true →
      ∀ client ∈ db.clients.readAll, Suits body.addresses client.allocatedIPs

/-- A store without clients whose server has CIDR texts for addresses. -/
def WithoutClients (db : Db) : Prop :=
  db.clients = .empty ∧ ∀ cidr ∈ db.serverCIDRs, validateCIDR cidr = true

/-- The addresses of the server are CIDR texts, and those of the clients are kept. -/
structure AddressesHeld (db : Db) : Prop where
  server : ∀ cidr ∈ db.serverCIDRs, validateCIDR cidr = true
  clients : AddressesKept db.serverCIDRs db.clients

section
variable {derive : Key → Key} {db db' : Db} {env : Env}

theorem AddressesHeld.unique (h : AddressesHeld db) : AddressesUnique db where
  clients name client name' client' hread hread' hne :=
    (h.clients.free name client hread name' client' hread' (Ne.symm hne)).symm
  server client hmem := by
    obtain ⟨name, hread⟩ := Dir.mem_readAll.mp hmem
    exact (h.clients.suits name client hread).disjoint
  inside client hmem cidr hcidr := by
    obtain ⟨name, hread⟩ := Dir.mem_readAll.mp hmem
    obtain ⟨ip, net, hparse, -, hin⟩ := h.clients.suits name client hread cidr hcidr
    exact ⟨ip, net, hparse, hin⟩

/-- The entries of a client suit the server in a store with unique addresses. -/
theorem AddressesUnique.suits (h : AddressesUnique db) :
    ∀ client ∈ db.clients.readAll, Suits db.serverCIDRs client.allocatedIPs := by
  intro client hmem cidr hcidr
  obtain ⟨ip, net, hparse, hin⟩ := h.inside client hmem cidr hcidr
  refine ⟨ip, net, hparse, fun hheld => ?_, hin⟩
  exact h.server client hmem (mem_hostIPs.mpr ⟨cidr, hcidr, ip, net, hparse, rfl⟩) hheld

/-- What the check of the addresses has found when it passes. -/
theorem AddressesHeld.suits_of_checkAddresses (h : AddressesHeld db) {clientID extraText : Str}
    {body : Client} (hcheck : ∃ server, db.server = some server ∧
      checkAddresses server (db.allocatedIPs clientID) body extraText = none) :
    Suits db.serverCIDRs body.allocatedIPs ∧ FreeFor db.clients clientID body.allocatedIPs := by
  obtain ⟨server, hserver, hpasses⟩ := hcheck
  have haccepted := validateIPAllocation_of_checkAddresses hpasses
  rw [server_eq] at hserver
  obtain ⟨interface, hinterface, hkeypair⟩ := Option.bind_eq_some_iff.mp hserver
  obtain ⟨keyPair, -, rfl⟩ := Option.map_eq_some_iff.mp hkeypair
  have hcidrs : db.serverCIDRs = interface.addresses := by
    rw [Db.serverCIDRs, hinterface, Option.elim_some]
  have hlisted : db.allocatedIPs clientID =
      listedIPs db.serverCIDRs clientID db.clients.readAll := by
    rw [allocatedIPs_eq, hinterface, hcidrs]
    rfl
  rw [hlisted, ← hcidrs] at haccepted
  exact suits_of_accepted h.server h.clients haccepted

theorem Xid.text_ne_nil (guid : Xid) : guid.text ≠ [] := by
  intro hempty
  have hvalid := guid.valid
  rw [hempty] at hvalid
  cases hvalid

theorem AddressesHeld.newClient (h : AddressesHeld db) (body : Client) :
    AddressesKept db.serverCIDRs ((newClient derive env body).run db).2.clients := by
  rcases clients_newClient derive env body db with
    hsame | ⟨hpasses, privateKey, publicKey, presharedKey, -, hwrite⟩
  · rw [hsame]
    exact h.clients
  · obtain ⟨hsuits, hfree⟩ := h.suits_of_checkAddresses hpasses.addresses
    rw [hwrite]
    refine h.clients.write (r := newRecord env body privateKey publicKey presharedKey)
      env.guid.text_ne_nil hsuits fun name client hread _ => ?_
    exact hfree name client hread (h.clients.named name client hread).2

theorem AddressesHeld.updateClient (h : AddressesHeld db) (body : Client) :
    AddressesKept db.serverCIDRs ((updateClient env body).run db).2.clients := by
  rcases clients_updateClient env body db with hsame | ⟨client, hread, hpasses, hwrite⟩
  · rw [hsame]
    exact h.clients
  · obtain ⟨hsuits, hfree⟩ := h.suits_of_checkAddresses hpasses.addresses
    obtain ⟨hid, hne⟩ := h.clients.named body.id client hread
    rw [hwrite]
    exact h.clients.write (r := updatedRecord env.now client body) (hid ▸ hne) hsuits hfree

theorem AddressesHeld.client (h : AddressesHeld db) {r : ClientRequest}
    (hstep : ClientStep derive db r db') : AddressesHeld db' := by
  have heffect := hstep.effect
  obtain rfl : ((r.prog derive).run db).2 = db' := hstep
  have hserver : ((r.prog derive).run db).2.serverCIDRs = db.serverCIDRs := by
    rw [Db.serverCIDRs, heffect.settings.interfaces, ← Db.serverCIDRs]
  refine ⟨by rw [hserver]; exact h.server, ?_⟩
  rw [hserver]
  cases r with
  | newClient env body => exact h.newClient body
  | updateClient env body => exact h.updateClient body
  | setClientStatus env body =>
    rcases heffect.clients with hsame | ⟨clientID, hdelete⟩ | ⟨record, hsaved, hwrite⟩
    · rw [hsame]
      exact h.clients
    · rw [hdelete]
      exact h.clients.delete clientID
    · rw [hwrite]
      cases hsaved with
      | setClientStatus hread => exact h.clients.rewrite hread rfl rfl
  | removeClient env clientID =>
    rcases heffect.clients with hsame | ⟨clientID, hdelete⟩ | ⟨record, hsaved, -⟩
    · rw [hsame]
      exact h.clients
    · rw [hdelete]
      exact h.clients.delete clientID
    · cases hsaved

/-- An update of the interface that suits the clients keeps the addresses. -/
theorem AddressesHeld.interface (h : AddressesHeld db) {body : ServerInterface}
    (hr : KeepsAddresses db (.interface env body))
    (hstep : AddressStep derive db (.interface env body) db') : AddressesHeld db' := by
  obtain rfl : ((wireGuardServerInterfaces env body).run db).2 = db' := hstep
  rw [run_interfaces_snd]
  split
  · next hsaved =>
    obtain ⟨hvalid, hwrite⟩ := hsaved
    refine ⟨List.all_eq_true.mp hvalid, h.clients.named, fun name client hread => ?_,
      h.clients.free⟩
    exact hr hvalid hwrite client (Dir.mem_readAll.mpr ⟨name, hread⟩)
  · exact h

theorem AddressesHeld.step (h : AddressesHeld db) {r : AddressRequest} (hr : KeepsAddresses db r)
    (hstep : AddressStep derive db r db') : AddressesHeld db' := by
  cases r with
  | client r => exact h.client hstep
  | interface env body => exact h.interface hr hstep

/-- A request after which the addresses are unique has met the condition. -/
theorem keepsAddresses_of_unique {r : AddressRequest} (hstep : AddressStep derive db r db')
    (h : AddressesUnique db') : KeepsAddresses db r := by
  cases r with
  | client r => trivial
  | interface env body =>
    intro hvalid hwrite client hmem
    obtain rfl : ((wireGuardServerInterfaces env body).run db).2 = db' := hstep
    rw [run_interfaces_snd, if_pos ⟨hvalid, hwrite⟩] at h
    exact h.suits client hmem

end

/-- In a run whose updates of the interface suit the clients the addresses stay unique, and the
first update that does not suit them ends that. -/
theorem addressesUnique_of_reach {derive : Key → Key} {db : Db}
    (h : Reach WithoutClients (AddressStep derive) KeepsAddresses db) :
    AddressesUnique db ∧ ∀ r db', AddressStep derive db r db' →
      (AddressesUnique db' ↔ KeepsAddresses db r) := by
  have hheld : AddressesHeld db := by
    refine h.invariant (I := AddressesHeld) ?_ fun _ _ _ hI hr hstep => hI.step hr hstep
    rintro db ⟨hclients, hserver⟩
    exact ⟨hserver, hclients ▸ .empty _⟩
  refine ⟨hheld.unique, fun r db' hstep => ?_⟩
  exact ⟨keepsAddresses_of_unique hstep, fun hr => (hheld.step hr hstep).unique⟩

/-- The interface with one address. -/
def interfaceWith (address : Str) : ServerInterface where
  addresses := [address]
  listenPort := 51820
  updatedAt := Time.zero
  postUp := []
  preDown := []
  postDown := []

/-- The store of one client after an update of the interface. -/
def annMovedDb (address : Str) : Db :=
  ((wireGuardServerInterfaces usualEnv (interfaceWith address)).run annDb).2

theorem addressesUnique_of_reach_ann :
    AddressesUnique (annMovedDb (str "10.252.1.1/24")) ∧
      ∀ r db', AddressStep alphaDerive (annMovedDb (str "10.252.1.1/24")) r db' →
        (AddressesUnique db' ↔ KeepsAddresses (annMovedDb (str "10.252.1.1/24")) r) := by
  have hstart : WithoutClients freshDb := ⟨rfl, by decide +kernel⟩
  have hclients : annDb.clients.readAll = [annRecord] := by decide +kernel
  have hparse : parseCIDR (str "10.252.1.2/32") =
      some (0xFFFF0AFC0102, .v4 0x0AFC0102 0xFFFFFFFF) := by decide +kernel
  have hserver : parseCIDR (str "10.252.1.1/24") =
      some (0xFFFF0AFC0101, .v4 0x0AFC0100 0xFFFFFF00) := by decide +kernel
  have hkeeps : KeepsAddresses annDb
      (.interface usualEnv (interfaceWith (str "10.252.1.1/24"))) := by
    intro _ _ client hmem cidr hcidr
    rw [hclients, List.mem_singleton] at hmem
    rw [hmem] at hcidr
    obtain rfl : cidr = str "10.252.1.2/32" := List.mem_singleton.mp hcidr
    exact ⟨_, _, hparse, by decide +kernel, _, List.mem_singleton.mpr rfl, _, _, hserver,
      by decide +kernel⟩
  exact addressesUnique_of_reach
    (.step (i := .interface usualEnv (interfaceWith (str "10.252.1.1/24")))
    (.step (i := .client (.newClient usualEnv usualBody)) (.init hstart) trivial rfl) hkeeps rfl)

/-- An update of the interface can give the server the address of a client. -/
theorem not_addressesUnique : ∃ db : Db,
    Reach WithoutClients (AddressStep alphaDerive) (fun _ _ => True) db ∧ ¬ AddressesUnique db := by
  refine ⟨annMovedDb (str "10.252.1.2/24"), ?_, fun h => ?_⟩
  · exact .step (i := .interface usualEnv (interfaceWith (str "10.252.1.2/24")))
      (.step (i := .client (.newClient usualEnv usualBody)) (.init ⟨rfl, by decide +kernel⟩)
        trivial rfl) trivial rfl
  · have hclient : annRecord ∈ (annMovedDb (str "10.252.1.2/24")).clients.readAll := by
      decide +kernel
    exact h.server annRecord hclient (a := str "10.252.1.2") (by decide +kernel) (by decide +kernel)

end QrWireguard.WebUi
