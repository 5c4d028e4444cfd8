import QrWireguard.WebUi.Listing
import QrWireguard.WebUi.Server
import QrWireguard.WebUi.SubnetRanges

/-!
# Suggested addresses

`SuggestIPAllocation` looks for free addresses in the networks of a subnet range or, without one,
in those of the server. The ranges are checked against the networks of the server when the process
starts, and the networks can be edited afterwards.
-/

namespace QrWireguard.WebUi

open Prog

/-- An order in which Go goes through the keys of a map. -/
structure MapOrder where
  keys : List Str → List Str
  perm : ∀ l, (keys l).Perm l

/-- A suggested address as a CIDR text. -/
def suggestion (ip : Str) : Str := if ':' ∈ ip then ip ++ str "/128" else ip ++ str "/32"

/-- The loop of `SuggestIPAllocation`: whether an address has been found, and the set of the
suggestions. It has no result when the fuel of a search runs out. -/
def suggestLoop (fuel : Nat) (allocatedIPs interfaceAddresses : List Str) :
    List Str → Bool × List Str → Option (Bool × List Str)
  | [], acc => some acc
  | cidr :: rest, acc =>
    match getAvailableIP fuel cidr allocatedIPs interfaceAddresses with
    | none => none
    | some (.error _) => suggestLoop fuel allocatedIPs interfaceAddresses rest acc
    | some (.ok ip) =>
      suggestLoop fuel allocatedIPs interfaceAddresses rest
        (true, if suggestion ip ∈ acc.2 then acc.2 else acc.2 ++ [suggestion ip])

/-- The networks that a suggestion is searched in. -/
def searchCIDRList (tables : SubnetTables) (server : Server) (sr : Str) : List Str :=
  match tables.ranges sr with
  | some cidrs => cidrs.map IPNet.toText
  | none => server.interface.addresses

/-- `SuggestIPAllocation` for the query parameter `sr`: an answer that reports a failure or the
suggestions. -/
def suggestIPAllocation (fuel : Nat) (order : MapOrder) (tables : SubnetTables) (sr : Str) :
    Prog Db (Option (Except Answer (List Str))) := do
  match ← getServer with
  | none => pure (some (.error (.error 400)))
  | some server =>
    match ← getAllocatedIPs [] with
    | none =>
      pure (some (.error (.json 500 false
        (str "Cannot suggest ip allocation: failed to get list of allocated ip addresses"))))
    | some allocatedIPs =>
      pure ((suggestLoop fuel allocatedIPs server.interface.addresses
        (searchCIDRList tables server sr) (false, [])).map fun r =>
          if r.1 then .ok (order.keys r.2)
          else .error (.json 500 false (str "Cannot suggest ip allocation: failed to get available " ++
            str "ip. Try a different subnet or deallocate some ips.")))

/-! ## One call -/

theorem natDigits_lengths : natDigits 32 = str "32" ∧ natDigits 128 = str "128" := by
  decide +kernel

/-- A suggestion is the text of its address with a mask over all of it. -/
theorem parseCIDR_suggestion (a : IP) :
    ∃ net, parseCIDR (suggestion (ipString a)) = some (a, net) := by
  obtain ⟨h32, h128⟩ := natDigits_lengths
  cases h : to4 a with
  | some v4 =>
    have hslash := parseCIDR_slash a 32
    have hno := (separator_ipString_v4 (Option.isSome_iff_exists.mpr ⟨v4, h⟩)).2
    rw [h32, h] at hslash
    rw [suggestion, if_neg hno]
    exact ⟨_, hslash⟩
  | none =>
    have hslash := parseCIDR_slash a 128
    rw [h128, h] at hslash
    rw [suggestion, if_pos (separator_ipString_v6 h).1]
    exact ⟨_, hslash⟩

section
variable {fuel : Nat} {allocatedIPs interfaceAddresses cidrs : List Str}
  {acc result : Bool × List Str} {P : IP → Prop}

/-- What holds of every usable address in the networks holds of the suggestions. -/
theorem suggestLoop_spec
    (h : suggestLoop fuel allocatedIPs interfaceAddresses cidrs acc = some result)
    (hcidrs : ∀ cidr ∈ cidrs, ∀ ip net a, parseCIDR cidr = some (ip, net) →
      contains net a = true → Usable allocatedIPs interfaceAddresses a → P a)
    (hacc : ∀ key ∈ acc.2, ∃ a, key = suggestion (ipString a) ∧ P a) (hnodup : acc.2.Nodup) :
    (∀ key ∈ result.2, ∃ a, key = suggestion (ipString a) ∧ P a) ∧ result.2.Nodup := by
  induction cidrs generalizing acc with
  | nil =>
    obtain rfl := Option.some.inj h
    exact ⟨hacc, hnodup⟩
  | cons cidr cidrs ih =>
    have hrest := fun c hc => hcidrs c (List.mem_cons_of_mem _ hc)
    unfold suggestLoop at h
    split at h
    · cases h
    · exact ih h hrest hacc hnodup
    · next ip hip =>
      obtain ⟨_, net, a, hparse, rfl, hcontains, husable⟩ := getAvailableIP_ok hip
      have ha : P a := hcidrs cidr List.mem_cons_self _ net a hparse hcontains husable
      refine ih h hrest ?_ ?_
      · intro key hkey
        dsimp only at hkey
        split at hkey
        · exact hacc key hkey
        · rcases List.mem_append.mp hkey with hold | hnew
          · exact hacc key hold
          · exact ⟨a, List.mem_singleton.mp hnew, ha⟩
      · dsimp only
        split
        · exact hnodup
        · next hnew =>
          refine List.nodup_append.mpr ⟨hnodup, List.nodup_singleton _, fun x hx y hy => ?_⟩
          rw [List.mem_singleton.mp hy]
          exact fun heq => hnew (heq ▸ hx)

end

/-- The listing succeeds only with addresses of the server that can be parsed. -/
theorem validateCIDR_of_allocatedIPs {db : Db} {ignoreClientID : Str} {ips : List Str}
    {interface : ServerInterface} (h : db.allocatedIPs ignoreClientID = some ips)
    (hinterface : db.interfaces = some interface) :
    ∀ addr ∈ interface.addresses, validateCIDR addr = true := by
  rw [allocatedIPs_eq, hinterface, Option.bind_some] at h
  obtain ⟨serverIPs, hserver, -⟩ := Option.bind_eq_some_iff.mp h
  intro addr haddr
  have hip := (mapM_eq_some_iff.mp hserver).1 addr haddr
  rwa [getIPFromCIDR, Option.isSome_map] at hip

/-- The addresses of the ranges are addresses of the networks of the server. -/
def Covered (tables : SubnetTables) (addresses : List Str) : Prop :=
  ∀ name cidrs, tables.ranges name = some cidrs → ∀ net ∈ cidrs, ∀ a,
    contains net a = true → InSomeNetwork addresses a

/-- The networks of the ranges have been read from texts without colons. -/
def RangesV4 (tables : SubnetTables) : Prop :=
  ∀ name cidrs, tables.ranges name = some cidrs → ∀ net ∈ cidrs, IsPrefix net ∧ net.IsV4

/-- What is suggested passes the check of requested addresses in the same store, and no address is
suggested twice. -/
def SuggestsAcceptable (db : Db) (tables : SubnetTables) : Prop :=
  ∀ fuel order sr ips, ((suggestIPAllocation fuel order tables sr).run db).1 = some (.ok ips) →
    (∃ server allocated, db.server = some server ∧ db.allocatedIPs [] = some allocated ∧
      ∀ ip ∈ ips, validateIPAllocation server.interface.addresses allocated [ip] = none) ∧
    ips.Pairwise fun ip ip' => (parseCIDR ip).map (·.1) ≠ (parseCIDR ip').map (·.1)

theorem suggestsAcceptable_of_covered {db : Db} {tables : SubnetTables} (hv4 : RangesV4 tables)
    (hcovered : ∀ interface, db.interfaces = some interface →
      (∀ addr ∈ interface.addresses, validateCIDR addr = true) →
        Covered tables interface.addresses) :
    SuggestsAcceptable db tables := by
  intro fuel order sr ips h
  unfold suggestIPAllocation at h
  rw [run_bind, run_getServer] at h
  cases hserver : db.server with
  | none =>
    rw [hserver] at h
    cases h
  | some server =>
    rw [hserver] at h
    dsimp only at h
    rw [run_bind, run_getAllocatedIPs] at h
    cases hallocated : db.allocatedIPs [] with
    | none =>
      rw [hallocated] at h
      cases h
    | some allocated =>
      rw [hallocated] at h
      obtain ⟨result, hloop, hresult⟩ := Option.map_eq_some_iff.mp h
      have hips : ips = order.keys result.2 := by
        split at hresult
        · exact (Except.ok.inj hresult).symm
        · cases hresult
      have hinterface := interfaces_of_server hserver
      have hvalid := validateCIDR_of_allocatedIPs hallocated hinterface
      have husable : ∀ cidr ∈ searchCIDRList tables server sr, ∀ ip net a,
          parseCIDR cidr = some (ip, net) → contains net a = true →
          Usable allocated server.interface.addresses a →
            ipString a ∉ allocated ∧ InSomeNetwork server.interface.addresses a := by
        intro cidr hcidr ip net a hparse hcontains husable
        refine ⟨husable.1, ?_⟩
        unfold searchCIDRList at hcidr
        split at hcidr
        · next cidrs hcidrs =>
          obtain ⟨range, hrange, rfl⟩ := List.mem_map.mp hcidr
          obtain ⟨hmasked, hform⟩ := hv4 sr cidrs hcidrs range hrange
          rw [parseCIDR_toText hmasked] at hparse
          obtain ⟨-, rfl⟩ := Prod.mk.inj (Option.some.inj hparse)
          cases range with
          | v6 => exact hform.elim
          | v4 => exact hcovered _ hinterface hvalid sr cidrs hcidrs _ hrange a hcontains
        · exact ⟨cidr, hcidr, ip, net, hparse, hcontains⟩
      obtain ⟨hgood, hnodup⟩ := suggestLoop_spec hloop husable
        (fun _ hmem => absurd hmem List.not_mem_nil) List.nodup_nil
      have hmem : ∀ ip ∈ ips, ip ∈ result.2 := fun ip hip => by
        rw [hips] at hip
        exact (order.perm _).mem_iff.mp hip
      refine ⟨⟨server, allocated, rfl, rfl, fun ip hip => ?_⟩, ?_⟩
      · obtain ⟨a, rfl, hfree, hin⟩ := hgood ip (hmem ip hip)
        obtain ⟨net, hparse⟩ := parseCIDR_suggestion a
        rw [validateIPAllocation_eq_none, List.forall_mem_singleton]
        exact ⟨a, net, hparse, hfree, (inServerNetwork_eq_true_iff hvalid).mpr hin⟩
      · have hdistinct : ips.Nodup := by
          rw [hips]
          exact (order.perm _).nodup_iff.mpr hnodup
        refine hdistinct.imp_of_mem fun hip hip' hne heq => hne ?_
        obtain ⟨a, rfl, -⟩ := hgood _ (hmem _ hip)
        obtain ⟨a', rfl, -⟩ := hgood _ (hmem _ hip')
        obtain ⟨net, hparse⟩ := parseCIDR_suggestion a
        obtain ⟨net', hparse'⟩ := parseCIDR_suggestion a'
        rw [hparse, hparse'] at heq
        rw [show a = a' from Option.some.inj heq]

/-! ## Runs -/

/-- The store and the tables of the subnet ranges. -/
structure UiState where
  db : Db
  tables : SubnetTables

/-- The requests that update clients and the interface of the server. -/
inductive UpdateRequest where
  | client (r : ClientRequest)
  | interface (env : Env) (body : ServerInterface)

/-- The handler of a request. -/
def UpdateRequest.prog (derive : Key → Key) : UpdateRequest → Prog Db Reply
  | client r => r.prog derive
  | interface env body => wireGuardServerInterfaces env body

/-- A request served alone. No request changes the tables. -/
def UpdateStep (derive : Key → Key) (st : UiState) (r : UpdateRequest) (st' : UiState) : Prop :=
  st' = { st with db := ((r.prog derive).run st.db).2 }

/-- The states after a start. -/
def StartedUp (st : UiState) : Prop :=
  ∃ subnetRangesStr,
    validateAndFixSubnetRanges st.db (parseSubnetRanges [] subnetRangesStr) = some st.tables

/-- The condition on a request: new addresses of the server that are accepted have all addresses
of the ranges in their networks. -/
def KeepsRanges (st : UiState) : UpdateRequest → Prop
  | .client _ => True
  | .interface _ body =>
    validateServerAddresses body.addresses = true → Covered st.tables body.addresses

/-- What a start establishes and the requests keep. -/
def RangesKept (st : UiState) : Prop :=
  RangesV4 st.tables ∧ ∀ interface, st.db.interfaces = some interface →
    (∀ addr ∈ interface.addresses, validateCIDR addr = true) →
      Covered st.tables interface.addresses

theorem covered_fixedTables (s : Str) (addresses : List Str) :
    Covered (fixedTables s (serverNets addresses)) addresses := by
  intro name cidrs hcidrs net hnet a ha
  obtain ⟨e, he, -, rfl, -⟩ := exists_of_fixedTables hcidrs
  obtain ⟨hmem, hvalid⟩ := List.mem_filter.mp hnet
  obtain ⟨hmasked, hv4⟩ := isV4_of_newEntries he hmem
  obtain ⟨outer, houter, -, hwithin⟩ := (validRange_iff isPrefix_serverNets hmasked hv4).mp hvalid
  obtain ⟨addr, haddr, hparse⟩ := List.mem_filterMap.mp houter
  obtain ⟨⟨ip, net'⟩, hr, rfl⟩ := Option.map_eq_some_iff.mp hparse
  exact ⟨addr, haddr, ip, net', hr, hwithin a ha⟩

theorem rangesV4_of_startedUp {st : UiState} (h : StartedUp st) : RangesV4 st.tables := by
  obtain ⟨s, h⟩ := h
  have hnew : ∀ name, ∀ net ∈ lastGroup name (newEntries s), IsPrefix net ∧ net.IsV4 := by
    intro name net hnet
    obtain ⟨e, he, -, hvs⟩ := exists_of_lastGroup (List.ne_nil_of_mem hnet)
    exact isV4_of_newEntries he (hvs ▸ hnet)
  intro name cidrs hcidrs net hnet
  rw [parseSubnetRanges_eq, validateAndFixSubnetRanges] at h
  dsimp only at h
  split at h
  · rw [← Option.some.inj h] at hcidrs
    obtain ⟨rfl, -⟩ := groupOf_eq_some hcidrs
    exact hnew name net hnet
  · obtain ⟨server, -, hserver⟩ := Option.bind_eq_some_iff.mp h
    obtain ⟨nets, -, htables⟩ := Option.map_eq_some_iff.mp hserver
    rw [← htables] at hcidrs
    dsimp only at hcidrs
    rw [foldl_fixRange] at hcidrs
    obtain ⟨rfl, -⟩ := groupOf_eq_some hcidrs
    split at hnet
    · exact hnew name net (List.mem_of_mem_filter hnet)
    · exact hnew name net hnet

theorem rangesKept_of_startedUp {st : UiState} (h : StartedUp st) : RangesKept st := by
  refine ⟨rangesV4_of_startedUp h, fun interface hinterface hvalid => ?_⟩
  obtain ⟨s, h⟩ := h
  cases hserver : st.db.server with
  | some server =>
    obtain rfl : server.interface = interface :=
      Option.some.inj ((interfaces_of_server hserver).symm.trans hinterface)
    rw [validateAndFixSubnetRanges_eq hserver hvalid, Option.some.injEq] at h
    rw [← h]
    exact covered_fixedTables s _
  | none =>
    -- a start without a server has no ranges
    rw [parseSubnetRanges_eq, validateAndFixSubnetRanges, hserver] at h
    dsimp only at h
    split at h
    · next hempty =>
      rw [← Option.some.inj h]
      intro name cidrs hcidrs
      obtain ⟨-, hne⟩ := groupOf_eq_some hcidrs
      have hname := mem_bringers_of_lastGroup hne
      rw [List.isEmpty_iff.mp hempty] at hname
      exact absurd hname List.not_mem_nil
    · cases h

/-- An update of the interface stores the new addresses after their check, or changes nothing. -/
theorem interfaces_wireGuardServerInterfaces (env : Env) (body : ServerInterface) (db : Db) :
    ((wireGuardServerInterfaces env body).run db).2.interfaces = db.interfaces ∨
      validateServerAddresses body.addresses = true ∧
        ((wireGuardServerInterfaces env body).run db).2.interfaces =
          some { body with updatedAt := env.now } := by
  unfold wireGuardServerInterfaces
  split
  · exact .inl rfl
  · next haddresses =>
    have hkept : ∀ k : Bool → Prog Db Reply, (∀ ok, (k ok).Reads fun _ => True) →
        ((Prog.modifyGet (Db.saveServerInterface env.faults { body with updatedAt := env.now }) >>=
          k).run db).2 = (db.saveServerInterface env.faults { body with updatedAt := env.now }).2 := by
      intro k hk
      rw [run_bind, run_modifyGet]
      exact (hk _).run_snd _
    rw [hkept _ fun ok => ?_]
    · unfold Db.saveServerInterface
      split
      · exact .inr ⟨by simpa using haddresses, rfl⟩
      · exact .inl rfl
    · split
      · dsimp only
        split <;> exact .ret trivial
      · exact .ret trivial

theorem RangesKept.step {derive : Key → Key} {st st' : UiState} {r : UpdateRequest}
    (h : RangesKept st) (hr : KeepsRanges st r) (hstep : UpdateStep derive st r st') :
    RangesKept st' := by
  obtain rfl := hstep
  refine ⟨h.1, fun interface hinterface hvalid => ?_⟩
  cases r with
  | client r =>
    have heffect : ClientStep derive st.db r ((r.prog derive).run st.db).2 := rfl
    exact h.2 interface (heffect.effect.settings.interfaces.symm.trans hinterface) hvalid
  | interface env body =>
    rcases interfaces_wireGuardServerInterfaces env body st.db with hsame | ⟨haccepted, hnew⟩
    · exact h.2 interface (hsame.symm.trans hinterface) hvalid
    · obtain rfl := Option.some.inj (hnew.symm.trans hinterface)
      exact hr haccepted

/-- As long as the networks of the server keep the ranges, what is suggested is acceptable. -/
theorem suggestions_acceptable {derive : Key → Key} {st : UiState}
    (h : Reach StartedUp (UpdateStep derive) KeepsRanges st) :
    SuggestsAcceptable st.db st.tables := by
  have hkept : RangesKept st :=
    h.invariant (fun _ => rangesKept_of_startedUp) fun _ _ _ hI hr hstep => hI.step hr hstep
  exact suggestsAcceptable_of_covered hkept.1 hkept.2

/-- A process that has started with a range in the network of the server. -/
def rangeState : UiState :=
  ⟨freshDb, fixedTables (str "LAN:10.252.1.0/25") (serverNets [str "10.252.1.0/24"])⟩

/-- That process after the addresses of the server have been edited. -/
def rangeState.edited (addresses : List Str) : UiState :=
  { rangeState with db := ((UpdateRequest.prog alphaDerive (.interface usualEnv
      ⟨addresses, 51820, usualTime, [], [], []⟩)).run rangeState.db).2 }

theorem startedUp_rangeState : StartedUp rangeState := by
  have hserver : freshDb.server = some freshServer := rfl
  exact ⟨str "LAN:10.252.1.0/25", validateAndFixSubnetRanges_eq hserver (by decide +kernel) _⟩

theorem suggestions_acceptable_edited :
    SuggestsAcceptable (rangeState.edited [str "10.252.1.7/24"]).db
      (rangeState.edited [str "10.252.1.7/24"]).tables := by
  have hsame : serverNets [str "10.252.1.0/24"] = serverNets [str "10.252.1.7/24"] := by
    decide +kernel
  have hkeeps : KeepsRanges rangeState
      (.interface usualEnv ⟨[str "10.252.1.7/24"], 51820, usualTime, [], [], []⟩) := by
    intro _
    change Covered (fixedTables _ _) [str "10.252.1.7/24"]
    rw [hsame]
    exact covered_fixedTables _ _
  exact suggestions_acceptable (.step (.init startedUp_rangeState) hkeeps rfl)

/-- A range outside of the edited networks is still searched, and what is found is refused. -/
theorem not_suggestions_acceptable : ∃ st : UiState,
    Reach StartedUp (UpdateStep alphaDerive) (fun _ _ => True) st ∧
      ¬ SuggestsAcceptable st.db st.tables := by
  refine ⟨rangeState.edited [str "10.253.0.1/24"],
    .step (.init startedUp_rangeState) trivial rfl, fun h => ?_⟩
  have hsuggested : ((suggestIPAllocation 2 ⟨id, fun _ => .refl _⟩
      (rangeState.edited [str "10.253.0.1/24"]).tables (str "LAN")).run
        (rangeState.edited [str "10.253.0.1/24"]).db).1 = some (.ok [str "10.252.1.0/32"]) := by
    decide +kernel
  obtain ⟨⟨server, allocated, hserver, -, haccepted⟩, -⟩ := h _ _ _ _ hsuggested
  have haddresses : server.interface.addresses = [str "10.253.0.1/24"] := by
    have hinterface := interfaces_of_server hserver
    exact (congrArg ServerInterface.addresses (Option.some.inj hinterface)).symm
  have hvalid : ∀ addr ∈ [str "10.253.0.1/24"], validateCIDR addr = true := by decide +kernel
  have hnone := haccepted _ List.mem_cons_self
  rw [haddresses, validateIPAllocation_eq_none, List.forall_mem_singleton] at hnone
  obtain ⟨ip, net, hparse, -, hin⟩ := hnone
  have hip : parseCIDR (str "10.252.1.0/32") =
      some (0xFFFF0AFC0100, .v4 0x0AFC0100 0xFFFFFFFF) := by decide +kernel
  have hout : inServerNetwork 0xFFFF0AFC0100 [str "10.253.0.1/24"] = some false := by
    decide +kernel
  obtain ⟨rfl, -⟩ := Prod.mk.inj (Option.some.inj (hparse.symm.trans hip))
  rw [hout] at hin
  cases hin

end QrWireguard.WebUi
