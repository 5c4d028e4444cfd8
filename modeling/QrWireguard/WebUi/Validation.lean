import QrWireguard.WebUi.Allocation
import QrWireguard.WebUi.Edits

/-!
# The check of requested addresses

`ValidateIPAllocation` accepts a list of addresses when each one is free and lies in a network of
the server. It does not ask whether an address is one that the search for addresses leaves out.
-/

namespace QrWireguard.WebUi

open Prog

/-- Whether an address lies in a network of the server. -/
def InSomeNetwork (serverAddresses : List Str) (a : IP) : Prop :=
  ∃ serverCIDR ∈ serverAddresses, ∃ ip net, parseCIDR serverCIDR = some (ip, net) ∧
    contains net a = true

/-- Whether the search for the network of an address ends at an address of the server, which is no
CIDR text or has that network. -/
def endsSearch (ip : IP) (serverCIDR : Str) : Bool :=
  match parseCIDR serverCIDR with
  | none => true
  | some (_, serverNet) => contains serverNet ip

/-- Whether the address of an entry is free, and the search for its network ends at an address of
the server of this kind. -/
def entryFinds (kind : Str → Bool) (serverAddresses ipAllocatedList : List Str) (cidr : Str) :
    Bool :=
  (parseCIDR cidr).any fun r => decide (ipString r.1 ∉ ipAllocatedList) &&
    (serverAddresses.find? (endsSearch r.1)).any kind

/-- Whether the check goes on behind an entry. -/
def entryPasses : List Str → List Str → Str → Bool := entryFinds validateCIDR

/-- Whether the check dereferences nil at an entry. -/
def entryPanics : List Str → List Str → Str → Bool :=
  entryFinds fun serverCIDR => !validateCIDR serverCIDR

section
variable {serverAddresses ipAllocatedList cidrs : List Str} {ip : IP}

theorem inServerNetwork_eq_find? (ip : IP) (serverAddresses : List Str) :
    inServerNetwork ip serverAddresses =
      match serverAddresses.find? (endsSearch ip) with
      | none => some false
      | some serverCIDR => if validateCIDR serverCIDR then some true else none := by
  induction serverAddresses with
  | nil => rfl
  | cons serverCIDR rest ih =>
    rw [inServerNetwork, List.find?_cons, endsSearch]
    cases hparse : parseCIDR serverCIDR with
    | none => simp [validateCIDR, hparse]
    | some r =>
      dsimp only
      cases hcontains : contains r.2 ip with
      | true => simp [validateCIDR, hparse]
      | false => simpa using ih

theorem inServerNetwork_true (h : inServerNetwork ip serverAddresses = some true) :
    InSomeNetwork serverAddresses ip := by
  rw [inServerNetwork_eq_find?] at h
  cases hfind : serverAddresses.find? (endsSearch ip) with
  | none =>
    rw [hfind] at h
    cases h
  | some serverCIDR =>
    rw [hfind] at h
    dsimp only at h
    split at h
    · next hvalid =>
      obtain ⟨⟨_, serverNet⟩, hparse⟩ := Option.isSome_iff_exists.mp hvalid
      have hends := List.find?_some hfind
      rw [endsSearch, hparse] at hends
      exact ⟨serverCIDR, List.mem_of_find?_eq_some hfind, _, serverNet, hparse, hends⟩
    · cases h

/-- With addresses of the server that can be parsed, the search for a network does not panic. -/
theorem inServerNetwork_eq
    (hvalid : ∀ serverCIDR ∈ serverAddresses, validateCIDR serverCIDR = true) (ip : IP) :
    inServerNetwork ip serverAddresses = some true ∨
      inServerNetwork ip serverAddresses = some false ∧ ¬ InSomeNetwork serverAddresses ip := by
  rw [inServerNetwork_eq_find?]
  cases hfind : serverAddresses.find? (endsSearch ip) with
  | some serverCIDR => exact .inl (if_pos (hvalid serverCIDR (List.mem_of_find?_eq_some hfind)))
  | none =>
    refine .inr ⟨rfl, ?_⟩
    rintro ⟨serverCIDR, hmem, _, serverNet, hparse, hcontains⟩
    have hends := List.find?_eq_none.mp hfind serverCIDR hmem
    rw [endsSearch, hparse] at hends
    exact hends hcontains

theorem inServerNetwork_eq_true_iff
    (hvalid : ∀ serverCIDR ∈ serverAddresses, validateCIDR serverCIDR = true) :
    inServerNetwork ip serverAddresses = some true ↔ InSomeNetwork serverAddresses ip := by
  refine ⟨inServerNetwork_true, fun h => ?_⟩
  rcases inServerNetwork_eq hvalid ip with htrue | ⟨-, hnone⟩
  · exact htrue
  · exact absurd h hnone

/-- A list is accepted when every entry is. -/
theorem validateIPAllocation_eq_none :
    validateIPAllocation serverAddresses ipAllocatedList cidrs = none ↔
      ∀ cidr ∈ cidrs, ∃ ip net, parseCIDR cidr = some (ip, net) ∧
        ipString ip ∉ ipAllocatedList ∧ inServerNetwork ip serverAddresses = some true := by
  induction cidrs with
  | nil => exact ⟨fun _ _ hmem => absurd hmem List.not_mem_nil, fun _ => rfl⟩
  | cons cidr rest ih =>
    rw [List.forall_mem_cons, ← ih, validateIPAllocation]
    cases hparse : parseCIDR cidr with
    | none => simp
    | some r =>
      obtain ⟨ip, net⟩ := r
      dsimp only
      by_cases hfree : ipString ip ∈ ipAllocatedList
      · simp [hfree]
      · rw [if_neg hfree]
        cases hin : inServerNetwork ip serverAddresses with
        | none => simp [hin]
        | some found => cases found <;> simp [hin, hfree]

/-- The check panics when the first entry that it does not go on behind is one where it
dereferences nil. -/
theorem validateIPAllocation_eq_panic :
    validateIPAllocation serverAddresses ipAllocatedList cidrs = some .panic ↔
      ∃ cidr, cidrs.find? (fun cidr => !entryPasses serverAddresses ipAllocatedList cidr) =
          some cidr ∧ entryPanics serverAddresses ipAllocatedList cidr = true := by
  induction cidrs with
  | nil => simp [validateIPAllocation]
  | cons cidr rest ih =>
    rw [validateIPAllocation, List.find?_cons]
    cases hparse : parseCIDR cidr with
    | none => simp [entryPasses, entryPanics, entryFinds, hparse]
    | some r =>
      obtain ⟨ip, net⟩ := r
      dsimp only
      by_cases hfree : ipString ip ∈ ipAllocatedList
      · simp [entryPasses, entryPanics, entryFinds, hparse, hfree]
      · rw [if_neg hfree, inServerNetwork_eq_find?]
        cases hfind : serverAddresses.find? (endsSearch ip) with
        | none => simp [entryPasses, entryPanics, entryFinds, hparse, hfree, hfind]
        | some serverCIDR =>
          cases hvalid : validateCIDR serverCIDR with
          | true => simpa [entryPasses, entryFinds, hparse, hfree, hfind, hvalid] using ih
          | false => simp [entryPasses, entryPanics, entryFinds, hparse, hfree, hfind, hvalid]

theorem validateIPAllocation_ne_panic
    (hvalid : ∀ serverCIDR ∈ serverAddresses, validateCIDR serverCIDR = true) :
    validateIPAllocation serverAddresses ipAllocatedList cidrs ≠ some .panic := by
  rw [ne_eq, validateIPAllocation_eq_panic]
  rintro ⟨cidr, -, hpanics⟩
  obtain ⟨r, -, hfinds⟩ := (Option.any_eq_true _ _).mp hpanics
  obtain ⟨serverCIDR, hfind, hinvalid⟩ :=
    (Option.any_eq_true _ _).mp ((Bool.and_eq_true _ _).mp hfinds).2
  rw [hvalid serverCIDR (List.mem_of_find?_eq_some hfind)] at hinvalid
  cases hinvalid

end

/-! ## Reserved addresses -/

section
variable {serverAddresses : List Str}

/-- A list that is accepted has no reserved addresses. -/
def RefusesReserved (serverAddresses ipAllocatedList cidrs : List Str) : Prop :=
  validateIPAllocation serverAddresses ipAllocatedList cidrs = none →
    ∀ cidr ∈ cidrs, ∀ ip net, parseCIDR cidr = some (ip, net) → ¬ Reserved serverAddresses ip

/-- Whether an entry of a request is refused: it is no CIDR text, or its address is taken or lies
outside of the networks of the server. -/
def EntryRefused (serverAddresses ipAllocatedList : List Str) (cidr : Str) : Prop :=
  ∀ ip net, parseCIDR cidr = some (ip, net) →
    ipString ip ∈ ipAllocatedList ∨ ¬ InSomeNetwork serverAddresses ip

theorem validateIPAllocation_eq_none_iff_entries
    (hvalid : ∀ serverCIDR ∈ serverAddresses, validateCIDR serverCIDR = true)
    (ipAllocatedList cidrs : List Str) :
    validateIPAllocation serverAddresses ipAllocatedList cidrs = none ↔
      ∀ cidr ∈ cidrs, ¬ EntryRefused serverAddresses ipAllocatedList cidr := by
  rw [validateIPAllocation_eq_none]
  refine forall₂_congr fun cidr _ => ?_
  simp only [EntryRefused, inServerNetwork_eq_true_iff hvalid, not_forall, not_or, not_not,
    exists_prop]

/-- A reserved address is refused only when something else is wrong with the request. -/
theorem refusesReserved_iff
    (hvalid : ∀ serverCIDR ∈ serverAddresses, validateCIDR serverCIDR = true)
    (ipAllocatedList cidrs : List Str) :
    RefusesReserved serverAddresses ipAllocatedList cidrs ↔
      (∃ cidr ∈ cidrs, EntryRefused serverAddresses ipAllocatedList cidr) ∨
        ∀ cidr ∈ cidrs, ∀ ip net, parseCIDR cidr = some (ip, net) →
          ¬ Reserved serverAddresses ip := by
  rw [RefusesReserved, validateIPAllocation_eq_none_iff_entries hvalid, imp_iff_not_or]
  refine or_congr_left ?_
  simp only [not_forall, not_not, exists_prop]

theorem refusesReserved_iff_mixed :
    RefusesReserved [str "10.252.1.1/24", str "fd00::1/64"] [str "10.252.1.1", str "fd00::1"]
        [str "10.252.1.255/32"] ↔
      (∃ cidr ∈ [str "10.252.1.255/32"],
        EntryRefused [str "10.252.1.1/24", str "fd00::1/64"]
          [str "10.252.1.1", str "fd00::1"] cidr) ∨
        ∀ cidr ∈ [str "10.252.1.255/32"], ∀ ip net, parseCIDR cidr = some (ip, net) →
          ¬ Reserved [str "10.252.1.1/24", str "fd00::1/64"] ip :=
  refusesReserved_iff (by decide +kernel) _ _

/-- The network address of a server network is accepted. -/
theorem not_refusesReserved :
    ¬ RefusesReserved [str "10.252.1.1/24"] [str "10.252.1.1"] [str "10.252.1.0/32"] := by
  intro h
  have haccepted : validateIPAllocation [str "10.252.1.1/24"] [str "10.252.1.1"]
      [str "10.252.1.0/32"] = none := by decide +kernel
  have hrequest : parseCIDR (str "10.252.1.0/32") =
      some (0xFFFF0AFC0100, .v4 0x0AFC0100 0xFFFFFFFF) := by decide +kernel
  have hserver : parseCIDR (str "10.252.1.1/24") =
      some (0xFFFF0AFC0101, .v4 0x0AFC0100 0xFFFFFF00) := by decide +kernel
  exact h haccepted _ List.mem_cons_self _ _ hrequest
    ⟨_, List.mem_cons_self, _, _, hserver, .inl (by decide)⟩

end

end QrWireguard.WebUi
