import QrWireguard.Misc.NetText
import QrWireguard.Misc.Search

/-!
# The search for an address

`GetAvailableIP` walks through the addresses of a network, from its first one, until it meets
one that is free or one that lies outside. The increment carries from byte to byte, and starts
again with zero behind the last address of all.
-/

namespace QrWireguard.WebUi

/-- The loop of `inc`, which goes through the bytes from the last one. -/
def incLoop : List (BitVec 8) → List (BitVec 8)
  | [] => []
  | b :: bs => if 0 < b + 1 then (b + 1) :: bs else (b + 1) :: incLoop bs

/-- `inc`. -/
def inc (ip : List (BitVec 8)) : List (BitVec 8) := (incLoop ip.reverse).reverse

/-- The bytes of an address. -/
def toBytes {w : Nat} (ip : BitVec w) : List (BitVec 8) :=
  (List.range (w / 8)).map fun i => ip.extractLsb' (8 * (w / 8 - 1 - i)) 8

/-- The number that bytes stand for. -/
def bytesNumber (ip : List (BitVec 8)) : Nat := ip.foldl (fun n b => n * 256 + b.toNat) 0

/-- The address in four or sixteen bytes. -/
def ofBytes (ip : List (BitVec 8)) : IP :=
  if ip.length = 4 then v4InV6Prefix ++ BitVec.ofNat 32 (bytesNumber ip)
  else BitVec.ofNat 128 (bytesNumber ip)

/-- `IP.Mask` with the mask of a network: a mask of four bytes needs an IPv4 address. -/
def ipMask (ip : IP) : IPNet → List (BitVec 8)
  | .v4 _ mask =>
    match to4 ip with
    | some v4 => toBytes (v4 &&& mask)
    | none => []
  | .v6 _ mask => toBytes (ip &&& mask)

/-- `GetBroadcastIP`. -/
def getBroadcastIP : IPNet → IP
  | .v4 ip mask => v4InV6Prefix ++ (ip ||| ~~~ mask)
  | .v6 ip mask => ip ||| ~~~ mask

/-- `GetBroadcastAndNetworkAddrsLookup`. -/
def getBroadcastAndNetworkAddrsLookup (interfaceAddresses : List Str) : List Str :=
  interfaceAddresses.flatMap fun ifa =>
    match parseCIDR ifa with
    | none => []
    | some (_, netAddr) => [ipString (getBroadcastIP netAddr), ipString netAddr.first]

/-- What `GetAvailableIP` returns at the end of its loop. -/
def searchResult : Option (List (BitVec 8)) → Except Str Str
  | some ip => .ok (ipString (ofBytes ip))
  | none => .error (str "no more available ip address")

/-- `GetAvailableIP`: the address or the error. The fuel bounds the steps of the loop. -/
def getAvailableIP (fuel : Nat) (cidr : Str) (allocatedList interfaceAddresses : List Str) :
    Option (Except Str Str) :=
  match parseCIDR cidr with
  | none => some (.error (str "invalid CIDR address: " ++ cidr))
  | some (ip, netAddr) =>
    let unavailableIPs := getBroadcastAndNetworkAddrsLookup interfaceAddresses
    (search (fun ip => contains netAddr (ofBytes ip))
      (fun ip => let suggestedAddr := ipString (ofBytes ip)
        decide (suggestedAddr ∉ allocatedList) && decide (suggestedAddr ∉ unavailableIPs))
      inc fuel (ipMask ip netAddr)).map searchResult

/-! ## The increment -/

section
variable {ip bs : List (BitVec 8)}

@[simp] theorem length_incLoop (bs : List (BitVec 8)) : (incLoop bs).length = bs.length := by
  induction bs with
  | nil => rfl
  | cons b bs ih => rw [incLoop]; split <;> simp [ih]

@[simp] theorem length_inc (ip : List (BitVec 8)) : (inc ip).length = ip.length := by
  simp [inc]

/-- The carry goes on behind a byte that becomes zero. -/
theorem ofDigits_incLoop (bs : List (BitVec 8)) :
    Nat.ofDigits 256 ((incLoop bs).map BitVec.toNat) =
      (Nat.ofDigits 256 (bs.map BitVec.toNat) + 1) % 256 ^ bs.length := by
  induction bs with
  | nil => rfl
  | cons b bs ih =>
    have hrest : Nat.ofDigits 256 (bs.map BitVec.toNat) < 256 ^ bs.length := by
      have h := Nat.ofDigits_lt_base_pow_length (b := 256) (l := bs.map BitVec.toNat) (by norm_num)
        (by simpa using fun b _ => b.isLt)
      rwa [List.length_map] at h
    have hb := b.isLt
    rw [incLoop, List.length_cons, List.map_cons, Nat.ofDigits_cons, pow_succ]
    split
    · next hpos =>
      have hbyte : (b + 1).toNat = b.toNat + 1 := by
        rw [BitVec.lt_def, BitVec.toNat_add] at hpos
        rw [BitVec.toNat_add]
        simp at hpos ⊢
        omega
      rw [List.map_cons, Nat.ofDigits_cons, hbyte, Nat.mod_eq_of_lt (by omega)]
      omega
    · next hzero =>
      have hbyte : b.toNat = 255 ∧ (b + 1).toNat = 0 := by
        rw [BitVec.lt_def, BitVec.toNat_add] at hzero
        rw [BitVec.toNat_add]
        simp at hzero ⊢
        omega
      rw [List.map_cons, Nat.ofDigits_cons, hbyte.2, hbyte.1, ih, Nat.zero_add,
        ← Nat.mul_mod_mul_left, Nat.mul_comm (256 ^ _)]
      congr 1
      omega

theorem bytesNumber_eq_ofDigits (ip : List (BitVec 8)) :
    bytesNumber ip = Nat.ofDigits 256 (ip.reverse.map BitVec.toNat) := by
  rw [bytesNumber, Nat.ofDigits_eq_foldr, List.map_reverse, List.foldr_reverse, List.foldl_map]
  refine List.foldl_ext _ _ _ fun n b _ => ?_
  rw [Nat.cast_id]
  ring

/-- The increment adds one. -/
theorem bytesNumber_inc (ip : List (BitVec 8)) :
    bytesNumber (inc ip) = (bytesNumber ip + 1) % 256 ^ ip.length := by
  rw [bytesNumber_eq_ofDigits, bytesNumber_eq_ofDigits, inc, List.reverse_reverse,
    ofDigits_incLoop, List.length_reverse]

theorem length_iterate_inc (j : Nat) (ip : List (BitVec 8)) : (inc^[j] ip).length = ip.length := by
  induction j with
  | zero => rfl
  | succ j ih => rw [Function.iterate_succ_apply', length_inc, ih]

theorem bytesNumber_iterate_inc (hlt : bytesNumber ip < 256 ^ ip.length) (j : Nat) :
    bytesNumber (inc^[j] ip) = (bytesNumber ip + j) % 256 ^ ip.length := by
  induction j with
  | zero => exact (Nat.mod_eq_of_lt hlt).symm
  | succ j ih =>
    rw [Function.iterate_succ_apply', bytesNumber_inc, ih, length_iterate_inc, Nat.mod_add_mod,
      Nat.add_assoc]

@[simp] theorem length_toBytes {w : Nat} (ip : BitVec w) : (toBytes ip).length = w / 8 := by
  simp [toBytes]

theorem bytesNumber_toBytes {w : Nat} (hw : 8 ∣ w) (ip : BitVec w) :
    bytesNumber (toBytes ip) = ip.toNat := by
  obtain ⟨n, rfl⟩ := hw
  have hlt : ip.toNat < 256 ^ n := by
    have := ip.isLt
    rwa [pow_mul] at this
  have hdigits := foldl_digits (le_refl n) hlt
  rw [Nat.sub_self, pow_zero, Nat.div_one, List.foldl_map] at hdigits
  rw [bytesNumber, toBytes, List.foldl_map, Nat.mul_div_cancel_left n (by norm_num)]
  refine Eq.trans (List.foldl_ext _ _ _ fun acc i _ => ?_) hdigits
  rw [BitVec.extractLsb'_toNat, Nat.shiftRight_eq_div_pow, pow_mul]
  norm_num

/-- The walk from an address starts again with zero behind the last one. -/
theorem bytesNumber_walk {w : Nat} (hw : 8 ∣ w) (x : BitVec w) (j : Nat) :
    bytesNumber (inc^[j] (toBytes x)) = (x.toNat + j) % 2 ^ w := by
  have hsize : 256 ^ (w / 8) = 2 ^ w := by
    rw [show 256 = 2 ^ 8 from rfl, ← pow_mul, Nat.mul_div_cancel' hw]
  have hlt : bytesNumber (toBytes x) < 256 ^ (toBytes x).length := by
    rw [bytesNumber_toBytes hw, length_toBytes, hsize]
    exact x.isLt
  rw [bytesNumber_iterate_inc hlt, bytesNumber_toBytes hw, length_toBytes, hsize]

theorem toNat_ofBytes_walk_v4 (x : BitVec 32) (j : Nat) :
    (ofBytes (inc^[j] (toBytes x))).toNat = 0xFFFF * 2 ^ 32 + (x.toNat + j) % 2 ^ 32 := by
  rw [ofBytes, length_iterate_inc, length_toBytes, if_pos rfl, toNat_mapped, BitVec.toNat_ofNat,
    bytesNumber_walk (by norm_num), Nat.mod_mod]

theorem toNat_ofBytes_walk_v6 (x : BitVec 128) (j : Nat) :
    (ofBytes (inc^[j] (toBytes x))).toNat = (x.toNat + j) % 2 ^ 128 := by
  rw [ofBytes, length_iterate_inc, length_toBytes, if_neg (by norm_num), BitVec.toNat_ofNat,
    bytesNumber_walk (by norm_num), Nat.mod_mod]

end

/-! ## The walk through a network -/

/-- Whether an address lies behind the block of IPv4 addresses and the network starts in front of
it. -/
def BehindMapped (net : IPNet) (ip : IP) : Prop :=
  net.first.toNat < 0xFFFF * 2 ^ 32 ∧ 0x10000 * 2 ^ 32 ≤ ip.toNat

/-- Where the walk through a network ends. -/
def walkEnd (net : IPNet) : Nat :=
  if net.first.toNat < 0xFFFF * 2 ^ 32 then min (net.last.toNat + 1) (0xFFFF * 2 ^ 32)
  else net.last.toNat + 1

section
variable {cidr : Str} {ip a : IP} {net : IPNet}

theorem lt_walkEnd_iff (h : IsPrefix net) :
    contains net a = true ∧ ¬ BehindMapped net a ↔
      net.first.toNat ≤ a.toNat ∧ a.toNat < walkEnd net := by
  have hlast := last_mapped h
  rw [contains_iff h, to4_isSome, to4_isSome, BehindMapped, walkEnd]
  split <;> omega

/-- A network with a mask that is not empty does not start at zero when it ends with the last
number. -/
theorem masked_pos {n w : Nat} (hn : n ≤ w) (hpos : 1 ≤ n) (x : BitVec w)
    (hlast : (x &&& cidrMask n w ||| ~~~ cidrMask n w).toNat + 1 = 2 ^ w) :
    0 < (x &&& cidrMask n w).toNat := by
  have hlt : 2 ^ (w - n) < 2 ^ w := Nat.pow_lt_pow_right (by norm_num) (by omega)
  have hsize : 0 < 2 ^ (w - n) := by positivity
  rw [toNat_masked_or hn, ← toNat_and_cidrMask hn] at hlast
  omega

theorem masked_le {n w : Nat} (hn : n ≤ w) (x : BitVec w) :
    (x &&& cidrMask n w).toNat ≤ (x &&& cidrMask n w ||| ~~~ cidrMask n w).toNat := by
  rw [toNat_masked_or hn, toNat_and_cidrMask hn]
  exact Nat.le_add_right _ _

/-- The number of the address in bytes, and of those that the increment makes of it. The walk
starts again with the number of zero bytes. -/
theorem exists_walk (h : parseCIDR cidr = some (ip, net)) (hones : 1 ≤ net.ones) :
    ∃ base first last size : Nat, net.first.toNat = base + first ∧ net.last.toNat = base + last ∧
      first ≤ last ∧ last < size ∧ (last + 1 = size → 0 < first) ∧
      ∀ j, (ofBytes (inc^[j] (ipMask ip net))).toNat = base + (first + j) % size := by
  obtain ⟨n, hn, v4, rfl, rfl⟩ | ⟨n, hn, rfl⟩ := parseCIDR_cases h
  · rw [IPNet.ones, maskSize_cidrMask hn] at hones
    refine ⟨0xFFFF * 2 ^ 32, (v4 &&& cidrMask n 32).toNat,
      (v4 &&& cidrMask n 32 ||| ~~~ cidrMask n 32).toNat, 2 ^ 32, toNat_mapped _, toNat_mapped _,
      masked_le hn v4, BitVec.isLt _, masked_pos hn hones v4, fun j => ?_⟩
    rw [ipMask, to4_mapped]
    exact toNat_ofBytes_walk_v4 _ j
  · rw [IPNet.ones, maskSize_cidrMask hn] at hones
    refine ⟨0, (ip &&& cidrMask n 128).toNat,
      (ip &&& cidrMask n 128 ||| ~~~ cidrMask n 128).toNat, 2 ^ 128, (Nat.zero_add _).symm,
      (Nat.zero_add _).symm, masked_le hn ip, BitVec.isLt _, masked_pos hn hones ip, fun j => ?_⟩
    rw [Nat.zero_add]
    exact toNat_ofBytes_walk_v6 _ j

/-- The walk passes the addresses up to its end in their order, and then leaves the network. -/
theorem walk_spec (h : parseCIDR cidr = some (ip, net)) (hones : 1 ≤ net.ones) :
    (∀ j < walkEnd net - net.first.toNat,
      (ofBytes (inc^[j] (ipMask ip net))).toNat = net.first.toNat + j ∧
        contains net (ofBytes (inc^[j] (ipMask ip net))) = true) ∧
    contains net (ofBytes (inc^[walkEnd net - net.first.toNat] (ipMask ip net))) = false := by
  have hnet := parseCIDR_isPrefix h
  have hmapped := last_mapped hnet
  obtain ⟨base, first, last, size, hfirst, hlast, hle, hlt, hpos, hwalk⟩ := exists_walk h hones
  have hend : net.first.toNat < walkEnd net ∧ walkEnd net ≤ net.last.toNat + 1 ∧
      (walkEnd net = net.last.toNat + 1 ∨
        net.first.toNat < 0xFFFF * 2 ^ 32 ∧ walkEnd net = 0xFFFF * 2 ^ 32) := by
    unfold walkEnd
    split <;> omega
  constructor
  · intro j hj
    have hnumber : (ofBytes (inc^[j] (ipMask ip net))).toNat = net.first.toNat + j := by
      rw [hwalk, Nat.mod_eq_of_lt (by omega)]
      omega
    exact ⟨hnumber, ((lt_walkEnd_iff hnet).mpr (by omega)).1⟩
  · rw [Bool.eq_false_iff, ne_eq, contains_iff hnet, to4_isSome, to4_isSome, hwalk]
    -- the next number may be the first one of all
    have hnext : (first + (walkEnd net - net.first.toNat)) % size =
        if walkEnd net = base + size then 0 else walkEnd net - base := by
      split
      · rw [show first + (walkEnd net - net.first.toNat) = size by omega, Nat.mod_self]
      · rw [Nat.mod_eq_of_lt (by omega)]
        omega
    rw [hnext]
    split <;> omega

end

/-! ## The result -/

/-- Whether an address is the network or the broadcast address of an interface address that can be
parsed. -/
def Reserved (interfaceAddresses : List Str) (a : IP) : Prop :=
  ∃ ifa ∈ interfaceAddresses, ∃ ip net, parseCIDR ifa = some (ip, net) ∧
    (a = net.first ∨ a = net.last)

/-- Whether an address may be given to a client. -/
def Usable (allocatedList interfaceAddresses : List Str) (a : IP) : Prop :=
  ipString a ∉ allocatedList ∧ ¬ Reserved interfaceAddresses a

section
variable {cidr : Str} {ip a : IP} {net : IPNet} {allocatedList interfaceAddresses : List Str}

theorem getBroadcastIP_eq (net : IPNet) : getBroadcastIP net = net.last := by
  cases net <;> rfl

/-- The lookup has the texts of the reserved addresses. -/
theorem reserved_iff : Reserved interfaceAddresses a ↔
    ipString a ∈ getBroadcastAndNetworkAddrsLookup interfaceAddresses := by
  rw [getBroadcastAndNetworkAddrsLookup, List.mem_flatMap]
  refine exists_congr fun ifa => and_congr_right fun _ => ?_
  cases hparse : parseCIDR ifa with
  | none => simp
  | some r =>
    obtain ⟨ip, net⟩ := r
    simp only [Option.some.injEq, Prod.mk.injEq, getBroadcastIP_eq, List.mem_cons,
      List.not_mem_nil, or_false, ipString_injective.eq_iff]
    constructor
    · rintro ⟨_, _, ⟨rfl, rfl⟩, h⟩
      exact h.symm
    · exact fun h => ⟨ip, net, ⟨rfl, rfl⟩, h.symm⟩

/-- Whatever the fuel, an address that is found lies in the network and is usable. -/
theorem getAvailableIP_ok {fuel : Nat} {text : Str}
    (h : getAvailableIP fuel cidr allocatedList interfaceAddresses = some (.ok text)) :
    ∃ ip net a, parseCIDR cidr = some (ip, net) ∧ text = ipString a ∧ contains net a = true ∧
      Usable allocatedList interfaceAddresses a := by
  unfold getAvailableIP at h
  split at h
  · cases h
  · next ip net hparse =>
    obtain ⟨found, hfound, hresult⟩ := Option.map_eq_some_iff.mp h
    cases found with
    | none => cases hresult
    | some b =>
      obtain ⟨hin, hwanted⟩ := search_found hfound
      rw [Bool.and_eq_true, decide_eq_true_eq, decide_eq_true_eq, ← reserved_iff] at hwanted
      exact ⟨ip, net, ofBytes b, hparse, (Except.ok.inj hresult).symm, hin, hwanted⟩

/-- The search has one result: the first usable address in front of the end of the walk, or the
error when there is none. -/
theorem exists_getAvailableIP (h : parseCIDR cidr = some (ip, net)) (hones : 1 ≤ net.ones)
    (allocatedList interfaceAddresses : List Str) :
    ∃ r, (∃ fuel, getAvailableIP fuel cidr allocatedList interfaceAddresses = some r) ∧
      (∀ fuel r', getAvailableIP fuel cidr allocatedList interfaceAddresses = some r' → r' = r) ∧
      ((∃ message, r = .error message ∧ ∀ a, contains net a = true → ¬ BehindMapped net a →
          ¬ Usable allocatedList interfaceAddresses a) ∨
        ∃ a, r = .ok (ipString a) ∧ contains net a = true ∧ ¬ BehindMapped net a ∧
          Usable allocatedList interfaceAddresses a ∧
          ∀ b, contains net b = true → ¬ BehindMapped net b →
            Usable allocatedList interfaceAddresses b → a.toNat ≤ b.toNat) := by
  obtain ⟨hwalk, hout⟩ := walk_spec h hones
  have hnet := parseCIDR_isPrefix h
  have hin := fun j hj => (hwalk j hj).2
  -- every address in front of the end of the walk is passed
  have hpassed : ∀ b, contains net b = true → ¬ BehindMapped net b →
      ∃ j < walkEnd net - net.first.toNat, b = ofBytes (inc^[j] (ipMask ip net)) := by
    intro b hb hfront
    obtain ⟨hge, hlt⟩ := (lt_walkEnd_iff hnet).mp ⟨hb, hfront⟩
    refine ⟨b.toNat - net.first.toNat, by omega, ?_⟩
    rw [← BitVec.toNat_inj, (hwalk _ (by omega)).1]
    omega
  let wanted : List (BitVec 8) → Bool := fun b => decide (ipString (ofBytes b) ∉ allocatedList) &&
    decide (ipString (ofBytes b) ∉ getBroadcastAndNetworkAddrsLookup interfaceAddresses)
  have hwanted : ∀ b, wanted b = true ↔ Usable allocatedList interfaceAddresses (ofBytes b) :=
    fun b => by
      rw [Usable, reserved_iff, Bool.and_eq_true, decide_eq_true_eq, decide_eq_true_eq]
  have hsearch : ∀ fuel, getAvailableIP fuel cidr allocatedList interfaceAddresses =
      (search (fun b => contains net (ofBytes b)) wanted inc fuel (ipMask ip net)).map
        searchResult := fun fuel => by rw [getAvailableIP, h]
  refine ⟨searchResult (((List.range (walkEnd net - net.first.toNat)).find? fun j =>
      wanted (inc^[j] (ipMask ip net))).map fun j => inc^[j] (ipMask ip net)),
    ⟨walkEnd net - net.first.toNat + 1, ?_⟩, fun fuel r' hr => ?_, ?_⟩
  · rw [hsearch, search_eq_find? hin hout (Nat.lt_succ_self _), Option.map_some]
  · rw [hsearch] at hr
    obtain ⟨found, hfound, rfl⟩ := Option.map_eq_some_iff.mp hr
    rw [search_eq_some_find? hin hout hfound]
  cases hfind : (List.range (walkEnd net - net.first.toNat)).find? fun j =>
      wanted (inc^[j] (ipMask ip net)) with
  | none =>
    refine .inl ⟨_, rfl, fun b hb hfront husable => ?_⟩
    obtain ⟨j, hj, rfl⟩ := hpassed b hb hfront
    rw [List.find?_eq_none] at hfind
    exact hfind j (List.mem_range.mpr hj) ((hwanted _).mpr husable)
  | some j =>
    rw [List.find?_range_eq_some] at hfind
    obtain ⟨hj, hmem, hleast⟩ := hfind
    have hlt := List.mem_range.mp hmem
    obtain ⟨hnumber, hcontains⟩ := hwalk j hlt
    have hfront : ¬ BehindMapped net (ofBytes (inc^[j] (ipMask ip net))) :=
      ((lt_walkEnd_iff hnet).mpr (by omega)).2
    refine .inr ⟨_, rfl, hcontains, hfront, (hwanted _).mp hj, fun b hb hfront husable => ?_⟩
    obtain ⟨i, hi, rfl⟩ := hpassed b hb hfront
    rw [hnumber, (hwalk i hi).1]
    by_contra hlt
    have hnot := hleast i (by omega)
    rw [(hwanted _).mpr husable] at hnot
    cases hnot

/-- `GetAvailableIP` finds the least usable address of a network, as far as the network does not
go on behind the block of IPv4 addresses. -/
theorem getAvailableIP_least (h : parseCIDR cidr = some (ip, net)) (hones : 1 ≤ net.ones)
    (allocatedList interfaceAddresses : List Str) :
    ∃ r, (∃ fuel, getAvailableIP fuel cidr allocatedList interfaceAddresses = some r) ∧
      (∀ fuel r', getAvailableIP fuel cidr allocatedList interfaceAddresses = some r' → r' = r) ∧
      (∀ text, r = .ok text → ∃ a, text = ipString a ∧ contains net a = true ∧
        Usable allocatedList interfaceAddresses a ∧
        ∀ b, contains net b = true → Usable allocatedList interfaceAddresses b →
          a.toNat ≤ b.toNat) ∧
      ((∃ message, r = .error message) ↔ ∀ a, contains net a = true → ¬ BehindMapped net a →
        ¬ Usable allocatedList interfaceAddresses a) := by
  obtain ⟨r, hex, huniq, hr⟩ := exists_getAvailableIP h hones allocatedList interfaceAddresses
  refine ⟨r, hex, huniq, ?_, ?_⟩
  · rintro text rfl
    obtain ⟨message, herr, -⟩ | ⟨a, ha, hcontains, hfront, husable, hleast⟩ := hr
    · cases herr
    · refine ⟨a, Except.ok.inj ha, hcontains, husable, fun b hb hbusable => ?_⟩
      by_cases hbehind : BehindMapped net b
      · have hend := (lt_walkEnd_iff (parseCIDR_isPrefix h)).mp ⟨hcontains, hfront⟩
        obtain ⟨hfirst, hge⟩ := hbehind
        rw [walkEnd, if_pos hfirst] at hend
        omega
      · exact hleast b hb hbehind hbusable
  · constructor
    · rintro ⟨message, rfl⟩
      obtain ⟨_, -, hnone⟩ | ⟨a, ha, -⟩ := hr
      · exact hnone
      · cases ha
    · intro hnone
      obtain ⟨message, herr, -⟩ | ⟨a, -, hcontains, hfront, husable, -⟩ := hr
      · exact ⟨message, herr⟩
      · exact absurd husable (hnone a hcontains hfront)

end

theorem getAvailableIP_least_small :
    ∃ r, (∃ fuel, getAvailableIP fuel (str "10.252.1.0/30") [str "10.252.1.1"]
        [str "10.252.1.1/24"] = some r) ∧
      (∀ fuel r', getAvailableIP fuel (str "10.252.1.0/30") [str "10.252.1.1"]
        [str "10.252.1.1/24"] = some r' → r' = r) ∧
      (∀ text, r = .ok text → ∃ a, text = ipString a ∧
        contains (.v4 0x0AFC0100 0xFFFFFFFC) a = true ∧
        Usable [str "10.252.1.1"] [str "10.252.1.1/24"] a ∧
        ∀ b, contains (.v4 0x0AFC0100 0xFFFFFFFC) b = true →
          Usable [str "10.252.1.1"] [str "10.252.1.1/24"] b → a.toNat ≤ b.toNat) ∧
      ((∃ message, r = .error message) ↔ ∀ a, contains (.v4 0x0AFC0100 0xFFFFFFFC) a = true →
        ¬ BehindMapped (.v4 0x0AFC0100 0xFFFFFFFC) a →
          ¬ Usable [str "10.252.1.1"] [str "10.252.1.1/24"] a) :=
  have hparse : parseCIDR (str "10.252.1.0/30") =
      some (0xFFFF0AFC0100, .v4 0x0AFC0100 0xFFFFFFFC) := by decide +kernel
  getAvailableIP_least hparse (by decide +kernel) _ _

/-- All addresses in front of the block of IPv4 addresses. -/
def addressesInFront : List Str :=
  (List.range (0xFFFF * 2 ^ 32)).map fun i => ipString (BitVec.ofNat 128 i)

/-- The search ends in front of the block of IPv4 addresses, even when the network goes on behind
it. -/
theorem not_getAvailableIP_complete :
    parseCIDR (str "::/64") = some (0, .v6 0 (cidrMask 64 128)) ∧
      1 ≤ (IPNet.v6 0 (cidrMask 64 128)).ones ∧
      (∃ fuel message,
        getAvailableIP fuel (str "::/64") addressesInFront [] = some (.error message)) ∧
      contains (.v6 0 (cidrMask 64 128)) 0x1000000000000 = true ∧
      Usable addressesInFront [] 0x1000000000000 := by
  have hparse : parseCIDR (str "::/64") = some (0, .v6 0 (cidrMask 64 128)) := by decide +kernel
  have hones : 1 ≤ (IPNet.v6 0 (cidrMask 64 128)).ones := by decide +kernel
  have hmem : ∀ a : IP, ipString a ∈ addressesInFront ↔ a.toNat < 0xFFFF * 2 ^ 32 := by
    intro a
    rw [addressesInFront, List.mem_map]
    constructor
    · rintro ⟨i, hi, heq⟩
      rw [← ipString_injective heq, BitVec.toNat_ofNat]
      exact (Nat.mod_le _ _).trans_lt (List.mem_range.mp hi)
    · exact fun h => ⟨a.toNat, List.mem_range.mpr h, by rw [BitVec.ofNat_toNat, BitVec.setWidth_eq]⟩
  obtain ⟨r, ⟨fuel, hfuel⟩, -, hr⟩ := exists_getAvailableIP hparse hones addressesInFront []
  refine ⟨hparse, hones, ?_, by decide +kernel, ?_, fun ⟨_, h, _⟩ => absurd h List.not_mem_nil⟩
  · obtain ⟨message, rfl, -⟩ | ⟨a, -, hcontains, hfront, husable, -⟩ := hr
    · exact ⟨fuel, message, hfuel⟩
    · obtain ⟨-, hlt⟩ := (lt_walkEnd_iff (parseCIDR_isPrefix hparse)).mp ⟨hcontains, hfront⟩
      rw [walkEnd, if_pos (by decide)] at hlt
      exact absurd ((hmem a).mpr (hlt.trans_le (Nat.min_le_right _ _))) husable.1
  · rw [hmem]
    decide

end QrWireguard.WebUi
