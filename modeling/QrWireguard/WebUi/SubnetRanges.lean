import QrWireguard.Misc.Groups
import QrWireguard.Misc.NetText
import QrWireguard.WebUi.Edits

/-!
# Subnet ranges

The address ranges with names that the environment gives, which are kept in a map and in a list of
their names. `ParseSubnetRanges` fills both, and `ValidateAndFixSubnetRanges` takes out of the map
what lies outside of the networks of the server.
-/

namespace QrWireguard.WebUi

/-- `unicode.IsSpace`. -/
def isSpace (c : Char) : Bool :=
  [0x09, 0x0A, 0x0B, 0x0C, 0x0D, 0x20, 0x85, 0xA0, 0x1680, 0x2028, 0x2029, 0x202F, 0x205F,
    0x3000].contains c.toNat || (decide (0x2000 ≤ c.toNat) && decide (c.toNat ≤ 0x200A))

/-- `strings.TrimSpace`. -/
def trimSpace (s : Str) : Str := trim isSpace s

/-- `SubnetRanges` and `SubnetRangesOrder`. -/
structure SubnetTables where
  ranges : Str → Option (List IPNet)
  order : List Str

/-- The loop of `ParseSubnetRanges` over the CIDR texts of a range: the networks of the range and
the texts of all networks so far. -/
def addCIDR (acc : List IPNet × List Str) (cidr : Str) : List IPNet × List Str :=
  match parseCIDR (trimSpace cidr) with
  | none => acc
  | some (_, net) =>
    if net.toText ∈ acc.2 then acc else (acc.1 ++ [net], acc.2 ++ [net.toText])

/-- The loop of `ParseSubnetRanges` over the ranges. -/
def addRange (acc : SubnetTables × List Str) (rng : Str) : SubnetTables × List Str :=
  match split [':'] (trimSpace rng) with
  | [name, cidrs] =>
    let rngName := trimSpace name
    let (nets, cidrSet) := (split [','] cidrs).foldl addCIDR ([], acc.2)
    if nets.isEmpty then
      (⟨Function.update acc.1.ranges rngName none, acc.1.order⟩, cidrSet)
    else (⟨Function.update acc.1.ranges rngName (some nets), acc.1.order ++ [rngName]⟩, cidrSet)
  | _ => acc

/-- The texts of the ranges. -/
def rangeTexts (subnetRangesStr : Str) : List Str :=
  split [';'] (trim (fun c => c == ';' || c == ':' || c == ',') (trimSpace subnetRangesStr))

/-- `ParseSubnetRanges`, which appends the names to the order. -/
def parseSubnetRanges (order : List Str) (subnetRangesStr : Str) : SubnetTables :=
  if subnetRangesStr = [] then ⟨fun _ => none, order⟩
  else ((rangeTexts subnetRangesStr).foldl addRange (⟨fun _ => none, order⟩, [])).1

/-- `ContainsCIDR`. -/
def containsCIDR (ipnet1 ipnet2 : IPNet) : Bool :=
  decide (ipnet1.ones ≤ ipnet2.ones) && contains ipnet1 ipnet2.first

/-- Whether a CIDR lies in one of the networks of the server. -/
def validRange (serverSubnets : List IPNet) (cidr : IPNet) : Bool :=
  serverSubnets.any fun serverSubnet => containsCIDR serverSubnet cidr

/-- The loop of `ValidateAndFixSubnetRanges`. -/
def fixRange (serverSubnets : List IPNet) (ranges : Str → Option (List IPNet)) (rng : Str) :
    Str → Option (List IPNet) :=
  let cidrs := (ranges rng).getD []
  if cidrs.isEmpty then ranges
  else
    let newCIDRs := cidrs.filter (validRange serverSubnets)
    Function.update ranges rng (if newCIDRs.isEmpty then none else some newCIDRs)

/-- `ValidateAndFixSubnetRanges`, which fails without a server or with an address of the server
that is no CIDR text. -/
def validateAndFixSubnetRanges (db : Db) (tables : SubnetTables) : Option SubnetTables :=
  if tables.order.isEmpty then some tables
  else
    db.server.bind fun server =>
      (server.interface.addresses.mapM fun addr => (parseCIDR (trimSpace addr)).map (·.2)).map
        fun serverSubnets =>
          { tables with ranges := tables.order.foldl (fixRange serverSubnets) tables.ranges }

/-! ## The entries -/

/-- The networks of a list of CIDR texts. -/
def rangeNets (cidrs : Str) : List IPNet :=
  (split [','] cidrs).filterMap fun cidr => (parseCIDR (trimSpace cidr)).map (·.2)

/-- The entry of a range: its name and its networks. -/
def rangeEntry (rng : Str) : Option (Str × List IPNet) :=
  match split [':'] (trimSpace rng) with
  | [name, cidrs] => some (trimSpace name, rangeNets cidrs)
  | _ => none

/-- The entries of a configuration. -/
def rangeEntries (subnetRangesStr : Str) : List (Str × List IPNet) :=
  (rangeTexts subnetRangesStr).filterMap rangeEntry

/-- The entries with the networks that no earlier entry has. -/
def newEntries (subnetRangesStr : Str) : List (Str × List IPNet) :=
  freshEntries IPNet.toText [] (rangeEntries subnetRangesStr)

section
variable {acc : SubnetTables × List Str} {rng s : Str}

theorem foldl_addCIDR (cidrs : List Str) (nets : List IPNet) (seen : List Str) :
    let new := fresh IPNet.toText seen
      (cidrs.filterMap fun cidr => (parseCIDR (trimSpace cidr)).map (·.2))
    cidrs.foldl addCIDR (nets, seen) = (nets ++ new, seen ++ new.map IPNet.toText) := by
  induction cidrs generalizing nets seen with
  | nil => simp [fresh]
  | cons cidr cidrs ih =>
    rw [List.foldl_cons, addCIDR, List.filterMap_cons]
    cases hparse : parseCIDR (trimSpace cidr) with
    | none => exact ih nets seen
    | some r =>
      obtain ⟨ip, net⟩ := r
      dsimp only [Option.map_some]
      rw [fresh]
      split
      · exact ih nets seen
      · rw [ih]
        simp

/-- A range whose text is no entry changes nothing, and the others are written into the map with
their new networks. -/
theorem addRange_eq (acc : SubnetTables × List Str) (rng : Str) :
    addRange acc rng = match rangeEntry rng with
      | none => acc
      | some e =>
        let new := fresh IPNet.toText acc.2 e.2
        (⟨Function.update acc.1.ranges e.1 (groupOf new),
          acc.1.order ++ bringers [(e.1, new)]⟩, acc.2 ++ new.map IPNet.toText) := by
  unfold addRange rangeEntry
  split
  · dsimp only
    rw [foldl_addCIDR, List.nil_append]
    unfold rangeNets groupOf bringers
    split
    · next hempty => simp [hempty]
    · next hempty => simp [hempty]
  · rfl

theorem foldl_addRange (texts : List Str) (acc : SubnetTables × List Str) :
    let new := freshEntries IPNet.toText acc.2 (texts.filterMap rangeEntry)
    (texts.foldl addRange acc).1 =
      ⟨new.foldl (fun t e => Function.update t e.1 (groupOf e.2)) acc.1.ranges,
        acc.1.order ++ bringers new⟩ := by
  induction texts generalizing acc with
  | nil => simp [freshEntries, bringers]
  | cons rng texts ih =>
    rw [List.foldl_cons, ih, addRange_eq, List.filterMap_cons]
    cases hentry : rangeEntry rng with
    | none => rfl
    | some e =>
      dsimp only
      rw [freshEntries, List.foldl_cons, List.append_assoc]
      congr 2
      unfold bringers
      rw [← List.map_append, ← List.filter_append, List.singleton_append]

/-- The map has the last new networks of a name, and the order has the names in the order in which
they bring networks. -/
theorem parseSubnetRanges_eq (s : Str) :
    parseSubnetRanges [] s =
      ⟨fun name => groupOf (lastGroup name (newEntries s)), bringers (newEntries s)⟩ := by
  have hnone : ∀ b : List (Str × List IPNet),
      b.foldl (fun t e => Function.update t e.1 (groupOf e.2)) (fun _ => none) =
        fun name => groupOf (lastGroup name b) := by
    intro b
    funext name
    rw [foldl_update_groupOf]
    split
    · rfl
    · next hno => rw [lastGroup_eq_nil hno]; rfl
  unfold parseSubnetRanges
  split
  · next hempty =>
    subst hempty
    rfl
  · rw [foldl_addRange, hnone, List.nil_append]
    rfl

end

/-! ## The networks of the server -/

/-- The networks of the addresses of the server. -/
def serverNets (addresses : List Str) : List IPNet :=
  addresses.filterMap fun addr => (parseCIDR addr).map (·.2)

theorem isPrefix_serverNets {addresses : List Str} :
    ∀ outer ∈ serverNets addresses, IsPrefix outer := by
  intro outer hmem
  obtain ⟨addr, -, hparse⟩ := List.mem_filterMap.mp hmem
  obtain ⟨⟨ip, net⟩, hr, rfl⟩ := Option.map_eq_some_iff.mp hparse
  exact parseCIDR_isPrefix hr

theorem isSpace_of_isAddrChar {c : Char} (h : isAddrChar c = true ∨ c = '/') :
    isSpace c = false := by
  have hrange : 0x2E ≤ c.toNat ∧ c.toNat ≤ 0x66 := by
    rcases h with h | rfl
    · simp only [isAddrChar, isxdigit, isdigit, Bool.or_eq_true, Bool.and_eq_true,
        decide_eq_true_eq, beq_iff_eq, Char.le_def, UInt32.le_iff_toNat_le] at h
      rcases h with (((h | h) | h) | rfl) | rfl
      · exact ⟨(by decide : 0x2E ≤ 0x30).trans h.1, h.2.trans (by decide)⟩
      · exact ⟨(by decide : 0x2E ≤ 0x61).trans h.1, h.2.trans (by decide)⟩
      · exact ⟨(by decide : 0x2E ≤ 0x41).trans h.1, h.2.trans (by decide)⟩
      · decide
      · decide
    · decide
  have hout : ¬ (0x2000 ≤ c.toNat ∧ c.toNat ≤ 0x200A) := by omega
  rw [isSpace, Bool.or_eq_false_iff]
  constructor
  · rw [Bool.eq_false_iff, ne_eq, List.contains_iff_mem]
    simp only [List.mem_cons, List.not_mem_nil, or_false]
    omega
  · rwa [← Bool.decide_and, decide_eq_false_iff_not]

/-- A text that can be parsed has no space around it. -/
theorem trimSpace_of_validateCIDR {cidr : Str} (h : validateCIDR cidr = true) :
    trimSpace cidr = cidr := by
  obtain ⟨r, hr⟩ := Option.isSome_iff_exists.mp h
  have hchars : ∀ c ∈ cidr, isSpace c = false := fun c hc =>
    isSpace_of_isAddrChar (isAddrChar_of_parseCIDR hr c hc)
  exact trim_of_forall hchars

section
variable {nets : List IPNet}

theorem fixRange_groupOf (groups : Str → List IPNet) (rng : Str) :
    fixRange nets (fun name => groupOf (groups name)) rng =
      fun name =>
        groupOf (Function.update groups rng ((groups rng).filter (validRange nets)) name) := by
  have hget : (groupOf (groups rng)).getD [] = groups rng := by
    unfold groupOf
    split
    · next h => exact (List.isEmpty_iff.mp h).symm
    · rfl
  funext name
  unfold fixRange
  dsimp only
  rw [hget]
  by_cases hname : name = rng
  · subst hname
    rw [Function.update_self]
    split
    · next h =>
      dsimp only
      rw [List.isEmpty_iff.mp h, List.filter_nil]
    · rw [Function.update_self]
      rfl
  · rw [Function.update_of_ne hname]
    split
    · rfl
    · rw [Function.update_of_ne hname]

/-- Each name keeps the networks that lie in one of the server. A name that comes twice loses
nothing more. -/
theorem foldl_fixRange (order : List Str) (groups : Str → List IPNet) (name : Str) :
    order.foldl (fixRange nets) (fun name => groupOf (groups name)) name =
      groupOf (if name ∈ order then (groups name).filter (validRange nets) else groups name) := by
  induction order generalizing groups with
  | nil => rfl
  | cons rng order ih =>
    rw [List.foldl_cons, fixRange_groupOf, ih]
    congr 1
    by_cases hname : name = rng
    · subst hname
      simp
    · rw [Function.update_of_ne hname]
      simp [hname]

end

theorem mapM_serverNets {addresses : List Str}
    (hvalid : ∀ addr ∈ addresses, validateCIDR addr = true) :
    addresses.mapM (fun addr => (parseCIDR (trimSpace addr)).map (·.2)) =
      some (serverNets addresses) := by
  have htrim : ∀ addr ∈ addresses, (parseCIDR (trimSpace addr)).map (·.2) =
      (parseCIDR addr).map (·.2) := by
    intro addr haddr
    rw [trimSpace_of_validateCIDR (hvalid addr haddr)]
  rw [mapM_eq_some_iff]
  constructor
  · intro addr haddr
    rw [htrim addr haddr, Option.isSome_map]
    exact hvalid addr haddr
  · exact List.filterMap_congr htrim

/-- What the two functions leave in the tables: of the last new networks of a name, those that lie
in a network of the server. -/
def fixedTables (s : Str) (nets : List IPNet) : SubnetTables where
  ranges name := groupOf ((lastGroup name (newEntries s)).filter (validRange nets))
  order := bringers (newEntries s)

@[simp] theorem ranges_fixedTables (s : Str) (nets : List IPNet) (name : Str) :
    (fixedTables s nets).ranges name =
      groupOf ((lastGroup name (newEntries s)).filter (validRange nets)) := rfl

@[simp] theorem order_fixedTables (s : Str) (nets : List IPNet) :
    (fixedTables s nets).order = bringers (newEntries s) := rfl

theorem validateAndFixSubnetRanges_eq {db : Db} {server : Server}
    (hserver : db.server = some server)
    (hvalid : ∀ addr ∈ server.interface.addresses, validateCIDR addr = true) (s : Str) :
    validateAndFixSubnetRanges db (parseSubnetRanges [] s) =
      some (fixedTables s (serverNets server.interface.addresses)) := by
  have hout : ∀ name, name ∉ bringers (newEntries s) → lastGroup name (newEntries s) = [] :=
    fun name hname => by_contra fun hne => hname (mem_bringers_of_lastGroup hne)
  rw [parseSubnetRanges_eq, validateAndFixSubnetRanges, fixedTables]
  dsimp only
  split
  · next hempty =>
    refine congrArg (fun ranges => some (SubnetTables.mk ranges _)) (funext fun name => ?_)
    rw [hout name (by rw [List.isEmpty_iff.mp hempty]; exact List.not_mem_nil), List.filter_nil]
  · rw [hserver, Option.bind_some, mapM_serverNets hvalid, Option.map_some]
    refine congrArg (fun ranges => some (SubnetTables.mk ranges _)) (funext fun name => ?_)
    rw [foldl_fixRange]
    split
    · rfl
    · next hname => rw [hout name hname, List.filter_nil]

/-! ## Networks in networks -/

/-- `ContainsCIDR` decides whether the addresses of a network are addresses of another one of the
same kind, and denies it of networks of two kinds. -/
theorem containsCIDR_decides {s s' : Str} {ip ip' : IP} {outer net : IPNet}
    (h : parseCIDR s = some (ip, outer)) (h' : parseCIDR s' = some (ip', net)) :
    (outer.IsV4 ∧ net.IsV4 ∨ outer.IsV6 ∧ net.IsV6 →
      (containsCIDR outer net = true ↔ ∀ addr, net.Covers addr → outer.Covers addr)) ∧
    (outer.IsV4 ∧ net.IsV6 ∨ outer.IsV6 ∧ net.IsV4 → containsCIDR outer net = false) := by
  have houter := parseCIDR_isPrefix h
  have hnet := parseCIDR_isPrefix h'
  refine ⟨fun hkind => ?_, fun hkind => ?_⟩
  · have hfirst : (to4 net.first).isSome = true ↔ (to4 outer.first).isSome = true := by
      rcases hkind with ⟨hv4, hv4'⟩ | ⟨hv6, hv6'⟩
      · simp [to4_first_v4 hv4, to4_first_v4 hv4']
      · simp [to4_first_v6 hv6, to4_first_v6 hv6']
    rw [containsCIDR, Bool.and_eq_true, decide_eq_true_eq, contains_iff houter,
      and_iff_left hfirst, covers_subset_iff_ones hnet houter hkind]
    rfl
  · have hfirst : ¬ ((to4 net.first).isSome = true ↔ (to4 outer.first).isSome = true) := by
      rcases hkind with ⟨hv4, hv6⟩ | ⟨hv6, hv4⟩
      · simp [to4_first_v4 hv4, to4_first_v6 hv6]
      · simp [to4_first_v4 hv4, to4_first_v6 hv6]
    rw [containsCIDR, Bool.and_eq_false_iff]
    refine .inr (Bool.eq_false_iff.mpr fun hcontains => hfirst ?_)
    exact ((contains_iff houter).mp hcontains).2.2

theorem containsCIDR_decides_private :
    let outer : IPNet := .v4 (BitVec.ofNat 32 0x0A000000) (cidrMask 8 32)
    let net : IPNet := .v4 (BitVec.ofNat 32 0x0AFC0100) (cidrMask 24 32)
    (outer.IsV4 ∧ net.IsV4 ∨ outer.IsV6 ∧ net.IsV6 →
      (containsCIDR outer net = true ↔ ∀ addr, net.Covers addr → outer.Covers addr)) ∧
    (outer.IsV4 ∧ net.IsV6 ∨ outer.IsV6 ∧ net.IsV4 → containsCIDR outer net = false) :=
  have houter : parseCIDR (str "10.0.0.0/8") =
      some (v4InV6Prefix ++ BitVec.ofNat 32 0x0A000000,
        .v4 (BitVec.ofNat 32 0x0A000000) (cidrMask 8 32)) := by decide +kernel
  have hnet : parseCIDR (str "10.252.1.0/24") =
      some (v4InV6Prefix ++ BitVec.ofNat 32 0x0AFC0100,
        .v4 (BitVec.ofNat 32 0x0AFC0100) (cidrMask 24 32)) := by decide +kernel
  containsCIDR_decides houter hnet

/-! ## Consistency -/

/-- What an entry lists, when its name ends at the first colon. Unlike `rangeEntry` this has also
the networks of an entry with more colons. -/
def listedRange (rng : Str) : Option (Str × List IPNet) :=
  match (trimSpace rng).span (· ≠ ':') with
  | (name, ':' :: cidrs) => some (trimSpace name, rangeNets cidrs)
  | _ => none

/-- What a configuration lists. -/
def listedRanges (subnetRangesStr : Str) : List (Str × List IPNet) :=
  (rangeTexts subnetRangesStr).filterMap listedRange

/-- Whether a network lies in one of some networks. -/
def LiesIn (nets : List IPNet) (net : IPNet) : Prop := ∃ outer ∈ nets, Within net outer

/-- The same for networks that are written in the form of IPv4. -/
def LiesInV4 (nets : List IPNet) (net : IPNet) : Prop :=
  ∃ outer ∈ nets, outer.IsV4 ∧ Within net outer

/-- The tables agree with each other, with the networks of the server and with what was listed. -/
structure Consistent (listed : List (Str × List IPNet)) (nets : List IPNet)
    (tables : SubnetTables) : Prop where
  nodup : tables.order.Nodup
  keys : ∀ name, name ∈ tables.order ↔ (tables.ranges name).isSome = true
  ne_nil : ∀ name cidrs, tables.ranges name = some cidrs → cidrs ≠ []
  inside : ∀ name cidrs, tables.ranges name = some cidrs → ∀ cidr ∈ cidrs, LiesIn nets cidr
  once : ∀ name cidrs, tables.ranges name = some cidrs → cidrs.Nodup
  apart : ∀ name cidrs name' cidrs', tables.ranges name = some cidrs →
    tables.ranges name' = some cidrs' → name ≠ name' → ∀ cidr ∈ cidrs, cidr ∉ cidrs'
  kept : ∀ e ∈ listed, ∀ cidr ∈ e.2, LiesIn nets cidr →
    ∃ e' ∈ listed, cidr ∈ e'.2 ∧ ∃ cidrs, tables.ranges e'.1 = some cidrs ∧ cidr ∈ cidrs

section
variable {s rng : Str} {e : Str × List IPNet} {net outer : IPNet} {nets : List IPNet}

theorem listedRange_of_rangeEntry (h : rangeEntry rng = some e) : listedRange rng = some e := by
  unfold rangeEntry at h
  split at h
  · next name cidrs hsplit =>
    have htext : trimSpace rng = name ++ ':' :: cidrs := by
      rw [← unsplit_split (List.cons_ne_nil ':' []) (trimSpace rng), hsplit]
      simp [unsplit]
    have hpiece : name ∈ split [':'] (trimSpace rng) := by rw [hsplit]; exact List.mem_cons_self
    have hspan : (trimSpace rng).span (· ≠ ':') = (name, ':' :: cidrs) :=
      span_ne_eq_iff.mpr ⟨htext, not_mem_of_mem_split hpiece⟩
    unfold listedRange
    split
    · next name' cidrs' heq =>
      rw [hspan] at heq
      obtain ⟨rfl, hrest⟩ := Prod.mk.inj heq
      obtain ⟨-, rfl⟩ := List.cons.inj hrest
      exact h
    · next hno => exact absurd hspan (hno _ _)
  · cases h

theorem rangeEntries_listed (h : e ∈ rangeEntries s) : e ∈ listedRanges s := by
  obtain ⟨rng, hrng, he⟩ := List.mem_filterMap.mp h
  exact List.mem_filterMap.mpr ⟨rng, hrng, listedRange_of_rangeEntry he⟩

/-- An entry has a single colon, so its networks are written in the form of IPv4. -/
theorem isV4_of_rangeEntries (h : e ∈ rangeEntries s) (hnet : net ∈ e.2) :
    IsPrefix net ∧ net.IsV4 := by
  obtain ⟨rng, -, he⟩ := List.mem_filterMap.mp h
  unfold rangeEntry at he
  split at he
  · next name cidrs hsplit =>
    obtain rfl := Option.some.inj he
    obtain ⟨cidr, hcidr, hparse⟩ := List.mem_filterMap.mp hnet
    obtain ⟨⟨ip, net'⟩, hr, rfl⟩ := Option.map_eq_some_iff.mp hparse
    refine ⟨parseCIDR_isPrefix hr, isV4_of_parseCIDR (fun hcolon => ?_) hr⟩
    have hmem : ':' ∈ cidrs :=
      mem_of_mem_piece (List.cons_ne_nil ',' []) hcidr (mem_of_mem_trim hcolon)
    have hpiece : cidrs ∈ split [':'] (trimSpace rng) := by rw [hsplit]; simp
    exact not_mem_of_mem_split hpiece hmem
  · cases he

theorem isV4_of_newEntries (h : e ∈ newEntries s) (hnet : net ∈ e.2) :
    IsPrefix net ∧ net.IsV4 := by
  obtain ⟨e', he', -, hsub⟩ := exists_of_mem_freshEntries h
  exact isV4_of_rangeEntries he' (hsub net hnet)

/-- `ContainsCIDR` on a network in the form of IPv4. -/
theorem containsCIDR_iff (h : IsPrefix net) (hv4 : net.IsV4) (houter : IsPrefix outer) :
    containsCIDR outer net = true ↔ outer.IsV4 ∧ Within net outer := by
  rw [containsCIDR, Bool.and_eq_true, decide_eq_true_eq]
  have hnet := h
  have ho := houter
  cases hnet with
  | v6 => exact hv4.elim
  | @v4 n hn x =>
  cases ho with
  | v4 hm y =>
    rw [within_v4_iff h houter hv4 trivial]
    exact (and_iff_right trivial).symm
  | @v6 m hm y =>
    refine iff_of_false ?_ fun h => h.1
    rintro ⟨hones, hcontains⟩
    rw [IPNet.ones, IPNet.ones, maskSize_cidrMask hn, maskSize_cidrMask hm] at hones
    have hmapped := ((contains_iff houter).mp hcontains).2.2
    rw [IPNet.first, IPNet.first, to4_mapped] at hmapped
    obtain ⟨v4, hv4⟩ := Option.isSome_iff_exists.mp (hmapped.mp rfl)
    have := ge_96_of_to4 hm hv4
    omega

theorem validRange_iff (hnets : ∀ outer ∈ nets, IsPrefix outer) (h : IsPrefix net)
    (hv4 : net.IsV4) : validRange nets net = true ↔ LiesInV4 nets net := by
  rw [validRange, List.any_eq_true]
  exact exists_congr fun outer => and_congr_right fun hmem => containsCIDR_iff h hv4 (hnets _ hmem)

theorem groupOf_eq_some {α : Type} {vs ws : List α} (h : groupOf vs = some ws) :
    ws = vs ∧ vs ≠ [] := by
  unfold groupOf at h
  split at h
  · cases h
  · next hne => exact ⟨(Option.some.inj h).symm, fun hnil => hne (List.isEmpty_iff.mpr hnil)⟩

theorem isSome_groupOf {α : Type} {vs : List α} : (groupOf vs).isSome = true ↔ vs ≠ [] := by
  cases vs <;> simp [groupOf]

/-- What a name keeps comes from an entry of the name. -/
theorem exists_of_fixedTables {name : Str} {cidrs : List IPNet}
    (h : (fixedTables s nets).ranges name = some cidrs) : ∃ e ∈ newEntries s,
      e.1 = name ∧ cidrs = e.2.filter (validRange nets) ∧ cidrs ≠ [] := by
  rw [ranges_fixedTables] at h
  obtain ⟨rfl, hne⟩ := groupOf_eq_some h
  have hlast : lastGroup name (newEntries s) ≠ [] := fun hnil => hne (by rw [hnil, List.filter_nil])
  obtain ⟨e, he, hname, hvs⟩ := exists_of_lastGroup hlast
  exact ⟨e, he, hname, by rw [hvs], hne⟩

theorem nodup_newEntries (s : Str) : ((newEntries s).flatMap (·.2)).Nodup := by
  have h : (((newEntries s).flatMap (·.2)).map IPNet.toText).Nodup := by
    unfold newEntries
    rw [← List.nil_append (List.map _ _)]
    exact nodup_freshEntries List.nodup_nil
  exact h.of_map _

/-- Each CIDR that is listed in an entry is new in one that has it. -/
theorem exists_newEntry (h : e ∈ rangeEntries s) (hnet : net ∈ e.2) :
    ∃ e' ∈ newEntries s, net ∈ e'.2 := by
  have hmem : net.toText ∈ ((newEntries s).flatMap (·.2)).map IPNet.toText := by
    unfold newEntries
    rw [← List.nil_append (List.map _ _)]
    exact key_mem_freshEntries (List.mem_flatMap.mpr ⟨e, h, hnet⟩)
  rw [List.mem_map] at hmem
  obtain ⟨net', hnet', htext⟩ := hmem
  obtain ⟨e', he', hmem'⟩ := List.mem_flatMap.mp hnet'
  obtain ⟨hmasked, hv4⟩ := isV4_of_rangeEntries h hnet
  obtain ⟨hmasked', hv4'⟩ := isV4_of_newEntries he' hmem'
  rw [toText_injective_v4 hmasked hmasked' hv4 hv4' htext.symm]
  exact ⟨e', he', hmem'⟩

/-- When the entries leave consistent tables. -/
structure RangesFit (s : Str) (nets : List IPNet) : Prop where
  names : LastOfName (newEntries s)
  bring : ∀ e ∈ newEntries s, e.2 ≠ [] → ∃ net ∈ e.2, LiesInV4 nets net
  listed : ∀ e ∈ listedRanges s, ∀ net ∈ e.2, LiesIn nets net →
    (∃ e' ∈ rangeEntries s, net ∈ e'.2) ∧ LiesInV4 nets net

theorem Consistent.rangesFit (hnets : ∀ outer ∈ nets, IsPrefix outer)
    (h : Consistent (listedRanges s) nets (fixedTables s nets)) : RangesFit s nets := by
  have hkept : ∀ name ∈ bringers (newEntries s),
      (lastGroup name (newEntries s)).filter (validRange nets) ≠ [] := by
    intro name hname
    have hsome := (h.keys name).mp hname
    rwa [ranges_fixedTables, isSome_groupOf] at hsome
  have hnames : LastOfName (newEntries s) := by
    refine lastOfName_of_nodup h.nodup fun name hname hnil => hkept name hname ?_
    rw [hnil, List.filter_nil]
  refine ⟨hnames, fun e he hvs => ?_, fun e he net hnet hlies => ?_⟩
  · have hne := hkept e.1 (mem_bringers.mpr ⟨e, he, hvs, rfl⟩)
    rw [hnames.lastGroup he hvs] at hne
    obtain ⟨net, hnet⟩ := List.exists_mem_of_ne_nil _ hne
    obtain ⟨hmem, hvalid⟩ := List.mem_filter.mp hnet
    obtain ⟨hmasked, hv4⟩ := isV4_of_newEntries he hmem
    exact ⟨net, hmem, (validRange_iff hnets hmasked hv4).mp hvalid⟩
  · obtain ⟨e', -, -, cidrs, hcidrs, hmem⟩ := h.kept e he net hnet hlies
    obtain ⟨new, hnew, -, rfl, -⟩ := exists_of_fixedTables hcidrs
    obtain ⟨hmem, hvalid⟩ := List.mem_filter.mp hmem
    obtain ⟨hmasked, hv4⟩ := isV4_of_newEntries hnew hmem
    obtain ⟨entry, hentry, -, hsub⟩ := exists_of_mem_freshEntries hnew
    exact ⟨⟨entry, hentry, hsub net hmem⟩, (validRange_iff hnets hmasked hv4).mp hvalid⟩

theorem RangesFit.consistent (hnets : ∀ outer ∈ nets, IsPrefix outer) (h : RangesFit s nets) :
    Consistent (listedRanges s) nets (fixedTables s nets) where
  nodup := h.names.nodup_bringers
  keys name := by
    rw [order_fixedTables, ranges_fixedTables, isSome_groupOf]
    constructor
    · intro hname
      obtain ⟨e, he, hvs, rfl⟩ := mem_bringers.mp hname
      obtain ⟨net, hnet, hlies⟩ := h.bring e he hvs
      obtain ⟨hmasked, hv4⟩ := isV4_of_newEntries he hnet
      rw [h.names.lastGroup he hvs]
      exact List.ne_nil_of_mem
        (List.mem_filter.mpr ⟨hnet, (validRange_iff hnets hmasked hv4).mpr hlies⟩)
    · intro hne
      exact mem_bringers_of_lastGroup fun hnil => hne (by rw [hnil, List.filter_nil])
  ne_nil name cidrs hcidrs := by
    obtain ⟨_, -, -, -, hne⟩ := exists_of_fixedTables hcidrs
    exact hne
  inside name cidrs hcidrs cidr hcidr := by
    obtain ⟨e, he, -, rfl, -⟩ := exists_of_fixedTables hcidrs
    obtain ⟨hmem, hvalid⟩ := List.mem_filter.mp hcidr
    obtain ⟨hmasked, hv4⟩ := isV4_of_newEntries he hmem
    obtain ⟨outer, houter, -, hwithin⟩ := (validRange_iff hnets hmasked hv4).mp hvalid
    exact ⟨outer, houter, hwithin⟩
  once name cidrs hcidrs := by
    obtain ⟨e, he, -, rfl, -⟩ := exists_of_fixedTables hcidrs
    exact ((List.nodup_flatMap.mp (nodup_newEntries s)).1 e he).filter _
  apart name cidrs name' cidrs' hcidrs hcidrs' hne cidr hcidr hcidr' := by
    obtain ⟨e, he, rfl, rfl, -⟩ := exists_of_fixedTables hcidrs
    obtain ⟨e', he', rfl, rfl, -⟩ := exists_of_fixedTables hcidrs'
    have hdistinct : e ≠ e' := fun heq => hne (congrArg Prod.fst heq)
    have : Std.Symm (Function.onFun List.Disjoint fun e : Str × List IPNet => e.2) :=
      ⟨fun _ _ h => h.symm⟩
    have hdisjoint := (List.nodup_flatMap.mp (nodup_newEntries s)).2.forall he he' hdistinct
    exact hdisjoint (List.mem_of_mem_filter hcidr) (List.mem_of_mem_filter hcidr')
  kept e he cidr hcidr hlies := by
    obtain ⟨⟨entry, hentry, hmem⟩, hliesV4⟩ := h.listed e he cidr hcidr hlies
    obtain ⟨new, hnew, hnewMem⟩ := exists_newEntry hentry hmem
    obtain ⟨hmasked, hv4⟩ := isV4_of_newEntries hnew hnewMem
    obtain ⟨entry', hentry', hname, hsub⟩ := exists_of_mem_freshEntries hnew
    have hfilter : cidr ∈ new.2.filter (validRange nets) :=
      List.mem_filter.mpr ⟨hnewMem, (validRange_iff hnets hmasked hv4).mpr hliesV4⟩
    refine ⟨entry', rangeEntries_listed hentry', hsub cidr hnewMem, _, ?_, hfilter⟩
    rw [hname, ranges_fixedTables, h.names.lastGroup hnew (List.ne_nil_of_mem hnewMem), groupOf,
      if_neg (by simpa using List.ne_nil_of_mem hfilter)]

end

/-- After both functions the tables are consistent exactly when no name of an entry with new
networks comes again behind it, each such entry has a network inside of the server's, and every
listed network inside of the server's is one in the form of IPv4, in an entry with one colon. -/
theorem subnetRanges_consistent_iff {db : Db} {server : Server} (hserver : db.server = some server)
    (hvalid : ∀ addr ∈ server.interface.addresses, validateCIDR addr = true) (s : Str) :
    ∃ tables, validateAndFixSubnetRanges db (parseSubnetRanges [] s) = some tables ∧
      (Consistent (listedRanges s) (serverNets server.interface.addresses) tables ↔
        RangesFit s (serverNets server.interface.addresses)) :=
  ⟨_, validateAndFixSubnetRanges_eq hserver hvalid s,
    Consistent.rangesFit isPrefix_serverNets, RangesFit.consistent isPrefix_serverNets⟩

/-- The server of a store after its first start. -/
def freshServer : Server where
  keyPair := ⟨alphaKey.toText, alphaPublicKey.toText, usualTime⟩
  interface := ⟨[str "10.252.1.0/24"], 51820, usualTime, [], [], []⟩

theorem subnetRanges_consistent_iff_fresh :
    ∃ tables, validateAndFixSubnetRanges freshDb
        (parseSubnetRanges [] (str "LAN: 10.252.1.0/25; Guests: 10.252.1.128/25, 10.9.0.0/16")) =
          some tables ∧
      (Consistent
          (listedRanges (str "LAN: 10.252.1.0/25; Guests: 10.252.1.128/25, 10.9.0.0/16"))
          (serverNets [str "10.252.1.0/24"]) tables ↔
        RangesFit (str "LAN: 10.252.1.0/25; Guests: 10.252.1.128/25, 10.9.0.0/16")
          (serverNets [str "10.252.1.0/24"])) :=
  have hserver : freshDb.server = some freshServer := rfl
  subnetRanges_consistent_iff hserver (by decide +kernel) _

/-- A name that comes twice stands twice in the order, and its first networks are lost. -/
theorem not_subnetRanges_consistent :
    ∃ tables, validateAndFixSubnetRanges freshDb
        (parseSubnetRanges [] (str "LAN:10.252.1.0/25;LAN:10.252.1.128/25")) = some tables ∧
      ¬ Consistent (listedRanges (str "LAN:10.252.1.0/25;LAN:10.252.1.128/25"))
        (serverNets [str "10.252.1.0/24"]) tables := by
  have htwice : ¬ (bringers (newEntries (str "LAN:10.252.1.0/25;LAN:10.252.1.128/25"))).Nodup := by
    decide +kernel
  have hserver : freshDb.server = some freshServer := rfl
  exact ⟨_, validateAndFixSubnetRanges_eq hserver (by decide +kernel) _, fun h => htwice h.nodup⟩

end QrWireguard.WebUi
