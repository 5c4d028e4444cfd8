import Mathlib.Data.Nat.Digits.Defs
import QrWireguard.Misc.Split

/-!
# Addresses of Go's net package

An address has the sixteen bytes of `net.IP`, with an IPv4 address behind the prefix
`::ffff:0:0/96`. The parsers are those of `net/netip`, on which `net` rests.
-/

namespace QrWireguard

/-- An address. -/
abbrev IP := BitVec 128

/-- A network, with the address and the mask in four bytes or in sixteen. -/
inductive IPNet where
  | v4 (ip mask : BitVec 32)
  | v6 (ip mask : BitVec 128)
  deriving DecidableEq

/-- A hexadecimal digit. -/
def isxdigit (c : Char) : Bool :=
  isdigit c || (decide ('a' ≤ c) && decide (c ≤ 'f')) || (decide ('A' ≤ c) && decide (c ≤ 'F'))

/-- The value of a hexadecimal digit. -/
def xdigitVal (c : Char) : Nat :=
  if isdigit c then digitVal c
  else if 'a' ≤ c then c.toNat - 'a'.toNat + 10
  else c.toNat - 'A'.toNat + 10

/-- The number a run of hexadecimal digits denotes. -/
def hexadecimal (s : Str) : Nat := s.foldl (fun n c => 16 * n + xdigitVal c) 0

/-- One of the four fields of an IPv4 address: at most 255, without leading zeros. -/
def ipv4Field (s : Str) : Option Nat :=
  if s ≠ [] ∧ s.all isdigit = true ∧ (s.head? = some '0' → s = ['0']) ∧ decimal s ≤ 255 then
    some (decimal s)
  else none

/-- `netip.parseIPv4`. -/
def parseIPv4 (s : Str) : Option (BitVec 32) :=
  match (split ['.'] s).map ipv4Field with
  | [some a, some b, some c, some d] => some (BitVec.ofNat 32 (((a * 256 + b) * 256 + c) * 256 + d))
  | _ => none

/-- The loop of `netip.parseIPv6`: the sixteen-bit groups read so far, the place of the ellipsis
among them, and the rest of the text. The fuel is the number of groups there is room for. -/
def ipv6Loop (fuel : Nat) (groups : List Nat) (ellipsis : Option Nat) (s : Str) :
    Option (List Nat × Option Nat) :=
  match fuel with
  | 0 => if s = [] then some (groups, ellipsis) else none
  | fuel + 1 =>
    let digits := s.takeWhile isxdigit
    if digits = [] ∨ 0xFFFF < hexadecimal digits then none
    else match s.dropWhile isxdigit with
      | '.' :: _ =>
        if ellipsis = none ∧ groups.length ≠ 6 then none
        else if fuel = 0 then none
        else (parseIPv4 s).map fun v4 =>
          (groups ++ [v4.toNat / 65536, v4.toNat % 65536], ellipsis)
      | [] => some (groups ++ [hexadecimal digits], ellipsis)
      | ':' :: ':' :: rest =>
        let groups := groups ++ [hexadecimal digits]
        if ellipsis.isSome then none
        else if rest = [] then some (groups, some groups.length)
        else ipv6Loop fuel groups (some groups.length) rest
      | ':' :: c :: rest => ipv6Loop fuel (groups ++ [hexadecimal digits]) ellipsis (c :: rest)
      | _ => none

/-- The eight groups, with the zeros the ellipsis stands for. -/
def expandEllipsis (groups : List Nat) (ellipsis : Option Nat) : Option (List Nat) :=
  match ellipsis with
  | none => if groups.length = 8 then some groups else none
  | some i =>
    if groups.length < 8 then
      some (groups.take i ++ List.replicate (8 - groups.length) 0 ++ groups.drop i)
    else none

/-- `netip.parseIPv6`, without a zone. -/
def parseIPv6 (s : Str) : Option (BitVec 128) :=
  let groups :=
    match s with
    | [':', ':'] => some ([], some 0)
    | ':' :: ':' :: rest => ipv6Loop 8 [] (some 0) rest
    | s => ipv6Loop 8 [] none s
  groups.bind fun g => (expandEllipsis g.1 g.2).map fun groups =>
    BitVec.ofNat 128 (groups.foldl (fun n g => n * 65536 + g) 0)

/-- The prefix of the addresses that are IPv4 addresses. -/
def v4InV6Prefix : BitVec 96 := 0xFFFF

/-- `netip.ParseAddr`, for addresses without a zone: the first dot or colon decides. -/
def parseAddr (s : Str) : Option (BitVec 32 ⊕ BitVec 128) :=
  match s.find? fun c => c == '.' || c == ':' with
  | some '.' => (parseIPv4 s).map .inl
  | some ':' => (parseIPv6 s).map .inr
  | _ => none

/-- `As16`. -/
def as16 : BitVec 32 ⊕ BitVec 128 → IP
  | .inl v4 => v4InV6Prefix ++ v4
  | .inr v6 => v6

/-- `net.ParseIP`. -/
def parseIP (s : Str) : Option IP := (parseAddr s).map as16

/-- `CIDRMask`. -/
def cidrMask (n w : Nat) : BitVec w := ~~~ (BitVec.allOnes w >>> n)

/-- The prefix length of a CIDR text: decimal digits and nothing else. -/
def prefixLength (mask : Str) (bitLen : Nat) : Option Nat :=
  if mask ≠ [] ∧ mask.all isdigit = true ∧ decimal mask ≤ bitLen then some (decimal mask) else none

/-- `net.ParseCIDR`. -/
def parseCIDR (s : Str) : Option (IP × IPNet) :=
  match s.span (· ≠ '/') with
  | (addr, '/' :: mask) =>
    match parseAddr addr with
    | some (.inl v4) => (prefixLength mask 32).map fun n =>
      (v4InV6Prefix ++ v4, .v4 (v4 &&& cidrMask n 32) (cidrMask n 32))
    | some (.inr v6) => (prefixLength mask 128).map fun n =>
      (v6, .v6 (v6 &&& cidrMask n 128) (cidrMask n 128))
    | none => none
  | _ => none

/-- `IP.To4`. -/
def to4 (ip : IP) : Option (BitVec 32) :=
  if ip.extractLsb' 32 96 = v4InV6Prefix then some (ip.extractLsb' 0 32) else none

/-- `networkNumberAndMask`. -/
def networkNumberAndMask : IPNet → IPNet
  | .v4 ip mask => .v4 ip mask
  | .v6 ip mask =>
    match to4 ip with
    | some v4 => .v4 v4 (mask.extractLsb' 0 32)
    | none => .v6 ip mask

/-- `IPNet.Contains`. -/
def contains (net : IPNet) (ip : IP) : Bool :=
  match networkNumberAndMask net, to4 ip with
  | .v4 number mask, some v4 => number &&& mask == v4 &&& mask
  | .v6 number mask, none => number &&& mask == ip &&& mask
  | _, _ => false

/-- The hexadecimal digits of a group, without leading zeros. -/
def hexDigits (n : Nat) : Str :=
  if n = 0 then ['0']
  else ((Nat.digits 16 n).map fun d => Char.ofNat (if d < 10 then 48 + d else 87 + d)).reverse

/-- The eight groups of an address. -/
def ipGroups (ip : IP) : List Nat :=
  (List.range 8).map fun i => (ip.extractLsb' (16 * (7 - i)) 16).toNat

/-- The first longest run of at least two zero groups: its start and its length. -/
def zeroRun (groups : List Nat) : Option (Nat × Nat) :=
  (List.range groups.length).foldl
    (fun best i =>
      let length := ((groups.drop i).takeWhile (· = 0)).length
      if 2 ≤ length ∧ (best.map (·.2)).getD 0 < length then some (i, length) else best)
    none

/-- `IP.String`. -/
def ipString (ip : IP) : Str :=
  match to4 ip with
  | some v4 => unsplit ['.'] ((List.range 4).map fun i =>
      natDigits (v4.extractLsb' (8 * (3 - i)) 8).toNat)
  | none =>
    let groups := ipGroups ip
    match zeroRun groups with
    | none => unsplit [':'] (groups.map hexDigits)
    | some (start, length) =>
      unsplit [':'] ((groups.take start).map hexDigits) ++ [':', ':'] ++
        unsplit [':'] ((groups.drop (start + length)).map hexDigits)

/-- A character of an address. -/
def isAddrChar (c : Char) : Bool := isxdigit c || c == '.' || c == ':'

theorem isAddrChar_of_isdigit {c : Char} (h : isdigit c = true) : isAddrChar c = true := by
  simp [isAddrChar, isxdigit, h]

theorem isdigit_of_ipv4Field {s : Str} {n : Nat} (h : ipv4Field s = some n) :
    ∀ c ∈ s, isdigit c = true := by
  unfold ipv4Field at h
  split at h
  · rename_i hs
    exact List.all_eq_true.mp hs.2.1
  · cases h

theorem mem_of_parseIPv4 {s : Str} {ip : BitVec 32} (h : parseIPv4 s = some ip) :
    ∀ c ∈ s, c = '.' ∨ isdigit c = true := by
  unfold parseIPv4 at h
  split at h
  · rename_i w x y z hfields
    intro c hc
    rcases mem_of_mem_split (List.cons_ne_nil '.' []) hc with hdot | ⟨piece, hpiece, hmem⟩
    · exact .inl (List.mem_singleton.mp hdot)
    · have hfield : ipv4Field piece ∈ (split ['.'] s).map ipv4Field :=
        List.mem_map_of_mem hpiece
      rw [hfields] at hfield
      obtain ⟨n, hn⟩ : ∃ n, ipv4Field piece = some n := by
        simp only [List.mem_cons, List.not_mem_nil, or_false] at hfield
        rcases hfield with h | h | h | h <;> exact ⟨_, h⟩
      exact .inr (isdigit_of_ipv4Field hn c hmem)
  · cases h

theorem isAddrChar_of_parseIPv4 {s : Str} {ip : BitVec 32} (h : parseIPv4 s = some ip) :
    ∀ c ∈ s, isAddrChar c = true := by
  intro c hc
  rcases mem_of_parseIPv4 h c hc with rfl | hdigit
  · rfl
  · exact isAddrChar_of_isdigit hdigit

theorem isAddrChar_takeWhile {s : Str} : ∀ c ∈ s.takeWhile isxdigit, isAddrChar c = true := by
  intro c hc
  have hdigit := List.mem_takeWhile_imp hc
  simp [isAddrChar, hdigit]

theorem isAddrChar_of_ipv6Loop {fuel : Nat} {groups : List Nat} {ellipsis : Option Nat} {s : Str}
    {r : List Nat × Option Nat} (h : ipv6Loop fuel groups ellipsis s = some r) :
    ∀ c ∈ s, isAddrChar c = true := by
  induction fuel generalizing groups ellipsis s with
  | zero =>
    unfold ipv6Loop at h
    split at h
    · rename_i hnil
      rw [hnil]
      exact fun c hc => absurd hc List.not_mem_nil
    · cases h
  | succ fuel ih =>
    have hdigits : ∀ c ∈ s.takeWhile isxdigit, isAddrChar c = true := isAddrChar_takeWhile
    -- the rest behind the digits of a group has only colons and what the next step reads
    have hjoin : (∀ c ∈ s.dropWhile isxdigit, isAddrChar c = true) →
        ∀ c ∈ s, isAddrChar c = true := by
      intro hrest c hc
      rw [← List.takeWhile_append_dropWhile (p := isxdigit) (l := s)] at hc
      rcases List.mem_append.mp hc with hfront | hback
      · exact hdigits c hfront
      · exact hrest c hback
    unfold ipv6Loop at h
    dsimp only at h
    split at h
    · cases h
    split at h
    · -- an IPv4 address at the end
      split at h
      · cases h
      split at h
      · cases h
      obtain ⟨ip, hip, -⟩ := Option.map_eq_some_iff.mp h
      exact isAddrChar_of_parseIPv4 hip
    · rename_i hnil
      apply hjoin
      rw [hnil]
      exact fun c hc => absurd hc List.not_mem_nil
    · rename_i rest hrest
      apply hjoin
      rw [hrest]
      split at h
      · cases h
      have htail : ∀ c ∈ rest, isAddrChar c = true := by
        split at h
        · rename_i hnil
          rw [hnil]
          exact fun c hc => absurd hc List.not_mem_nil
        · exact ih h
      intro c hc
      rcases List.mem_cons.mp hc with rfl | hc
      · rfl
      rcases List.mem_cons.mp hc with rfl | hc
      · rfl
      exact htail c hc
    · rename_i x rest _ hrest
      apply hjoin
      rw [hrest]
      intro c hc
      rcases List.mem_cons.mp hc with rfl | hc
      · rfl
      exact ih h c hc
    · cases h

theorem isAddrChar_of_parseIPv6 {s : Str} {ip : BitVec 128} (h : parseIPv6 s = some ip) :
    ∀ c ∈ s, isAddrChar c = true := by
  unfold parseIPv6 at h
  obtain ⟨r, hr, -⟩ := Option.bind_eq_some_iff.mp h
  split at hr
  · exact List.all_eq_true.mp (by decide)
  · rename_i rest _
    intro c hc
    rcases List.mem_cons.mp hc with rfl | hc
    · rfl
    rcases List.mem_cons.mp hc with rfl | hc
    · rfl
    exact isAddrChar_of_ipv6Loop hr c hc
  · exact isAddrChar_of_ipv6Loop hr

theorem isAddrChar_of_parseAddr {s : Str} {addr : BitVec 32 ⊕ BitVec 128}
    (h : parseAddr s = some addr) : ∀ c ∈ s, isAddrChar c = true := by
  unfold parseAddr at h
  split at h
  · obtain ⟨ip, hip, -⟩ := Option.map_eq_some_iff.mp h
    exact isAddrChar_of_parseIPv4 hip
  · obtain ⟨ip, hip, -⟩ := Option.map_eq_some_iff.mp h
    exact isAddrChar_of_parseIPv6 hip
  · cases h

theorem isdigit_of_prefixLength {mask : Str} {bitLen n : Nat}
    (h : prefixLength mask bitLen = some n) : ∀ c ∈ mask, isdigit c = true := by
  unfold prefixLength at h
  split at h
  · rename_i hmask
    exact List.all_eq_true.mp hmask.2.1
  · cases h

/-- A CIDR text has the characters of addresses and a slash. -/
theorem isAddrChar_of_parseCIDR {s : Str} {r : IP × IPNet} (h : parseCIDR s = some r) :
    ∀ c ∈ s, isAddrChar c = true ∨ c = '/' := by
  unfold parseCIDR at h
  split at h
  · rename_i addr mask hspan
    have hs : s = addr ++ '/' :: mask := (span_ne_eq_iff.mp hspan).1
    have hparts : (∀ c ∈ addr, isAddrChar c = true) ∧ ∀ c ∈ mask, isdigit c = true := by
      split at h
      · rename_i v4 haddr
        obtain ⟨n, hn, -⟩ := Option.map_eq_some_iff.mp h
        exact ⟨isAddrChar_of_parseAddr haddr, isdigit_of_prefixLength hn⟩
      · rename_i v6 haddr
        obtain ⟨n, hn, -⟩ := Option.map_eq_some_iff.mp h
        exact ⟨isAddrChar_of_parseAddr haddr, isdigit_of_prefixLength hn⟩
      · cases h
    intro c hc
    rw [hs, List.mem_append, List.mem_cons] at hc
    rcases hc with haddr | hslash | hmask
    · exact .inl (hparts.1 c haddr)
    · exact .inr hslash
    · exact .inl (isAddrChar_of_isdigit (hparts.2 c hmask))
  · cases h

example : (parseCIDR (str "2001:DB8::1/64")).map (fun r => ipString r.1) = some (str "2001:db8::1") := by
  decide +kernel
example : (parseCIDR (str "10.252.1.7/24")).map (fun r => contains r.2 r.1) = some true := by
  decide +kernel

end QrWireguard
