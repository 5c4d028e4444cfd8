import QrWireguard.Misc.AddrText

/-!
# Networks as texts

`IPNet.String` writes the address and the length of the mask, and `ParseCIDR` reads that back.
-/

namespace QrWireguard

section
variable {w : Nat}

/-- `simpleMaskLength`: the number of leading ones, when there is nothing behind them. -/
def simpleMaskLength (mask : BitVec w) : Option Nat :=
  (List.range (w + 1)).find? fun n => mask == cidrMask n w

/-- The ones of `IPMask.Size`. -/
def maskSize (mask : BitVec w) : Nat := (simpleMaskLength mask).getD 0

/-- `IPMask.String`. -/
def maskString (mask : BitVec w) : Str :=
  (List.range (w / 4)).flatMap fun i => hexDigits (mask.extractLsb' (w - 4 * (i + 1)) 4).toNat

/-- An address and a mask, as `IPNet.String` writes them. -/
def cidrString (ip : IP) (mask : BitVec w) : Str :=
  ipString ip ++ '/' :: match simpleMaskLength mask with
    | some n => natDigits n
    | none => maskString mask

end

/-- The ones of the mask of a network. -/
def IPNet.ones : IPNet → Nat
  | .v4 _ mask => maskSize mask
  | .v6 _ mask => maskSize mask

/-- `IPNet.String`. -/
def IPNet.toText (net : IPNet) : Str :=
  match networkNumberAndMask net with
  | .v4 ip mask => cidrString (v4InV6Prefix ++ ip) mask
  | .v6 ip mask => cidrString ip mask

section
variable {n m w : Nat}

theorem cidrMask_injective (hn : n ≤ w) (hm : m ≤ w) (h : cidrMask n w = cidrMask m w) : n = m := by
  have hnot := congrArg (fun mask => (~~~ mask).toNat) h
  rw [toNat_not_cidrMask hn, toNat_not_cidrMask hm] at hnot
  have hpos : ∀ k : Nat, 1 ≤ 2 ^ k := fun k => Nat.one_le_two_pow
  have hpow : 2 ^ (w - n) = 2 ^ (w - m) := by
    have := hpos (w - n)
    have := hpos (w - m)
    omega
  have := Nat.pow_right_injective le_rfl hpow
  omega

@[simp] theorem simpleMaskLength_cidrMask (h : n ≤ w) :
    simpleMaskLength (cidrMask n w) = some n := by
  rw [simpleMaskLength, List.find?_range_eq_some]
  refine ⟨by simp, List.mem_range.mpr (by omega), fun j hj => ?_⟩
  have hne : cidrMask n w ≠ cidrMask j w := fun heq => by
    have := cidrMask_injective h (by omega) heq
    omega
  simpa using hne

@[simp] theorem maskSize_cidrMask (h : n ≤ w) : maskSize (cidrMask n w) = n := by
  rw [maskSize, simpleMaskLength_cidrMask h, Option.getD_some]

theorem cidrString_cidrMask (ip : IP) (h : n ≤ w) :
    cidrString ip (cidrMask n w) = ipString ip ++ '/' :: natDigits n := by
  rw [cidrString, simpleMaskLength_cidrMask h]

end

theorem isAddrChar_ipString {ip : IP} : ∀ c ∈ ipString ip, isAddrChar c = true :=
  isAddrChar_of_parseAddr (parseAddr_ipString ip)

theorem prefixLength_natDigits (n bitLen : Nat) :
    prefixLength (natDigits n) bitLen = if n ≤ bitLen then some n else none := by
  have hall : (natDigits n).all isdigit = true :=
    List.all_eq_true.mpr fun c hc => isdigit_of_mem_natDigits hc
  rw [prefixLength, decimal_natDigits]
  simp only [ne_eq, natDigits_ne_nil n, not_false_eq_true, hall, true_and]

/-- An address with a prefix length is read back. -/
theorem parseCIDR_slash (ip : IP) (n : Nat) :
    parseCIDR (ipString ip ++ '/' :: natDigits n) =
      match to4 ip with
      | some v4 =>
        if n ≤ 32 then some (ip, .v4 (v4 &&& cidrMask n 32) (cidrMask n 32)) else none
      | none =>
        if n ≤ 128 then some (ip, .v6 (ip &&& cidrMask n 128) (cidrMask n 128)) else none := by
  have haddr : '/' ∉ ipString ip := by
    intro hmem
    have hchar := isAddrChar_ipString _ hmem
    revert hchar
    decide
  have hspan : (ipString ip ++ '/' :: natDigits n).span (· ≠ '/') =
      (ipString ip, '/' :: natDigits n) := span_ne_eq_iff.mpr ⟨rfl, haddr⟩
  unfold parseCIDR
  split
  · next addr mask heq =>
    rw [hspan] at heq
    obtain ⟨rfl, hmask⟩ := Prod.mk.inj heq
    obtain ⟨-, rfl⟩ := List.cons.inj hmask
    rw [parseAddr_ipString]
    cases h : to4 ip with
    | some v4 =>
      have hip : v4InV6Prefix ++ v4 = ip := by
        rw [← BitVec.toNat_inj, toNat_mapped, to4_eq_some.mp h]
      dsimp only
      rw [prefixLength_natDigits, hip]
      split <;> rfl
    | none =>
      dsimp only
      rw [prefixLength_natDigits]
      split <;> rfl
  · next hno => exact absurd hspan (hno _ _)

/-- A network is read back from its text, in four bytes when it is one of IPv4 addresses. -/
theorem parseCIDR_toText {net : IPNet} (h : IsPrefix net) :
    parseCIDR net.toText = some (net.first, networkNumberAndMask net) := by
  cases h with
  | @v4 n hn x =>
    simp only [IPNet.toText, networkNumberAndMask, IPNet.first]
    rw [cidrString_cidrMask _ hn, parseCIDR_slash, to4_mapped]
    dsimp only
    rw [if_pos hn, BitVec.and_assoc, BitVec.and_self]
  | @v6 n hn x =>
    simp only [IPNet.toText, networkNumberAndMask, IPNet.first]
    cases h4 : to4 (x &&& cidrMask n 128) with
    | none =>
      dsimp only
      rw [cidrString_cidrMask _ hn, parseCIDR_slash, h4]
      dsimp only
      rw [if_pos hn, BitVec.and_assoc, BitVec.and_self]
    | some v4 =>
      have hge := ge_96_of_to4 hn h4
      have hip : v4InV6Prefix ++ v4 = x &&& cidrMask n 128 := by
        rw [← BitVec.toNat_inj, toNat_mapped, to4_eq_some.mp h4]
      dsimp only
      rw [extractLsb_cidrMask hge, cidrString_cidrMask _ (by omega), parseCIDR_slash, to4_mapped]
      dsimp only
      rw [if_pos (by omega), hip, mapped_and_cidrMask hn h4]

/-! ## Networks in networks -/

/-- Whether the addresses of a network are addresses of another one. -/
def Within (net outer : IPNet) : Prop := ∀ ip, contains net ip = true → contains outer ip = true

/-- Whether a network is held in four bytes. -/
def IPNet.IsV4 : IPNet → Prop
  | .v4 _ _ => True
  | .v6 _ _ => False

/-- A text without colons is one of a network in four bytes. -/
theorem isV4_of_parseCIDR {s : Str} {ip : IP} {net : IPNet} (hs : ':' ∉ s)
    (h : parseCIDR s = some (ip, net)) : net.IsV4 := by
  unfold parseCIDR at h
  split at h
  · next addr mask hspan =>
    split at h
    · obtain ⟨n, -, heq⟩ := Option.map_eq_some_iff.mp h
      obtain ⟨-, rfl⟩ := Prod.mk.inj heq
      trivial
    · next v6 haddr =>
      have hcolon : ':' ∈ addr := by
        unfold parseAddr at haddr
        split at haddr
        · obtain ⟨_, _, hno⟩ := Option.map_eq_some_iff.mp haddr
          cases hno
        · next hfind => exact List.mem_of_find?_eq_some hfind
        · cases haddr
      rw [(span_ne_eq_iff.mp hspan).1] at hs
      exact absurd (List.mem_append_left _ hcolon) hs
    · cases h
  · cases h

section
variable {net outer : IPNet}

theorem first_le_last (h : IsPrefix net) : net.first.toNat ≤ net.last.toNat := by
  cases h with
  | v4 hn x =>
    rw [IPNet.first, IPNet.last, toNat_mapped, toNat_mapped, toNat_masked_or hn,
      toNat_and_cidrMask hn]
    omega
  | v6 hn x =>
    rw [IPNet.first, IPNet.last, toNat_masked_or hn, toNat_and_cidrMask hn]
    exact Nat.le_add_right _ _

theorem contains_first (h : IsPrefix net) : contains net net.first = true := by
  exact (contains_iff h).mpr ⟨le_rfl, first_le_last h, Iff.rfl⟩

/-- The text of a network in four bytes is its own. -/
theorem toText_injective_v4 {net' : IPNet} (h : IsPrefix net) (h' : IsPrefix net') (hv4 : net.IsV4)
    (hv4' : net'.IsV4) (heq : net.toText = net'.toText) : net = net' := by
  have hparse := parseCIDR_toText h
  rw [heq, parseCIDR_toText h'] at hparse
  obtain ⟨-, hnet⟩ := Prod.mk.inj (Option.some.inj hparse)
  cases net with
  | v6 => exact hv4.elim
  | v4 =>
    cases net' with
    | v6 => exact hv4'.elim
    | v4 => exact hnet.symm

/-- Blocks of a size, among blocks of a multiple of it. -/
theorem block_le {q p size times : Nat} (hlt : q * size < p * (size * times) + size * times) :
    q * size + size ≤ p * (size * times) + size * times := by
  have hcount : q < p * times + times := by
    refine Nat.lt_of_mul_lt_mul_right (a := size) (hlt.trans_eq ?_)
    ring
  calc q * size + size = (q + 1) * size := by ring
    _ ≤ (p * times + times) * size := Nat.mul_le_mul_right size hcount
    _ = p * (size * times) + size * times := by ring

/-- One block lies within another one when it is no longer and starts there. -/
theorem block_within_iff {n m w : Nat} (hn : n ≤ w) (hm : m ≤ w) (p q : Nat) :
    p * 2 ^ (w - m) ≤ q * 2 ^ (w - n) ∧
        q * 2 ^ (w - n) + (2 ^ (w - n) - 1) ≤ p * 2 ^ (w - m) + (2 ^ (w - m) - 1) ↔
      m ≤ n ∧ p * 2 ^ (w - m) ≤ q * 2 ^ (w - n) ∧
        q * 2 ^ (w - n) ≤ p * 2 ^ (w - m) + (2 ^ (w - m) - 1) := by
  have hpos : ∀ k, 0 < 2 ^ k := fun k => by positivity
  have hn' := hpos (w - n)
  have hm' := hpos (w - m)
  constructor
  · rintro ⟨hfirst, hlast⟩
    have hsize : 2 ^ (w - n) ≤ 2 ^ (w - m) := by omega
    have hle := (Nat.pow_le_pow_iff_right (by norm_num)).mp hsize
    exact ⟨by omega, hfirst, by omega⟩
  · rintro ⟨hle, hfirst, hlast⟩
    obtain ⟨times, htimes⟩ : ∃ times, 2 ^ (w - m) = 2 ^ (w - n) * times :=
      ⟨2 ^ (n - m), by rw [← pow_add]; congr 1; omega⟩
    have hblock := @block_le q p (2 ^ (w - n)) times
    rw [← htimes] at hblock
    omega

/-- Whether an address lies between the first and the last one of a network. -/
def IPNet.Covers (net : IPNet) (ip : IP) : Prop :=
  net.first.toNat ≤ ip.toNat ∧ ip.toNat ≤ net.last.toNat

/-- Whether a network is held in sixteen bytes and starts with no IPv4 address. -/
def IPNet.IsV6 : IPNet → Prop
  | .v4 _ _ => False
  | .v6 ip _ => to4 ip = none

theorem to4_first_v4 (h : net.IsV4) : (to4 net.first).isSome = true := by
  cases net with
  | v4 => rw [IPNet.first, to4_mapped]; rfl
  | v6 => exact h.elim

theorem to4_first_v6 (h : net.IsV6) : to4 net.first = none := by
  cases net with
  | v4 => exact h.elim
  | v6 => exact h

theorem covers_subset_iff (h : IsPrefix net) :
    (∀ ip, net.Covers ip → outer.Covers ip) ↔
      outer.first.toNat ≤ net.first.toNat ∧ net.last.toNat ≤ outer.last.toNat := by
  have hle := first_le_last h
  constructor
  · intro hsub
    exact ⟨(hsub net.first ⟨le_rfl, hle⟩).1, (hsub net.last ⟨hle, le_rfl⟩).2⟩
  · rintro ⟨hfirst, hlast⟩ ip ⟨hge, hlt⟩
    exact ⟨hfirst.trans hge, hlt.trans hlast⟩

/-- The address range of a network lies within the one of another network of the same kind when
its mask is at least as long and it starts there. -/
theorem covers_subset_iff_ones (h : IsPrefix net) (houter : IsPrefix outer)
    (hkind : outer.IsV4 ∧ net.IsV4 ∨ outer.IsV6 ∧ net.IsV6) :
    (∀ ip, net.Covers ip → outer.Covers ip) ↔ outer.ones ≤ net.ones ∧ outer.Covers net.first := by
  rw [covers_subset_iff h, IPNet.Covers]
  cases h with
  | @v4 n hn x =>
    cases houter with
    | @v4 m hm y =>
      simp only [IPNet.first, IPNet.last, IPNet.ones, maskSize_cidrMask hn, maskSize_cidrMask hm,
        toNat_mapped, toNat_masked_or hn, toNat_masked_or hm, toNat_and_cidrMask hn,
        toNat_and_cidrMask hm]
      have hwithin := block_within_iff hn hm (y.toNat / 2 ^ (32 - m)) (x.toNat / 2 ^ (32 - n))
      omega
    | v6 => simp [IPNet.IsV4, IPNet.IsV6] at hkind
  | @v6 n hn x =>
    cases houter with
    | v4 => simp [IPNet.IsV4, IPNet.IsV6] at hkind
    | @v6 m hm y =>
      simp only [IPNet.first, IPNet.last, IPNet.ones, maskSize_cidrMask hn, maskSize_cidrMask hm,
        toNat_masked_or hn, toNat_masked_or hm, toNat_and_cidrMask hn, toNat_and_cidrMask hm]
      exact block_within_iff hn hm _ _

/-- Networks in four bytes have all addresses of their range. -/
theorem contains_v4_iff (h : IsPrefix net) (hv4 : net.IsV4) {ip : IP} :
    contains net ip = true ↔ net.Covers ip := by
  rw [contains_iff h, IPNet.Covers]
  cases h with
  | v6 => exact hv4.elim
  | @v4 n hn x =>
    have hmapped := last_mapped (.v4 hn x)
    simp only [IPNet.first, IPNet.last, to4_isSome, toNat_mapped] at *
    omega

/-- A network in four bytes lies within another one when its mask is at least as long and its first
address is one of the other. -/
theorem within_v4_iff (h : IsPrefix net) (houter : IsPrefix outer) (hv4 : net.IsV4)
    (houter4 : outer.IsV4) :
    Within net outer ↔ outer.ones ≤ net.ones ∧ contains outer net.first = true := by
  rw [contains_v4_iff houter houter4, ← covers_subset_iff_ones h houter (.inl ⟨houter4, hv4⟩)]
  exact forall_congr' fun ip => by rw [contains_v4_iff h hv4, contains_v4_iff houter houter4]

end

end QrWireguard
