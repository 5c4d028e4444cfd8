import QrWireguard.Misc.GoNet

/-!
# Networks as ranges

A mask of leading ones cuts the addresses into blocks of the same size, and the addresses of a
network are those of one block. A network of IPv6 has no addresses of the block where the IPv4
addresses lie, even when that is part of its own.
-/

namespace QrWireguard

/-! ## Masks -/

section
variable {n w i : Nat}

theorem getLsbD_cidrMask : (cidrMask n w).getLsbD i = (decide (i < w) && decide (w ≤ n + i)) := by
  rw [cidrMask, BitVec.getLsbD_not, BitVec.getLsbD_ushiftRight, BitVec.getLsbD_allOnes]
  by_cases h : n + i < w
  · simp [h]
  · simp [h, not_lt.mp h]

/-- The mask keeps the leading bits. -/
theorem and_cidrMask (h : n ≤ w) (x : BitVec w) :
    x &&& cidrMask n w = x >>> (w - n) <<< (w - n) := by
  refine BitVec.eq_of_getLsbD_eq fun i hi => ?_
  rw [BitVec.getLsbD_and, getLsbD_cidrMask, BitVec.getLsbD_shiftLeft, BitVec.getLsbD_ushiftRight]
  by_cases hcut : i < w - n
  · simp [hcut, show ¬ w ≤ n + i by omega]
  · simp [hcut, hi, show w ≤ n + i by omega, show w - n + (i - (w - n)) = i by omega]

/-- A masked number is the start of its block. -/
theorem toNat_and_cidrMask (h : n ≤ w) (x : BitVec w) :
    (x &&& cidrMask n w).toNat = x.toNat / 2 ^ (w - n) * 2 ^ (w - n) := by
  have hle : x.toNat / 2 ^ (w - n) * 2 ^ (w - n) ≤ x.toNat := Nat.div_mul_le_self _ _
  rw [and_cidrMask h, BitVec.toNat_shiftLeft, BitVec.toNat_ushiftRight, Nat.shiftLeft_eq,
    Nat.shiftRight_eq_div_pow, Nat.mod_eq_of_lt (hle.trans_lt x.isLt)]

theorem toNat_not_cidrMask (h : n ≤ w) : (~~~ cidrMask n w).toNat = 2 ^ (w - n) - 1 := by
  obtain ⟨k, rfl⟩ := Nat.exists_eq_add_of_le h
  rw [cidrMask, BitVec.not_not, BitVec.toNat_ushiftRight, BitVec.toNat_allOnes,
    Nat.shiftRight_eq_div_pow, Nat.add_sub_cancel_left]
  have hpos : 0 < 2 ^ k := by positivity
  have hle : 2 ^ n ≤ 2 ^ k * 2 ^ n := Nat.le_mul_of_pos_left _ hpos
  refine Nat.div_eq_of_lt_le ?_ ?_
  · rw [Nat.sub_mul, one_mul, pow_add, Nat.mul_comm]
    exact Nat.sub_le_sub_left Nat.one_le_two_pow _
  · rw [Nat.sub_add_cancel hpos, pow_add, Nat.mul_comm]
    exact Nat.sub_lt (by positivity) one_pos

/-- With the bits behind the mask set, a number is the end of its block. -/
theorem toNat_or_not_cidrMask (h : n ≤ w) (x : BitVec w) :
    (x ||| ~~~ cidrMask n w).toNat =
      x.toNat / 2 ^ (w - n) * 2 ^ (w - n) + (2 ^ (w - n) - 1) := by
  have hsplit : x ||| ~~~ cidrMask n w = x &&& cidrMask n w ||| ~~~ cidrMask n w := by
    refine BitVec.eq_of_getLsbD_eq fun i hi => ?_
    simp only [BitVec.getLsbD_or, BitVec.getLsbD_and, BitVec.getLsbD_not]
    cases (cidrMask n w).getLsbD i <;> simp [hi]
  have hlt : 2 ^ (w - n) - 1 < 2 ^ (w - n) := Nat.sub_lt (by positivity) one_pos
  rw [hsplit, BitVec.toNat_or, toNat_and_cidrMask h, toNat_not_cidrMask h, ← Nat.shiftLeft_eq,
    Nat.shiftLeft_add_eq_or_of_lt hlt]

/-- The end of the block of a masked number. -/
theorem toNat_masked_or (h : n ≤ w) (x : BitVec w) :
    (x &&& cidrMask n w ||| ~~~ cidrMask n w).toNat =
      x.toNat / 2 ^ (w - n) * 2 ^ (w - n) + (2 ^ (w - n) - 1) := by
  rw [toNat_or_not_cidrMask h, toNat_and_cidrMask h, Nat.mul_div_cancel _ (by positivity)]

/-- Two numbers are the same behind the mask when they lie in one block. -/
theorem and_cidrMask_inj (h : n ≤ w) {x y : BitVec w} :
    x &&& cidrMask n w = y &&& cidrMask n w ↔
      x.toNat / 2 ^ (w - n) = y.toNat / 2 ^ (w - n) := by
  rw [← BitVec.toNat_inj, toNat_and_cidrMask h, toNat_and_cidrMask h]
  exact Nat.mul_left_inj (by positivity)

end

theorem div_eq_iff_between {a b q : Nat} (hb : 0 < b) :
    a / b = q ↔ q * b ≤ a ∧ a ≤ q * b + (b - 1) := by
  rw [Nat.div_eq_iff hb, Nat.mul_comm]
  omega

/-! ## IPv4 addresses among the others -/

theorem toNat_mapped (v4 : BitVec 32) :
    (v4InV6Prefix ++ v4).toNat = 0xFFFF * 2 ^ 32 + v4.toNat := by
  rw [BitVec.toNat_append, ← Nat.shiftLeft_add_eq_or_of_lt v4.isLt, Nat.shiftLeft_eq]
  rfl

theorem to4_eq_some {ip : IP} {v4 : BitVec 32} :
    to4 ip = some v4 ↔ ip.toNat = 0xFFFF * 2 ^ 32 + v4.toNat := by
  have hmasked : ip.extractLsb' 32 96 = v4InV6Prefix ↔ ip.toNat / 2 ^ 32 = 0xFFFF := by
    rw [← BitVec.toNat_inj, BitVec.extractLsb'_toNat, Nat.shiftRight_eq_div_pow,
      Nat.mod_eq_of_lt (by have := ip.isLt; omega)]
    rfl
  have hrest : (ip.extractLsb' 0 32).toNat = ip.toNat % 2 ^ 32 := by
    rw [BitVec.extractLsb'_toNat, Nat.shiftRight_zero]
  have hlt := v4.isLt
  unfold to4
  split
  · next h =>
    rw [hmasked] at h
    rw [Option.some.injEq, ← BitVec.toNat_inj, hrest]
    omega
  · next h =>
    rw [hmasked] at h
    simp only [reduceCtorEq, false_iff]
    omega

theorem to4_mapped (v4 : BitVec 32) : to4 (v4InV6Prefix ++ v4) = some v4 :=
  to4_eq_some.mpr (toNat_mapped v4)

theorem to4_isSome {ip : IP} : (to4 ip).isSome = true ↔ ip.toNat / 2 ^ 32 = 0xFFFF := by
  rw [Option.isSome_iff_exists]
  constructor
  · rintro ⟨v4, h⟩
    have hlt := v4.isLt
    rw [to4_eq_some] at h
    omega
  · intro h
    refine ⟨BitVec.ofNat 32 (ip.toNat % 2 ^ 32), to4_eq_some.mpr ?_⟩
    rw [BitVec.toNat_ofNat]
    omega

/-! ## Networks -/

/-- The network address. -/
def IPNet.first : IPNet → IP
  | .v4 ip _ => v4InV6Prefix ++ ip
  | .v6 ip _ => ip

/-- The broadcast address. -/
def IPNet.last : IPNet → IP
  | .v4 ip mask => v4InV6Prefix ++ (ip ||| ~~~ mask)
  | .v6 ip mask => ip ||| ~~~ mask

/-- The networks of CIDR texts: a mask of leading ones, and an address with nothing behind it. -/
inductive IsPrefix : IPNet → Prop
  | v4 {n : Nat} (hn : n ≤ 32) (ip : BitVec 32) :
      IsPrefix (.v4 (ip &&& cidrMask n 32) (cidrMask n 32))
  | v6 {n : Nat} (hn : n ≤ 128) (ip : BitVec 128) :
      IsPrefix (.v6 (ip &&& cidrMask n 128) (cidrMask n 128))

/-- What `ParseCIDR` returns for an IPv4 address and for another one. -/
theorem parseCIDR_cases {s : Str} {ip : IP} {net : IPNet} (h : parseCIDR s = some (ip, net)) :
    (∃ n ≤ 32, ∃ v4, ip = v4InV6Prefix ++ v4 ∧
      net = .v4 (v4 &&& cidrMask n 32) (cidrMask n 32)) ∨
    ∃ n ≤ 128, net = .v6 (ip &&& cidrMask n 128) (cidrMask n 128) := by
  have hle : ∀ {mask : Str} {bitLen n : Nat}, prefixLength mask bitLen = some n → n ≤ bitLen := by
    intro mask bitLen n h
    unfold prefixLength at h
    split at h
    · next hmask =>
      obtain rfl := Option.some.inj h
      exact hmask.2.2
    · cases h
  unfold parseCIDR at h
  split at h
  · split at h
    · next v4 _ =>
      obtain ⟨n, hn, heq⟩ := Option.map_eq_some_iff.mp h
      obtain ⟨rfl, rfl⟩ := Prod.mk.inj heq
      exact .inl ⟨n, hle hn, v4, rfl, rfl⟩
    · obtain ⟨n, hn, heq⟩ := Option.map_eq_some_iff.mp h
      obtain ⟨rfl, rfl⟩ := Prod.mk.inj heq
      exact .inr ⟨n, hle hn, rfl⟩
    · cases h
  · cases h

theorem parseCIDR_isPrefix {s : Str} {ip : IP} {net : IPNet} (h : parseCIDR s = some (ip, net)) :
    IsPrefix net := by
  obtain ⟨n, hn, v4, -, rfl⟩ | ⟨n, hn, rfl⟩ := parseCIDR_cases h
  · exact .v4 hn _
  · exact .v6 hn _

section
variable {net : IPNet} {ip : IP}

/-- An IPv6 network that starts in the block of the IPv4 addresses has a mask at least as long as
the prefix of that block. -/
theorem ge_96_of_to4 {n : Nat} (hn : n ≤ 128) {x : BitVec 128} {v4 : BitVec 32}
    (h : to4 (x &&& cidrMask n 128) = some v4) : 96 ≤ n := by
  by_contra hlt
  have hblock := to4_isSome.mp (Option.isSome_iff_exists.mpr ⟨v4, h⟩)
  rw [toNat_and_cidrMask hn] at hblock
  obtain ⟨k, hk⟩ : ∃ k, 128 - n = k + 1 + 32 := ⟨95 - n, by omega⟩
  rw [hk, pow_add, ← Nat.mul_assoc, Nat.mul_div_cancel _ (by norm_num), pow_succ,
    ← Nat.mul_assoc] at hblock
  omega

theorem extractLsb_cidrMask {n : Nat} (hge : 96 ≤ n) :
    (cidrMask n 128).extractLsb' 0 32 = cidrMask (n - 96) 32 := by
  refine BitVec.eq_of_getLsbD_eq fun i hi => ?_
  rw [BitVec.getLsbD_extractLsb', getLsbD_cidrMask, getLsbD_cidrMask, Nat.zero_add]
  simp only [hi, decide_true, Bool.true_and, show i < 128 by omega]
  exact decide_eq_decide.mpr (by omega)

/-- The addresses of one kind that a network starts with go on to its end. -/
theorem div_last_of_ge {n : Nat} (hn : n ≤ 128) (hge : 96 ≤ n) (x : BitVec 128) :
    (x &&& cidrMask n 128 ||| ~~~ cidrMask n 128).toNat / 2 ^ 32 =
      (x &&& cidrMask n 128).toNat / 2 ^ 32 := by
  have hsize : 2 ^ 32 = 2 ^ (128 - n) * 2 ^ (n - 96) := by
    rw [← pow_add]
    congr 1
    omega
  have hlt : 2 ^ (128 - n) - 1 < 2 ^ (128 - n) := Nat.sub_lt (by positivity) one_pos
  rw [toNat_masked_or hn, toNat_and_cidrMask hn, hsize, ← Nat.div_div_eq_div_mul,
    ← Nat.div_div_eq_div_mul, Nat.mul_div_cancel _ (by positivity), Nat.mul_comm,
    Nat.mul_add_div (by positivity), Nat.div_eq_of_lt hlt, Nat.add_zero]

/-- The number of a network of IPv4 addresses in four bytes has nothing behind the mask either. -/
theorem mapped_and_cidrMask {n : Nat} (hn : n ≤ 128) {x : BitVec 128} {v4 : BitVec 32}
    (h : to4 (x &&& cidrMask n 128) = some v4) : v4 &&& cidrMask (n - 96) 32 = v4 := by
  have hmask := extractLsb_cidrMask (ge_96_of_to4 hn h)
  unfold to4 at h
  split at h
  · rw [Option.some.injEq, BitVec.extractLsb'_and, hmask] at h
    rw [← h, BitVec.and_assoc, BitVec.and_self]
  · cases h

/-- A network that starts with IPv4 addresses ends with them. -/
theorem last_mapped (h : IsPrefix net) (hfirst : net.first.toNat / 2 ^ 32 = 0xFFFF) :
    net.last.toNat / 2 ^ 32 = 0xFFFF := by
  cases h with
  | @v4 n hn x =>
    have hlt := (x &&& cidrMask n 32 ||| ~~~ cidrMask n 32).isLt
    rw [IPNet.last, toNat_mapped]
    omega
  | @v6 n hn x =>
    obtain ⟨v4, h4⟩ := Option.isSome_iff_exists.mp (to4_isSome.mpr hfirst)
    rw [← hfirst]
    exact div_last_of_ge hn (ge_96_of_to4 hn h4) x

/-- A network is the range from its first to its last address, as far as these are of the same
kind. -/
theorem contains_iff (h : IsPrefix net) :
    contains net ip = true ↔ net.first.toNat ≤ ip.toNat ∧ ip.toNat ≤ net.last.toNat ∧
      ((to4 ip).isSome = true ↔ (to4 net.first).isSome = true) := by
  cases h with
  | @v4 n hn x =>
    have hfirst : (to4 (v4InV6Prefix ++ (x &&& cidrMask n 32))).isSome = true := by
      rw [to4_mapped]
      rfl
    simp only [IPNet.first, IPNet.last, hfirst, iff_true, toNat_mapped, toNat_and_cidrMask hn,
      toNat_masked_or hn]
    cases h4 : to4 ip with
    | none => simp [contains, networkNumberAndMask, h4]
    | some v =>
      have hip := to4_eq_some.mp h4
      have hpos : 0 < 2 ^ (32 - n) := by positivity
      simp only [contains, networkNumberAndMask, h4, BitVec.and_assoc, BitVec.and_self, beq_iff_eq,
        and_cidrMask_inj hn, eq_comm (a := x.toNat / 2 ^ (32 - n)), div_eq_iff_between hpos,
        Option.isSome_some, and_true]
      omega
  | @v6 n hn x =>
    simp only [IPNet.first, IPNet.last, toNat_and_cidrMask hn, toNat_masked_or hn]
    have hpos : 0 < 2 ^ (128 - n) := by positivity
    cases hfirst : to4 (x &&& cidrMask n 128) with
    | none =>
      cases h4 : to4 ip with
      | none =>
        simp only [contains, networkNumberAndMask, hfirst, h4, BitVec.and_assoc, BitVec.and_self,
          beq_iff_eq, and_cidrMask_inj hn, eq_comm (a := x.toNat / 2 ^ (128 - n)),
          div_eq_iff_between hpos, and_true]
      | some v => simp [contains, networkNumberAndMask, hfirst, h4]
    | some v4 =>
      have hge := ge_96_of_to4 hn hfirst
      have hnumber := to4_eq_some.mp hfirst
      rw [toNat_and_cidrMask hn] at hnumber
      cases h4 : to4 ip with
      | none => simp [contains, networkNumberAndMask, hfirst, h4]
      | some v =>
        have hip := to4_eq_some.mp h4
        have hbits : 32 - (n - 96) = 128 - n := by omega
        have hv4 : v4.toNat / 2 ^ (128 - n) * 2 ^ (128 - n) = v4.toNat := by
          rw [← hbits, ← toNat_and_cidrMask (by omega), mapped_and_cidrMask hn hfirst]
        simp only [contains, networkNumberAndMask, hfirst, h4, extractLsb_cidrMask hge, beq_iff_eq,
          and_cidrMask_inj (show n - 96 ≤ 32 by omega), hbits,
          eq_comm (a := v4.toNat / 2 ^ (128 - n)), div_eq_iff_between hpos, hv4,
          Option.isSome_some, and_true]
        omega

end

end QrWireguard
