import QrWireguard.Misc.Inet
import QrWireguard.Misc.NetText

/-!
# Addresses of the C library read back

What `inet_ntoa` writes is read back by `inet_aton`, and by the parsers of Go too.
-/

namespace QrWireguard

variable {n room address : Nat} {rest : Str}

theorem strtoul_zero (h : ∀ c ∈ rest.head?, c = '.') : strtoul ('0' :: rest) = (0, rest) := by
  cases rest with
  | nil => decide
  | cons c rest =>
    obtain rfl := h c rfl
    cases rest with
    | nil => decide
    | cons d rest => rfl

theorem strtoul_digits {digits : Str} (hne : digits ≠ []) (hzero : digits.head? ≠ some '0')
    (hdigits : ∀ c ∈ digits, isdigit c = true) (h : ∀ c ∈ rest.head?, c = '.') :
    strtoul (digits ++ rest) = (decimal digits, rest) := by
  have hstop : rest.takeWhile isdigit = [] ∧ rest.dropWhile isdigit = rest := by
    cases rest with
    | nil => exact ⟨rfl, rfl⟩
    | cons c rest =>
      obtain rfl := h c rfl
      exact ⟨List.takeWhile_cons_of_neg (by decide), List.dropWhile_cons_of_neg (by decide)⟩
  obtain ⟨c, cs, rfl⟩ := List.exists_cons_of_ne_nil hne
  have hc : c ≠ '0' := fun heq => hzero (by rw [heq]; rfl)
  unfold strtoul
  split
  · next heq => exact absurd (List.cons.inj heq).1 hc
  · next heq => exact absurd (List.cons.inj heq).1 hc
  · rw [List.takeWhile_append_of_pos hdigits, List.dropWhile_append_of_pos hdigits, hstop.1,
      hstop.2, List.append_nil]

/-- The number that a text begins with is read, up to the dot behind it. -/
theorem strtoul_natDigits (n : Nat) (h : ∀ c ∈ rest.head?, c = '.') :
    strtoul (natDigits n ++ rest) = (n, rest) := by
  by_cases hzero : (natDigits n).head? = some '0'
  · have htext := head_natDigits hzero
    have hn := decimal_natDigits n
    rw [htext] at hn ⊢
    rw [← hn]
    exact strtoul_zero h
  · have hdigits : ∀ c ∈ natDigits n, isdigit c = true := fun c hc => isdigit_of_mem_natDigits hc
    rw [strtoul_digits (natDigits_ne_nil n) hzero hdigits h, decimal_natDigits]

theorem isdigit_firstByte_natDigits (n : Nat) (rest : Str) :
    isdigit (firstByte (natDigits n ++ rest)) = true := by
  obtain ⟨c, cs, hcs⟩ := List.exists_cons_of_ne_nil (natDigits_ne_nil n)
  have hc : isdigit c = true := isdigit_of_mem_natDigits (hcs ▸ List.mem_cons_self)
  rw [hcs]
  exact hc

theorem inetAtonLoop_dot (hn : n ≤ 255) (rest : Str) :
    inetAtonLoop (room + 1) address (natDigits n ++ '.' :: rest) =
      inetAtonLoop room (address * 256 + n) rest := by
  have hread : strtoul (natDigits n ++ '.' :: rest) = (n, '.' :: rest) :=
    strtoul_natDigits n fun c hc => (Option.some.inj hc).symm
  rw [inetAtonLoop, if_pos (isdigit_firstByte_natDigits n _), hread]
  exact if_pos hn

theorem inetAtonLoop_last (hn : n ≤ 255) :
    inetAtonLoop 0 address (natDigits n) = some (BitVec.ofNat 32 (address * 256 + n)) := by
  have hread : strtoul (natDigits n) = (n, []) := by
    have hnil := @strtoul_natDigits [] n fun c hc => by cases hc
    rwa [List.append_nil] at hnil
  have hfirst : isdigit (firstByte (natDigits n)) = true := by
    have hnil := isdigit_firstByte_natDigits n []
    rwa [List.append_nil] at hnil
  rw [inetAtonLoop, if_pos hfirst, hread]
  exact if_pos ⟨.inl rfl, lt_of_le_of_lt hn (by decide)⟩

/-- The four numbers of an address. -/
def octet (addr : BitVec 32) (i : Nat) : Nat := (addr.extractLsb' (8 * i) 8).toNat

theorem octet_le (addr : BitVec 32) (i : Nat) : octet addr i ≤ 255 := by
  have hlt := (addr.extractLsb' (8 * i) 8).isLt
  unfold octet
  omega

theorem inetNtoa_eq (addr : BitVec 32) : inetNtoa addr = natDigits (octet addr 3) ++ '.' ::
    (natDigits (octet addr 2) ++ '.' :: (natDigits (octet addr 1) ++ '.' ::
      natDigits (octet addr 0))) := by
  simp [inetNtoa, unsplit, List.range_succ, octet]

theorem octets_eq (addr : BitVec 32) :
    ((octet addr 3 * 256 + octet addr 2) * 256 + octet addr 1) * 256 + octet addr 0 =
      addr.toNat := by
  have hlt := addr.isLt
  simp only [octet, BitVec.extractLsb'_toNat, Nat.shiftRight_eq_div_pow]
  omega

/-- What `inet_ntoa` writes is read back. -/
theorem inetAton_inetNtoa (addr : BitVec 32) : inetAton (inetNtoa addr) = some addr := by
  rw [inetAton, inetNtoa_eq, inetAtonLoop_dot (octet_le addr 3), inetAtonLoop_dot (octet_le addr 2),
    inetAtonLoop_dot (octet_le addr 1), inetAtonLoop_last (octet_le addr 0), Nat.zero_mul,
    Nat.zero_add, octets_eq, BitVec.ofNat_toNat, BitVec.setWidth_eq]

theorem inetNtoa_injective : Function.Injective inetNtoa := by
  intro addr addr' h
  have hread := inetAton_inetNtoa addr
  rw [h, inetAton_inetNtoa] at hread
  exact (Option.some.inj hread).symm

theorem ipString_mapped (addr : BitVec 32) : ipString (v4InV6Prefix ++ addr) = inetNtoa addr := by
  rw [ipString, to4_mapped]
  rfl

/-- What `inet_ntoa` writes is an IPv4 address for Go. -/
theorem parseAddr_inetNtoa (addr : BitVec 32) : parseAddr (inetNtoa addr) = some (.inl addr) := by
  rw [← ipString_mapped, parseAddr_ipString, to4_mapped]

theorem isAddrChar_inetNtoa (addr : BitVec 32) : ∀ c ∈ inetNtoa addr, isAddrChar c = true :=
  isAddrChar_of_parseAddr (parseAddr_inetNtoa addr)

/-- An IPv4 address with a text behind a slash is a network for Go when the text is a length. -/
theorem parseCIDR_inetNtoa (addr : BitVec 32) (length : Str) :
    parseCIDR (inetNtoa addr ++ '/' :: length) = (prefixLength length 32).map fun n =>
      (v4InV6Prefix ++ addr, .v4 (addr &&& cidrMask n 32) (cidrMask n 32)) := by
  have hslash : '/' ∉ inetNtoa addr := fun hmem =>
    absurd (isAddrChar_inetNtoa addr _ hmem) (by decide)
  have hspan : (inetNtoa addr ++ '/' :: length).span (· ≠ '/') = (inetNtoa addr, '/' :: length) :=
    span_ne_eq_iff.mpr ⟨rfl, hslash⟩
  unfold parseCIDR
  split
  · next text mask heq =>
    rw [hspan] at heq
    obtain ⟨rfl, hmask⟩ := Prod.mk.inj heq
    obtain ⟨-, rfl⟩ := List.cons.inj hmask
    rw [parseAddr_inetNtoa]
  · next hno => exact absurd hspan (hno _ _)

end QrWireguard
