import QrWireguard.WebAgent.Cpp

/-!
# Network masks

The mask that the C++ agent makes of a network. The length behind the slash goes through `atoi`,
and only its upper bound is checked before the mask is shifted by what it leaves of 32.
-/

namespace QrWireguard.WebAgent.Cpp

/-- What `getIPNetmask` shifts the mask by when it comes to that. -/
def shiftAmount (netinfo : Str) : Option Int :=
  match (cstr netinfo).span (· ≠ '/') with
  | (addr, '/' :: mask) =>
    match inetAton addr with
    | none => none
    | some _ => if 30 < atoi mask then none else some (32 - atoi mask)
  | _ => none

/-- A prefix length in decimal digits. -/
structure IsPrefixLength (length : Str) (n : Nat) : Prop where
  ne_nil : length ≠ []
  digits : ∀ c ∈ length, isdigit c = true
  value : decimal length = n
  le : n ≤ 32

/-- An address that `inet_aton` accepts, and a prefix length behind a slash. -/
def IsNetwork (netinfo : Str) (n : Nat) : Prop :=
  ∃ addr length, netinfo = addr ++ '/' :: length ∧ '/' ∉ addr ∧ (inetAton addr).isSome ∧
    IsPrefixLength length n

/-- A mask whose first bits are one and whose other bits are zero. -/
def FirstOnes (n : Nat) (mask : BitVec 32) : Prop := ∀ i < 32, mask.getMsbD i = decide (i < n)

/-- What a conversion of a network owes its callers: a shift within the width of the mask,
success for networks only, and the mask of their length. -/
structure GivesNetmask (netinfo : Str) : Prop where
  shift : ∀ amount, shiftAmount netinfo = some amount → 0 ≤ amount ∧ amount ≤ 31
  network : ∀ ip mask, getIPNetmask netinfo = some (ip, mask) → ∃ n, IsNetwork netinfo n
  netmask : ∀ ip mask n, getIPNetmask netinfo = some (ip, mask) → IsNetwork netinfo n →
    ∃ bits, FirstOnes n bits ∧ mask = inetNtoa bits

/-- The texts around the first slash, where the address is accepted and the length is not above
the bound. -/
structure PassesChecks (netinfo addr length : Str) : Prop where
  split : (cstr netinfo).span (· ≠ '/') = (addr, '/' :: length)
  address : (inetAton addr).isSome
  bound : atoi length ≤ 30

/-- A text of digits for a length from 1 to 30. -/
structure GoodLength (length : Str) : Prop where
  digits : ∀ c ∈ length, isdigit c = true
  pos : 1 ≤ decimal length
  le : decimal length ≤ 30

section
variable {netinfo addr length : Str}

theorem shiftAmount_eq_some {amount : Int} : shiftAmount netinfo = some amount ↔
    ∃ addr length, PassesChecks netinfo addr length ∧ amount = 32 - atoi length := by
  unfold shiftAmount
  constructor
  · intro h
    split at h
    · rename_i addr length hspan
      split at h
      · cases h
      · rename_i ip hip
        split at h
        · cases h
        · rename_i hle
          exact ⟨addr, length, ⟨hspan, by rw [hip]; rfl, by omega⟩, (Option.some.inj h).symm⟩
    · cases h
  · rintro ⟨addr, length, ⟨hspan, hip, hle⟩, rfl⟩
    obtain ⟨ip, hip⟩ := Option.isSome_iff_exists.mp hip
    simp only [hspan, hip]
    rw [if_neg (by omega)]

theorem getIPNetmask_eq_some {ip mask : Str} : getIPNetmask netinfo = some (ip, mask) ↔
    ∃ addr length bits, PassesChecks netinfo addr length ∧ inetAton addr = some bits ∧
      ip = inetNtoa bits ∧ mask = inetNtoa (netmask (atoi length)) := by
  unfold getIPNetmask
  constructor
  · intro h
    split at h
    · rename_i addr length hspan
      split at h
      · cases h
      · rename_i bits hbits
        split at h
        · cases h
        · rename_i hle
          obtain ⟨rfl, rfl⟩ := Prod.mk.inj (Option.some.inj h)
          exact ⟨addr, length, bits, ⟨hspan, by rw [hbits]; rfl, by omega⟩, hbits, rfl, rfl⟩
    · cases h
  · rintro ⟨addr, length, bits, ⟨hspan, -, hle⟩, hbits, rfl, rfl⟩
    simp only [hspan, hbits]
    rw [if_neg (by omega)]

/-- The shift leaves the first `n` ones of the mask. -/
theorem firstOnes_netmask {n : Nat} (hpos : 1 ≤ n) (hle : n ≤ 32) : FirstOnes n (netmask n) := by
  intro i hi
  have hamount : ((32 - (n : Int)) % 32).toNat = 32 - n := by omega
  rw [netmask, hamount, BitVec.getMsbD_shiftLeft]
  simp only [BitVec.getMsbD_allOnes]
  rw [decide_eq_decide]
  omega

/-- A network text that is read past its slash is read to its end. -/
theorem cstr_slash (hlength : '\x00' ∉ length) (haddr : '/' ∉ addr)
    (hread : '/' ∈ cstr (addr ++ '/' :: length)) :
    cstr (addr ++ '/' :: length) = addr ++ '/' :: length := by
  unfold cstr at hread ⊢
  rw [List.takeWhile_append] at hread ⊢
  split
  · have hrest := cstr_of_not_mem hlength
    unfold cstr at hrest
    rw [List.takeWhile_cons_of_pos (by decide), hrest]
  · rename_i hcut
    rw [if_neg hcut] at hread
    exact absurd ((List.takeWhile_sublist _).subset hread) haddr

/-- The texts that pass the checks are those of the network. -/
theorem PassesChecks.netinfo_eq (h : PassesChecks netinfo addr length) {n : Nat}
    (hnetwork : IsNetwork netinfo n) :
    netinfo = addr ++ '/' :: length ∧ IsPrefixLength length n := by
  obtain ⟨addr', length', rfl, hslash, -, hlength⟩ := hnetwork
  have hnul : '\x00' ∉ length' := fun hmem => absurd (hlength.digits _ hmem) (by decide)
  have hread : '/' ∈ cstr (addr' ++ '/' :: length') := by
    rw [(span_ne_eq_iff.mp h.split).1]
    simp
  have hsplit := h.split
  rw [cstr_slash hnul hslash hread, span_ne_eq_iff.mpr ⟨rfl, hslash⟩] at hsplit
  obtain ⟨rfl, heq⟩ := Prod.mk.inj hsplit
  obtain rfl := (List.cons.inj heq).2
  exact ⟨rfl, hlength⟩

/-- `getIPNetmask` gives the mask of a network just when the length of what it lets through is
written with digits and is not zero. -/
theorem getIPNetmask_givesNetmask (netinfo : Str) : GivesNetmask netinfo ↔
    ∀ addr length, PassesChecks netinfo addr length →
      netinfo = addr ++ '/' :: length ∧ GoodLength length := by
  constructor
  · intro h addr length hpasses
    have hshift := h.shift (32 - atoi length) (shiftAmount_eq_some.mpr ⟨addr, length, hpasses, rfl⟩)
    obtain ⟨bits, hbits⟩ := Option.isSome_iff_exists.mp hpasses.address
    obtain ⟨n, hnetwork⟩ := h.network _ _
      (getIPNetmask_eq_some.mpr ⟨addr, length, bits, hpasses, hbits, rfl, rfl⟩)
    obtain ⟨heq, hlength⟩ := hpasses.netinfo_eq hnetwork
    have hn := hlength.le
    have hatoi := atoi_of_decimal_lt hlength.digits (by rw [hlength.value]; omega)
    have hbound := hpasses.bound
    exact ⟨heq, hlength.digits, by omega, by omega⟩
  · intro h
    constructor
    · intro amount hamount
      obtain ⟨addr, length, hpasses, rfl⟩ := shiftAmount_eq_some.mp hamount
      obtain ⟨-, hdigits, hpos, hle⟩ := h addr length hpasses
      have hatoi := atoi_of_decimal_lt hdigits (by omega)
      omega
    · intro ip mask hmask
      obtain ⟨addr, length, bits, hpasses, -, -, -⟩ := getIPNetmask_eq_some.mp hmask
      obtain ⟨heq, hdigits, hpos, hle⟩ := h addr length hpasses
      have hslash := (span_ne_eq_iff.mp hpasses.split).2
      refine ⟨decimal length, addr, length, heq, hslash, hpasses.address, ?_, hdigits, rfl, by omega⟩
      rintro rfl
      exact absurd hpos (by decide)
    · intro ip mask n hmask hnetwork
      obtain ⟨addr, length, bits, hpasses, -, -, rfl⟩ := getIPNetmask_eq_some.mp hmask
      obtain ⟨-, hdigits, hpos, hle⟩ := h addr length hpasses
      obtain ⟨-, hlength⟩ := hpasses.netinfo_eq hnetwork
      have hatoi := atoi_of_decimal_lt hdigits (by omega)
      rw [hatoi, ← hlength.value]
      exact ⟨_, firstOnes_netmask hpos (by omega), rfl⟩

/-- The length zero is let through, and the mask is shifted by 32. -/
theorem getIPNetmask_zero : ¬ GivesNetmask (str "10.0.0.1/0") := by
  intro h
  have hshift := h.shift 32 (by decide +kernel)
  omega

end

end QrWireguard.WebAgent.Cpp
