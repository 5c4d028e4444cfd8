import QrWireguard.Misc.CString

/-!
# Base64 texts

The standard encoding of Go's `encoding/base64`, whose decoder passes over line breaks and does
not look at the bits left over before the padding.
-/

namespace QrWireguard

/-- The value of a character of the alphabet. -/
def base64Val (c : Char) : Option Nat :=
  if decide ('A' ≤ c) && decide (c ≤ 'Z') then some (c.toNat - 'A'.toNat)
  else if decide ('a' ≤ c) && decide (c ≤ 'z') then some (c.toNat - 'a'.toNat + 26)
  else if isdigit c then some (digitVal c + 52)
  else if c = '+' then some 62
  else if c = '/' then some 63
  else none

/-- The bytes of groups of four characters, the last of which may be padded. -/
def base64Groups : Str → Option (List Nat)
  | [] => some []
  | [a, b, '=', '='] => do
    let x ← base64Val a
    let y ← base64Val b
    return [x * 4 + y / 16]
  | [a, b, c, '='] => do
    let x ← base64Val a
    let y ← base64Val b
    let z ← base64Val c
    return [x * 4 + y / 16, y % 16 * 16 + z / 4]
  | a :: b :: c :: d :: rest => do
    let x ← base64Val a
    let y ← base64Val b
    let z ← base64Val c
    let w ← base64Val d
    let bytes ← base64Groups rest
    return (x * 4 + y / 16) :: (y % 16 * 16 + z / 4) :: (z % 4 * 64 + w) :: bytes
  | _ => none

/-- A line break, which the decoder ignores. -/
def isLineBreak (c : Char) : Bool := c == '\r' || c == '\n'

/-- `base64.StdEncoding.DecodeString`. -/
def decodeBase64 (s : Str) : Option (List Nat) := base64Groups (s.filter fun c => !isLineBreak c)

/-- The character of the alphabet with the given value. -/
def base64Char (n : Nat) : Char :=
  if n < 26 then Char.ofNat (n + 'A'.toNat)
  else if n < 52 then Char.ofNat (n - 26 + 'a'.toNat)
  else if n < 62 then Char.ofNat (n - 52 + '0'.toNat)
  else if n = 62 then '+'
  else '/'

/-- `base64.StdEncoding.EncodeToString`. -/
def encodeBase64 : List Nat → Str
  | [] => []
  | [a] => [base64Char (a / 4), base64Char (a % 4 * 16), '=', '=']
  | [a, b] => [base64Char (a / 4), base64Char (a % 4 * 16 + b / 16), base64Char (b % 16 * 4), '=']
  | a :: b :: c :: rest =>
    base64Char (a / 4) :: base64Char (a % 4 * 16 + b / 16) ::
      base64Char (b % 16 * 4 + c / 64) :: base64Char (c % 64) :: encodeBase64 rest

/-- A character that may stand in an encoded text. -/
def isBase64Char (c : Char) : Bool := (base64Val c).isSome || c == '='

theorem isBase64Char_of_mem_groups {s : Str} {bytes : List Nat} (h : base64Groups s = some bytes) :
    ∀ c ∈ s, isBase64Char c = true := by
  have hval : ∀ {c : Char} {x : Nat}, base64Val c = some x → isBase64Char c = true := by
    intro c x hx
    simp [isBase64Char, hx]
  have hpad : isBase64Char '=' = true := by decide
  induction s using base64Groups.induct generalizing bytes with
  | case1 => simp
  | case2 a b =>
    simp only [base64Groups, Option.bind_eq_bind, Option.bind_eq_some_iff] at h
    obtain ⟨x, hx, y, hy, -⟩ := h
    simp [hval hx, hval hy, hpad]
  | case3 a b c hc =>
    rw [base64Groups] at h
    · simp only [Option.bind_eq_bind, Option.bind_eq_some_iff] at h
      obtain ⟨x, hx, y, hy, z, hz, -⟩ := h
      simp [hval hx, hval hy, hval hz, hpad]
    · exact hc
  | case4 a b c d rest h1 h2 ih =>
    rw [base64Groups] at h
    · simp only [Option.bind_eq_bind, Option.bind_eq_some_iff] at h
      obtain ⟨x, hx, y, hy, z, hz, w, hw, bytes', hbytes, -⟩ := h
      simp only [List.mem_cons, forall_eq_or_imp]
      exact ⟨hval hx, hval hy, hval hz, hval hw, ih hbytes⟩
    · exact h1
    · exact h2
  | case5 => simp [base64Groups] at h

theorem isBase64Char_of_decode {s : Str} {bytes : List Nat} (h : decodeBase64 s = some bytes) :
    ∀ c ∈ s, isBase64Char c = true ∨ isLineBreak c = true := by
  intro c hc
  by_cases hbreak : isLineBreak c = true
  · exact .inr hbreak
  · refine .inl (isBase64Char_of_mem_groups h c ?_)
    exact List.mem_filter.mpr ⟨hc, by simpa using hbreak⟩

theorem base64Val_lt {c : Char} {x : Nat} (h : base64Val c = some x) : x < 64 := by
  have hle : ∀ {d : Char}, c ≤ d → c.toNat ≤ d.toNat := fun hd => hd
  unfold base64Val at h
  split at h
  · rename_i hupper
    obtain rfl := Option.some.inj h
    have hZ : c.toNat ≤ 'Z'.toNat := hle (by simpa using (Bool.and_eq_true_iff.mp hupper).2)
    simp only [Char.reduceToNat] at hZ ⊢
    omega
  · split at h
    · rename_i hlower
      obtain rfl := Option.some.inj h
      have hz : c.toNat ≤ 'z'.toNat := hle (by simpa using (Bool.and_eq_true_iff.mp hlower).2)
      simp only [Char.reduceToNat] at hz ⊢
      omega
    · split at h
      · rename_i hdigit
        obtain rfl := Option.some.inj h
        have h9 : c.toNat ≤ '9'.toNat := hle (by simpa using (Bool.and_eq_true_iff.mp hdigit).2)
        simp only [digitVal, Char.reduceToNat] at h9 ⊢
        omega
      · split at h
        · cases h
          omega
        · split at h
          · cases h
            omega
          · cases h

/-- What is decoded are bytes. -/
theorem lt_256_of_mem_base64Groups {s : Str} {bytes : List Nat} (h : base64Groups s = some bytes) :
    ∀ b ∈ bytes, b < 256 := by
  induction s using base64Groups.induct generalizing bytes with
  | case1 =>
    obtain rfl : bytes = [] := by simpa [base64Groups] using h.symm
    simp
  | case2 a b =>
    simp only [base64Groups, Option.bind_eq_bind, Option.bind_eq_some_iff] at h
    obtain ⟨x, hx, y, hy, hbytes⟩ := h
    obtain rfl := Option.some.inj hbytes
    have hx64 := base64Val_lt hx
    have hy64 := base64Val_lt hy
    simp only [List.mem_singleton, forall_eq]
    omega
  | case3 a b c hc =>
    rw [base64Groups] at h
    · simp only [Option.bind_eq_bind, Option.bind_eq_some_iff] at h
      obtain ⟨x, hx, y, hy, z, hz, hbytes⟩ := h
      obtain rfl := Option.some.inj hbytes
      have hx64 := base64Val_lt hx
      have hz64 := base64Val_lt hz
      have hy64 := base64Val_lt hy
      simp only [List.mem_cons, List.not_mem_nil, or_false, forall_eq_or_imp, forall_eq]
      omega
    · exact hc
  | case4 a b c d rest h1 h2 ih =>
    rw [base64Groups] at h
    · simp only [Option.bind_eq_bind, Option.bind_eq_some_iff] at h
      obtain ⟨x, hx, y, hy, z, hz, w, hw, bytes', hrest, hbytes⟩ := h
      obtain rfl := Option.some.inj hbytes
      have hx64 := base64Val_lt hx
      have hy64 := base64Val_lt hy
      have hz64 := base64Val_lt hz
      have hw64 := base64Val_lt hw
      simp only [List.mem_cons, forall_eq_or_imp]
      exact ⟨by omega, by omega, by omega, ih hrest⟩
    · exact h1
    · exact h2
  | case5 => simp [base64Groups] at h

theorem base64Val_base64Char : ∀ n < 64, base64Val (base64Char n) = some n := by
  decide +kernel

theorem base64Char_ne_pad : ∀ n < 64, base64Char n ≠ '=' := by
  decide +kernel

/-- A group whose last character is no padding. -/
theorem base64Groups_cons {a b c d : Char} (h : d ≠ '=') (rest : Str) :
    base64Groups (a :: b :: c :: d :: rest) = (do
      let x ← base64Val a
      let y ← base64Val b
      let z ← base64Val c
      let w ← base64Val d
      let bytes ← base64Groups rest
      return (x * 4 + y / 16) :: (y % 16 * 16 + z / 4) :: (z % 4 * 64 + w) :: bytes) := by
  rw [base64Groups]
  · rintro rfl hd
    exact absurd hd h
  · intro hd
    exact absurd hd h

theorem base64Groups_encode {bytes : List Nat} (h : ∀ b ∈ bytes, b < 256) :
    base64Groups (encodeBase64 bytes) = some bytes := by
  induction bytes using encodeBase64.induct with
  | case1 => rfl
  | case2 a =>
    have ha : a < 256 := h a (by simp)
    simp only [encodeBase64, base64Groups]
    rw [base64Val_base64Char _ (by omega), base64Val_base64Char _ (by omega)]
    simp only [Option.bind_eq_bind, Option.bind_some, Option.pure_def, Option.some.injEq,
      List.cons.injEq, and_true]
    omega
  | case3 a b =>
    have ha : a < 256 := h a (by simp)
    have hb : b < 256 := h b (by simp)
    rw [encodeBase64, base64Groups]
    · rw [base64Val_base64Char _ (by omega), base64Val_base64Char _ (by omega),
        base64Val_base64Char _ (by omega)]
      simp only [Option.bind_eq_bind, Option.bind_some, Option.pure_def, Option.some.injEq,
        List.cons.injEq, and_true]
      omega
    · exact base64Char_ne_pad _ (by omega)
  | case4 a b c rest ih =>
    have ha : a < 256 := h a (by simp)
    have hb : b < 256 := h b (by simp)
    have hc : c < 256 := h c (by simp)
    have hrest := ih fun x hx => h x (by simp [hx])
    rw [encodeBase64, base64Groups_cons (base64Char_ne_pad _ (by omega)), hrest,
      base64Val_base64Char _ (by omega), base64Val_base64Char _ (by omega),
      base64Val_base64Char _ (by omega), base64Val_base64Char _ (by omega)]
    simp only [Option.bind_eq_bind, Option.bind_some, Option.pure_def, Option.some.injEq,
      List.cons.injEq, and_true]
    omega

theorem isLineBreak_of_isBase64Char {c : Char} (h : isBase64Char c = true) :
    isLineBreak c = false := by
  by_contra hbreak
  rw [Bool.not_eq_false, isLineBreak, Bool.or_eq_true, beq_iff_eq, beq_iff_eq] at hbreak
  rcases hbreak with rfl | rfl <;> revert h <;> decide

theorem isBase64Char_of_mem_encode {bytes : List Nat} (h : ∀ b ∈ bytes, b < 256) :
    ∀ c ∈ encodeBase64 bytes, isBase64Char c = true :=
  isBase64Char_of_mem_groups (base64Groups_encode h)

theorem length_encodeBase64 (bytes : List Nat) :
    (encodeBase64 bytes).length = (bytes.length + 2) / 3 * 4 := by
  induction bytes using encodeBase64.induct with
  | case1 => rfl
  | case2 a => simp [encodeBase64]
  | case3 a b => simp [encodeBase64]
  | case4 a b c rest ih =>
    simp only [encodeBase64, List.length_cons, ih]
    omega

/-- A text of bytes that do not make whole groups ends with a padding character. -/
theorem getLast?_encodeBase64 {bytes : List Nat} (h : bytes.length % 3 ≠ 0) :
    (encodeBase64 bytes).getLast? = some '=' := by
  induction bytes using encodeBase64.induct with
  | case1 => exact absurd rfl h
  | case2 a => rfl
  | case3 a b => rfl
  | case4 a b c rest ih =>
    have hlast := ih (by simp only [List.length_cons] at h; omega)
    have hne : encodeBase64 rest ≠ [] := by
      intro hnil
      rw [hnil] at hlast
      cases hlast
    rw [encodeBase64, List.getLast?_cons_cons, List.getLast?_cons_cons, List.getLast?_cons_cons,
      List.getLast?_cons_of_ne_nil hne, hlast]

theorem decodeBase64_encode {bytes : List Nat} (h : ∀ b ∈ bytes, b < 256) :
    decodeBase64 (encodeBase64 bytes) = some bytes := by
  have hfilter : (encodeBase64 bytes).filter (fun c => !isLineBreak c) = encodeBase64 bytes := by
    rw [List.filter_eq_self]
    intro c hc
    rw [isLineBreak_of_isBase64Char (isBase64Char_of_mem_encode h c hc)]
    rfl
  rw [decodeBase64, hfilter, base64Groups_encode h]

end QrWireguard
