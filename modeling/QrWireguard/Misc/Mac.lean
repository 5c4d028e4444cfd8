import Mathlib.Tactic.IntervalCases
import QrWireguard.Misc.GoStr
import QrWireguard.Misc.GoNet

/-!
# Hardware addresses

`net.ParseMAC` reads an address of six, eight or twenty bytes, with a colon or a hyphen after
every byte or a dot after every second one. The bytes and the notation determine the digits up to
the case of their letters.
-/

namespace QrWireguard

/-- `net.xtoi2`: the byte two hexadecimal digits denote. A third character must be the separator. -/
def xtoi2 (s : Str) (e : Char) : Option Nat :=
  match s with
  | a :: b :: rest =>
    if rest ≠ [] ∧ rest.head? ≠ some e then none
    else if isxdigit a && isxdigit b then some (16 * xdigitVal a + xdigitVal b)
    else none
  | _ => none

/-- The loop of `net.ParseMAC` with a separator after every byte. -/
def macBytes (sep : Char) : Nat → Str → Option (List Nat)
  | 0, _ => some []
  | n + 1, s =>
    match xtoi2 s sep with
    | none => none
    | some b => (macBytes sep n (s.drop 3)).map (b :: ·)

/-- The loop of `net.ParseMAC` with a separator after every second byte. -/
def macPairs (sep : Char) : Nat → Str → Option (List Nat)
  | 0, _ => some []
  | n + 1, s =>
    match xtoi2 (s.take 2) '\x00', xtoi2 (s.drop 2) sep with
    | some a, some b => (macPairs sep n (s.drop 5)).map fun hw => a :: b :: hw
    | _, _ => none

/-- `net.ParseMAC`: the bytes of the address. -/
def parseMAC (s : Str) : Option (List Nat) :=
  if s.length < 14 then none
  else if s[2]? = some ':' ∨ s[2]? = some '-' then
    if (s.length + 1) % 3 ≠ 0 then none
    else
      let n := (s.length + 1) / 3
      if n ≠ 6 ∧ n ≠ 8 ∧ n ≠ 20 then none else macBytes (s.getD 2 ':') n s
  else if s[4]? = some '.' then
    if (s.length + 1) % 5 ≠ 0 then none
    else
      let n := 2 * (s.length + 1) / 5
      if n ≠ 6 ∧ n ≠ 8 ∧ n ≠ 20 then none else macPairs '.' (n / 2) s
  else none

/-- The bytes that pairs of hexadecimal digits denote. -/
def bytesOf : Str → List Nat
  | a :: b :: rest => (16 * xdigitVal a + xdigitVal b) :: bytesOf rest
  | _ => []

/-- A text made of groups of hexadecimal digits of one length. -/
structure Spells (sep : Char) (size : Nat) (groups : List Str) (s : Str) : Prop where
  text : s = unsplit [sep] groups
  length : ∀ g ∈ groups, g.length = size
  digits : ∀ g ∈ groups, ∀ c ∈ g, isxdigit c = true

/-! ## Digits -/

/-- The digit in upper case. -/
def upperDigit (d : Nat) : Char := (str "0123456789ABCDEF").getD d '0'

/-- The letters of a range that Go compares bytes with. -/
theorem exists_ofNat {c lo hi : Char} (hlo : lo ≤ c) (hhi : c ≤ hi) :
    ∃ n, lo.toNat ≤ n ∧ n ≤ hi.toNat ∧ c = Char.ofNat n :=
  ⟨c.toNat, hlo, hhi, (Char.ofNat_toNat c).symm⟩

/-- A hexadecimal digit is known by its value and the case of its letter. -/
theorem toUpper_of_isxdigit {c : Char} (h : isxdigit c = true) :
    c.toUpper = upperDigit (xdigitVal c) ∧ xdigitVal c < 16 := by
  unfold isxdigit isdigit at h
  simp only [Bool.or_eq_true, Bool.and_eq_true, decide_eq_true_eq] at h
  rcases h with (⟨hlo, hhi⟩ | ⟨hlo, hhi⟩) | ⟨hlo, hhi⟩
  all_goals
    obtain ⟨n, hfrom, hto, rfl⟩ := exists_ofNat hlo hhi
    simp only [Char.reduceToNat] at hfrom hto
    interval_cases n <;> decide

theorem toUpper_cases (c : Char) :
    c.toUpper = c ∨ ∃ n, 97 ≤ n ∧ n ≤ 122 ∧ c = Char.ofNat n := by
  by_cases h : 'a' ≤ c ∧ c ≤ 'z'
  · exact .inr (exists_ofNat h.1 h.2)
  · unfold Char.toUpper
    rw [dif_neg (show ¬ ('a'.val ≤ c.val ∧ c.val ≤ 'z'.val) from h)]
    exact .inl rfl

theorem isxdigit_toUpper (c : Char) : isxdigit c.toUpper = isxdigit c := by
  rcases toUpper_cases c with h | ⟨n, hfrom, hto, rfl⟩
  · rw [h]
  · interval_cases n <;> decide

theorem toUpper_toUpper (c : Char) : c.toUpper.toUpper = c.toUpper := by
  rcases toUpper_cases c with h | ⟨n, hfrom, hto, rfl⟩
  · rw [h, h]
  · interval_cases n <;> decide

theorem toUpper_eq_iff {c d : Char} (hd : d = '.' ∨ d = ':') : c.toUpper = d ↔ c = d := by
  rcases toUpper_cases c with h | ⟨n, hfrom, hto, rfl⟩
  · rw [h]
  · rcases hd with rfl | rfl
    · interval_cases n <;> decide
    · interval_cases n <;> decide

/-- The digits of bytes in upper case. -/
def bytesDigits (hw : List Nat) : Str :=
  hw.flatMap fun b => [upperDigit (b / 16), upperDigit (b % 16)]

/-- The bytes and the case of the letters determine the digits. -/
theorem bytesDigits_bytesOf {n : Nat} {digits : Str} (hlen : digits.length = 2 * n)
    (hdigits : ∀ c ∈ digits, isxdigit c = true) :
    bytesDigits (bytesOf digits) = digits.map Char.toUpper := by
  induction n generalizing digits with
  | zero =>
    obtain rfl := List.length_eq_zero_iff.mp hlen
    rfl
  | succ n ih =>
    obtain ⟨a, b, rest, rfl⟩ : ∃ a b rest, digits = a :: b :: rest := by
      match digits, hlen with
      | a :: b :: rest, _ => exact ⟨a, b, rest, rfl⟩
    obtain ⟨ha, ha16⟩ := toUpper_of_isxdigit (hdigits a List.mem_cons_self)
    obtain ⟨hb, hb16⟩ := toUpper_of_isxdigit (hdigits b (by simp))
    have hrest := @ih rest (by simp at hlen; omega)
      fun c hc => hdigits c (List.mem_cons_of_mem _ (List.mem_cons_of_mem _ hc))
    rw [bytesOf, bytesDigits, List.flatMap_cons, ← bytesDigits, hrest, List.map_cons,
      List.map_cons, ha, hb, show (16 * xdigitVal a + xdigitVal b) / 16 = xdigitVal a by omega,
      show (16 * xdigitVal a + xdigitVal b) % 16 = xdigitVal b by omega]
    rfl

theorem bytesOf_append {n : Nat} {s : Str} (hlen : s.length = 2 * n) (t : Str) :
    bytesOf (s ++ t) = bytesOf s ++ bytesOf t := by
  induction n generalizing s with
  | zero =>
    obtain rfl := List.length_eq_zero_iff.mp hlen
    rfl
  | succ n ih =>
    obtain ⟨a, b, rest, rfl⟩ : ∃ a b rest, s = a :: b :: rest := by
      match s, hlen with
      | a :: b :: rest, _ => exact ⟨a, b, rest, rfl⟩
    rw [List.cons_append, List.cons_append, bytesOf, bytesOf, ih (by simp at hlen; omega)]
    rfl

/-! ## Accepted texts -/

theorem xtoi2_eq_some {s : Str} {e : Char} {value : Nat} (h : xtoi2 s e = some value) :
    ∃ a b rest, s = a :: b :: rest ∧ (rest = [] ∨ rest.head? = some e) ∧
      isxdigit a = true ∧ isxdigit b = true ∧ value = 16 * xdigitVal a + xdigitVal b := by
  unfold xtoi2 at h
  split at h
  · rename_i a b rest
    split at h
    · cases h
    · rename_i hrest
      split at h
      · rename_i hdigits
        rw [Bool.and_eq_true] at hdigits
        refine ⟨a, b, rest, rfl, ?_, hdigits.1, hdigits.2, (Option.some.inj h).symm⟩
        by_contra hne
        rw [not_or] at hne
        exact hrest hne
      · cases h
  · cases h

namespace Spells
variable {sep : Char} {size : Nat} {group : Str} {groups : List Str} {s : Str}

theorem single (hlen : group.length = size) (hdigits : ∀ c ∈ group, isxdigit c = true) :
    Spells sep size [group] group := by
  refine ⟨by simp [unsplit], ?_, ?_⟩
  · intro g hg
    rw [List.mem_singleton.mp hg, hlen]
  · intro g hg
    rw [List.mem_singleton.mp hg]
    exact hdigits

theorem cons (h : Spells sep size groups s) (hne : groups ≠ []) (hlen : group.length = size)
    (hdigits : ∀ c ∈ group, isxdigit c = true) :
    Spells sep size (group :: groups) (group ++ sep :: s) := by
  refine ⟨?_, ?_, ?_⟩
  · rw [unsplit_cons hne, ← h.text]
    simp
  · exact List.forall_mem_cons.mpr ⟨hlen, h.length⟩
  · exact List.forall_mem_cons.mpr ⟨hdigits, h.digits⟩

end Spells

section
variable {sep : Char} {n : Nat} {s : Str} {hw : List Nat}

/-- One round of a loop: a group of digits is read, and a separator when more follows. -/
def ReadsGroup (sep : Char) (bytes : Nat) (loop : Str → Option (List Nat)) (s : Str)
    (hw : List Nat) : Prop :=
  ∃ group rest hw', s = group ++ rest ∧ group.length = 2 * bytes ∧
    (∀ c ∈ group, isxdigit c = true) ∧ (rest = [] ∨ rest.head? = some sep) ∧
    loop (rest.drop 1) = some hw' ∧ hw = bytesOf group ++ hw'

/-- A loop whose rounds read groups accepts texts made of groups, by induction on the rounds. -/
theorem exists_spells {bytes : Nat} {loop : Nat → Str → Option (List Nat)}
    (hzero : ∀ s, loop 0 s = some [])
    (hsucc : ∀ n s hw, loop (n + 1) s = some hw → ReadsGroup sep bytes (loop n) s hw)
    (h : loop (n + 1) s = some hw) (hlen : s.length + 1 = (2 * bytes + 1) * (n + 1)) :
    ∃ groups, groups.length = n + 1 ∧ Spells sep (2 * bytes) groups s ∧
      hw = bytesOf groups.flatten := by
  induction n generalizing s hw with
  | zero =>
    obtain ⟨group, rest, hw', rfl, hgroup, hdigits, -, hrest, rfl⟩ := hsucc 0 s hw h
    obtain rfl : rest = [] := by
      rw [List.length_append, hgroup] at hlen
      exact List.length_eq_zero_iff.mp (by omega)
    rw [hzero] at hrest
    obtain rfl := Option.some.inj hrest
    rw [List.append_nil]
    exact ⟨[group], rfl, Spells.single hgroup hdigits, by simp⟩
  | succ n ih =>
    obtain ⟨group, rest, hw', rfl, hgroup, hdigits, hsep, hrest, rfl⟩ := hsucc (n + 1) s hw h
    rw [List.length_append, hgroup, Nat.mul_succ] at hlen
    have hpos : rest ≠ [] := by
      rintro rfl
      simp at hlen
    obtain ⟨t, rfl⟩ := List.head?_eq_some_iff.mp (hsep.resolve_left hpos)
    rw [List.length_cons] at hlen
    obtain ⟨groups, hcount, hspells, rfl⟩ := ih hrest (by simp; omega)
    have hne : groups ≠ [] := List.ne_nil_of_length_pos (by omega)
    refine ⟨group :: groups, by simp [hcount], hspells.cons hne hgroup hdigits, ?_⟩
    rw [List.flatten_cons, bytesOf_append hgroup]

theorem readsGroup_macBytes (h : macBytes sep (n + 1) s = some hw) :
    ReadsGroup sep 1 (macBytes sep n) s hw := by
  rw [macBytes] at h
  cases hbyte : xtoi2 s sep with
  | none =>
    rw [hbyte] at h
    cases h
  | some value =>
    rw [hbyte] at h
    obtain ⟨hw', hrest, rfl⟩ := Option.map_eq_some_iff.mp h
    obtain ⟨a, b, rest, rfl, hsep, ha, hb, rfl⟩ := xtoi2_eq_some hbyte
    exact ⟨[a, b], rest, hw', rfl, rfl, by simp [ha, hb], hsep, hrest, rfl⟩

theorem readsGroup_macPairs (h : macPairs sep (n + 1) s = some hw) :
    ReadsGroup sep 2 (macPairs sep n) s hw := by
  rw [macPairs] at h
  split at h
  · rename_i first second hfirst hsecond
    obtain ⟨hw', hrest, rfl⟩ := Option.map_eq_some_iff.mp h
    obtain ⟨a, b, none, htake, -, ha, hb, rfl⟩ := xtoi2_eq_some hfirst
    obtain ⟨c, d, rest, hdrop, hsep, hc, hd, rfl⟩ := xtoi2_eq_some hsecond
    obtain rfl : none = [] := by
      have hlen := congrArg List.length htake
      simp at hlen
      exact List.length_eq_zero_iff.mp (by omega)
    have hs : s = [a, b, c, d] ++ rest := by
      rw [← List.take_append_drop 2 s, htake, hdrop]
      rfl
    subst hs
    exact ⟨[a, b, c, d], rest, hw', rfl, rfl, by simp [ha, hb, hc, hd], hsep, hrest, rfl⟩
  · cases h

theorem exists_spells_of_macBytes (hpos : 0 < n) (h : macBytes sep n s = some hw)
    (hlen : s.length + 1 = 3 * n) :
    ∃ groups, Spells sep 2 groups s ∧ hw = bytesOf groups.flatten := by
  obtain ⟨n, rfl⟩ := Nat.exists_eq_add_of_lt hpos
  rw [Nat.zero_add] at h hlen
  obtain ⟨groups, -, hgroups⟩ :=
    exists_spells (fun _ => rfl) (fun _ _ _ => readsGroup_macBytes) h hlen
  exact ⟨groups, hgroups⟩

theorem exists_spells_of_macPairs (hpos : 0 < n) (h : macPairs sep n s = some hw)
    (hlen : s.length + 1 = 5 * n) :
    ∃ groups, Spells sep 4 groups s ∧ hw = bytesOf groups.flatten := by
  obtain ⟨n, rfl⟩ := Nat.exists_eq_add_of_lt hpos
  rw [Nat.zero_add] at h hlen
  obtain ⟨groups, -, hgroups⟩ :=
    exists_spells (fun _ => rfl) (fun _ _ _ => readsGroup_macPairs) h hlen
  exact ⟨groups, hgroups⟩

/-- An accepted text is made of groups of digits, and the bytes are those of the digits. -/
theorem exists_spells_of_parseMAC (h : parseMAC s = some hw) :
    ∃ sep size groups, Spells sep (2 * size) groups s ∧ hw = bytesOf groups.flatten ∧
      ((sep = ':' ∨ sep = '-') ∧ size = 1 ∨ sep = '.' ∧ size = 2) ∧ sep ∈ s := by
  unfold parseMAC at h
  split at h
  · cases h
  · rename_i hroom
    split at h
    · rename_i hsep
      split at h
      · cases h
      · rename_i hmod
        dsimp only at h
        split at h
        · cases h
        · obtain ⟨groups, hspells, hbytes⟩ := exists_spells_of_macBytes (by omega) h (by omega)
          rw [List.getD_eq_getElem?_getD] at hspells
          rcases hsep with hsep | hsep
          · rw [hsep] at hspells
            exact ⟨':', 1, groups, hspells, hbytes, .inl ⟨.inl rfl, rfl⟩, List.mem_of_getElem? hsep⟩
          · rw [hsep] at hspells
            exact ⟨'-', 1, groups, hspells, hbytes, .inl ⟨.inr rfl, rfl⟩, List.mem_of_getElem? hsep⟩
    · split at h
      · rename_i hdot
        split at h
        · cases h
        · rename_i hmod
          dsimp only at h
          split at h
          · cases h
          · obtain ⟨groups, hspells, hbytes⟩ := exists_spells_of_macPairs (by omega) h (by omega)
            exact ⟨'.', 2, groups, hspells, hbytes, .inr ⟨rfl, rfl⟩, List.mem_of_getElem? hdot⟩
      · cases h

namespace Spells
variable {size : Nat} {groups groups' : List Str} {t : Str}

theorem isxdigit_flatten (h : Spells sep size groups s) :
    ∀ c ∈ groups.flatten, isxdigit c = true := by
  intro c hc
  obtain ⟨g, hg, hmem⟩ := List.mem_flatten.mp hc
  exact h.digits g hg c hmem

/-- The digits of the text are those of its groups. -/
theorem filter_eq (h : Spells sep size groups s) (hsep : isxdigit sep = false) :
    s.filter isxdigit = groups.flatten := by
  rw [h.text]
  cases groups with
  | nil => rfl
  | cons first rest =>
    obtain ⟨hfirst, hrest⟩ := List.forall_mem_cons.mp h.digits
    rw [unsplit, List.filter_append, List.filter_eq_self.mpr hfirst, List.flatten_cons,
      List.filter_flatMap, List.flatten_eq_flatMap]
    refine congrArg (first ++ ·) (List.flatMap_congr fun g hg => ?_)
    rw [List.filter_append, List.filter_singleton, hsep, List.filter_eq_self.mpr (hrest g hg)]
    rfl

/-- The digits determine the groups. -/
theorem groups_eq (h : Spells sep size groups s) (h' : Spells sep size groups' t)
    (hsize : 0 < size) (hflatten : groups.flatten = groups'.flatten) : groups = groups' := by
  have hmap : groups.map List.length = List.replicate groups.length size :=
    List.map_eq_replicate_iff.mpr h.length
  have hmap' : groups'.map List.length = List.replicate groups'.length size :=
    List.map_eq_replicate_iff.mpr h'.length
  have hcount : groups.length = groups'.length := by
    have hlen := congrArg List.length hflatten
    rw [List.length_flatten, List.length_flatten, hmap, hmap', List.sum_replicate_nat,
      List.sum_replicate_nat] at hlen
    exact Nat.eq_of_mul_eq_mul_right hsize hlen
  rw [List.eq_iff_flatten_eq, hmap, hmap', hcount]
  exact ⟨hflatten, rfl⟩

end Spells

/-- The digits of a text, in upper case. -/
def macDigits (s : Str) : Str := (s.filter isxdigit).map Char.toUpper

theorem isxdigit_separator (hsep : (sep = ':' ∨ sep = '-') ∨ sep = '.') : isxdigit sep = false := by
  rcases hsep with (rfl | rfl) | rfl
  · decide
  · decide
  · decide

theorem length_flatten_of_spells {bytes : Nat} {groups : List Str}
    (h : Spells sep (2 * bytes) groups s) :
    groups.flatten.length = 2 * (bytes * groups.length) := by
  rw [List.length_flatten, List.map_eq_replicate_iff.mpr h.length, List.sum_replicate_nat]
  ring

/-- The bytes of an address are those of its digits. -/
theorem bytesDigits_of_parseMAC (h : parseMAC s = some hw) : bytesDigits hw = macDigits s := by
  obtain ⟨sep, bytes, groups, hspells, rfl, hsep, -⟩ := exists_spells_of_parseMAC h
  have hdigit : isxdigit sep = false := by
    apply isxdigit_separator
    rcases hsep with ⟨hsep, -⟩ | ⟨hsep, -⟩
    · exact .inl hsep
    · exact .inr hsep
  rw [macDigits, hspells.filter_eq hdigit]
  exact bytesDigits_bytesOf (length_flatten_of_spells hspells) hspells.isxdigit_flatten

/-! ## One spelling -/

/-- A text in upper case without colons. -/
structure Normalised (s : Str) : Prop where
  upper : ∀ c ∈ s, c.toUpper = c
  colon : ':' ∉ s

namespace Normalised
variable {t : Str} {hw' : List Nat}

theorem macDigits_eq (h : Normalised s) : macDigits s = s.filter isxdigit := by
  have hupper : ∀ c ∈ s.filter isxdigit, c.toUpper = c := fun c hc =>
    h.upper c (List.mem_of_mem_filter hc)
  rw [macDigits, List.map_congr_left hupper, List.map_id']

/-- An accepted text is its digits in groups of four with dots or of two with hyphens. -/
theorem exists_spells (h : Normalised s) (hmac : parseMAC s = some hw) :
    hw = bytesOf (macDigits s) ∧ ∃ groups, groups.flatten = macDigits s ∧
      ('.' ∈ s ∧ Spells '.' 4 groups s ∨ '.' ∉ s ∧ Spells '-' 2 groups s) := by
  obtain ⟨sep, bytes, groups, hspells, rfl, hsep, hmem⟩ := exists_spells_of_parseMAC hmac
  rw [h.macDigits_eq]
  rcases hsep with ⟨rfl | rfl, rfl⟩ | ⟨rfl, rfl⟩
  · exact absurd hmem h.colon
  · rw [hspells.filter_eq (by decide)]
    refine ⟨rfl, groups, rfl, .inr ⟨?_, hspells⟩⟩
    intro hdot
    rw [hspells.text] at hdot
    rcases mem_unsplit hdot with hsep | ⟨g, hg, hdot⟩
    · cases List.mem_singleton.mp hsep
    · cases hspells.digits g hg '.' hdot
  · rw [hspells.filter_eq (by decide)]
    exact ⟨rfl, groups, rfl, .inl ⟨hmem, hspells⟩⟩

/-- Accepted texts with the same digits in the same notation are one. -/
theorem eq_of_macDigits_eq (hs : Normalised s) (ht : Normalised t) (hmac : parseMAC s = some hw)
    (hmac' : parseMAC t = some hw') (hdots : '.' ∈ s ↔ '.' ∈ t)
    (hdigits : macDigits s = macDigits t) : s = t := by
  obtain ⟨-, groups, hflatten, hspells⟩ := hs.exists_spells hmac
  obtain ⟨-, groups', hflatten', hspells'⟩ := ht.exists_spells hmac'
  have hsame : groups.flatten = groups'.flatten := by rw [hflatten, hflatten', hdigits]
  rcases hspells with ⟨hdot, hspells⟩ | ⟨hdot, hspells⟩
  · obtain ⟨-, hspells'⟩ := hspells'.resolve_right fun h => h.1 (hdots.mp hdot)
    rw [hspells.text, hspells'.text, hspells.groups_eq hspells' (by omega) hsame]
  · obtain ⟨-, hspells'⟩ := hspells'.resolve_left fun h => hdot (hdots.mpr h.1)
    rw [hspells.text, hspells'.text, hspells.groups_eq hspells' (by omega) hsame]

/-- Accepted texts stand for the same bytes just when they have the same digits. -/
theorem bytes_eq_iff (hs : Normalised s) (ht : Normalised t) (hmac : parseMAC s = some hw)
    (hmac' : parseMAC t = some hw') : hw = hw' ↔ macDigits s = macDigits t := by
  constructor
  · rintro rfl
    rw [← bytesDigits_of_parseMAC hmac, bytesDigits_of_parseMAC hmac']
  · intro hdigits
    rw [(hs.exists_spells hmac).1, (ht.exists_spells hmac').1, hdigits]

end Normalised

end

example : parseMAC (str "00-1A-2b-3c-4d-5e") = some [0, 26, 43, 60, 77, 94] := by decide
example : parseMAC (str "001A.2B3C.4D5E") = some [0, 26, 43, 60, 77, 94] := by decide

end QrWireguard
