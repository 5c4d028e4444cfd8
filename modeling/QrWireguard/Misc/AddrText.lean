import QrWireguard.Misc.Prefixes

/-!
# Addresses as texts

What `IP.String` writes, `netip.ParseAddr` reads back: four decimal numbers for an IPv4 address,
and for the others eight groups of hexadecimal digits, of which a run of zeros may be left out.
Different addresses therefore have different texts.
-/

namespace QrWireguard

/-! ## Groups of digits -/

section
variable {c : Char} {d g : Nat}

/-- The digit characters read back. -/
theorem xdigitChar_spec (h : d < 16) :
    isxdigit (Char.ofNat (if d < 10 then 48 + d else 87 + d)) = true ∧
      xdigitVal (Char.ofNat (if d < 10 then 48 + d else 87 + d)) = d := by
  interval_cases d <;> decide

theorem isxdigit_of_mem_hexDigits (h : c ∈ hexDigits g) : isxdigit c = true := by
  unfold hexDigits at h
  split at h
  · obtain rfl := List.mem_singleton.mp h
    decide
  · simp only [List.mem_reverse, List.mem_map] at h
    obtain ⟨d, hd, rfl⟩ := h
    exact (xdigitChar_spec (Nat.digits_lt_base (by norm_num) hd)).1

theorem hexDigits_ne_nil (g : Nat) : hexDigits g ≠ [] := by
  unfold hexDigits
  split <;> simp_all [Nat.digits_ne_nil_iff_ne_zero]

theorem hexadecimal_append_singleton (s : Str) (c : Char) :
    hexadecimal (s ++ [c]) = 16 * hexadecimal s + xdigitVal c := by
  simp [hexadecimal]

theorem hexadecimal_hexDigits (g : Nat) : hexadecimal (hexDigits g) = g := by
  have hread : ∀ ds : List Nat, (∀ d ∈ ds, d < 16) →
      hexadecimal (ds.map fun d => Char.ofNat (if d < 10 then 48 + d else 87 + d)).reverse =
        Nat.ofDigits 16 ds := by
    intro ds
    induction ds with
    | nil => exact fun _ => rfl
    | cons d ds ih =>
      intro hds
      rw [List.map_cons, List.reverse_cons, hexadecimal_append_singleton,
        (xdigitChar_spec (hds d List.mem_cons_self)).2, Nat.ofDigits_cons,
        ih fun x hx => hds x (List.mem_cons_of_mem _ hx)]
      ring
  unfold hexDigits
  split
  · next h =>
    subst h
    decide
  · rw [hread _ fun d hd => Nat.digits_lt_base (by norm_num) hd, Nat.ofDigits_digits]

/-- The digits of a group in front of something else. -/
theorem span_hexDigits (g : Nat) (rest : Str) (h : rest.head?.all (fun c => !isxdigit c) = true) :
    (hexDigits g ++ rest).takeWhile isxdigit = hexDigits g ∧
      (hexDigits g ++ rest).dropWhile isxdigit = rest := by
  have hg : ∀ c ∈ hexDigits g, isxdigit c = true := fun c hc => isxdigit_of_mem_hexDigits hc
  rw [List.takeWhile_append_of_pos hg, List.dropWhile_append_of_pos hg]
  cases rest with
  | nil => simp
  | cons c rest =>
    have hc : isxdigit c = false := by simpa using h
    simp [hc]

end

/-! ## The groups of an IPv6 address -/

section
variable {fuel g : Nat} {groups gs : List Nat} {ellipsis : Option Nat} {rest : Str}

theorem ipv6Loop_last (hg : g ≤ 0xFFFF) :
    ipv6Loop (fuel + 1) groups ellipsis (hexDigits g) = some (groups ++ [g], ellipsis) := by
  obtain ⟨htake, hdrop⟩ := span_hexDigits g [] rfl
  rw [List.append_nil] at htake hdrop
  have hok : ¬ (hexDigits g = [] ∨ 0xFFFF < hexadecimal (hexDigits g)) := by
    rw [hexadecimal_hexDigits]
    exact not_or.mpr ⟨hexDigits_ne_nil g, by omega⟩
  rw [ipv6Loop]
  dsimp only
  rw [htake, hdrop, if_neg hok, hexadecimal_hexDigits]

/-- A group in front of a single colon. -/
theorem ipv6Loop_colon {c : Char} (hg : g ≤ 0xFFFF) (hc : c ≠ ':') :
    ipv6Loop (fuel + 1) groups ellipsis (hexDigits g ++ ':' :: c :: rest) =
      ipv6Loop fuel (groups ++ [g]) ellipsis (c :: rest) := by
  obtain ⟨htake, hdrop⟩ := span_hexDigits g (':' :: c :: rest) rfl
  have hok : ¬ (hexDigits g = [] ∨ 0xFFFF < hexadecimal (hexDigits g)) := by
    rw [hexadecimal_hexDigits]
    exact not_or.mpr ⟨hexDigits_ne_nil g, by omega⟩
  rw [ipv6Loop]
  dsimp only
  rw [htake, hdrop, if_neg hok, hexadecimal_hexDigits]
  split
  · next h => cases h
  · next h => cases h
  · next h =>
    obtain ⟨-, h⟩ := List.cons.inj h
    exact absurd (List.cons.inj h).1 hc
  · next h =>
    obtain ⟨-, h⟩ := List.cons.inj h
    obtain ⟨rfl, rfl⟩ := List.cons.inj h
    rfl
  · next h => exact absurd rfl (h c rest)

/-- A group in front of the ellipsis. -/
theorem ipv6Loop_ellipsis (hg : g ≤ 0xFFFF) :
    ipv6Loop (fuel + 1) groups none (hexDigits g ++ ':' :: ':' :: rest) =
      if rest = [] then some (groups ++ [g], some (groups ++ [g]).length)
      else ipv6Loop fuel (groups ++ [g]) (some (groups ++ [g]).length) rest := by
  obtain ⟨htake, hdrop⟩ := span_hexDigits g (':' :: ':' :: rest) rfl
  have hok : ¬ (hexDigits g = [] ∨ 0xFFFF < hexadecimal (hexDigits g)) := by
    rw [hexadecimal_hexDigits]
    exact not_or.mpr ⟨hexDigits_ne_nil g, by omega⟩
  rw [ipv6Loop]
  dsimp only
  rw [htake, hdrop, if_neg hok, hexadecimal_hexDigits]
  rfl

/-- A text of groups starts with a digit. -/
theorem exists_head_unsplit (hgs : gs ≠ []) :
    ∃ c t, unsplit [':'] (gs.map hexDigits) = c :: t ∧ c ≠ ':' := by
  obtain ⟨g, gs, rfl⟩ := List.exists_cons_of_ne_nil hgs
  obtain ⟨c, t, hg⟩ := List.exists_cons_of_ne_nil (hexDigits_ne_nil g)
  refine ⟨c, t ++ (gs.map hexDigits).flatMap ([':'] ++ ·), ?_, ?_⟩
  · rw [List.map_cons, unsplit, hg, List.cons_append]
  · rintro rfl
    have hcolon : isxdigit ':' = true := isxdigit_of_mem_hexDigits (g := g) (by rw [hg]; simp)
    revert hcolon
    decide

theorem ipv6Loop_groups (hgs : gs ≠ []) (hlt : ∀ g ∈ gs, g ≤ 0xFFFF) (hfuel : gs.length ≤ fuel) :
    ipv6Loop fuel groups ellipsis (unsplit [':'] (gs.map hexDigits)) =
      some (groups ++ gs, ellipsis) := by
  induction gs generalizing fuel groups with
  | nil => exact absurd rfl hgs
  | cons g gs ih =>
    obtain ⟨fuel, rfl⟩ : ∃ f, fuel = f + 1 :=
      ⟨fuel - 1, by rw [List.length_cons] at hfuel; omega⟩
    have hg : g ≤ 0xFFFF := hlt g List.mem_cons_self
    by_cases hnil : gs = []
    · subst hnil
      simpa [unsplit] using ipv6Loop_last hg
    · obtain ⟨c, t, hct, hc⟩ := exists_head_unsplit hnil
      have hrest := @ih fuel (groups ++ [g]) hnil (fun x hx => hlt x (List.mem_cons_of_mem _ hx))
        (by simpa using hfuel)
      rw [List.map_cons, unsplit_cons (by simpa using hnil), List.append_assoc, hct,
        List.singleton_append, ipv6Loop_colon hg hc, ← hct, hrest, List.append_assoc,
        List.singleton_append]

/-- The groups in front of the ellipsis. -/
theorem ipv6Loop_front (hgs : gs ≠ []) (hlt : ∀ g ∈ gs, g ≤ 0xFFFF) (hfuel : gs.length ≤ fuel) :
    ipv6Loop fuel groups none (unsplit [':'] (gs.map hexDigits) ++ ':' :: ':' :: rest) =
      if rest = [] then some (groups ++ gs, some (groups ++ gs).length)
      else ipv6Loop (fuel - gs.length) (groups ++ gs) (some (groups ++ gs).length) rest := by
  induction gs generalizing fuel groups with
  | nil => exact absurd rfl hgs
  | cons g gs ih =>
    obtain ⟨fuel, rfl⟩ : ∃ f, fuel = f + 1 :=
      ⟨fuel - 1, by rw [List.length_cons] at hfuel; omega⟩
    have hg : g ≤ 0xFFFF := hlt g List.mem_cons_self
    by_cases hnil : gs = []
    · subst hnil
      simpa [unsplit] using ipv6Loop_ellipsis hg
    · obtain ⟨c, t, hct, hc⟩ := exists_head_unsplit hnil
      have hrest := @ih fuel (groups ++ [g]) hnil (fun x hx => hlt x (List.mem_cons_of_mem _ hx))
        (by simpa using hfuel)
      rw [hct, List.cons_append] at hrest
      rw [List.map_cons, unsplit_cons (by simpa using hnil), List.append_assoc, List.append_assoc,
        hct, List.singleton_append, List.cons_append, ipv6Loop_colon hg hc, hrest, List.append_assoc,
        List.singleton_append, List.length_cons, Nat.add_sub_add_right]

/-! ## The run of zeros -/

theorem zeroRun_spec {start length : Nat} (h : zeroRun groups = some (start, length)) :
    2 ≤ length ∧
      groups = groups.take start ++ List.replicate length 0 ++ groups.drop (start + length) := by
  have hfold : ∀ (is : List Nat) (best : Option (Nat × Nat)),
      (∀ p ∈ best, 2 ≤ p.2 ∧ p.2 = ((groups.drop p.1).takeWhile (· = 0)).length) →
      ∀ p ∈ is.foldl (fun best i =>
        let length := ((groups.drop i).takeWhile (· = 0)).length
        if 2 ≤ length ∧ (best.map (·.2)).getD 0 < length then some (i, length) else best) best,
      2 ≤ p.2 ∧ p.2 = ((groups.drop p.1).takeWhile (· = 0)).length := by
    intro is
    induction is with
    | nil => exact fun best hbest => hbest
    | cons i is ih =>
      intro best hbest
      refine ih _ ?_
      dsimp only
      split
      · next hlonger =>
        intro p hp
        obtain rfl := Option.some.inj hp
        exact ⟨hlonger.1, rfl⟩
      · exact hbest
  obtain ⟨hlong, hlength⟩ := hfold _ none nofun (start, length) h
  refine ⟨hlong, ?_⟩
  dsimp only at hlength
  have hzeros : (groups.drop start).takeWhile (· = 0) = List.replicate length 0 := by
    refine List.eq_replicate_of_mem (fun z hz => ?_) |>.trans (by rw [hlength])
    simpa using List.mem_takeWhile_imp hz
  have hrest : groups.drop (start + length) = (groups.drop start).dropWhile (· = 0) := by
    have hjoin : (groups.drop start).takeWhile (· = 0) ++ (groups.drop start).dropWhile (· = 0) =
        groups.drop start := List.takeWhile_append_dropWhile
    rw [← List.drop_drop]
    nth_rewrite 1 [← hjoin]
    exact List.drop_left' hlength.symm
  rw [hrest, List.append_assoc, ← hzeros, List.takeWhile_append_dropWhile, List.take_append_drop]

theorem expandEllipsis_zeroRun {start length : Nat} (h : zeroRun groups = some (start, length))
    (hlen : groups.length = 8) :
    start + length ≤ 8 ∧
      expandEllipsis (groups.take start ++ groups.drop (start + length)) (some start) =
        some groups := by
  obtain ⟨hlong, hgroups⟩ := zeroRun_spec h
  have hfit : start + length ≤ 8 := by
    have hcount := congrArg List.length hgroups
    simp only [List.length_append, List.length_take, List.length_replicate, List.length_drop,
      hlen] at hcount
    omega
  have htake : (groups.take start).length = start := by
    rw [List.length_take, hlen]
    omega
  have hshort : (groups.take start ++ groups.drop (start + length)).length = 8 - length := by
    rw [List.length_append, htake, List.length_drop, hlen]
    omega
  refine ⟨hfit, ?_⟩
  rw [expandEllipsis, hshort, if_pos (by omega), List.take_left' htake, List.drop_left' htake,
    show 8 - (8 - length) = length by omega, ← hgroups]

end

/-! ## From groups to addresses -/

/-- The digits of a number, the first one first. -/
theorem foldl_digits {base n m x : Nat} (hm : m ≤ n) (hx : x < base ^ n) :
    ((List.range m).map fun i => x / base ^ (n - 1 - i) % base).foldl
      (fun acc g => acc * base + g) 0 = x / base ^ (n - m) := by
  induction m with
  | zero => simp [Nat.div_eq_of_lt hx]
  | succ m ih =>
    rw [List.range_succ, List.map_append, List.foldl_append, ih (by omega), List.map_singleton,
      List.foldl_cons, List.foldl_nil, show n - 1 - m = n - (m + 1) by omega,
      show n - m = n - (m + 1) + 1 by omega, pow_succ, ← Nat.div_div_eq_div_mul]
    exact Nat.div_add_mod' _ _

theorem ipGroups_eq (ip : IP) :
    ipGroups ip = (List.range 8).map fun i => ip.toNat / 65536 ^ (8 - 1 - i) % 65536 := by
  refine List.map_congr_left fun i hi => ?_
  rw [BitVec.extractLsb'_toNat, Nat.shiftRight_eq_div_pow, pow_mul]
  norm_num

theorem ipGroups_le (ip : IP) : ∀ g ∈ ipGroups ip, g ≤ 0xFFFF := by
  intro g hg
  rw [ipGroups_eq, List.mem_map] at hg
  obtain ⟨i, -, rfl⟩ := hg
  omega

theorem foldl_ipGroups (ip : IP) :
    BitVec.ofNat 128 ((ipGroups ip).foldl (fun n g => n * 65536 + g) 0) = ip := by
  have hlt : ip.toNat < 65536 ^ 8 := by
    have := ip.isLt
    omega
  rw [ipGroups_eq, foldl_digits le_rfl hlt]
  simp

theorem parseIPv6_colons {rest : Str} (h : rest ≠ []) :
    parseIPv6 (':' :: ':' :: rest) =
      (ipv6Loop 8 [] (some 0) rest).bind fun g => (expandEllipsis g.1 g.2).map fun groups =>
        BitVec.ofNat 128 (groups.foldl (fun n g => n * 65536 + g) 0) := by
  obtain ⟨c, t, rfl⟩ := List.exists_cons_of_ne_nil h
  rfl

/-- A text that does not start with a colon is read group by group from its start. -/
theorem parseIPv6_of_head {s : Str} (h : s.head? ≠ some ':') :
    parseIPv6 s = (ipv6Loop 8 [] none s).bind fun g => (expandEllipsis g.1 g.2).map fun groups =>
      BitVec.ofNat 128 (groups.foldl (fun n g => n * 65536 + g) 0) := by
  unfold parseIPv6
  split
  · exact absurd rfl h
  · exact absurd rfl h
  · rfl

theorem head_unsplit_ne_colon {gs : List Nat} (rest : Str) (hgs : gs ≠ []) :
    (unsplit [':'] (gs.map hexDigits) ++ rest).head? ≠ some ':' := by
  obtain ⟨c, t, hct, hc⟩ := exists_head_unsplit hgs
  rw [hct, List.cons_append, List.head?_cons]
  exact fun h => hc (Option.some.inj h)

/-- The groups of an address, with zeros left out, are read back. -/
theorem parseIPv6_ipString {ip : IP} (h : to4 ip = none) : parseIPv6 (ipString ip) = some ip := by
  have hlen : (ipGroups ip).length = 8 := by rw [ipGroups_eq, List.length_map, List.length_range]
  have hle := ipGroups_le ip
  have hread : ∀ {g : List Nat × Option Nat}, expandEllipsis g.1 g.2 = some (ipGroups ip) →
      ((expandEllipsis g.1 g.2).map fun groups =>
        BitVec.ofNat 128 (groups.foldl (fun n g => n * 65536 + g) 0)) = some ip := by
    intro g hg
    rw [hg, Option.map_some, foldl_ipGroups]
  have hne : ipGroups ip ≠ [] := fun hnil => by rw [hnil] at hlen; cases hlen
  simp only [ipString, h]
  cases hzero : zeroRun (ipGroups ip) with
  | none =>
    have hhead := head_unsplit_ne_colon [] hne
    rw [List.append_nil] at hhead
    dsimp only
    rw [parseIPv6_of_head hhead, ipv6Loop_groups hne hle hlen.le, Option.bind_some]
    refine hread ?_
    rw [List.nil_append, expandEllipsis, if_pos hlen]
  | some run =>
    obtain ⟨start, length⟩ := run
    obtain ⟨hfit, hexpand⟩ := expandEllipsis_zeroRun hzero hlen
    obtain ⟨hlong, -⟩ := zeroRun_spec hzero
    have hfront : ∀ g ∈ (ipGroups ip).take start, g ≤ 0xFFFF := fun g hg =>
      hle g (List.mem_of_mem_take hg)
    have hback : ∀ g ∈ (ipGroups ip).drop (start + length), g ≤ 0xFFFF := fun g hg =>
      hle g (List.mem_of_mem_drop hg)
    have hlenFront : ((ipGroups ip).take start).length = start := by
      rw [List.length_take, hlen]
      omega
    have hlenBack : ((ipGroups ip).drop (start + length)).length = 8 - (start + length) := by
      rw [List.length_drop, hlen]
    have hbackNil : unsplit [':'] (((ipGroups ip).drop (start + length)).map hexDigits) = [] ↔
        (ipGroups ip).drop (start + length) = [] := by
      constructor
      · intro hnil
        by_contra hne
        obtain ⟨c, t, hct, -⟩ := exists_head_unsplit hne
        rw [hct] at hnil
        cases hnil
      · intro hnil
        rw [hnil]
        rfl
    dsimp only
    by_cases hnil : (ipGroups ip).take start = []
    · obtain rfl : start = 0 := by rw [hnil] at hlenFront; exact hlenFront.symm
      rw [hnil, List.nil_append] at hexpand
      rw [hnil, List.map_nil, unsplit, List.nil_append]
      by_cases hend : (ipGroups ip).drop (0 + length) = []
      · rw [hend] at hexpand ⊢
        exact hread (g := ([], some 0)) hexpand
      · have hloop : ipv6Loop 8 [] (some 0)
            (unsplit [':'] (((ipGroups ip).drop (0 + length)).map hexDigits)) =
              some ([] ++ (ipGroups ip).drop (0 + length), some 0) :=
          ipv6Loop_groups hend hback (by omega)
        rw [List.cons_append, List.singleton_append, parseIPv6_colons (mt hbackNil.mp hend), hloop,
          Option.bind_some]
        exact hread hexpand
    · rw [List.append_assoc, List.cons_append, List.singleton_append,
        parseIPv6_of_head (head_unsplit_ne_colon _ hnil),
        ipv6Loop_front hnil hfront (by omega), List.nil_append, hlenFront]
      by_cases hend : (ipGroups ip).drop (start + length) = []
      · rw [if_pos (hbackNil.mpr hend), Option.bind_some]
        rw [hend, List.append_nil] at hexpand
        exact hread hexpand
      · rw [if_neg (mt hbackNil.mp hend), ipv6Loop_groups hend hback (by omega), Option.bind_some]
        exact hread hexpand

/-! ## IPv4 addresses -/

theorem head_natDigits {n : Nat} (h : (natDigits n).head? = some '0') : natDigits n = ['0'] := by
  by_cases hn : n = 0
  · rw [natDigits, if_pos hn]
  · have hdigits : Nat.digits 10 n ≠ [] := Nat.digits_ne_nil_iff_ne_zero.mpr hn
    rw [natDigits, if_neg hn, List.head?_map, List.head?_reverse,
      List.getLast?_eq_some_getLast hdigits, Option.map_some, Option.some.injEq] at h
    have hlt : (Nat.digits 10 n).getLast hdigits < 10 :=
      Nat.digits_lt_base (by norm_num) (List.getLast_mem hdigits)
    have hne : (Nat.digits 10 n).getLast hdigits ≠ 0 := Nat.getLast_digit_ne_zero 10 hn
    have hval := (digitChar_spec _ hlt).2
    rw [h] at hval
    exact absurd hval.symm hne

theorem ipv4Field_natDigits {n : Nat} (h : n ≤ 255) : ipv4Field (natDigits n) = some n := by
  have hall : (natDigits n).all isdigit = true :=
    List.all_eq_true.mpr fun c hc => isdigit_of_mem_natDigits hc
  rw [ipv4Field, decimal_natDigits, if_pos ⟨natDigits_ne_nil n, hall, head_natDigits, h⟩]

theorem dot_not_mem_natDigits (n : Nat) : '.' ∉ natDigits n := fun h => by
  have hdigit := isdigit_of_mem_natDigits h
  revert hdigit
  decide

theorem parseIPv4_unsplit {a b c d : Nat} (ha : a ≤ 255) (hb : b ≤ 255) (hc : c ≤ 255)
    (hd : d ≤ 255) : parseIPv4 (unsplit ['.'] ([a, b, c, d].map natDigits)) =
      some (BitVec.ofNat 32 (((a * 256 + b) * 256 + c) * 256 + d)) := by
  have hdot : ∀ w ∈ [a, b, c, d].map natDigits, '.' ∉ w := by
    intro w hw
    obtain ⟨n, -, rfl⟩ := List.mem_map.mp hw
    exact dot_not_mem_natDigits n
  have hsplit : split ['.'] (unsplit ['.'] ([a, b, c, d].map natDigits)) =
      [a, b, c, d].map natDigits := split_unsplit_of_not_mem (List.cons_ne_nil _ _) hdot
  rw [parseIPv4, hsplit]
  simp only [List.map_cons, List.map_nil, ipv4Field_natDigits ha, ipv4Field_natDigits hb,
    ipv4Field_natDigits hc, ipv4Field_natDigits hd]

/-- The four numbers of an address are read back. -/
theorem parseIPv4_ipString {ip : IP} {v4 : BitVec 32} (h : to4 ip = some v4) :
    parseIPv4 (ipString ip) = some v4 := by
  have hbyte : ∀ i,
      (v4.extractLsb' (8 * (3 - i)) 8).toNat = v4.toNat / 256 ^ (4 - 1 - i) % 256 := by
    intro i
    rw [BitVec.extractLsb'_toNat, Nat.shiftRight_eq_div_pow, pow_mul]
    norm_num
  have hlt : v4.toNat < 256 ^ 4 := by
    have := v4.isLt
    omega
  have hle : ∀ i, v4.toNat / 256 ^ (4 - 1 - i) % 256 ≤ 255 := fun i => by omega
  have hjoin := foldl_digits (m := 4) le_rfl hlt
  rw [Nat.sub_self, pow_zero, Nat.div_one] at hjoin
  simp only [List.range_succ, List.range_zero, List.nil_append, List.cons_append, List.map_cons,
    List.map_nil, List.foldl_cons, List.foldl_nil, Nat.zero_mul, Nat.zero_add] at hjoin
  have htext : ipString ip = unsplit ['.'] ([v4.toNat / 256 ^ (4 - 1 - 0) % 256,
      v4.toNat / 256 ^ (4 - 1 - 1) % 256, v4.toNat / 256 ^ (4 - 1 - 2) % 256,
      v4.toNat / 256 ^ (4 - 1 - 3) % 256].map natDigits) := by
    simp only [ipString, h, hbyte]
    rfl
  rw [htext, parseIPv4_unsplit (hle 0) (hle 1) (hle 2) (hle 3), Option.some.injEq,
    ← BitVec.toNat_inj, BitVec.toNat_ofNat, hjoin, Nat.mod_eq_of_lt v4.isLt]

/-! ## Both kinds -/

section
variable {s : Str}

/-- Only one of the two separators is there to be found. -/
theorem find?_separator {x y : Char} (hsep : ∀ c, (c == '.' || c == ':') = true ↔ c = x ∨ c = y)
    (hx : x ∈ s) (hy : y ∉ s) : s.find? (fun c => c == '.' || c == ':') = some x := by
  obtain ⟨c, hc⟩ : ∃ c, s.find? (fun c => c == '.' || c == ':') = some c :=
    Option.isSome_iff_exists.mp (List.find?_isSome.mpr ⟨x, hx, (hsep x).mpr (.inl rfl)⟩)
  have hmem : c ∈ s := List.mem_of_find?_eq_some hc
  rcases (hsep c).mp (List.find?_some (p := fun c => c == '.' || c == ':') hc) with rfl | rfl
  · exact hc
  · exact absurd hmem hy

theorem parseAddr_dot (hdot : '.' ∈ s) (hcolon : ':' ∉ s) :
    parseAddr s = (parseIPv4 s).map .inl := by
  rw [parseAddr, find?_separator (fun c => by simp) hdot hcolon]
  rfl

theorem parseAddr_colon (hcolon : ':' ∈ s) (hdot : '.' ∉ s) :
    parseAddr s = (parseIPv6 s).map .inr := by
  rw [parseAddr, find?_separator (fun c => by simp [or_comm]) hcolon hdot]
  rfl

end

/-- The text of an IPv4 address has dots and no colons. -/
theorem separator_ipString_v4 {ip : IP} (h : (to4 ip).isSome = true) :
    '.' ∈ ipString ip ∧ ':' ∉ ipString ip := by
  obtain ⟨v4, h4⟩ := Option.isSome_iff_exists.mp h
  simp only [ipString, h4]
  constructor
  · simp [unsplit, List.range_succ]
  · intro hmem
    have hcolon : isdigit ':' = false := by decide
    rcases mem_unsplit hmem with hsep | ⟨w, hw, hmem⟩
    · revert hsep
      decide
    · obtain ⟨i, -, rfl⟩ := List.mem_map.mp hw
      rw [isdigit_of_mem_natDigits hmem] at hcolon
      cases hcolon

/-- The text of another address has colons and no dots. -/
theorem separator_ipString_v6 {ip : IP} (h : to4 ip = none) :
    ':' ∈ ipString ip ∧ '.' ∉ ipString ip := by
  have hdot : ∀ gs : List Nat, '.' ∉ unsplit [':'] (gs.map hexDigits) := by
    intro gs hmem
    have hx : isxdigit '.' = false := by decide
    rcases mem_unsplit hmem with hsep | ⟨w, hw, hmem⟩
    · revert hsep
      decide
    · obtain ⟨g, -, rfl⟩ := List.mem_map.mp hw
      rw [isxdigit_of_mem_hexDigits hmem] at hx
      cases hx
  simp only [ipString, h]
  cases zeroRun (ipGroups ip) with
  | none =>
    refine ⟨?_, hdot _⟩
    simp [ipGroups, unsplit, List.range_succ]
  | some run =>
    obtain ⟨start, length⟩ := run
    constructor
    · simp
    · simp only [List.mem_append, not_or]
      exact ⟨⟨hdot _, by decide⟩, hdot _⟩

/-- What `IP.String` writes is read back. -/
theorem parseAddr_ipString (ip : IP) :
    parseAddr (ipString ip) = some (match to4 ip with | some v4 => .inl v4 | none => .inr ip) := by
  cases h : to4 ip with
  | some v4 =>
    obtain ⟨hdot, hcolon⟩ := separator_ipString_v4 (by rw [h]; rfl)
    rw [parseAddr_dot hdot hcolon, parseIPv4_ipString h, Option.map_some]
  | none =>
    obtain ⟨hcolon, hdot⟩ := separator_ipString_v6 h
    rw [parseAddr_colon hcolon hdot, parseIPv6_ipString h, Option.map_some]

theorem parseIP_ipString (ip : IP) : parseIP (ipString ip) = some ip := by
  rw [parseIP, parseAddr_ipString]
  cases h : to4 ip with
  | some v4 =>
    rw [Option.map_some, Option.some.injEq, as16, ← BitVec.toNat_inj, toNat_mapped]
    exact (to4_eq_some.mp h).symm
  | none => rfl

/-- Different addresses have different texts. -/
theorem ipString_injective : Function.Injective ipString := by
  intro ip ip' h
  have hread := parseIP_ipString ip
  rw [h, parseIP_ipString] at hread
  exact (Option.some.inj hread).symm

end QrWireguard
