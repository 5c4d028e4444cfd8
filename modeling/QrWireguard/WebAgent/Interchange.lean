import QrWireguard.Misc.InetText
import QrWireguard.WebAgent.Netmask
import QrWireguard.WebAgent.Overflow

/-!
# One agent for the other

When the two agents handle a message alike. They build the same command lines of the same values,
but they read networks differently, one of them saves the configuration where the other does
nothing, and only one of them has buffers.
-/

namespace QrWireguard.WebAgent

open BePlugin

/-- A piece of a command line: words of it, or a value of the request. -/
inductive Part where
  | words (s : Str)
  | value (i : Fin 16)
  deriving DecidableEq

/-- The text of a piece. -/
def Part.text (keyValue : Vector Str 16) : Part → Str
  | words s => s
  | value i => keyValue.get i

/-- The text of pieces. -/
def partsText (keyValue : Vector Str 16) (parts : List Part) : Str :=
  parts.flatMap (·.text keyValue)

/-- What an agent does for a subcommand: it rejects it, it accepts it without a command line, or it
runs one, which ends in the network of the first value where there is one. -/
inductive Deed where
  | unknown
  | settings
  | command (parts : List Part)
  | network (parts : List Part)
  deriving DecidableEq

/-- What the agents do for a subcommand that both know. -/
def commandDeed : Cpp.VtyshCmd → Deed
  | .setHostName => .command [.words (str "hostname "), .value 0]
  | .changeAdminPassword => .unknown
  | .rebootSystem => .command [.words (str "reboot")]
  | .setEthernetInterface => .network [.words (str "ip address "), .value 1]
  | .noSetEthernetInterface => .command [.words (str "no ip address "), .value 0]
  | .addRouteEntry => .command [.words (str "ip route "), .value 1, .words [' '], .value 2,
    .words [' '], .value 3, .words [' '], .value 0]
  | .removeRouteEntry =>
    .command [.words (str "no ip route "), .value 1, .words [' '], .value 2]
  | .setWireguardInterface => .network [.words (str "ip address wg0")]
  | .noSetWireguardInterface => .command [.words (str "no ip address wg0")]
  | .setWireguardGlobalConfig => .settings
  | .addWireguardPeer => .command [.words (str "wg peer "), .value 0,
    .words (str " allowed-ips "), .value 1, .words (str " endpoint "), .value 2,
    .words (str " persistent-keepalive 25")]
  | .removeWireguardPeer => .command [.words (str "no wg peer "), .value 0]

/-- What the agents do for a subcommand. -/
def deed (subcmd : Str) : Deed := (Cpp.vtyshCmd subcmd).elim .unknown commandDeed

/-- The pieces of a deed. -/
def Deed.parts : Deed → List Part
  | unknown => []
  | settings => []
  | command parts => parts
  | network parts => parts

/-- A command line that ends in an address and a mask. -/
def networkLine (text ip mask : Str) : Str := text ++ ' ' :: ip ++ ' ' :: mask

/-- What the C++ agent makes of a deed. -/
def Deed.cpp (keyValue : Vector Str 16) : Deed → Except Fault Cpp.Handled
  | unknown => .ok ⟨false, []⟩
  | settings => .ok ⟨true, []⟩
  | command parts => Cpp.runScmd (partsText keyValue parts)
  | network parts =>
    match Cpp.getIPNetmask (keyValue.get 0) with
    | some (ip, mask) => Cpp.runScmd (networkLine (partsText keyValue parts) ip mask)
    | none => .ok ⟨false, []⟩

/-- What the Go agent makes of a deed. -/
def Deed.go (host : Go.Host) (keyValue : Vector Str 16) : Deed → Except Fault Go.Handled
  | unknown => .ok ⟨false, none, false⟩
  | settings => .ok ⟨true, none, true⟩
  | command parts => Go.runScmd host (partsText keyValue parts)
  | network parts => do
    let (ip, mask) ← Go.networkTexts (keyValue.get 0)
    Go.runScmd host (networkLine (partsText keyValue parts) ip mask)

section
variable {host : Go.Host} {subcmd : Str} {keyValue : Vector Str 16}

theorem Cpp.action_eq_deed (subcmd : Str) (keyValue : Vector Str 16) :
    Cpp.action subcmd keyValue = (deed subcmd).cpp keyValue := by
  unfold action deed
  cases vtyshCmd subcmd with
  | none => rfl
  | some command =>
    cases command <;>
      simp only [Option.elim_some, commandDeed, Deed.cpp, partsText, Part.text, networkLine,
        List.flatMap_cons, List.flatMap_nil, List.append_nil, List.append_assoc,
        List.cons_append, List.nil_append] <;> rfl

/-- The Go agent does for each subcommand of the C++ agent what that one does. -/
theorem Go.action_of_mem (host : Go.Host) (keyValue : Vector Str 16) :
    ∀ entry ∈ Cpp.initializeVtyshMap,
      Go.action host entry.1 keyValue = (commandDeed entry.2).go host keyValue := by
  intro entry hentry
  simp only [Cpp.initializeVtyshMap, List.mem_cons, List.not_mem_nil, or_false] at hentry
  rcases hentry with rfl | rfl | rfl | rfl | rfl | rfl | rfl | rfl | rfl | rfl | rfl | rfl <;>
    simp +decide only [Go.action, if_true, if_false, commandDeed, Deed.go, partsText, Part.text,
      networkLine, List.flatMap_cons, List.flatMap_nil, List.append_nil, List.append_assoc,
      List.cons_append, List.nil_append]
  rfl

theorem Go.action_eq_deed (host : Go.Host) (subcmd : Str) (keyValue : Vector Str 16) :
    Go.action host subcmd keyValue = (deed subcmd).go host keyValue := by
  unfold deed Cpp.vtyshCmd
  cases hfind : Cpp.initializeVtyshMap.find? fun entry => entry.1 == subcmd with
  | some entry =>
    have hname : entry.1 = subcmd := by simpa using List.find?_some hfind
    rw [← hname]
    exact Go.action_of_mem host keyValue entry (List.mem_of_find?_eq_some hfind)
  | none =>
    have hne : ∀ name ∈ Cpp.initializeVtyshMap.map (·.1), subcmd ≠ name := by
      intro name hname heq
      obtain ⟨entry, hentry, rfl⟩ := List.mem_map.mp hname
      have hno := List.find?_eq_none.mp hfind entry hentry
      rw [heq] at hno
      simp at hno
    simp only [Cpp.initializeVtyshMap, List.map_cons, List.map_nil, List.forall_mem_cons] at hne
    obtain ⟨h1, -, h2, h3, h4, h5, h6, h7, h8, h9, h10, h11, -⟩ := hne
    rw [Go.action, if_neg h1, if_neg h2, if_neg h3, if_neg h4, if_neg h5, if_neg h6, if_neg h7,
      if_neg h8, if_neg h9, if_neg h10, if_neg h11]
    rfl

end

/-! ## Command lines -/

/-- The command lines that the C++ agent hands to `vtysh`. -/
def Cpp.Handled.Hands (handled : Cpp.Handled) (lines : List Str) : Prop :=
  handled.commands = lines.map Cpp.shellText

/-- The command lines that the Go agent hands to `vtysh`. -/
def Go.Handled.Hands (handled : Go.Handled) (lines : List Str) : Prop :=
  ∃ line : Option Str, handled.script = line.map Go.scriptText ∧
    lines = line.toList ++ if handled.writes then [str "write"] else []

/-- The agents come to the same verdict and hand the same command lines to `vtysh`. -/
def SameEnd (cpp : Except Fault Cpp.Handled) (go : Except Fault Go.Handled) : Prop :=
  ∃ c g lines, cpp = .ok c ∧ go = .ok g ∧ c.ok = g.ok ∧ c.Hands lines ∧ g.Hands lines

/-- An IPv4 address as it is printed, with a prefix length from 1 to 30. -/
def IsPlainNetwork (s : Str) : Prop :=
  ∃ addr length, s = inetNtoa addr ++ '/' :: length ∧ Cpp.GoodLength length

/-- Whether the Go agent can run a script on a host. -/
def Go.Host.Runs (host : Go.Host) : Prop :=
  (host.created && host.written && host.executable) = true

/-- The condition on a deed and the values that were sent: the values of the command line have no
NUL in them, and the network is one that both agents read alike. -/
def Deed.Alike (host : Go.Host) (keyValue : Vector Str 16) : Deed → Prop
  | unknown => True
  | settings => False
  | command parts => host.Runs ∧ ∀ i, .value i ∈ parts → '\x00' ∉ keyValue.get i
  | network parts => host.Runs ∧ (∀ i, .value i ∈ parts → '\x00' ∉ keyValue.get i) ∧
    IsPlainNetwork (keyValue.get 0)

section
variable {host : Go.Host} {sent read : Vector Str 16} {parts : List Part} {line line' : Str}

theorem Go.runScmd_eq_ok {handled : Go.Handled} : Go.runScmd host line = .ok handled ↔
    host.Runs ∧ handled = ⟨true, some (Go.scriptText line), true⟩ := by
  unfold runScmd runCommand Go.Host.Runs
  cases host.created && host.written && host.executable
  · exact iff_of_false (fun h => by cases h) fun h => by cases h.1
  · exact ⟨fun h => ⟨rfl, (Except.ok.inj h).symm⟩, fun h => by rw [h.2]; rfl⟩

theorem shellText_injective : Function.Injective Cpp.shellText := by
  intro line line' h
  rw [Cpp.shellText, Cpp.shellText] at h
  exact List.append_cancel_left (List.append_cancel_right h)

theorem scriptText_injective : Function.Injective Go.scriptText := by
  intro line line' h
  rw [Go.scriptText, Go.scriptText] at h
  exact List.append_cancel_left (List.append_cancel_right h)

/-- Agents that run a command line end alike when it is the same one and fits. -/
theorem sameEnd_runScmd : SameEnd (Cpp.runScmd line) (Go.runScmd host line') ↔
    line.length ≤ 230 ∧ host.Runs ∧ line = line' := by
  constructor
  · rintro ⟨c, g, lines, hc, hg, -, hcpp, script, hscript, rfl⟩
    obtain ⟨hlen, rfl⟩ := Cpp.runScmd_eq_ok.mp hc
    obtain ⟨hruns, rfl⟩ := Go.runScmd_eq_ok.mp hg
    refine ⟨hlen, hruns, ?_⟩
    cases script with
    | none => cases hscript
    | some other =>
      obtain rfl := scriptText_injective (Option.some.inj hscript)
      exact shellText_injective (List.cons.inj hcpp).1
  · rintro ⟨hlen, hruns, rfl⟩
    have hwrite : str "/usr/bin/qrwg/vtysh -e \"write\"" = Cpp.shellText (str "write") := by decide
    refine ⟨_, _, [line, str "write"], Cpp.runScmd_eq_ok.mpr ⟨hlen, rfl⟩,
      Go.runScmd_eq_ok.mpr ⟨hruns, rfl⟩, rfl, ?_, some line, rfl, rfl⟩
    rw [Cpp.Handled.Hands, hwrite]
    rfl

theorem nul_not_mem_cstr (s : Str) : '\x00' ∉ cstr s := by
  intro hmem
  simpa using List.mem_takeWhile_imp hmem

/-- The agents build the same text of values that the C++ agent cuts at a NUL just when there is
none in them. -/
theorem partsText_eq_iff (hcut : ∀ i, read.get i = cstr (sent.get i))
    (hwords : ∀ s, .words s ∈ parts → '\x00' ∉ s) :
    partsText read parts = partsText sent parts ↔
      ∀ i, .value i ∈ parts → '\x00' ∉ sent.get i := by
  constructor
  · intro heq i hi hnul
    have hmem : '\x00' ∈ partsText read parts := by
      rw [heq, partsText, List.mem_flatMap]
      exact ⟨_, hi, hnul⟩
    rw [partsText, List.mem_flatMap] at hmem
    obtain ⟨part, hpart, hnul⟩ := hmem
    cases part with
    | words s => exact hwords s hpart hnul
    | value j =>
      rw [Part.text, hcut] at hnul
      exact nul_not_mem_cstr _ hnul
  · intro hvalues
    unfold partsText
    refine List.flatMap_congr fun part hpart => ?_
    cases part with
    | words s => rfl
    | value i => rw [Part.text, Part.text, hcut, cstr_of_not_mem (hvalues i hpart)]

/-- Texts before a separator that the texts behind it do not have. -/
theorem append_sep_inj {c : Char} {a b x y : Str} (hx : c ∉ x) (hy : c ∉ y) :
    a ++ c :: x = b ++ c :: y ↔ a = b ∧ x = y := by
  constructor
  · intro h
    have hnil : ∀ {t u v : Str}, c :: u = t ++ c :: v → c ∉ u → t = [] := by
      intro t u v heq hu
      cases t with
      | nil => rfl
      | cons d t =>
        refine absurd ?_ hu
        rw [(List.cons.inj heq).2]
        exact List.mem_append_right _ List.mem_cons_self
    rcases List.append_eq_append_iff.mp h with ⟨t, rfl, heq⟩ | ⟨t, rfl, heq⟩
    · obtain rfl := hnil heq hx
      exact ⟨(List.append_nil _).symm, (List.cons.inj heq).2⟩
    · obtain rfl := hnil heq hy
      exact ⟨List.append_nil _, (List.cons.inj heq).2.symm⟩
  · rintro ⟨rfl, rfl⟩
    rfl

theorem networkLine_inj {ip mask ip' mask' : Str} (hip : ' ' ∉ ip) (hmask : ' ' ∉ mask)
    (hip' : ' ' ∉ ip') (hmask' : ' ' ∉ mask') :
    networkLine line ip mask = networkLine line' ip' mask' ↔
      line = line' ∧ ip = ip' ∧ mask = mask' := by
  rw [networkLine, networkLine, append_sep_inj hmask hmask', append_sep_inj hip hip', and_assoc]

theorem space_not_mem_of_isAddrChar {s : Str} (h : ∀ c ∈ s, isAddrChar c = true) : ' ' ∉ s :=
  fun hmem => absurd (h ' ' hmem) (by decide)

theorem space_not_mem_inetNtoa (addr : BitVec 32) : ' ' ∉ inetNtoa addr :=
  space_not_mem_of_isAddrChar (isAddrChar_inetNtoa addr)

theorem space_not_mem_getIPNetmask {s ip mask : Str} (h : Cpp.getIPNetmask s = some (ip, mask)) :
    ' ' ∉ ip ∧ ' ' ∉ mask := by
  obtain ⟨addr, length, bits, -, -, rfl, rfl⟩ := Cpp.getIPNetmask_eq_some.mp h
  exact ⟨space_not_mem_inetNtoa _, space_not_mem_inetNtoa _⟩

/-- The texts of a network are addresses. -/
theorem isAddrChar_of_networkTexts {s ip mask : Str} (h : Go.networkTexts s = .ok (ip, mask)) :
    (∀ c ∈ ip, isAddrChar c = true ∨ c = '/') ∧ ∀ c ∈ mask, isAddrChar c = true := by
  unfold Go.networkTexts at h
  split at h
  · next r ipnet hparse =>
    obtain ⟨rfl, rfl⟩ := Prod.mk.inj (Except.ok.inj h)
    constructor
    · intro c hmem
      have hs := mem_of_mem_piece (List.cons_ne_nil _ _) (List.head_mem (split_ne_nil ['/'] s)) hmem
      exact isAddrChar_of_parseCIDR hparse _ hs
    · cases ipnet with
      | v4 number mask => exact isAddrChar_inetNtoa mask
      | v6 number mask => exact isAddrChar_ipString
  · cases h

theorem space_not_mem_networkTexts {s ip mask : Str} (h : Go.networkTexts s = .ok (ip, mask)) :
    ' ' ∉ ip ∧ ' ' ∉ mask := by
  obtain ⟨hip, hmask⟩ := isAddrChar_of_networkTexts h
  refine ⟨fun hmem => ?_, space_not_mem_of_isAddrChar hmask⟩
  rcases hip ' ' hmem with hchar | hchar
  · exact absurd hchar (by decide)
  · exact absurd hchar (by decide)

theorem netmask_eq_cidrMask {n : Nat} (hpos : 1 ≤ n) (hle : n ≤ 32) :
    Cpp.netmask n = cidrMask n 32 := by
  refine BitVec.eq_of_getMsbD_eq fun i hi => ?_
  rw [Cpp.firstOnes_netmask hpos hle i hi, BitVec.getMsbD_eq_getLsbD, getLsbD_cidrMask,
    Bool.eq_iff_iff]
  simp only [Bool.and_eq_true, decide_eq_true_eq]
  omega

theorem slash_not_mem_inetNtoa (addr : BitVec 32) : '/' ∉ inetNtoa addr :=
  fun hmem => absurd (isAddrChar_inetNtoa addr _ hmem) (by decide)

/-- The Go agent keeps the text in front of the slash. -/
theorem networkTexts_fst {addr length ip mask : Str} (hslash : '/' ∉ addr)
    (h : Go.networkTexts (addr ++ '/' :: length) = .ok (ip, mask)) : ip = addr := by
  unfold Go.networkTexts at h
  split at h
  · obtain ⟨rfl, -⟩ := Prod.mk.inj (Except.ok.inj h)
    simp only [split_append_char hslash, List.head_cons]
  · cases h

theorem networkTexts_inetNtoa {addr : BitVec 32} {length ip mask : Str} :
    Go.networkTexts (inetNtoa addr ++ '/' :: length) = .ok (ip, mask) ↔
      ∃ n, prefixLength length 32 = some n ∧ ip = inetNtoa addr ∧ mask = inetNtoa (cidrMask n 32) := by
  have hhead : (split ['/'] (inetNtoa addr ++ '/' :: length)).head (split_ne_nil _ _) =
      inetNtoa addr := by
    simp only [split_append_char (slash_not_mem_inetNtoa addr), List.head_cons]
  unfold Go.networkTexts
  rw [parseCIDR_inetNtoa, hhead]
  cases prefixLength length 32 with
  | none => simp
  | some n =>
    simp only [Option.map_some, Go.maskString, Except.ok.injEq, Prod.mk.injEq, Option.some.injEq,
      exists_eq_left']
    exact and_congr eq_comm eq_comm

/-- The agents read a network alike just when it is a plain one. -/
theorem network_alike_iff {s : Str} : (∃ ip mask, Cpp.getIPNetmask (cstr s) = some (ip, mask) ∧
    Go.networkTexts s = .ok (ip, mask)) ↔ IsPlainNetwork s := by
  constructor
  · rintro ⟨ip, mask, hcpp, hgo⟩
    obtain ⟨addr, length, bits, hpasses, -, rfl, rfl⟩ := Cpp.getIPNetmask_eq_some.mp hcpp
    obtain ⟨texts, htexts⟩ : ∃ r, parseCIDR s = some r :=
      Option.isSome_iff_exists.mp (Go.networkTexts_isOk.mp ⟨_, hgo⟩)
    have hnul : '\x00' ∉ s := by
      intro hmem
      rcases isAddrChar_of_parseCIDR htexts _ hmem with hchar | hchar
      · exact absurd hchar (by decide)
      · exact absurd hchar (by decide)
    have hsplit := hpasses.split
    rw [cstr_of_not_mem hnul, cstr_of_not_mem hnul, span_ne_eq_iff] at hsplit
    obtain ⟨rfl, hslash⟩ := hsplit
    obtain rfl := networkTexts_fst hslash hgo
    obtain ⟨n, hn, -, hmask⟩ := networkTexts_inetNtoa.mp hgo
    unfold prefixLength at hn
    split at hn
    · next hlength =>
      obtain rfl := Option.some.inj hn
      have hdigits := List.all_eq_true.mp hlength.2.1
      have hatoi := atoi_of_decimal_lt hdigits (by omega)
      have hbits := inetNtoa_injective hmask
      have hbound := hpasses.bound
      rw [hatoi] at hbits hbound
      refine ⟨bits, length, rfl, hdigits, ?_, by omega⟩
      by_contra hzero
      obtain hzero : decimal length = 0 := by omega
      rw [hzero] at hbits
      revert hbits
      decide
    · cases hn
  · rintro ⟨addr, length, rfl, hlength⟩
    have hatoi := atoi_of_decimal_lt hlength.digits (by have := hlength.le; omega)
    have hne : length ≠ [] := by
      rintro rfl
      exact absurd hlength.pos (by decide)
    have hprefix : prefixLength length 32 = some (decimal length) :=
      if_pos ⟨hne, List.all_eq_true.mpr hlength.digits, by have := hlength.le; omega⟩
    have hnul : '\x00' ∉ inetNtoa addr ++ '/' :: length := by
      rw [List.mem_append, List.mem_cons, not_or, not_or]
      refine ⟨fun hmem => absurd (isAddrChar_inetNtoa addr _ hmem) (by decide), by decide, ?_⟩
      exact fun hmem => absurd (hlength.digits _ hmem) (by decide)
    have hpasses : Cpp.PassesChecks (inetNtoa addr ++ '/' :: length) (inetNtoa addr) length := by
      refine ⟨?_, by rw [inetAton_inetNtoa]; rfl, by rw [hatoi]; exact_mod_cast hlength.le⟩
      rw [cstr_of_not_mem hnul]
      exact span_ne_eq_iff.mpr ⟨rfl, slash_not_mem_inetNtoa addr⟩
    rw [cstr_of_not_mem hnul]
    refine ⟨_, _, Cpp.getIPNetmask_eq_some.mpr
      ⟨_, length, addr, hpasses, inetAton_inetNtoa addr, rfl, rfl⟩, ?_⟩
    rw [networkTexts_inetNtoa, hatoi]
    refine ⟨_, hprefix, rfl, ?_⟩
    rw [netmask_eq_cidrMask hlength.pos (by have := hlength.le; omega)]

theorem deed_words (subcmd : Str) : ∀ s, .words s ∈ (deed subcmd).parts → '\x00' ∉ s := by
  have hall : ∀ part ∈ (deed subcmd).parts, '\x00' ∉ part.text (Vector.replicate 16 []) := by
    unfold deed
    cases Cpp.vtyshCmd subcmd with
    | none => simp [Deed.parts]
    | some command => cases command <;> decide
  exact fun s hs => hall _ hs

theorem Deed.sameEnd_iff (d : Deed) (hwords : ∀ s, .words s ∈ d.parts → '\x00' ∉ s)
    (hcut : ∀ i, read.get i = cstr (sent.get i)) :
    SameEnd (d.cpp read) (d.go host sent) ↔
      (∃ handled, d.cpp read = .ok handled) ∧ d.Alike host sent := by
  cases d with
  | unknown => exact iff_of_true ⟨_, _, [], rfl, rfl, rfl, rfl, none, rfl, rfl⟩ ⟨⟨_, rfl⟩, trivial⟩
  | settings =>
    refine iff_of_false ?_ fun h => h.2
    rintro ⟨c, g, lines, hc, hg, -, hcpp, line, hline, rfl⟩
    obtain rfl := Except.ok.inj hc
    obtain rfl := Except.ok.inj hg
    cases line with
    | none => cases hcpp
    | some line => cases hline
  | command parts =>
    have htext := @partsText_eq_iff sent read parts hcut hwords
    rw [Deed.cpp, Deed.go, sameEnd_runScmd, Cpp.runScmd_isOk, Deed.Alike, htext]
  | network parts =>
    have htext := @partsText_eq_iff sent read parts hcut hwords
    have hplain := @network_alike_iff (sent.get 0)
    rw [← hcut] at hplain
    unfold Deed.Alike
    rw [← hplain]
    cases hcpp : Cpp.getIPNetmask (read.get 0) with
    | none =>
      simp only [Deed.cpp, hcpp]
      refine iff_of_false ?_ ?_
      · rintro ⟨c, g, lines, hc, hg, hok, -⟩
        obtain rfl := Except.ok.inj hc
        obtain ⟨texts, -, hrun⟩ := bind_eq_ok.mp hg
        obtain ⟨-, rfl⟩ := Go.runScmd_eq_ok.mp hrun
        cases hok
      · rintro ⟨-, -, -, ip, mask, hsome, -⟩
        cases hsome
    | some network =>
      obtain ⟨ip, mask⟩ := network
      cases hgo : Go.networkTexts (sent.get 0) with
      | error fault =>
        refine iff_of_false ?_ ?_
        · rintro ⟨c, g, lines, -, hg, -⟩
          obtain ⟨texts, htexts, -⟩ := bind_eq_ok.mp hg
          rw [hgo] at htexts
          cases htexts
        · rintro ⟨-, -, -, ip, mask, -, hok⟩
          cases hok
      | ok texts =>
        obtain ⟨ip', mask'⟩ := texts
        obtain ⟨hip, hmask⟩ := space_not_mem_getIPNetmask hcpp
        obtain ⟨hip', hmask'⟩ := space_not_mem_networkTexts hgo
        have hrun : Deed.go host sent (.network parts) =
            Go.runScmd host (networkLine (partsText sent parts) ip' mask') := by
          rw [Deed.go, hgo]
          rfl
        have hsame : (∃ ip₀ mask₀, some (ip, mask) = some (ip₀, mask₀) ∧
            (.ok (ip', mask') : Except Fault (Str × Str)) = .ok (ip₀, mask₀)) ↔
              ip = ip' ∧ mask = mask' := by
          constructor
          · rintro ⟨ip₀, mask₀, hl, hr⟩
            obtain ⟨rfl, rfl⟩ := Prod.mk.inj (Option.some.inj hl)
            obtain ⟨rfl, rfl⟩ := Prod.mk.inj (Except.ok.inj hr)
            exact ⟨rfl, rfl⟩
          · rintro ⟨rfl, rfl⟩
            exact ⟨ip, mask, rfl, rfl⟩
        rw [hrun, hsame]
        simp only [Deed.cpp, hcpp]
        rw [sameEnd_runScmd, Cpp.runScmd_isOk, networkLine_inj hip hmask hip' hmask', htext]

end

/-! ## Requests -/

namespace Cpp

section
variable {subcmd key value : Str} {fields rest : List (Str × Str)}

/-- No NUL stands in a name, or in a value that another field follows. -/
def NulsLast (fields : List (Str × Str)) : Prop :=
  (∀ f ∈ fields, '\x00' ∉ f.1) ∧ ∀ f ∈ fields.dropLast, '\x00' ∉ f.2

theorem hasValue_of_cstr {s : Str} (h : HasValue (cstr s)) : HasValue s :=
  h.trans (List.takeWhile_prefix _).isInfix

theorem readLines_cons (hkey : '\n' ∉ key ∧ '\x00' ∉ key) (hvalue : '\n' ∉ value ∧ '\x00' ∉ value) :
    readLines ((key, value) :: rest) = fieldLine key value :: readLines rest := by
  have hline : '\n' ∉ fieldLine key value := newline_not_mem_fieldLine hkey.1 hvalue.1
  have hnul : '\x00' ∉ fieldLine key value := not_mem_fieldLine (by decide) hkey.2 hvalue.2
  have hbreak : ∀ t : Str, cstr ('\n' :: t) = '\n' :: cstr t := fun t => rfl
  unfold readLines
  rw [List.map_cons, unlines_cons, cstr_append hnul, hbreak, split_append_char hline]

/-- Behind a NUL in a name there are no lines. -/
theorem readLines_of_nul_key (hkey : '\n' ∉ key) (hnul : '\x00' ∈ key) :
    readLines ((key, value) :: rest) = [cstr key] := by
  have hline : '\n' ∉ cstr key := fun hmem => hkey ((List.takeWhile_sublist _).subset hmem)
  unfold readLines
  rw [List.map_cons, unlines_cons, fieldLine, List.append_assoc, List.append_assoc,
    cstr_append_of_mem hnul]
  apply split_of_not_infix
  rwa [List.singleton_infix_iff]

/-- The first field is read when there is no NUL in its name, the others when there is none in its
value. -/
theorem readsAll_cons (hkey : Plain key) (hvalue : '\n' ∉ value) :
    ReadsAll ((key, value) :: rest) ↔
      '\x00' ∉ key ∧ (rest = [] ∨ '\x00' ∉ value) ∧ ReadsAll rest := by
  by_cases hnulKey : '\x00' ∈ key
  · refine iff_of_false (fun hreads => ?_) fun h => h.1 hnulKey
    obtain ⟨line, hline, hhas⟩ := hreads 0 (Nat.zero_lt_succ _)
    rw [readLines_of_nul_key hkey.1 hnulKey] at hline
    obtain rfl := Option.some.inj hline
    exact hkey.2 (hasValue_of_cstr hhas)
  by_cases hnul : '\x00' ∈ value
  · have hlines := readLines_of_nul ⟨hkey.1, hnulKey⟩ hvalue hnul rest
    constructor
    · intro hreads
      cases rest with
      | nil => exact ⟨hnulKey, .inl rfl, fun i hi => absurd hi (Nat.not_lt_zero i)⟩
      | cons f rest =>
        obtain ⟨line, hline, -⟩ := hreads 1 (Nat.succ_lt_succ (Nat.zero_lt_succ _))
        rw [hlines] at hline
        cases hline
    · rintro ⟨-, rfl | hno, -⟩
      · intro i hi
        obtain rfl : i = 0 := Nat.lt_one_iff.mp hi
        exact ⟨_, congrArg (·[0]?) hlines, hasValue_fieldLine _ _⟩
      · exact absurd hnul hno
  · have hlines := @readLines_cons key value rest ⟨hkey.1, hnulKey⟩ ⟨hvalue, hnul⟩
    unfold ReadsAll
    rw [hlines]
    constructor
    · intro hreads
      refine ⟨hnulKey, .inr hnul, fun i hi => ?_⟩
      exact hreads (i + 1) (Nat.succ_lt_succ hi)
    · rintro ⟨-, -, hreads⟩ i hi
      cases i with
      | zero => exact ⟨_, rfl, hasValue_fieldLine _ _⟩
      | succ i => exact hreads i (Nat.lt_of_succ_lt_succ hi)

theorem nulsLast_cons : NulsLast ((key, value) :: rest) ↔
    '\x00' ∉ key ∧ (rest = [] ∨ '\x00' ∉ value) ∧ NulsLast rest := by
  unfold NulsLast
  cases rest with
  | nil => simp
  | cons f rest =>
    simp only [List.dropLast_cons_cons, List.forall_mem_cons, List.cons_ne_nil, false_or]
    tauto

/-- Fields on lines of their own are all read just when a NUL stands in the last value at most. -/
theorem readsAll_iff (hnames : ∀ f ∈ fields, Plain f.1) (hvalues : ∀ f ∈ fields, Plain f.2) :
    ReadsAll fields ↔ NulsLast fields := by
  induction fields with
  | nil =>
    refine iff_of_true (fun i hi => absurd hi (Nat.not_lt_zero i)) ⟨fun f hf => ?_, fun f hf => ?_⟩
    · cases hf
    · cases hf
  | cons f rest ih =>
    rw [List.forall_mem_cons] at hnames hvalues
    rw [readsAll_cons hnames.1 hvalues.1.1, nulsLast_cons, ih hnames.2 hvalues.2]

/-- A value is read up to a NUL in it. -/
theorem readValue_of_nulsLast (hnames : ∀ f ∈ fields, Plain f.1) (hvalues : ∀ f ∈ fields, Plain f.2)
    (hnuls : NulsLast fields) :
    ∀ i (hi : i < fields.length), readValue fields i = cstr (fields.get ⟨i, hi⟩).2 := by
  induction fields with
  | nil => exact fun i hi => absurd hi (Nat.not_lt_zero i)
  | cons f rest ih =>
    rw [List.forall_mem_cons] at hnames hvalues
    obtain ⟨hkey, hlast, hrest⟩ := nulsLast_cons.mp hnuls
    intro i hi
    cases i with
    | zero =>
      rw [readValue, getElem?_readLines_cons ⟨hnames.1.1, hkey⟩ hvalues.1.1, Option.getD_some]
      exact lineValue_fieldLine hnames.1.2 fun h => hvalues.1.2 (hasValue_of_cstr h)
    | succ i =>
      have hi : i < rest.length := Nat.lt_of_succ_lt_succ hi
      have hnul : '\x00' ∉ f.2 := hlast.resolve_left fun hnil => by
        rw [hnil] at hi
        exact absurd hi (Nat.not_lt_zero i)
      have hlines := @readLines_cons f.1 f.2 rest ⟨hnames.1.1, hkey⟩ ⟨hvalues.1.1, hnul⟩
      have hsame : readValue (f :: rest) (i + 1) = readValue rest i :=
        congrArg (fun lines : List Str => lineValue (lines[i + 1]?.getD [])) hlines
      rw [hsame]
      exact ih hnames.2 hvalues.2 hrest i hi

/-- The values as the C++ agent reads them. -/
theorem readValues_of_nulsLast (hnames : ∀ f ∈ fields, Plain f.1)
    (hvalues : ∀ f ∈ fields, Plain f.2) (hnuls : NulsLast fields) :
    readValues fields = keyValues (fields.map fun f => cstr f.2) := by
  apply Vector.ext
  intro i hi
  unfold readValues
  rw [Vector.getElem_ofFn, keyValues_getElem hi, List.getElem?_map]
  by_cases hlt : i < fields.length
  · rw [if_pos hlt, readValue_of_nulsLast hnames hvalues hnuls i hlt, List.getElem?_eq_getElem hlt]
    rfl
  · rw [if_neg hlt, List.getElem?_eq_none (Nat.le_of_not_lt hlt)]
    rfl

/-- Behind a NUL in the subcommand there is no field count. -/
theorem doAction_of_nul (hsubcmd : '\n' ∉ subcmd) (hnul : '\x00' ∈ subcmd) {handled : Handled} :
    doAction (cstr (unlines (messageLines subcmd fields))) ≠ .ok handled := by
  have hhead : '\x00' ∉ str "cmd:=HELLO\nsubcmd:=" := by decide
  have hline : '\n' ∉ str "subcmd:=" ++ cstr subcmd := by
    rw [List.mem_append, not_or]
    exact ⟨by decide, fun hmem => hsubcmd ((List.takeWhile_sublist _).subset hmem)⟩
  have htext : cstr (unlines (messageLines subcmd fields)) =
      str "cmd:=HELLO" ++ '\n' :: (str "subcmd:=" ++ cstr subcmd) := by
    rw [messageLines, unlines_cons, unlines_cons]
    change cstr (str "cmd:=HELLO\nsubcmd:=" ++ subcmd ++ _) = _
    rw [List.append_assoc, cstr_append hhead, cstr_append_of_mem hnul]
    rfl
  have hlines : split ['\n'] (cstr (unlines (messageLines subcmd fields))) =
      [str "cmd:=HELLO", str "subcmd:=" ++ cstr subcmd] := by
    rw [htext, split_append_char (by decide), split_of_not_infix]
    rwa [List.singleton_infix_iff]
  intro h
  obtain ⟨decoded, hdecode, -⟩ := bind_eq_ok.mp h
  obtain ⟨subcmdLine, fcount, count, hdecodable, -⟩ := decode_eq_ok.mp hdecode
  have hcount := hdecodable.fcount_line
  rw [hlines] at hcount
  cases hcount

end

end Cpp

/-- The agents handle a request alike, the C++ agent the text that is written for it. -/
def Interchangeable (host : Go.Host) (smsg : RequestMessage) : Prop :=
  ∃ text, handleConnectionCPP smsg = some text ∧
    SameEnd (Cpp.doAction (cstr text)) (Go.doAction host smsg)

end QrWireguard.WebAgent
