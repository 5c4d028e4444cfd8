import QrWireguard.Vtysh.Frame
import QrWireguard.Vtysh.Reload

/-!
# Saving and loading the configuration

`config_dump` writes the lines of `config_top` and `vtysh_load_config` executes them again. A
line comes back when the strict matcher resolves it to the command that stored it, when it is
printed as it is, holds at most one quote and fits the buffer of 512 bytes. The other lines of
the file do not matter: they are read in order, so a line finds in the list only lines in front
of it, and none of them has its key.
-/

namespace QrWireguard.Vtysh
open Cli Proc

/-! ## Lines that are read back -/

/-- The commands, with the arguments the strict matcher gives them, that a line with these words
is read back as. -/
inductive Reloads : CmdFunc → List Str → List Str → Prop
  | bridgeDisable : Reloads .bridgeDisable [] [str "bridge", str "disable"]
  | bridgeAdd {n : Int} {eth1 eth2 : Str} (hn : 1 ≤ n ∧ n ≤ 9) (h1 : '"' ∉ eth1) (h2 : '"' ∉ eth2) :
      Reloads .bridgeAdd [itoa n, eth1, eth2] [str "bridge", itoa n, eth1, eth2]
  | hostname {name : Str} (hname : isalpha (firstByte name) = true) :
      Reloads .configHostname [name] [str "hostname", name]
  | ipAddress {name addr mask : Str} (hname : supportedInterface name = true)
      (haddr : cmdIpv4Match addr = .exactMatch) (hmask : cmdIpv4Match mask = .exactMatch) :
      Reloads .ipAddress [name, addr, mask] [str "ip", str "address", name, addr, mask]
  | ipAddressDhcp :
      Reloads .ipAddressDhcp [str "wan"] [str "ip", str "address", str "wan", str "dhcp"]
  | ipRoute {dest mask gateway name : Str} (hname : supportedInterface name = true)
      (hdest : cmdIpv4Match dest = .exactMatch) (hmask : cmdIpv4Match mask = .exactMatch)
      (hgateway : cmdIpv4Match gateway = .exactMatch) :
      Reloads .ipRoute [dest, mask, gateway, name] [str "ip", str "route", dest, mask, gateway, name]
  | nameserver {first second : Str} (hfirst : cmdIpv4Match first = .exactMatch)
      (hsecond : cmdIpv4Match second = .exactMatch) :
      Reloads .configDns [first, second] [str "nameserver", first, second]
  | portmap {num iface addr proto port1 port2 : Str}
      (hacc : accepts .sfirewallNatPortmap [num, iface, addr, proto, port1, port2] = true)
      (hiface : iface ∈ [str "vpn", str "wan"]) (haddr : cmdIpv4Match addr = .exactMatch)
      (hproto : proto ∈ [str "tcp", str "udp", str "all"]) :
      Reloads .sfirewallNatPortmap [num, iface, addr, proto, port1, port2]
        [str "sfirewall", str "nat", str "portmap", num, iface, addr, proto, port1, port2]
  | filter {a : FilterArgs} (hchecks : a.checks.all ArgCheck.passes = true)
      (hproto : a.proto ∈ [str "tcp", str "udp", str "icmp"]) :
      Reloads .sfirewallFilterRules a.toArgv (str "sfirewall" :: str "filter" :: a.toArgv)
  | listenport {n : Int} (hn : -2 ^ 31 ≤ n ∧ n < 2 ^ 31) :
      Reloads .wgListenport [itoa n] [str "wg", str "listenport", itoa n]
  | peerPublicKey {key : Str} (hacc : accepts .wgPeerPublicKey [key] = true) :
      Reloads .wgPeerPublicKey [key] [str "wg", str "peer", key]
  | peerAllowedIps {key allowedIps : Str}
      (hacc : accepts .wgPeerAllowedIps [key, allowedIps] = true) :
      Reloads .wgPeerAllowedIps [key, allowedIps]
        [str "wg", str "peer", key, str "allowed-ips", allowedIps]
  | peerEndpoint {key allowedIps endpoint : Str}
      (hacc : accepts .wgPeerEndpoint [key, allowedIps, endpoint] = true) :
      Reloads .wgPeerEndpoint [key, allowedIps, endpoint]
        [str "wg", str "peer", key, str "allowed-ips", allowedIps, str "endpoint", endpoint]
  | peerKeepalive {key allowedIps endpoint keepalive : Str}
      (hacc : accepts .wgPeerPersistentKeepalive [key, allowedIps, endpoint, keepalive] = true) :
      Reloads .wgPeerPersistentKeepalive [key, allowedIps, endpoint, keepalive]
        [str "wg", str "peer", key, str "allowed-ips", allowedIps, str "endpoint", endpoint,
          str "persistent-keepalive", keepalive]
  | linkUp : Reloads .wgLink [str "link-up"] [str "wg", str "link-up"]
  | linkDown : Reloads .wgLink [str "link-down"] [str "wg", str "link-down"]

theorem isdigit_of_checkRuleNumber {num : Str} (h : (checkRuleNumber num).passes = true) :
    isdigit (firstByte num) = true := by
  unfold checkRuleNumber at h
  split at h
  · assumption
  · simp [ArgCheck.passes] at h

theorem ne_apply_of_isdigit {num : Str} (h : isdigit (firstByte num) = true) :
    num ≠ str "apply" := by
  rintro rfl
  revert h
  decide

theorem mem_of_checkKeyword {keywords : List Str} {arg : Str}
    (h : (checkKeyword keywords arg).passes = true) : arg ∈ keywords := by
  unfold checkKeyword at h
  split at h
  · assumption
  · simp [ArgCheck.passes] at h

namespace Reloads
variable {func : CmdFunc} {argv ws : List Str}

theorem readsBack (h : Reloads func argv ws) : ReadsBack ws func argv := by
  cases h with
  | bridgeDisable => exact readsBack_bridgeDisable
  | @bridgeAdd n _ _ hn h1 h2 =>
    obtain ⟨d, -, hitoa⟩ := itoa_bridge hn
    exact readsBack_bridgeAdd (by simp [hitoa, str])
  | hostname hname => exact readsBack_hostname
  | ipAddress hname haddr hmask => exact readsBack_ipAddress haddr hmask
  | ipAddressDhcp => exact readsBack_ipAddressDhcp
  | ipRoute hname hdest hmask hgateway => exact readsBack_ipRoute hdest hmask hgateway
  | nameserver hfirst hsecond => exact readsBack_nameserver hfirst hsecond
  | portmap hacc hiface haddr hproto =>
    simp only [Vtysh.accepts, List.all_cons, Bool.and_eq_true] at hacc
    exact readsBack_portmap (ne_apply_of_isdigit (isdigit_of_checkRuleNumber hacc.1)) hiface haddr
      hproto
  | filter hchecks hproto =>
    simp only [FilterArgs.checks, List.all_cons, Bool.and_eq_true] at hchecks
    obtain ⟨hnum, hzone, hdirection, hposition, haction, -⟩ := hchecks
    exact readsBack_filter (ne_apply_of_isdigit (isdigit_of_checkRuleNumber hnum))
      (mem_of_checkKeyword hzone) (mem_of_checkKeyword hdirection)
      (mem_of_checkKeyword hposition) (mem_of_checkKeyword haction) hproto
  | listenport hn => exact readsBack_listenport
  | peerPublicKey hacc => exact readsBack_peerPublicKey
  | peerAllowedIps hacc => exact readsBack_peerAllowedIps
  | peerEndpoint hacc => exact readsBack_peerEndpoint
  | peerKeepalive hacc => exact readsBack_peerKeepalive
  | linkUp => exact readsBack_linkUp
  | linkDown => exact readsBack_linkDown

/-- The command passes its checks again. -/
theorem accepts (h : Reloads func argv ws) : accepts func argv = true := by
  cases h with
  | bridgeDisable => rfl
  | @bridgeAdd n _ _ hn h1 h2 =>
    have hnum : atoi (itoa n) = n := atoi_itoa n (by omega) (by omega)
    simp [Vtysh.accepts, hnum, hn, h1, h2]
  | hostname hname => exact hname
  | ipAddress hname haddr hmask => exact hname
  | ipAddressDhcp => rfl
  | ipRoute hname hdest hmask hgateway => exact hname
  | nameserver hfirst hsecond => rfl
  | portmap hacc hiface haddr hproto => exact hacc
  | filter hchecks hproto => simp [Vtysh.accepts, FilterArgs.ofArgv, FilterArgs.toArgv, hchecks]
  | listenport hn => rfl
  | peerPublicKey hacc => exact hacc
  | peerAllowedIps hacc => exact hacc
  | peerEndpoint hacc => exact hacc
  | peerKeepalive hacc => exact hacc
  | linkUp => rfl
  | linkDown => rfl

end Reloads

/-! ## The edits of a line that is read back -/

/-- A deletion finds nothing in the list. -/
def Edit.Misses (config : List Str) : Edit → Prop
  | .del line => ∀ x ∈ config, x ≠ line
  | .delLeft line => ∀ x ∈ config, ¬ line <+: x
  | .add _ _ => False

theorem runEdits_misses {config : List Str} {dels rest : List Edit}
    (h : ∀ d ∈ dels, Edit.Misses config d) :
    runEdits config (dels ++ rest) = runEdits config rest := by
  induction dels with
  | nil => rfl
  | cons d dels ih =>
    have hd := h d (by simp)
    rw [List.cons_append, ← ih fun d' hd' => h d' (by simp [hd'])]
    cases d with
    | del line =>
      rw [runEdits_del, configDelLine, List.eraseP_of_forall_not]
      exact fun x hx => by simpa using hd x hx
    | delLeft line =>
      rw [runEdits_delLeft, configDelLineByleft, List.eraseP_of_forall_not]
      exact fun x hx hp => hd x hx (List.isPrefixOf_iff_prefix.mp hp)
    | add line args => exact hd.elim

/-- The lines in front of a line in a list that meets the invariant. -/
structure InFront (config : List Str) (line : Str) : Prop where
  stored : ∀ x ∈ config, Stored (configKey x) x
  keys : ∀ x ∈ config, configKey x ≠ configKey line
  le : ∀ x ∈ config, x ≤ line

theorem Keyed.inFront {config rest : List Str} {line : Str} (h : Keyed (config ++ line :: rest)) :
    InFront config line where
  stored x hx := h.stored x (by simp [hx])
  keys x hx := (List.pairwise_append.mp h.keys).2.2 x hx line (by simp)
  le x hx := (List.pairwise_append.mp h.sorted).2.2 x hx line (by simp)

namespace InFront
variable {config : List Str} {line : Str}

theorem ne (h : InFront config line) : ∀ x ∈ config, x ≠ line := fun x hx hEq =>
  h.keys x hx (by rw [hEq])

/-- A text that only the lines with the key start with is not found in front of the line. -/
theorem not_prefix (h : InFront config line) {p : Str}
    (hp : ∀ {k x}, Stored k x → (p <+: x ↔ k = configKey line)) :
    ∀ x ∈ config, ¬ p <+: x := fun x hx hpre =>
  h.keys x hx ((hp (h.stored x hx)).mp hpre)

/-- The address of another interface whose name starts with this one stands behind. -/
theorem not_prefix_ipAddress {name tail : Str} (hname : IsToken name) (ht : IsTail tail)
    (h : InFront config (str "ip address " ++ (name ++ tail))) :
    ∀ x ∈ config, ¬ (str "ip address " ++ name) <+: x := by
  intro x hx hpre
  have hkey : configKey x ≠ .ipAddress name := by
    have hk := h.keys x hx
    rwa [configKey_ipAddress hname ht] at hk
  have hnot : ¬ HasKey ' ' (str "ip address " ++ name) x := fun hk =>
    hkey (((h.stored x hx).ipAddress_hasKey hname).mp hk)
  obtain ⟨r, rfl⟩ := hpre
  cases r with
  | nil => exact hnot (.inl (by simp))
  | cons c r =>
    have hle : ' ' ≤ c := (h.stored _ hx).ipAddress_sep hname
    have hlt : ' ' < c := lt_of_le_of_ne hle fun hc => hnot (.inr ⟨r, by subst hc; rfl⟩)
    have hx' := h.le _ hx
    rw [← List.append_assoc] at hx'
    refine absurd hx' (not_le.mpr (List.append_left_lt ?_))
    rcases ht with rfl | ⟨r', rfl⟩
    · exact List.nil_lt_cons c r
    · exact List.cons_lt_cons_iff.mpr (.inl hlt)

end InFront

/-- Deletions that find nothing in front of the line, and an addition that prints it. -/
def Restores (edits : List Edit) (line : Str) : Prop :=
  ∃ dels fmt args, edits = dels ++ [.add fmt args] ∧ vasprintf fmt args = some line ∧
    ∀ config, InFront config line → ∀ d ∈ dels, Edit.Misses config d

/-- The line is added behind the lines in front of it. -/
theorem Restores.runEdits {edits : List Edit} {line : Str} {config : List Str}
    (h : Restores edits line) (hne : line ≠ []) (hf : InFront config line) :
    runEdits config edits = some (config ++ [line]) := by
  obtain ⟨dels, fmt, args, rfl, hprinted, hmisses⟩ := h
  have hlen : 0 < line.length := List.length_pos_iff.mpr hne
  rw [runEdits_misses (hmisses config hf), runEdits_add_last, configAddLine, hprinted]
  simp only [hlen, if_true]
  rw [listnodeAddSort, insertAfter_of_forall_le hf.le]

/-- A rule stored under its own text. -/
theorem Restores.rule {line : Str} (hplain : '%' ∉ line) : Restores (ruleEdits line) line := by
  refine ⟨[.del line], line, [], rfl, vasprintf_of_not_mem hplain [], fun config hf d hd => ?_⟩
  rw [List.mem_singleton.mp hd]
  exact hf.ne

/-- A line that replaces the one that starts with a text. -/
theorem Restores.left {p line fmt : Str} {args : List Str} (hv : vasprintf fmt args = some line)
    (hp : ∀ config, InFront config line → ∀ x ∈ config, ¬ p <+: x) :
    Restores [.delLeft p, .add fmt args] line := by
  refine ⟨[.delLeft p], fmt, args, rfl, hv, fun config hf d hd => ?_⟩
  rw [List.mem_singleton.mp hd]
  exact hp config hf

/-- The line of a peer. -/
theorem Restores.peer {key tail line : Str} (hkey : IsToken key)
    (hlen : key.length = publickeyMaxLen) (ht : IsTail tail)
    (hline : line = str "wg peer " ++ (key ++ tail)) (hplain : '%' ∉ line)
    (hshort : line.length ≤ 511) : Restores (peerEdits key tail) line := by
  have hcut : snprintf 2048 (str "wg peer " ++ key ++ tail) = line := by
    rw [hline, ← List.append_assoc, snprintf, List.take_of_length_le]
    rw [List.append_assoc, ← hline]
    omega
  unfold peerEdits
  rw [hcut, snprintf_peer hlen]
  refine .left (vasprintf_of_not_mem hplain []) fun config hf => hf.not_prefix fun hs => ?_
  rw [hs.peer_prefix hlen, hline, configKey_peer hkey ht]

theorem FilterArgs.twin_eraseIdx (a : FilterArgs) :
    a.twin.toArgv.eraseIdx 3 = a.toArgv.eraseIdx 3 := by
  unfold FilterArgs.twin
  split <;> rfl

theorem FilterArgs.isToken_twin {a : FilterArgs} (h : ∀ w ∈ a.toArgv, IsToken w) :
    ∀ w ∈ a.twin.toArgv, IsToken w := by
  have hkeyword : IsToken (str "insert") ∧ IsToken (str "append") := by decide
  unfold FilterArgs.twin
  simp only [FilterArgs.toArgv, List.forall_mem_cons] at h ⊢
  split <;> simp [h, hkeyword]

/-- Neither link line is in front of one of them. -/
theorem Restores.link {line : Str} (hkey : configKey line = .link) (hplain : '%' ∉ line) :
    Restores [.delLeft (str "wg link-up"), .delLeft (str "wg link-down"), .add line []] line := by
  refine ⟨[.delLeft (str "wg link-up"), .delLeft (str "wg link-down")], line, [], rfl,
    vasprintf_of_not_mem hplain [], fun config hf d hd => ?_⟩
  have hlink : ∀ x ∈ config, configKey x ≠ .link := fun x hx => by
    rw [← hkey]
    exact hf.keys x hx
  simp only [List.mem_cons, List.not_mem_nil, or_false] at hd
  rcases hd with rfl | rfl
  · intro x hx hpre
    rw [(hf.stored x hx).startsWith_linkUp] at hpre
    exact hlink x hx (by rw [hpre, configKey_linkUp])
  · intro x hx hpre
    rw [(hf.stored x hx).startsWith_linkDown] at hpre
    exact hlink x hx (by rw [hpre, configKey_linkDown])

theorem Reloads.restores {func : CmdFunc} {argv ws : List Str} (h : Reloads func argv ws)
    (hwords : ∀ w ∈ ws, IsToken w)
    (hplain : '%' ∈ unwords ' ' ws → func = .configHostname ∨ func = .configDns)
    (hshort : (unwords ' ' ws).length ≤ 511) : Restores (edits func argv) (unwords ' ' ws) := by
  have hacc := h.accepts
  have hno : func ≠ .configHostname ∧ func ≠ .configDns → '%' ∉ unwords ' ' ws := fun hne hmem =>
    (hplain hmem).elim hne.1 hne.2
  cases h with
  | bridgeDisable => exact .rule (hno (by decide))
  | @bridgeAdd n eth1 eth2 hn h1 h2 =>
    have hnum : atoi (itoa n) = n := atoi_itoa n (by omega) (by omega)
    have hline : unwords ' ' [str "bridge", itoa n, eth1, eth2] =
        str "bridge " ++ itoa n ++ str " " ++ eth1 ++ str " " ++ eth2 := by simp [unwords, str]
    have hkey : configKey (unwords ' ' [str "bridge", itoa n, eth1, eth2]) = .bridge (itoa n) := by
      rw [hline]
      simp only [List.append_assoc]
      exact configKey_bridge hn (.inr ⟨_, rfl⟩)
    simp only [edits, hnum, snprintf_bridge hn]
    rw [← hline, snprintf, List.take_of_length_le (by omega)]
    refine .left (vasprintf_of_not_mem (hno (by decide)) []) fun config hf =>
      hf.not_prefix fun hs => ?_
    rw [hs.bridge_prefix hn, hkey]
  | @hostname name hname =>
    have hline : unwords ' ' [str "hostname", name] = str "hostname " ++ name := by
      simp [unwords, str]
    rw [hline]
    refine .left ?_ fun config hf => hf.not_prefix fun hs => ?_
    · rw [show str "hostname %s" = str "hostname " ++ str "%s" by decide,
        vasprintf_append (by decide)]
      simp [vasprintf, str]
    · rw [hs.hostname_prefix, configKey_hostname (hwords name (by simp))]
  | @ipAddress name addr mask hname haddr hmask =>
    have hline : unwords ' ' [str "ip", str "address", name, addr, mask] =
        str "ip address " ++ name ++ str " " ++ addr ++ str " " ++ mask := by simp [unwords, str]
    have hp := hno (by decide)
    rw [hline] at hp ⊢
    refine .left (vasprintf_of_not_mem hp []) fun config hf => ?_
    simp only [List.append_assoc] at hf
    exact hf.not_prefix_ipAddress (hwords name (by simp)) (.inr ⟨_, rfl⟩)
  | ipAddressDhcp =>
    refine .left (vasprintf_of_not_mem (by decide) []) fun config hf => ?_
    have htail : IsTail (str " dhcp") := .inr ⟨_, rfl⟩
    exact InFront.not_prefix_ipAddress (by decide) htail hf
  | @ipRoute dest mask gateway name hname hdest hmask hgateway =>
    have hline : unwords ' ' [str "ip", str "route", dest, mask, gateway, name] =
        str "ip route " ++ dest ++ str " " ++ mask ++ str " " ++ gateway ++ str " " ++ name := by
      simp [unwords, str]
    have hp := hno (by decide)
    rw [hline] at hp ⊢
    exact .rule hp
  | @nameserver first second hfirst hsecond =>
    have hline : unwords ' ' [str "nameserver", first, second] =
        str "nameserver " ++ (first ++ ' ' :: second) := by simp [unwords, str]
    rw [hline]
    refine .left ?_ fun config hf => hf.not_prefix fun hs => ?_
    · rw [show str "nameserver %s %s" = str "nameserver " ++ str "%s %s" by decide,
        vasprintf_append (by decide)]
      simp [vasprintf, str]
    · rw [hs.nameserver_prefix, configKey_nameserver]
      rw [words_append_sep (hwords first (by simp)) isspace_blank]
      simp
  | @portmap num iface addr proto port1 port2 hacc hiface haddr hproto =>
    have hline : unwords ' ' [str "sfirewall", str "nat", str "portmap", num, iface, addr, proto,
        port1, port2] = portmapLine [num, iface, addr, proto, port1, port2] := by
      simp [unwords, str, portmapLine]
    have hp := hno (by decide)
    rw [hline] at hp ⊢
    exact .rule hp
  | @filter a hchecks hproto =>
    have hline : unwords ' ' (str "sfirewall" :: str "filter" :: a.toArgv) = a.line := by
      simp [unwords, str, FilterArgs.line, FilterArgs.toArgv]
    have hp := hno (by decide)
    have hargs : ∀ w ∈ a.toArgv, IsToken w := fun w hw => hwords w (by simp [hw])
    rw [hline] at hp ⊢
    have hof : FilterArgs.ofArgv a.toArgv = some a := rfl
    refine ⟨[.del a.twin.line, .del a.line], a.line, [], by simp [edits, hof, ruleEdits],
      vasprintf_of_not_mem hp [], fun config hf d hd => ?_⟩
    simp only [List.mem_cons, List.not_mem_nil, or_false] at hd
    rcases hd with rfl | rfl
    · -- the twin has the same key
      intro x hx hEq
      refine hf.keys x hx ?_
      rw [hEq, configKey_filter (FilterArgs.isToken_twin hargs), configKey_filter hargs,
        a.twin_eraseIdx]
    · exact hf.ne
  | @listenport n hn =>
    have hnum : atoi (itoa n) = n := atoi_itoa n hn.1 hn.2
    have hline : unwords ' ' [str "wg", str "listenport", itoa n] =
        str "wg listenport " ++ itoa n := by simp [unwords, str]
    have hp := hno (by decide)
    rw [hline] at hp hshort ⊢
    simp only [edits, hnum]
    rw [snprintf, List.take_of_length_le (by decide), snprintf,
      List.take_of_length_le (by omega)]
    refine .left (vasprintf_of_not_mem hp []) fun config hf => hf.not_prefix fun hs => ?_
    rw [hs.listenport_prefix, configKey_listenport]
  | @peerPublicKey key hacc =>
    have hk : key.length = publickeyMaxLen := publicKey_length (by simpa [Vtysh.accepts] using hacc)
    exact .peer (hwords key (by simp)) hk (.inl rfl) (by simp [unwords, str]) (hno (by decide))
      hshort
  | @peerAllowedIps key allowedIps hacc =>
    have hk : key.length = publickeyMaxLen :=
      publicKey_length (by simp [Vtysh.accepts] at hacc; exact hacc.1)
    exact .peer (hwords key (by simp)) hk (isTail_keyword ⟨_, rfl⟩) (by simp [unwords, str])
      (hno (by decide)) hshort
  | @peerEndpoint key allowedIps endpoint hacc =>
    have hk : key.length = publickeyMaxLen :=
      publicKey_length (by simp [Vtysh.accepts] at hacc; exact hacc.1)
    refine .peer (hwords key (by simp)) hk ?_ (by simp [unwords, str]) (hno (by decide)) hshort
    simp only [List.append_assoc]
    exact isTail_keyword ⟨_, rfl⟩
  | @peerKeepalive key allowedIps endpoint keepalive hacc =>
    have hk : key.length = publickeyMaxLen :=
      publicKey_length (by simp [Vtysh.accepts] at hacc; exact hacc.1)
    refine .peer (hwords key (by simp)) hk ?_ (by simp [unwords, str]) (hno (by decide)) hshort
    simp only [List.append_assoc]
    exact isTail_keyword ⟨_, rfl⟩
  | linkUp => exact .link configKey_linkUp (by decide)
  | linkDown => exact .link configKey_linkDown (by decide)

/-! ## The handlers on a line from a file -/

section FileMode
variable {e : Env} {w : World} {config : List Str}

theorem runs_argChecks {checks : List ArgCheck} {rest : Cli Int} {Q : Int → World → Prop}
    (hpass : checks.all ArgCheck.passes = true) (hrest : Runs rest e w Q) :
    Runs (argChecks checks rest) e w Q := by
  induction checks with
  | nil => exact hrest
  | cons check checks ih =>
    cases check with
    | ok => exact ih (by simpa [ArgCheck.passes] using hpass)
    | fail text code => simp [ArgCheck.passes] at hpass
    | overrun => simp [ArgCheck.passes] at hpass

theorem runs_peerChecks {checks : List PeerCheck} {rest : Cli Int} {Q : Int → World → Prop}
    (hpass : checks.all PeerCheck.passes = true) (hrest : Runs rest e w Q) :
    Runs (peerChecks checks rest) e w Q := by
  induction checks with
  | nil => exact hrest
  | cons check checks ih =>
    cases check with
    | ok => exact ih (by simpa [PeerCheck.passes] using hpass)
    | fail text code => simp [PeerCheck.passes] at hpass

/-- A handler called on a line from a file succeeds, leaves this configuration and stays in its
node. -/
abbrev Loads (e : Env) (w : World) (config : List Str) (p : Cli Int) : Prop :=
  Runs p e w fun ret t => ret = cmdSuccess ∧ t.configTop = config ∧ t.myvty = w.myvty

/-- The end of a storing handler: the line is added and `ENSURE_CONFIG` returns. -/
theorem runs_addLine_ensureConfig {w' : World} {line : Str} {args : List Str} {rest : Cli Int}
    (hfile : w'.myvty.type = .file) (hmy : w'.myvty = w.myvty)
    (hadd : configAddLine w'.configTop line args = some config) :
    Runs (addLine line args) e w' fun _ t =>
      Runs (ensureConfig .myvty rest) e t fun ret t =>
        ret = cmdSuccess ∧ t.configTop = config ∧ t.myvty = w.myvty := by
  rw [runs_addLine]
  refine ⟨config, hadd, ?_⟩
  rw [runs_ensureConfig]
  exact ⟨fun _ => ⟨rfl, rfl, hmy⟩, fun h => absurd hfile h⟩

/-- The interface check of `bridge_add` when `ifconfig` knows the interface. -/
theorem runs_bridgeIfInvalid {eth : Str} (hq : '"' ∉ eth) (hlen : eth.length ≤ 511)
    (hsys : ∀ trace command, e.system trace command = 0) {Q : Bool → World → Prop}
    (hQ : ∀ t : World, t.configTop = w.configTop → t.myvty = w.myvty → Q false t) :
    Runs (bridgeIfInvalid eth) e w Q := by
  have hfits : (str "ifconfig \"" ++ eth ++ str "\" > /dev/null 2>&1").length < 1024 := by
    simp only [List.length_append, str, List.length_cons, List.length_nil]
    omega
  simp only [bridgeIfInvalid, runs_bind, runs_sprintf, runs_ite, runs_pure, runs_system, hsys]
  exact ⟨hfits, fun h => absurd h hq, fun _ => hQ _ rfl rfl⟩

theorem loads_wgPeer {checks : List PeerCheck} {key tail : Str} {config : List Str}
    (hpass : checks.all PeerCheck.passes = true) (hfile : w.myvty.type = .file)
    (hrun : runEdits w.configTop (peerEdits key tail) = some config) :
    Loads e w config (wgPeer .myvty checks key tail) := by
  refine runs_peerChecks hpass ?_
  have hstore : ∀ w' : World, w'.configTop = w.configTop → w'.myvty = w.myvty →
      Runs (wgPeerStore .myvty key tail) e w' fun ret t =>
        ret = cmdSuccess ∧ t.configTop = config ∧ t.myvty = w.myvty := by
    intro w' hw' hmy
    simp only [peerEdits, runEdits_delLeft, runEdits_add_last] at hrun
    simp only [wgPeerStore, runs_bind, runs_delLineByleft, hw']
    exact runs_addLine_ensureConfig (hmy ▸ hfile) hmy hrun
  simp only [runs_bind, runs_stat, runs_ite, runs_system]
  exact ⟨fun _ => hstore _ rfl rfl, fun _ => hstore _ rfl rfl⟩

/-- A line that is read back makes its edits. -/
theorem loads_of_reloads {func : CmdFunc} {argv ws : List Str} (h : Reloads func argv ws)
    (hshort : (unwords ' ' ws).length ≤ 511) (hfile : w.myvty.type = .file)
    (hsys : ∀ trace command, e.system trace command = 0)
    (hrun : runEdits w.configTop (edits func argv) = some config) :
    Loads e w config (call func .myvty argv) := by
  unfold Loads
  cases h with
  | bridgeDisable =>
    simp only [edits, ruleEdits, runEdits_del, runEdits_add_last] at hrun
    simp only [call, bridgeDisable, runs_bind, runs_delLine]
    exact runs_addLine_ensureConfig hfile rfl hrun
  | @bridgeAdd n eth1 eth2 hn h1 h2 =>
    have hnum : atoi (itoa n) = n := atoi_itoa n (by omega) (by omega)
    have hlen : eth1.length ≤ 511 ∧ eth2.length ≤ 511 := by
      simp only [unwords, List.length_append, List.length_cons] at hshort
      omega
    simp only [edits, hnum, runEdits_delLeft, runEdits_add_last] at hrun
    simp only [call, bridgeAdd, hnum, runs_ite, runs_bind]
    refine ⟨fun h => by omega, fun _ => ?_⟩
    refine runs_bridgeIfInvalid h1 hlen.1 hsys fun w1 hw1 hm1 => ⟨by simp, fun _ => ?_⟩
    refine runs_bridgeIfInvalid h2 hlen.2 hsys fun w2 hw2 hm2 => ⟨by simp, fun _ => ?_⟩
    simp only [runs_delLineByleft, hw2, hw1]
    exact runs_addLine_ensureConfig (by simp [hm1, hm2, hfile]) (by simp [hm1, hm2]) hrun
  | hostname hname =>
    simp only [edits, runEdits_delLeft, runEdits_add_last] at hrun
    simp only [call, configHostname, hname, runs_ite, runs_bind, runs_delLineByleft]
    exact ⟨by simp, fun _ => runs_addLine_ensureConfig hfile rfl hrun⟩
  | @ipAddress name addr mask hname haddr hmask =>
    have hlen : (str "ip address " ++ name ++ str " " ++ addr ++ str " " ++ mask).length < 1024 ∧
        (str "ip address " ++ name).length < 1024 := by
      simp only [unwords, List.length_append, List.length_cons, str, List.length_nil] at hshort ⊢
      omega
    simp only [edits, runEdits_delLeft, runEdits_add_last] at hrun
    simp only [call, ipAddress, runs_ite, hname, runs_bind, runs_sprintf, runs_delLineByleft]
    exact ⟨by simp, fun _ => ⟨hlen.2, hlen.1, runs_addLine_ensureConfig hfile rfl hrun⟩⟩
  | ipAddressDhcp =>
    simp only [edits, runEdits_delLeft, runEdits_add_last] at hrun
    simp only [call, ipAddressDhcp, runs_ite, runs_bind, runs_sprintf, runs_delLineByleft]
    exact ⟨by simp, fun _ => ⟨by decide, by decide, runs_addLine_ensureConfig hfile rfl hrun⟩⟩
  | @ipRoute dest mask gateway name hname hdest hmask hgateway =>
    have hlen : (str "ip route " ++ dest ++ str " " ++ mask ++ str " " ++ gateway ++ str " " ++
        name).length < 1024 := by
      simp only [unwords, List.length_append, List.length_cons, str, List.length_nil] at hshort ⊢
      omega
    simp only [edits, ruleEdits, runEdits_del, runEdits_add_last] at hrun
    simp only [call, ipRoute, runs_ite, hname, runs_bind, runs_sprintf, runs_delLine]
    exact ⟨by simp, fun _ => ⟨hlen, runs_addLine_ensureConfig hfile rfl hrun⟩⟩
  | nameserver hfirst hsecond =>
    simp only [edits, runEdits_delLeft, runEdits_add_last] at hrun
    simp only [call, configDns, runs_bind, runs_delLineByleft]
    exact runs_addLine_ensureConfig hfile rfl hrun
  | @portmap num iface addr proto port1 port2 hacc hiface haddr hproto =>
    have hlen : (portmapLine [num, iface, addr, proto, port1, port2]).length < 1024 := by
      simp only [portmapLine, unwords, List.length_append, List.length_cons, str, List.length_nil]
        at hshort ⊢
      omega
    simp only [edits, ruleEdits, runEdits_del, runEdits_add_last] at hrun
    refine runs_argChecks hacc ?_
    simp only [runs_bind, runs_sprintf, runs_delLine]
    exact ⟨hlen, runs_addLine_ensureConfig hfile rfl hrun⟩
  | @filter a hchecks hproto =>
    have hof : FilterArgs.ofArgv a.toArgv = some a := rfl
    have hpos := (FilterArgs.position_of_checks hchecks).symm
    have hlen : a.line.length < 1024 ∧ a.twin.line.length < 1024 := by
      have hline : unwords ' ' (str "sfirewall" :: str "filter" :: a.toArgv) = a.line := by
        simp [unwords, str, FilterArgs.line, FilterArgs.toArgv]
      have htwin : a.twin.line.length = a.line.length := by
        rcases hpos with h | h <;>
          simp [FilterArgs.line, FilterArgs.twin, FilterArgs.toArgv, unwords, h, str]
      rw [hline] at hshort
      omega
    simp only [edits, hof, ruleEdits, runEdits_del, runEdits_add_last] at hrun
    simp only [call, sfirewallFilterRules, hof]
    refine runs_argChecks hchecks ?_
    simp only [hpos, if_true, runs_bind, runs_sprintf, runs_delLine]
    exact ⟨hlen.2, hlen.1, runs_addLine_ensureConfig hfile rfl hrun⟩
  | @listenport n hn =>
    have hnum : atoi (itoa n) = n := atoi_itoa n hn.1 hn.2
    simp only [edits, hnum, runEdits_delLeft, runEdits_add_last] at hrun
    simp only [call, wgListenport, hnum, runs_bind, runs_delLineByleft]
    exact runs_addLine_ensureConfig hfile rfl hrun
  | peerPublicKey hacc => exact loads_wgPeer hacc hfile hrun
  | peerAllowedIps hacc => exact loads_wgPeer hacc hfile hrun
  | peerEndpoint hacc => exact loads_wgPeer hacc hfile hrun
  | peerKeepalive hacc => exact loads_wgPeer hacc hfile hrun
  | linkUp =>
    simp only [edits, runEdits_delLeft, runEdits_add_last, if_true] at hrun
    simp only [call, wgLink, if_true, runs_bind, runs_delLineByleft]
    exact runs_addLine_ensureConfig hfile rfl hrun
  | linkDown =>
    have hne : str "link-down" ≠ str "link-up" := by decide
    simp only [edits, hne, runEdits_delLeft, runEdits_add_last, if_false] at hrun
    simp only [call, wgLink, hne, if_false, runs_bind, runs_delLineByleft]
    exact runs_addLine_ensureConfig hfile rfl hrun

end FileMode

/-! ## Reading the file -/

/-- A text with at most one quote is left alone. -/
theorem unquote_of_count {s : Str} (h : s.count '"' ≤ 1) : unquote s = s := by
  unfold unquote
  split
  · rfl
  · next q quoted hq =>
    split
    · rfl
    · next q' rest hrest =>
      exfalso
      have hmem : ∀ {l : Str} {c r}, l.dropWhile (· != '"') = c :: r → c = '"' := by
        intro l c r hl
        have hhead := List.head?_dropWhile_not (fun c : Char => c != '"') l
        simpa [hl] using hhead
      obtain rfl := hmem hq
      obtain rfl := hmem hrest
      have hs : s.count '"' = (s.takeWhile (· != '"')).count '"' + (quoted.count '"' + 1) := by
        conv_lhs => rw [← List.takeWhile_append_dropWhile (p := (· != '"')) (l := s), hq]
        rw [List.count_append, List.count_cons_self]
      have hquoted : 0 < quoted.count '"' := by
        refine List.count_pos_iff.mpr ((List.dropWhile_sublist (· != '"')).subset ?_)
        rw [hrest]
        exact List.mem_cons_self
      omega

/-- The words of a line that was stored from them, with or without the line end. -/
theorem cmdMakeStrvec_unwords {c : Char} {kw tail : Str} {ws : List Str}
    (hwords : ∀ w ∈ (c :: kw) :: ws, IsToken w) (hc : c ≠ '!' ∧ c ≠ '#')
    (hquotes : (unwords ' ' ((c :: kw) :: ws)).count '"' ≤ 1) (htail : tail = [] ∨ tail = ['\n']) :
    cmdMakeStrvec (unwords ' ' ((c :: kw) :: ws) ++ tail) = some ((c :: kw) :: ws) := by
  have hsp : isspace c = false := (hwords (c :: kw) (by simp)).2 c (by simp)
  have hwd : words isspace (unwords ' ' ((c :: kw) :: ws) ++ tail) = (c :: kw) :: ws := by
    rcases htail with rfl | rfl
    · rw [List.append_nil, words_unwords isspace_blank hwords]
    · rw [words_concat_sep (by decide), words_unwords isspace_blank hwords]
  have hcount : (unwords ' ' ((c :: kw) :: ws) ++ tail).count '"' ≤ 1 := by
    rcases htail with rfl | rfl <;> simpa using hquotes
  unfold cmdMakeStrvec
  rw [unquote_of_count hcount]
  rw [unwords_cons, List.append_assoc, List.cons_append] at hwd ⊢
  rw [List.dropWhile_cons_of_neg (by simp [hsp])]
  simp only [hc, or_self, if_false]
  rw [hwd]

/-- What a line with these words needs, besides its command, to come back. -/
structure Kept (func : CmdFunc) (ws : List Str) : Prop where
  words : ∀ w ∈ ws, IsToken w ∧ '\x00' ∉ w
  plain : '%' ∈ unwords ' ' ws → func = .configHostname ∨ func = .configDns
  quotes : (unwords ' ' ws).count '"' ≤ 1
  short : (unwords ' ' ws).length ≤ 511

/-- A line that comes back. -/
def Reloadable (line : Str) : Prop :=
  ∃ func argv ws, Reloads func argv ws ∧ Kept func ws ∧ line = unwords ' ' ws

theorem Reloads.head {func : CmdFunc} {argv ws : List Str} (h : Reloads func argv ws) :
    ∃ c kw rest, ws = (c :: kw) :: rest ∧ c ≠ '!' ∧ c ≠ '#' := by
  cases h <;> exact ⟨_, _, _, rfl, by decide, by decide⟩

theorem Kept.not_mem {func : CmdFunc} {ws : List Str} (h : Kept func ws) :
    '\n' ∉ unwords ' ' ws ∧ '\x00' ∉ unwords ' ' ws := by
  constructor
  · intro hm
    rcases mem_unwords hm with hm | ⟨w, hw, hm⟩
    · revert hm; decide
    · exact absurd ((h.words w hw).1.2 _ hm) (by decide)
  · intro hm
    rcases mem_unwords hm with hm | ⟨w, hw, hm⟩
    · revert hm; decide
    · exact (h.words w hw).2 hm

section Load
variable {e : Env} {w : World} {line : Str}

/-- A line from the file is added behind the lines in front of it. -/
theorem runs_configFromFileLine (h : Reloadable line) (hf : InFront w.configTop line)
    (hmy : w.myvty = ⟨.file, .config⟩) (hsys : ∀ trace command, e.system trace command = 0)
    {tail : Str} (htail : tail = [] ∨ tail = ['\n']) :
    Runs (configFromFileLine (line ++ tail)) e w fun _ t =>
      t.configTop = w.configTop ++ [line] ∧ t.myvty = w.myvty := by
  obtain ⟨func, argv, ws, hr, hk, rfl⟩ := h
  have hwords : ∀ w ∈ ws, IsToken w := fun w hw => (hk.words w hw).1
  have hnul : '\x00' ∉ unwords ' ' ws ++ tail := by
    rcases htail with rfl | rfl <;> simp [hk.not_mem.2]
  obtain ⟨c, kw, rest, rfl, hc1, hc2⟩ := hr.head
  have hstrvec : cmdMakeStrvec (cstr (unwords ' ' ((c :: kw) :: rest) ++ tail)) =
      some ((c :: kw) :: rest) := by
    rw [cstr_of_not_mem hnul]
    exact cmdMakeStrvec_unwords hwords ⟨hc1, hc2⟩ hk.quotes htail
  have hfirst : firstByte (unwords ' ' ((c :: kw) :: rest) ++ tail) = c := by
    rw [unwords_cons]
    rfl
  obtain ⟨elem, hlookup, rfl⟩ := hr.readsBack
  have hrun := (hr.restores hwords hk.plain hk.short).runEdits (by rw [unwords_cons]; simp) hf
  have hloads := loads_of_reloads (w := w) hr hk.short (by rw [hmy]) hsys hrun
  have hexec : Loads e w (w.configTop ++ [unwords ' ' ((c :: kw) :: rest)])
      (cmdExecuteCommandStrict ((c :: kw) :: rest) .myvty) := by
    simp only [Loads, cmdExecute, runs_bind, runs_get, World.vtyOf, hmy, hlookup]
    refine hloads.mono ?_
    rintro ret t ⟨hret, htop, hmy'⟩
    exact ⟨hret, htop, hmy'.trans hmy⟩
  unfold configFromFileLine
  rw [hfirst, hstrvec]
  simp only [hc1, hc2, if_false, configFromFileWords, runs_bind]
  refine hexec.mono ?_
  rintro ret t ⟨rfl, htop, hmy'⟩
  simp only [runs_ite]
  refine ⟨fun h => absurd rfl h.1, fun _ => ?_⟩
  simp [configFromFileReport, htop, hmy']

theorem runs_configFromLines_append {as bs : List Str} {Q : Unit → World → Prop} :
    Runs (configFromLines (as ++ bs)) e w Q ↔
      Runs (configFromLines as) e w fun _ t => Runs (configFromLines bs) e t Q := by
  induction as generalizing w with
  | nil => simp [configFromLines]
  | cons buf as ih => simp only [List.cons_append, configFromLines, runs_bind, ih]

/-- A line end alone, which follows a line of 511 bytes, does nothing. -/
theorem runs_configFromFileLine_newline {Q : Unit → World → Prop} (hQ : Q () w) :
    Runs (configFromFileLine ['\n']) e w Q := by
  have hstrvec : cmdMakeStrvec (cstr ['\n']) = none := by decide
  unfold configFromFileLine
  rw [hstrvec]
  exact hQ

theorem runs_configFromLines_pieces (h : Reloadable line) (hf : InFront w.configTop line)
    (hmy : w.myvty = ⟨.file, .config⟩) (hsys : ∀ trace command, e.system trace command = 0) :
    Runs (configFromLines (fgetsPieces 511 line)) e w fun _ t =>
      t.configTop = w.configTop ++ [line] ∧ t.myvty = w.myvty := by
  unfold fgetsPieces
  split
  · simp only [configFromLines, runs_bind]
    exact runs_configFromFileLine h hf hmy hsys (.inr rfl)
  · simp only [configFromLines, runs_bind]
    have hline := runs_configFromFileLine h hf hmy hsys (.inl rfl)
    rw [List.append_nil] at hline
    exact hline.mono fun _ t ht => runs_configFromFileLine_newline ht

/-- Lines from the file are added behind the lines already read. -/
theorem runs_configFromLines {lines : List Str} (h : ∀ line ∈ lines, Reloadable line)
    (hkeyed : Keyed (w.configTop ++ lines)) (hmy : w.myvty = ⟨.file, .config⟩)
    (hsys : ∀ trace command, e.system trace command = 0) :
    Runs (configFromLines (lines.flatMap (fgetsPieces 511))) e w fun _ t =>
      t.configTop = w.configTop ++ lines ∧ t.myvty = w.myvty := by
  induction lines generalizing w with
  | nil => simp [configFromLines]
  | cons line lines ih =>
    rw [List.flatMap_cons, runs_configFromLines_append]
    refine (runs_configFromLines_pieces (h line (by simp)) hkeyed.inFront hmy hsys).mono
      fun _ t ⟨htop, hmy'⟩ => ?_
    have hkeyed' : Keyed (t.configTop ++ lines) := by
      rw [htop, List.append_assoc]
      exact hkeyed
    refine (ih (fun l hl => h l (by simp [hl])) hkeyed' (hmy'.trans hmy)).mono
      fun _ u ⟨hu, hmu⟩ => ⟨?_, hmu.trans hmy'⟩
    rw [hu, htop, List.append_assoc, List.singleton_append]

/-- The pieces of the file `config_dump` writes. -/
theorem fgets_configDump {config : List Str} (h : ∀ line ∈ config, Reloadable line)
    (timestr : Timestr) : fgets vtyBufsiz (configDump config (some timestr)) =
      (str "#Writed on " ++ timestr.text ++ str "\n") ::
        (config.flatMap (fgetsPieces 511) ++ [str "!\n"]) := by
  have hlines : ∀ line ∈ config, '\n' ∉ line ∧ line.length ≤ 511 := by
    intro line hl
    obtain ⟨func, argv, ws, -, hk, rfl⟩ := h line hl
    exact ⟨hk.not_mem.1, hk.short⟩
  have hhead : '\n' ∉ str "#Writed on " ++ timestr.text := by
    simpa [str] using timestr.noNewline
  have hfits : (str "#Writed on " ++ timestr.text).length < 511 := by
    have := timestr.fits
    simp only [str, List.length_append, List.length_cons, List.length_nil]
    omega
  have hshape : configDump config (some timestr) = (str "#Writed on " ++ timestr.text) ++ '\n' ::
      (config.flatMap (· ++ ['\n']) ++ str "!\n") := by
    simp [configDump, str]
  have hroom : vtyBufsiz - 1 = 511 := rfl
  rw [hshape, fgets, hroom, fgetsLoop_line hhead hfits, fgetsLoop_lines (by norm_num) hlines]
  rfl

/-- Loading what was saved gives the same list. -/
theorem runs_vtyshLoadConfig {config : List Str} {filename : Str} {timestr : Timestr}
    (hkeyed : Keyed config) (h : ∀ line ∈ config, Reloadable line)
    (hsys : ∀ trace command, e.system trace command = 0) (hempty : w.configTop = [])
    (hfile : ∀ trace, e.openRead trace filename = some (configDump config (some timestr))) :
    Runs (vtyshLoadConfig filename) e w fun ret t => ret = cmdSuccess ∧ t.configTop = config := by
  simp only [vtyshLoadConfig, vtyshConfigFromFile, runs_bind, runs_modify, openRead, runs_request,
    hfile, configFromContents, fgets_configDump h]
  -- the first line is a comment, the last one a separator
  have hcomment : ∀ (w : World) (Q : Unit → World → Prop), Q () w → Runs (configFromFileLine
      (str "#Writed on " ++ timestr.text ++ str "\n")) e w Q := fun w Q hQ => hQ
  have hend : ∀ (w : World) (Q : Unit → World → Prop), Q () (w.setNode .config .myvty) →
      Runs (configFromLines [str "!\n"]) e w Q := fun w Q hQ => hQ
  unfold configFromLines
  rw [runs_bind]
  refine hcomment _ _ ?_
  rw [runs_configFromLines_append]
  refine (runs_configFromLines h (by simpa [hempty] using hkeyed) rfl hsys).mono ?_
  rintro _ t ⟨ht, -⟩
  refine hend _ _ ⟨rfl, ?_⟩
  rw [World.setNode_configTop, ht]
  simp [hempty]

end Load

/-! ## What a typed command needs -/

/-- The words of the line a command stores; none for a command that stores no line. -/
def storedWords : CmdFunc → List Str → List Str
  | .bridgeDisable, _ => [str "bridge", str "disable"]
  | .bridgeAdd, [arg, eth1, eth2] => [str "bridge", itoa (atoi arg), eth1, eth2]
  | .configHostname, [name] => [str "hostname", name]
  | .ipAddress, [name, addr, mask] => [str "ip", str "address", name, addr, mask]
  | .ipAddressDhcp, [name] => [str "ip", str "address", name, str "dhcp"]
  | .ipRoute, [dest, mask, gateway, name] => [str "ip", str "route", dest, mask, gateway, name]
  | .configDns, [first, second] => [str "nameserver", first, second]
  | .sfirewallNatPortmap, argv => str "sfirewall" :: str "nat" :: str "portmap" :: argv
  | .sfirewallFilterRules, argv => str "sfirewall" :: str "filter" :: argv
  | .wgListenport, [port] => [str "wg", str "listenport", itoa (atoi port)]
  | .wgPeerPublicKey, [key] => [str "wg", str "peer", key]
  | .wgPeerAllowedIps, [key, allowedIps] =>
    [str "wg", str "peer", key, str "allowed-ips", allowedIps]
  | .wgPeerEndpoint, [key, allowedIps, endpoint] =>
    [str "wg", str "peer", key, str "allowed-ips", allowedIps, str "endpoint", endpoint]
  | .wgPeerPersistentKeepalive, [key, allowedIps, endpoint, keepalive] =>
    [str "wg", str "peer", key, str "allowed-ips", allowedIps, str "endpoint", endpoint,
      str "persistent-keepalive", keepalive]
  | .wgLink, [arg] => [str "wg", if arg = str "link-up" then str "link-up" else str "link-down"]
  | _, _ => []

/-- The arguments that stand where the template has an address. -/
def addressArgs : CmdFunc → List Str → List Str
  | .ipAddress, argv => argv.drop 1
  | .ipRoute, argv => argv.take 3
  | .configDns, argv => argv
  | .sfirewallNatPortmap, argv => (argv.drop 2).take 1
  | _, _ => []

/-- The arguments that stand where the template has a choice of keywords and that the handler
does not check. -/
def keywordArgs : CmdFunc → List Str → List (Str × List Str)
  | .sfirewallNatPortmap, [_, iface, _, proto, _, _] =>
    [(iface, [str "vpn", str "wan"]), (proto, [str "tcp", str "udp", str "all"])]
  | .sfirewallFilterRules, argv =>
    match FilterArgs.ofArgv argv with
    | some a => [(a.proto, [str "tcp", str "udp", str "icmp"])]
    | none => []
  | _, _ => []

/-- The arguments whose text is used as a format when the line is stored. -/
def formatArgs : CmdFunc → List Str → List Str
  | .bridgeAdd, argv => argv.drop 1
  | .ipAddress, argv => argv
  | .ipRoute, argv => argv
  | .sfirewallNatPortmap, argv => argv
  | .sfirewallFilterRules, argv => argv
  | .wgPeerPublicKey, argv => argv
  | .wgPeerAllowedIps, argv => argv
  | .wgPeerEndpoint, argv => argv
  | .wgPeerPersistentKeepalive, argv => argv
  | _, _ => []

/-- The line a command stores survives the file. -/
structure Storable (func : CmdFunc) (argv : List Str) : Prop where
  /-- Addresses are whole ones. -/
  addresses : ∀ w ∈ addressArgs func argv, cmdIpv4Match w = .exactMatch
  /-- Keywords are not abbreviated. -/
  keywords : ∀ p ∈ keywordArgs func argv, p.1 ∈ p.2
  /-- No percent sign is read as part of a format. -/
  plain : ∀ w ∈ formatArgs func argv, '%' ∉ w
  /-- The name of an interface holds no control character. -/
  names : func = .ipAddress → ∀ w ∈ argv.take 1, ∀ c ∈ w, ' ' ≤ c
  /-- There is no pair of quotes. -/
  quotes : (unwords ' ' (storedWords func argv)).count '"' ≤ 1
  /-- The line fits the buffer it is read into. -/
  short : (unwords ' ' (storedWords func argv)).length ≤ 511

section Typed
variable {func : CmdFunc} {argv : List Str}

theorem Storable.reloads (h : Storable func argv) (hacc : accepts func argv = true)
    (hne : storedWords func argv ≠ []) : ∃ argv', Reloads func argv' (storedWords func argv) := by
  have haddr := h.addresses
  have hkw := h.keywords
  fun_cases storedWords func argv with
  | case1 => exact ⟨_, .bridgeDisable⟩
  | case2 arg eth1 eth2 =>
    simp only [accepts, Bool.and_eq_true, decide_eq_true_eq] at hacc
    exact ⟨_, .bridgeAdd hacc.1.1 hacc.1.2 hacc.2⟩
  | case3 name => exact ⟨_, .hostname hacc⟩
  | case4 name addr mask =>
    exact ⟨_, .ipAddress hacc (haddr addr (by simp [addressArgs]))
      (haddr mask (by simp [addressArgs]))⟩
  | case5 name =>
    obtain rfl : name = str "wan" := by simpa [accepts] using hacc
    exact ⟨_, .ipAddressDhcp⟩
  | case6 dest mask gateway name =>
    exact ⟨_, .ipRoute hacc (haddr dest (by simp [addressArgs]))
      (haddr mask (by simp [addressArgs])) (haddr gateway (by simp [addressArgs]))⟩
  | case7 first second =>
    exact ⟨_, .nameserver (haddr first (by simp [addressArgs]))
      (haddr second (by simp [addressArgs]))⟩
  | case8 =>
    obtain ⟨num, iface, addr, proto, port1, port2, rfl⟩ : ∃ num iface addr proto port1 port2,
        argv = [num, iface, addr, proto, port1, port2] := by
      unfold accepts at hacc
      split at hacc <;> simp_all
    exact ⟨_, .portmap hacc (hkw (iface, [str "vpn", str "wan"]) (by simp [keywordArgs]))
      (haddr addr (by simp [addressArgs]))
      (hkw (proto, [str "tcp", str "udp", str "all"]) (by simp [keywordArgs]))⟩
  | case9 =>
    obtain ⟨a, ha, hchecks⟩ := (Option.any_eq_true _ _).mp hacc
    obtain rfl := FilterArgs.toArgv_of_ofArgv ha
    exact ⟨_, .filter hchecks (hkw (a.proto, [str "tcp", str "udp", str "icmp"])
      (by simp [keywordArgs, ha]))⟩
  | case10 port => exact ⟨_, .listenport (atoi_range port)⟩
  | case11 key => exact ⟨_, .peerPublicKey hacc⟩
  | case12 key allowedIps => exact ⟨_, .peerAllowedIps hacc⟩
  | case13 key allowedIps endpoint => exact ⟨_, .peerEndpoint hacc⟩
  | case14 key allowedIps endpoint keepalive => exact ⟨_, .peerKeepalive hacc⟩
  | case15 arg =>
    split
    · exact ⟨_, .linkUp⟩
    · exact ⟨_, .linkDown⟩
  | case16 => exact absurd (by simp [storedWords, *]) hne

/-- A text without percent sign that is used as a format is stored as it is. -/
theorem eq_of_printed {fmt text line : Str} {args : List Str} (hadd : fmt = line ∧ args = [])
    (hplain : '%' ∉ line) (hv : vasprintf fmt args = some text) : text = line := by
  obtain ⟨rfl, rfl⟩ := hadd
  rw [vasprintf_of_not_mem hplain] at hv
  exact (Option.some.inj hv).symm

/-- The line a peer command adds. -/
theorem eq_of_printed_peer {key tail fmt text line : Str} {args : List Str}
    (hline : line = str "wg peer " ++ key ++ tail) (hshort : line.length ≤ 511)
    (hplain : '%' ∉ line) (hadd : Edit.add fmt args ∈ peerEdits key tail)
    (hv : vasprintf fmt args = some text) : text = line := by
  have hcut : snprintf 2048 (str "wg peer " ++ key ++ tail) = line := by
    rw [← hline, snprintf, List.take_of_length_le (by omega)]
  refine eq_of_printed ?_ hplain hv
  simpa [peerEdits, hcut, -List.append_assoc] using hadd

theorem not_mem_append_unwords {p : Str} {ws : List Str} (hp : '%' ∉ p)
    (h : ∀ w ∈ ws, '%' ∉ w) : '%' ∉ p ++ unwords ' ' ws := by
  intro hm
  rcases List.mem_append.mp hm with hm | hm
  · exact hp hm
  · rcases mem_unwords hm with hm | ⟨w, hw, hm⟩
    · revert hm; decide
    · exact h w hw hm

/-- The line an edit of a command adds is made of these words. -/
theorem Storable.printed (h : Storable func argv) (hacc : accepts func argv = true) {fmt text : Str} {args : List Str}
    (hadd : Edit.add fmt args ∈ edits func argv) (hv : vasprintf fmt args = some text) :
    storedWords func argv ≠ [] ∧ text = unwords ' ' (storedWords func argv) := by
  have hshort := h.short
  have hplain := h.plain
  fun_cases edits func argv
  case case1 =>
    simp only [edits, ruleEdits, List.mem_cons, reduceCtorEq, Edit.add.injEq, List.not_mem_nil,
      or_false, false_or] at hadd
    have hplain' : '%' ∉ str "bridge disable" := by decide
    exact ⟨by simp [storedWords], eq_of_printed hadd hplain' hv⟩
  case case3 arg eth1 eth2 =>
    have hline : unwords ' ' (storedWords .bridgeAdd [arg, eth1, eth2]) =
        str "bridge " ++ itoa (atoi arg) ++ str " " ++ eth1 ++ str " " ++ eth2 := by
      simp [storedWords, unwords, str]
    refine ⟨by simp [storedWords], ?_⟩
    rw [hline] at hshort ⊢
    refine eq_of_printed ?_ ?_ hv
    · have hcut : ∀ s : Str, s.length ≤ 511 → snprintf 1024 s = s := fun s hs =>
        List.take_of_length_le (by omega)
      simpa [edits, hcut _ hshort, -List.append_assoc] using hadd
    · have hnum := not_mem_itoa (atoi arg)
      simpa [str, hnum, formatArgs] using hplain
  case case5 name =>
    refine ⟨by simp [storedWords], ?_⟩
    have hadd' : fmt = str "hostname %s" ∧ args = [name] := by simpa [edits] using hadd
    obtain ⟨rfl, rfl⟩ := hadd'
    rw [show str "hostname %s" = str "hostname " ++ str "%s" by decide,
      vasprintf_append (by decide)] at hv
    simpa [vasprintf, storedWords, unwords, str, eq_comm] using hv
  case case7 name addr mask =>
    have hline : unwords ' ' (storedWords .ipAddress [name, addr, mask]) =
        str "ip address " ++ name ++ str " " ++ addr ++ str " " ++ mask := by
      simp [storedWords, unwords, str]
    refine ⟨by simp [storedWords], ?_⟩
    rw [hline]
    refine eq_of_printed (by simpa [edits] using hadd) ?_ hv
    simpa [str, formatArgs] using hplain
  case case9 name =>
    obtain rfl : name = str "wan" := by simpa [accepts] using hacc
    simp only [edits, List.mem_cons, reduceCtorEq, Edit.add.injEq, List.not_mem_nil, or_false,
      false_or] at hadd
    exact ⟨by simp [storedWords], eq_of_printed hadd (by decide) hv⟩
  case case10 dest mask gateway name =>
    have hline : unwords ' ' (storedWords .ipRoute [dest, mask, gateway, name]) =
        str "ip route " ++ dest ++ str " " ++ mask ++ str " " ++ gateway ++ str " " ++ name := by
      simp [storedWords, unwords, str]
    refine ⟨by simp [storedWords], ?_⟩
    rw [hline]
    refine eq_of_printed (by simpa [edits, ruleEdits] using hadd) ?_ hv
    simpa [str, formatArgs] using hplain
  case case12 first second =>
    refine ⟨by simp [storedWords], ?_⟩
    have hadd' : fmt = str "nameserver %s %s" ∧ args = [first, second] := by
      simpa [edits] using hadd
    obtain ⟨rfl, rfl⟩ := hadd'
    rw [show str "nameserver %s %s" = str "nameserver " ++ str "%s %s" by decide,
      vasprintf_append (by decide)] at hv
    simpa [vasprintf, storedWords, unwords, str, eq_comm] using hv
  case case14 =>
    have hne : argv ≠ [] := by rintro rfl; simp [accepts] at hacc
    have hline : unwords ' ' (storedWords .sfirewallNatPortmap argv) = portmapLine argv := by
      obtain ⟨num, rest, rfl⟩ := List.exists_cons_of_ne_nil hne
      simp [storedWords, unwords, str, portmapLine]
    refine ⟨by simp [storedWords], ?_⟩
    rw [hline]
    refine eq_of_printed (by simpa [edits, ruleEdits] using hadd) ?_ hv
    exact not_mem_append_unwords (by decide) hplain
  case case16 a ha =>
    obtain rfl := FilterArgs.toArgv_of_ofArgv ha
    have hline : unwords ' ' (storedWords .sfirewallFilterRules a.toArgv) = a.line := by
      simp [storedWords, unwords, str, FilterArgs.line, FilterArgs.toArgv]
    refine ⟨by simp [storedWords], ?_⟩
    rw [hline]
    refine eq_of_printed (by simpa [edits, ha, ruleEdits] using hadd) ?_ hv
    exact not_mem_append_unwords (by decide) hplain
  case case20 port =>
    have hline : unwords ' ' (storedWords .wgListenport [port]) =
        str "wg listenport " ++ itoa (atoi port) := by simp [storedWords, unwords, str]
    refine ⟨by simp [storedWords], ?_⟩
    rw [hline] at hshort ⊢
    refine eq_of_printed ?_ (by simpa [str] using not_mem_itoa (atoi port)) hv
    have hcut : ∀ s : Str, s.length ≤ 511 → snprintf 1024 s = s := fun s hs =>
      List.take_of_length_le (by omega)
    simpa [edits, hcut _ hshort] using hadd
  case case21 key =>
    refine ⟨by simp [storedWords], eq_of_printed_peer ?_ hshort ?_ hadd hv⟩
    · simp [storedWords, unwords, str]
    · simpa [storedWords, unwords, str, formatArgs] using hplain
  case case22 key allowedIps =>
    refine ⟨by simp [storedWords], eq_of_printed_peer ?_ hshort ?_ hadd hv⟩
    · simp [storedWords, unwords, str]
    · simpa [storedWords, unwords, str, formatArgs] using hplain
  case case23 key allowedIps endpoint =>
    refine ⟨by simp [storedWords], eq_of_printed_peer ?_ hshort ?_ hadd hv⟩
    · simp [storedWords, unwords, str]
    · simpa [storedWords, unwords, str, formatArgs] using hplain
  case case24 key allowedIps endpoint keepalive =>
    refine ⟨by simp [storedWords], eq_of_printed_peer ?_ hshort ?_ hadd hv⟩
    · simp [storedWords, unwords, str]
    · simpa [storedWords, unwords, str, formatArgs] using hplain
  case case26 arg =>
    have hline : unwords ' ' (storedWords .wgLink [arg]) =
        if arg = str "link-up" then str "wg link-up" else str "wg link-down" := by
      simp only [storedWords]
      split <;> rfl
    refine ⟨by simp [storedWords], ?_⟩
    rw [hline]
    exact eq_of_printed (by simpa [edits] using hadd) (by split <;> decide) hv
  -- the other handlers add no line
  all_goals simp [edits, *] at hadd

/-- The keywords of the stored lines. -/
def lineKeywords : List Str :=
  [str "bridge", str "disable", str "hostname", str "ip", str "address", str "dhcp", str "route",
    str "nameserver", str "sfirewall", str "nat", str "portmap", str "filter", str "wg",
    str "listenport", str "peer", str "allowed-ips", str "endpoint", str "persistent-keepalive",
    str "link-up", str "link-down"]

/-- The words of a stored line are keywords, numbers and arguments of the command. -/
theorem mem_storedWords (func : CmdFunc) (argv : List Str) : ∀ w ∈ storedWords func argv,
    w ∈ lineKeywords ∨ (∃ n, w = itoa n) ∨
      w ∈ argv ∧ (w ∈ formatArgs func argv ∨ func = .configHostname ∨ func = .configDns ∨
        func = .ipAddressDhcp ∧ argv = [w]) := by
  fun_cases storedWords func argv <;>
    simp only [List.forall_mem_cons, List.not_mem_nil, false_implies, implies_true, and_true]
  case case8 | case9 =>
    and_intros
    all_goals first
      | exact .inl (by decide)
      | exact fun w hw => .inr (.inr ⟨hw, .inl hw⟩)
  case case15 =>
    refine ⟨.inl (by decide), .inl ?_⟩
    split <;> decide
  all_goals
    and_intros
    all_goals first
      | exact .inl (by decide)
      | exact .inr (.inl ⟨_, rfl⟩)
      | exact .inr (.inr (by simp [formatArgs]))

theorem storedWords_token {func : CmdFunc} {argv : List Str}
    (hargs : ∀ w ∈ argv, IsToken w ∧ '\x00' ∉ w) :
    ∀ w ∈ storedWords func argv, IsToken w ∧ '\x00' ∉ w := by
  intro w hw
  rcases mem_storedWords func argv w hw with hk | ⟨n, rfl⟩ | ⟨ha, -⟩
  · have hall : ∀ w ∈ lineKeywords, IsToken w ∧ '\x00' ∉ w := by decide
    exact hall w hk
  · exact ⟨isToken_itoa n, not_mem_itoa_of (by decide) (by decide) n⟩
  · exact hargs w ha

theorem Storable.not_mem_percent {func : CmdFunc} {argv : List Str} (h : Storable func argv)
    (hacc : accepts func argv = true) (hm : '%' ∈ unwords ' ' (storedWords func argv)) :
    func = .configHostname ∨ func = .configDns := by
  rcases mem_unwords hm with hm | ⟨w, hw, hm⟩
  · exact absurd hm (by decide)
  · rcases mem_storedWords func argv w hw with hk | ⟨n, rfl⟩ | ⟨ha, hf | hf | hf | ⟨rfl, rfl⟩⟩
    · have hall : ∀ w ∈ lineKeywords, '%' ∉ w := by decide
      exact absurd hm (hall w hk)
    · exact absurd hm (not_mem_itoa n)
    · exact absurd hm (h.plain w hf)
    · exact .inl hf
    · exact .inr hf
    · -- the only interface with an address by DHCP is `wan`
      obtain rfl : w = str "wan" := by simpa [accepts] using hacc
      exact absurd hm (by decide)

/-- A line that a command adds comes back. -/
theorem Storable.reloadable {func : CmdFunc} {argv : List Str} (h : Storable func argv)
    (hacc : accepts func argv = true) (hargs : ∀ w ∈ argv, IsToken w ∧ '\x00' ∉ w)
    {fmt text : Str} {args : List Str} (hadd : Edit.add fmt args ∈ edits func argv)
    (hv : vasprintf fmt args = some text) : Reloadable text := by
  obtain ⟨hne, rfl⟩ := h.printed hacc hadd hv
  obtain ⟨argv', hr⟩ := h.reloads hacc hne
  exact ⟨func, argv', _, hr,
    ⟨storedWords_token hargs, h.not_mem_percent hacc, h.quotes, h.short⟩, rfl⟩

end Typed

/-- What a run keeps: the list is keyed and every line comes back. -/
def Restorable (config : List Str) : Prop := Keyed config ∧ ∀ line ∈ config, Reloadable line

theorem restorable_nil : Restorable [] := ⟨keyed_nil, by simp⟩

theorem keyArgs_subset (func : CmdFunc) (argv : List Str) :
    keyArgs func argv ⊆ formatArgs func argv := by
  unfold keyArgs formatArgs
  split <;> first | exact fun _ h => h | exact List.take_subset _ _ | simp

/-- One command keeps it. -/
theorem Restorable.effect {func : CmdFunc} {argv config config' : List Str}
    (h : Restorable config) (hargs : ∀ w ∈ argv, IsToken w ∧ '\x00' ∉ w)
    (hst : accepts func argv = true → Storable func argv)
    (he : Effect func argv config config') : Restorable config' := by
  have he' := he
  rcases he with rfl | ⟨hacc, hrun⟩
  · exact h
  · have hs := hst hacc
    have hkeyed : Keyed config' := h.1.effect (fun w hw => (hargs w hw).1) hs.names
      (fun w hw => hs.plain w (keyArgs_subset func argv hw)) he'
    refine ⟨hkeyed, fun line hl => ?_⟩
    have hmem : line ∈ config ∨ ∃ fmt args, Edit.add fmt args ∈ edits func argv ∧
        vasprintf fmt args = some line := by
      rcases hrun with hrun | hrun
      · exact mem_runEdits hrun hl
      · rcases mem_runEdits hrun hl with hm | ⟨fmt, args, hm, hv⟩
        · exact .inl hm
        · refine .inr ⟨fmt, args, (List.mem_append.mp hm).resolve_right fun hu => ?_, hv⟩
          -- what `bridge_add` takes back is a deletion
          unfold undoEdits at hu
          split at hu <;> simp at hu
    rcases hmem with hm | ⟨fmt, args, hm, hv⟩
    · exact h.2 line hm
    · exact hs.reloadable hacc hargs hm hv

/-- Every command this input can stand for stores, if it stores a line, one that survives the
file. -/
def Input.Storable (i : Input) : Prop :=
  ∀ node func argv, i.StandsFor node func argv → accepts func argv = true →
    Vtysh.Storable func argv

theorem ShellReach.restorable {e : Env} {w : World} (h : ShellReach e Input.Storable w) :
    Restorable w.configTop :=
  h.invariant (I := fun w => Restorable w.configTop) (fun w hw => by rw [hw]; exact restorable_nil)
    fun _ _ _ hw hok hst => ShellStep.config hst hw fun node func argv _ _ hf hr he =>
      hr.effect hf.args (hok node func argv hf) he

/-! ## The round trip -/

/-- In every state a run reaches whose commands store only lines that survive the file, loading
what `config_dump` writes gives the same lines in the same order. -/
theorem loadsBack_of_reach (e e' : Env) (w w' : World) (filename : Str) (timestr : Timestr)
    (h : ShellReach e Input.Storable w)
    (hsys : ∀ trace command, e'.system trace command = 0) (hempty : w'.configTop = [])
    (hfile : ∀ trace, e'.openRead trace filename =
      some (configDump w.configTop (some timestr))) :
    Runs (vtyshLoadConfig filename) e' w' fun _ t => t.configTop = w.configTop :=
  (runs_vtyshLoadConfig h.restorable.1 h.restorable.2 hsys hempty hfile).mono fun _ _ ht => ht.2

/-- The operating system of the examples with this file to read. -/
def fileEnv (contents : Str) : Env := { obligingEnv with openRead := fun _ _ => some contents }

theorem fileEnv_openRead (contents : Str) (trace : List Event) (filename : Str) :
    (fileEnv contents).openRead trace filename = some contents := rfl

/-- The input of the example stands for `wg listenport` with this number. -/
theorem storable_listenport : Input.Storable (.typed (str "wg listenport 51820")) := by
  rintro node func argv ⟨vline, elem, hv, hl, rfl⟩ -
  obtain rfl : vline = [str "wg", str "listenport", str "51820"] :=
    Option.some.inj (hv.symm.trans (by decide))
  cases node with
  | view =>
    have hnone : cmdLookup .byCompletion (cmdNodeVector .view)
        [str "wg", str "listenport", str "51820"] = .error cmdErrNoMatch := by decide +kernel
    cases hnone.symm.trans hl
  | enable =>
    have hnone : cmdLookup .byCompletion (cmdNodeVector .enable)
        [str "wg", str "listenport", str "51820"] = .error cmdErrNoMatch := by decide +kernel
    cases hnone.symm.trans hl
  | config =>
    have hrun : cmdLookup .byCompletion (cmdNodeVector .config)
        [str "wg", str "listenport", str "51820"] =
          .run (entry wgListenportCmd [str "wg", str "listenport"] [[str "NUM"]])
            [str "51820"] := by decide +kernel
    cases hrun.symm.trans hl
    exact ⟨by decide, by decide, by decide, by decide, by decide, by decide⟩

theorem loadsBack_of_reach_listenport : ∃ w : World, w.configTop = [str "wg listenport 51820"] ∧
    Runs (vtyshLoadConfig (str "/qrwg/config/asmcli.conf"))
      (fileEnv (configDump w.configTop (some epoch))) emptyShell fun _ t =>
        t.configTop = w.configTop := by
  have hrun : (execInputs [.typed (str "wg listenport 51820")] obligingEnv emptyShell).value? =
      some () := by decide +kernel
  have hreach : ShellReach obligingEnv Input.Storable
      (stateAfter obligingEnv emptyShell [.typed (str "wg listenport 51820")]) := by
    refine reach_stateAfter (.init rfl) (fun i hi => ?_) hrun
    rw [List.mem_singleton.mp hi]
    exact storable_listenport
  have hstored : (stateAfter obligingEnv emptyShell
      [.typed (str "wg listenport 51820")]).configTop = [str "wg listenport 51820"] := by
    decide +kernel
  generalize stateAfter obligingEnv emptyShell _ = w at hreach hstored
  exact ⟨w, hstored, loadsBack_of_reach obligingEnv _ w _ _ epoch hreach (fun _ _ => rfl) rfl
    fun trace => fileEnv_openRead _ trace _⟩

/-- States reached by lines typed in the configuration node, from an empty store. -/
abbrev TypedReach (e : Env) : World → Prop :=
  Reach EmptyStore (ShellStep e) fun w i => w.vty.node = .config ∧ ∃ line, i = .typed line

set_option maxRecDepth 4000 in
/-- A rule typed with an abbreviated keyword is stored as it was typed, and the strict matcher
does not take it back. -/
theorem not_loadsBack_of_abbreviation :
    ¬ ∀ (e e' : Env) (w w' : World) (filename : Str) (timestr : Timestr), TypedReach e w →
      (∀ trace command, e.system trace command = 0) →
      (∀ trace command, e'.system trace command = 0) → w'.configTop = [] →
      (∀ trace, e'.openRead trace filename = some (configDump w.configTop (some timestr))) →
      Runs (vtyshLoadConfig filename) e' w' fun _ t => t.configTop = w.configTop := by
  intro h
  have hrun : (execInputs [.typed (str "sfirewall nat portmap 10 w 192.168.5.200 tcp 80 80")]
      obligingEnv emptyShell).value? = some () := by decide +kernel
  have hstored : (stateAfter obligingEnv emptyShell
      [.typed (str "sfirewall nat portmap 10 w 192.168.5.200 tcp 80 80")]).configTop =
        [str "sfirewall nat portmap 10 w 192.168.5.200 tcp 80 80"] := by decide +kernel
  have hinit : Reach EmptyStore (ShellStep obligingEnv)
      (fun w i => w.vty.node = .config ∧ ∃ line, i = .typed line) emptyShell := .init rfl
  have hreach : TypedReach obligingEnv (stateAfter obligingEnv emptyShell
      [.typed (str "sfirewall nat portmap 10 w 192.168.5.200 tcp 80 80")]) := by
    rw [execInputs_singleton] at hrun
    have hdone : ShellStep obligingEnv emptyShell _ _ := Outcome.eq_done hrun emptyShell
    rw [← execInputs_singleton] at hdone
    exact .step hinit ⟨rfl, _, rfl⟩ hdone
  generalize stateAfter obligingEnv emptyShell _ = w at hreach hstored
  have hruns := h obligingEnv (fileEnv (configDump w.configTop (some epoch))) w emptyShell
    (str "/qrwg/config/asmcli.conf") epoch hreach (fun _ _ => rfl) (fun _ _ => rfl) rfl
    fun trace => fileEnv_openRead _ trace _
  rw [hstored] at hruns
  have hload : (vtyshLoadConfig (str "/qrwg/config/asmcli.conf") (fileEnv (configDump
      [str "sfirewall nat portmap 10 w 192.168.5.200 tcp 80 80"] (some epoch)))
      emptyShell).value? = some cmdSuccess := by decide +kernel
  have hlost : ((vtyshLoadConfig (str "/qrwg/config/asmcli.conf") (fileEnv (configDump
      [str "sfirewall nat portmap 10 w 192.168.5.200 tcp 80 80"] (some epoch)))
      emptyShell).stateD emptyShell).configTop = [] := by decide +kernel
  have hkept := hruns.of_value hload
  rw [hlost] at hkept
  cases hkept

end QrWireguard.Vtysh
