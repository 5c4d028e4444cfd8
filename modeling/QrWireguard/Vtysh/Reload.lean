import QrWireguard.Vtysh.Node
import QrWireguard.Vtysh.Strict
import QrWireguard.Vtysh.Cmd.Fw

/-!
# Reading a stored line back

The lines the handlers store are resolved by the strict matcher to the command that stored
them, with the same arguments, when the keywords among the arguments stand in full and the
addresses are whole ones.
-/

namespace QrWireguard.Vtysh

/-! ## Words and positions -/

/-- A position that is not one of the address forms, a range or a rest of the line. -/
def plainAlternative (s : Str) : Bool :=
  !cmdVararg s && !cmdRange s && s != str "X:X::X:X" && s != str "X:X::X:X/M" &&
    s != str "A.B.C.D" && s != str "A.B.C.D/M"

/-- An alternative that takes one word. -/
def plainKeyword (s : Str) : Bool := plainAlternative s && !(cmdOption s || cmdVariable s)

/-- An alternative that takes every word. -/
def plainVariable (s : Str) : Bool := plainAlternative s && (cmdOption s || cmdVariable s)

theorem descMatch_plain {s : Str} (h : plainAlternative s = true) (word : Str) :
    descMatch .byString word s = if cmdOption s || cmdVariable s then some .extendMatch
      else if word = s then some .exactMatch else none := by
  simp only [plainAlternative, Bool.and_eq_true, Bool.not_eq_true', bne_iff_ne, ne_eq] at h
  obtain ⟨⟨⟨⟨⟨h₁, h₂⟩, h₃⟩, h₄⟩, h₅⟩, h₆⟩ := h
  unfold descMatch
  rw [if_neg (by simp [h₁]), if_neg (by simp [h₂]), if_neg h₃, if_neg h₄, if_neg h₅, if_neg h₆]

theorem descMatch_keyword {s : Str} (h : plainKeyword s = true) (word : Str) :
    descMatch .byString word s = if word = s then some .exactMatch else none := by
  simp only [plainKeyword, Bool.and_eq_true, Bool.not_eq_true'] at h
  rw [descMatch_plain h.1, if_neg (by simp [h.2])]

theorem descMatch_variable {s : Str} (h : plainVariable s = true) (word : Str) :
    descMatch .byString word s = some .extendMatch := by
  simp only [plainVariable, Bool.and_eq_true] at h
  rw [descMatch_plain h.1, if_pos h.2]

/-- A keyword is taken where it is one of the keywords. -/
theorem takes_keyword {word : Str} {descvec : List Str} (hkw : descvec.all plainKeyword = true)
    (hmem : word ∈ descvec) : Takes word descvec := by
  have hkw' := List.all_eq_true.mp hkw
  refine ⟨.exactMatch, .inl rfl, fun s hs m hm => ?_, word, hmem, ?_⟩
  · rw [descMatch_keyword (hkw' s hs)] at hm
    split at hm
    · exact (Option.some.inj hm) ▸ le_refl _
    · cases hm
  · rw [descMatch_keyword (hkw' word hmem), if_pos rfl]

/-- Where one alternative is a variable, every word is taken. -/
theorem takes_variable {descvec : List Str}
    (hall : descvec.all (fun s => plainKeyword s || plainVariable s) = true)
    (hvar : descvec.any plainVariable = true) (word : Str) : Takes word descvec := by
  have hall' : ∀ s ∈ descvec, plainKeyword s = true ∨ plainVariable s = true := by
    simpa [List.all_eq_true] using hall
  obtain ⟨v, hv, hvv⟩ := List.any_eq_true.mp hvar
  by_cases hmem : ∃ s ∈ descvec, plainKeyword s = true ∧ word = s
  · -- the word is a keyword, which goes before the variable
    obtain ⟨s, hs, hk, rfl⟩ := hmem
    refine ⟨.exactMatch, .inl rfl, fun s _ m _ => ?_, word, hs, ?_⟩
    · cases m <;> decide
    · rw [descMatch_keyword hk, if_pos rfl]
  · refine ⟨.extendMatch, .inr (.inr rfl), fun s hs m hm => ?_, v, hv, descMatch_variable hvv _⟩
    rcases hall' s hs with hk | hv
    · rw [descMatch_keyword hk, if_neg fun he => hmem ⟨s, hs, hk, he⟩] at hm
      cases hm
    · rw [descMatch_variable hv] at hm
      exact (Option.some.inj hm) ▸ le_refl _

/-- A whole address is taken where an address stands. -/
theorem takes_ipv4 {word : Str} (h : cmdIpv4Match word = .exactMatch) :
    Takes word [str "A.B.C.D"] := by
  have hm : descMatch .byString word (str "A.B.C.D") = some .ipv4Match := by
    unfold descMatch
    rw [if_neg (by decide), if_neg (by decide), if_neg (by decide), if_neg (by decide),
      if_pos rfl, if_pos (by rw [h]; rfl)]
  refine ⟨.ipv4Match, .inr (.inl rfl), fun s hs m hm' => ?_, _, by simp, hm⟩
  rw [List.mem_singleton.mp hs, hm] at hm'
  exact (Option.some.inj hm') ▸ le_refl _

theorem refuses_keyword {word s : Str} (hs : plainKeyword s = true) (hne : word ≠ s) :
    Refuses word [s] := by
  intro s' hs'
  rw [List.mem_singleton.mp hs', descMatch_keyword hs, if_neg hne]

/-! ## Entries of the configuration node -/

/-- The element of a template that starts with these keywords and goes on with these
positions. -/
def entry (d : Defun) (kws : List Str) (positions : List (List Str)) : CmdElement CmdFunc :=
  ⟨d.string, d.func, kws.map (fun k => [k]) ++ positions, kws.length + positions.length⟩

/-- Every other template departs from the element at one of its keywords, or at one of the
exceptions. -/
def resolves (e : CmdElement CmdFunc) (kws : List Str) (exceptions : List (Nat × List Str)) :
    Bool :=
  decide (((cmdNodeVector .config).filter fun d => (departure e.strvec d.strvec).isNone &&
      decide (e.strvec.length ≤ d.strvec.length) && decide (d.cmdsize ≤ e.strvec.length)) = [e]) &&
    kws.all plainKeyword &&
    (cmdNodeVector .config).all fun d => (departure e.strvec d.strvec).all fun p =>
      (decide (p.1 < kws.length) && decide (Refuses (kws.getD p.1 []) p.2)) ||
        decide (p ∈ exceptions)

/-- A line that starts with the keywords of an element is strictly resolved to it. -/
theorem cmdLookup_entry (d : Defun) (kws args : List Str) (positions : List (List Str))
    (exceptions : List (Nat × List Str)) {argv : List Str}
    (hcheck : resolves (entry d kws positions) kws exceptions = true)
    (htakes : List.Forall₂ Takes args positions)
    (hex : ∀ p ∈ exceptions, Refuses ((kws ++ args).getD p.1 []) p.2)
    (hargv : bindArgs (entry d kws positions).strvec false [] (kws ++ args) = some (.ok argv)) :
    cmdLookup .byString (cmdNodeVector .config) (kws ++ args) =
      .run (entry d kws positions) argv := by
  simp only [resolves, Bool.and_eq_true, decide_eq_true_eq] at hcheck
  obtain ⟨⟨honly, hkws⟩, hdep⟩ := hcheck
  have hkw : List.Forall₂ Takes kws (kws.map fun k => [k]) := by
    rw [List.forall₂_map_right_iff, List.forall₂_same]
    intro k hk
    exact takes_keyword (by simpa using List.all_eq_true.mp hkws k hk) (by simp)
  refine cmdLookup_strict (List.rel_append hkw htakes) (fun e' he' p hp => ?_) honly hargv
  have hp' := List.all_eq_true.mp hdep e' he'
  rw [hp, Option.all_some, Bool.or_eq_true, Bool.and_eq_true, decide_eq_true_eq,
    decide_eq_true_eq, decide_eq_true_eq] at hp'
  rcases hp' with ⟨hlt, hr⟩ | hp'
  · rwa [List.getD_eq_getElem?_getD, List.getElem?_append_left hlt, ← List.getD_eq_getElem?_getD]
  · exact hex p hp'

/-! ## The stored commands -/

/-- A line with these words is read back as this command with these arguments. -/
def ReadsBack (vline : List Str) (func : CmdFunc) (argv : List Str) : Prop :=
  ∃ elem, cmdLookup .byString (cmdNodeVector .config) vline = .run elem argv ∧ elem.func = func

section Lookups

theorem readsBack_bridgeDisable :
    ReadsBack [str "bridge", str "disable"] .bridgeDisable [] :=
  ⟨entry bridgeDisableCmd [str "bridge", str "disable"] [], by decide +kernel, rfl⟩

theorem readsBack_bridgeAdd {num eth1 eth2 : Str} (hnum : num ≠ str "disable") :
    ReadsBack [str "bridge", num, eth1, eth2] .bridgeAdd [num, eth1, eth2] := by
  have hword : ∀ w, Takes w [str "WORD"] := takes_variable (by decide) (by decide)
  refine ⟨_, cmdLookup_entry bridgeAddCmd [str "bridge"] [num, eth1, eth2]
    [[str "NUM"], [str "WORD"], [str "WORD"]] [(1, [str "disable"])]
    (by decide +kernel) ?_ ?_ rfl, rfl⟩
  · exact .cons (takes_variable (by decide) (by decide) _)
      (.cons (hword _) (.cons (hword _) .nil))
  · simpa using refuses_keyword (by decide) hnum

theorem readsBack_hostname {name : Str} :
    ReadsBack [str "hostname", name] .configHostname [name] := by
  refine ⟨_, cmdLookup_entry hostnameCmd [str "hostname"] [name] [[str "WORD"]] []
    (by decide +kernel) ?_ (by simp) rfl, rfl⟩
  exact .cons (takes_variable (by decide) (by decide) _) .nil

theorem readsBack_ipAddress {name addr mask : Str} (haddr : cmdIpv4Match addr = .exactMatch)
    (hmask : cmdIpv4Match mask = .exactMatch) :
    ReadsBack [str "ip", str "address", name, addr, mask] .ipAddress [name, addr, mask] := by
  refine ⟨_, cmdLookup_entry ipAddressCmd [str "ip", str "address"] [name, addr, mask]
    [[str "ETHNAME"], [str "A.B.C.D"], [str "A.B.C.D"]] [(3, [str "dhcp"])]
    (by decide +kernel) ?_ ?_ rfl, rfl⟩
  · exact .cons (takes_variable (by decide) (by decide) _)
      (.cons (takes_ipv4 haddr) (.cons (takes_ipv4 hmask) .nil))
  · have hne : addr ≠ str "dhcp" := by rintro rfl; revert haddr; decide
    simpa using refuses_keyword (by decide) hne

theorem readsBack_ipAddressDhcp :
    ReadsBack [str "ip", str "address", str "wan", str "dhcp"] .ipAddressDhcp [str "wan"] :=
  ⟨entry ipAddressDhcpCmd [str "ip", str "address"] [[str "ETHNAME"], [str "dhcp"]],
    by decide +kernel, rfl⟩

theorem readsBack_ipRoute {dest mask gateway name : Str}
    (hdest : cmdIpv4Match dest = .exactMatch) (hmask : cmdIpv4Match mask = .exactMatch)
    (hgateway : cmdIpv4Match gateway = .exactMatch) :
    ReadsBack [str "ip", str "route", dest, mask, gateway, name] .ipRoute
      [dest, mask, gateway, name] := by
  refine ⟨_, cmdLookup_entry ipRouteCmd [str "ip", str "route"] [dest, mask, gateway, name]
    [[str "A.B.C.D"], [str "A.B.C.D"], [str "A.B.C.D"], [str "ETHNAME"]] []
    (by decide +kernel) ?_ (by simp) rfl, rfl⟩
  exact .cons (takes_ipv4 hdest) (.cons (takes_ipv4 hmask) (.cons (takes_ipv4 hgateway)
    (.cons (takes_variable (by decide) (by decide) _) .nil)))

theorem readsBack_nameserver {first second : Str} (hfirst : cmdIpv4Match first = .exactMatch)
    (hsecond : cmdIpv4Match second = .exactMatch) :
    ReadsBack [str "nameserver", first, second] .configDns [first, second] := by
  refine ⟨_, cmdLookup_entry configDnsCmd [str "nameserver"] [first, second]
    [[str "A.B.C.D"], [str "A.B.C.D"]] [] (by decide +kernel) ?_ (by simp) rfl, rfl⟩
  exact .cons (takes_ipv4 hfirst) (.cons (takes_ipv4 hsecond) .nil)

theorem readsBack_portmap {num iface addr proto port1 port2 : Str} (hnum : num ≠ str "apply")
    (hiface : iface ∈ [str "vpn", str "wan"]) (haddr : cmdIpv4Match addr = .exactMatch)
    (hproto : proto ∈ [str "tcp", str "udp", str "all"]) :
    ReadsBack [str "sfirewall", str "nat", str "portmap", num, iface, addr, proto, port1, port2]
      .sfirewallNatPortmap [num, iface, addr, proto, port1, port2] := by
  have hport : ∀ w, Takes w [str "PORT"] := takes_variable (by decide) (by decide)
  refine ⟨_, cmdLookup_entry sfirewallNatPortmapCmd [str "sfirewall", str "nat", str "portmap"]
    [num, iface, addr, proto, port1, port2]
    [[str "NUM"], [str "vpn", str "wan"], [str "A.B.C.D"], [str "tcp", str "udp", str "all"],
      [str "PORT"], [str "PORT"]] [(3, [str "apply"])] (by decide +kernel) ?_ ?_ rfl, rfl⟩
  · exact .cons (takes_variable (by decide) (by decide) _)
      (.cons (takes_keyword (by decide) hiface) (.cons (takes_ipv4 haddr)
        (.cons (takes_keyword (by decide) hproto) (.cons (hport _) (.cons (hport _) .nil)))))
  · simpa using refuses_keyword (by decide) hnum

theorem readsBack_filter {a : FilterArgs} (hnum : a.num ≠ str "apply")
    (hzone : a.zone ∈ [str "lan2wan", str "wan2lan"])
    (hdirection : a.direction ∈ [str "in", str "out", str "fw"])
    (hposition : a.position ∈ [str "insert", str "append"])
    (haction : a.action ∈ [str "permit", str "deny", str "reject"])
    (hproto : a.proto ∈ [str "tcp", str "udp", str "icmp"]) :
    ReadsBack (str "sfirewall" :: str "filter" :: a.toArgv) .sfirewallFilterRules a.toArgv := by
  have hvar : ∀ s, plainVariable s = true → ∀ w, Takes w [s] := fun s hs =>
    takes_variable (by simp [hs]) (by simp [hs])
  refine ⟨_, cmdLookup_entry sfirewallFilterRulesCmd [str "sfirewall", str "filter"] a.toArgv
    [[str "NUM"], [str "lan2wan", str "wan2lan"], [str "in", str "out", str "fw"],
      [str "insert", str "append"], [str "permit", str "deny", str "reject"],
      [str "tcp", str "udp", str "icmp"], [str "A.B.C.D/E"], [str "PORT"], [str "A.B.C.D/E"],
      [str "PORT"], [str "DAY"], [str "FROMTIME"], [str "TOTIME"]] [(2, [str "apply"])]
    (by decide +kernel) ?_ ?_ rfl, rfl⟩
  · refine .cons (hvar _ (by decide) _) (.cons (takes_keyword (by decide) hzone)
      (.cons (takes_keyword (by decide) hdirection) (.cons (takes_keyword (by decide) hposition)
        (.cons (takes_keyword (by decide) haction) (.cons (takes_keyword (by decide) hproto) ?_)))))
    exact .cons (hvar _ (by decide) _) (.cons (hvar _ (by decide) _) (.cons (hvar _ (by decide) _)
      (.cons (hvar _ (by decide) _) (.cons (hvar _ (by decide) _) (.cons (hvar _ (by decide) _)
        (.cons (hvar _ (by decide) _) .nil))))))
  · simpa [FilterArgs.toArgv] using refuses_keyword (by decide) hnum

theorem readsBack_listenport {port : Str} :
    ReadsBack [str "wg", str "listenport", port] .wgListenport [port] := by
  refine ⟨_, cmdLookup_entry wgListenportCmd [str "wg", str "listenport"] [port] [[str "NUM"]] []
    (by decide +kernel) ?_ (by simp) rfl, rfl⟩
  exact .cons (takes_variable (by decide) (by decide) _) .nil

theorem readsBack_peerPublicKey {key : Str} :
    ReadsBack [str "wg", str "peer", key] .wgPeerPublicKey [key] := by
  refine ⟨_, cmdLookup_entry wgPeerPublicKeyCmd [str "wg", str "peer"] [key] [[str "PUBLICKEY"]] []
    (by decide +kernel) ?_ (by simp) rfl, rfl⟩
  exact .cons (takes_variable (by decide) (by decide) _) .nil

theorem readsBack_peerAllowedIps {key allowedIps : Str} :
    ReadsBack [str "wg", str "peer", key, str "allowed-ips", allowedIps] .wgPeerAllowedIps
      [key, allowedIps] := by
  refine ⟨_, cmdLookup_entry wgPeerAllowedIpsCmd [str "wg", str "peer"]
    [key, str "allowed-ips", allowedIps] [[str "PUBLICKEY"], [str "allowed-ips"], [str "WORD"]] []
    (by decide +kernel) ?_ (by simp) rfl, rfl⟩
  exact .cons (takes_variable (by decide) (by decide) _)
    (.cons (takes_keyword (by decide) (by decide))
      (.cons (takes_variable (by decide) (by decide) _) .nil))

theorem readsBack_peerEndpoint {key allowedIps endpoint : Str} :
    ReadsBack [str "wg", str "peer", key, str "allowed-ips", allowedIps, str "endpoint", endpoint]
      .wgPeerEndpoint [key, allowedIps, endpoint] := by
  -- the alternatives of a last position stand in order
  refine ⟨_, cmdLookup_entry wgPeerEndpointCmd [str "wg", str "peer"]
    [key, str "allowed-ips", allowedIps, str "endpoint", endpoint]
    [[str "PUBLICKEY"], [str "allowed-ips"], [str "WORD"], [str "endpoint"],
      [str "A.B.C.D:PORT", str "FQDN:PORT", str "none"]] []
    (by decide +kernel) ?_ (by simp) rfl, rfl⟩
  exact .cons (takes_variable (by decide) (by decide) _)
    (.cons (takes_keyword (by decide) (by decide))
      (.cons (takes_variable (by decide) (by decide) _)
        (.cons (takes_keyword (by decide) (by decide))
          (.cons (takes_variable (by decide) (by decide) _) .nil))))

theorem readsBack_peerKeepalive {key allowedIps endpoint keepalive : Str} :
    ReadsBack [str "wg", str "peer", key, str "allowed-ips", allowedIps, str "endpoint", endpoint,
      str "persistent-keepalive", keepalive] .wgPeerPersistentKeepalive
      [key, allowedIps, endpoint, keepalive] := by
  refine ⟨_, cmdLookup_entry wgPeerPersistentKeepaliveCmd [str "wg", str "peer"]
    [key, str "allowed-ips", allowedIps, str "endpoint", endpoint, str "persistent-keepalive",
      keepalive]
    [[str "PUBLICKEY"], [str "allowed-ips"], [str "WORD"], [str "endpoint"],
      [str "none", str "FQDN:PORT", str "A.B.C.D:PORT"], [str "persistent-keepalive"],
      [str "NUM", str "off"]] [] (by decide +kernel) ?_ (by simp) rfl, rfl⟩
  exact .cons (takes_variable (by decide) (by decide) _)
    (.cons (takes_keyword (by decide) (by decide))
      (.cons (takes_variable (by decide) (by decide) _)
        (.cons (takes_keyword (by decide) (by decide))
          (.cons (takes_variable (by decide) (by decide) _)
            (.cons (takes_keyword (by decide) (by decide))
              (.cons (takes_variable (by decide) (by decide) _) .nil))))))

theorem readsBack_linkUp : ReadsBack [str "wg", str "link-up"] .wgLink [str "link-up"] :=
  ⟨entry wgLinkCmd [str "wg"] [[str "link-down", str "link-up"]], by decide +kernel, rfl⟩

theorem readsBack_linkDown : ReadsBack [str "wg", str "link-down"] .wgLink [str "link-down"] :=
  ⟨entry wgLinkCmd [str "wg"] [[str "link-down", str "link-up"]], by decide +kernel, rfl⟩

end Lookups

end QrWireguard.Vtysh
