import QrWireguard.WebAgent.Interchange
import QrWireguard.WebUi.Peers

/-!
# Texts between quotes

Both agents paste a command line between the double quotes of a line for the shell. The shell
takes it as it is just when the public key is on one line and the endpoint, as far as the agents
read it, has no character in it that is special between quotes: all other texts have been checked.
-/

namespace QrWireguard.WebUi

open BePlugin WebAgent

/-- A text between double quotes that the shell takes as it is, on one line. -/
def Inert (text : Str) : Prop := text.all isQuotable = true ∧ '\n' ∉ text

/-- A word in double quotes, from behind the opening quote on, and what stands behind the closing
one. There is none when something in it is expanded or escaped, or when it is not closed. -/
def readQuoted : Str → Option (Str × Str)
  | [] => none
  | c :: rest =>
    if c = '"' then some ([], rest)
    else if isQuotable c then (readQuoted rest).map fun r => (c :: r.1, r.2)
    else none

/-- A line for the shell runs `vtysh` once, on a text. -/
def ShellRuns (line text : Str) : Prop :=
  '\n' ∉ line ∧ ∃ rest, line = str "/usr/bin/qrwg/vtysh -e \"" ++ rest ∧
    readQuoted rest = some (text, [])

/-- The texts that the C++ agent pastes between quotes for a message. -/
def CppPastes (smsg : RequestMessage) (text : Str) : Prop :=
  ∃ msg handled, handleConnectionCPP smsg = some msg ∧ Cpp.doAction (cstr msg) = .ok handled ∧
    Cpp.shellText text ∈ handled.commands

/-- The texts that the Go agent pastes between quotes for a message. -/
def GoPastes (smsg : RequestMessage) (text : Str) : Prop :=
  ∃ host handled, Go.doAction host smsg = .ok handled ∧ handled.script = some (Go.scriptText text)

/-- Whatever the agents paste for a message, the shell sees one run of `vtysh` on that text. -/
def PastesInert (smsg : RequestMessage) : Prop :=
  ∀ text, CppPastes smsg text ∨ GoPastes smsg text → Inert text ∧ ShellRuns (Cpp.shellText text) text

/-- A text up to the first `:=`. -/
def front (s : Str) : Str := (split (str ":=") s).head (split_ne_nil _ _)

/-- What the Go agent reads of a text. -/
def sentValue (s : Str) : Str := if HasValue s then trimSuffix ['\n'] (front s) else s

/-- A text up to its first line break or NUL. -/
def lineText (s : Str) : Str := s.takeWhile fun c => c != '\n' && c != '\x00'

section
variable {s t text : Str} {c : Char}

theorem inert_iff : Inert s ↔ ∀ c ∈ s, isQuotable c = true ∧ c ≠ '\n' := by
  rw [Inert, List.all_eq_true]
  constructor
  · rintro ⟨hquotable, hnewline⟩ c hc
    exact ⟨hquotable c hc, fun heq => hnewline (heq ▸ hc)⟩
  · intro h
    exact ⟨fun c hc => (h c hc).1, fun hmem => (h _ hmem).2 rfl⟩

theorem inert_append : Inert (s ++ t) ↔ Inert s ∧ Inert t := by
  simp only [inert_iff, List.forall_mem_append]

theorem Inert.subset (h : Inert t) (hsub : s ⊆ t) : Inert s :=
  inert_iff.mpr fun c hc => inert_iff.mp h c (hsub hc)

theorem readQuoted_append (h : s.all isQuotable = true) :
    readQuoted (s ++ '"' :: t) = some (s, t) := by
  induction s with
  | nil => rfl
  | cons c s ih =>
    rw [List.all_cons, Bool.and_eq_true] at h
    have hquote : c ≠ '"' := by
      rintro rfl
      exact absurd h.1 (by decide)
    rw [List.cons_append, readQuoted, if_neg hquote, if_pos h.1, ih h.2]
    rfl

/-- The shell runs `vtysh` on an inert text. -/
theorem Inert.runs (h : Inert text) : ShellRuns (Cpp.shellText text) text := by
  refine ⟨?_, text ++ ['"'], List.append_assoc _ _ _, readQuoted_append h.1⟩
  rw [Cpp.shellText, List.mem_append, List.mem_append]
  rintro ((hmem | hmem) | hmem)
  · exact absurd hmem (by decide)
  · exact h.2 hmem
  · exact absurd hmem (by decide)

/-- The script of the Go agent has the line that the C++ agent hands to the shell. -/
theorem scriptText_eq (text : Str) :
    Go.scriptText text = str "#!/bin/sh\n" ++ Cpp.shellText text ++ ['\n'] := by
  simp [Go.scriptText, Cpp.shellText, str]

/-! ## Values -/

theorem front_of_not_hasValue (h : ¬ HasValue s) : front s = s := by
  simp only [front, split_of_not_infix h, List.head_cons]

theorem front_append (h : ¬ HasValue s) (t : Str) : front (s ++ str ":=" ++ t) = s := by
  simp only [front, split_key h, List.head_cons]

theorem front_subset (s : Str) : front s ⊆ s := fun _ hc =>
  mem_of_mem_piece split_colonEq_ne_nil (List.head_mem _) hc

/-- What stands in front of something that does not begin with `=` is cut in the same way. -/
theorem front_isPrefix_append (h : ∀ c ∈ t.head?, c ≠ '=') : front s <+: front (s ++ t) := by
  rcases split_cases split_colonEq_ne_nil s with ⟨hs, -⟩ | ⟨a, rest, rfl, ha, -⟩
  · rw [front_of_not_hasValue hs]
    rcases split_cases split_colonEq_ne_nil (s ++ t) with ⟨hst, -⟩ | ⟨a, rest, hst, ha, -⟩
    · rw [front_of_not_hasValue hst]
      exact List.prefix_append s t
    · rw [hst, front_append ha]
      rw [List.append_assoc] at hst
      rcases List.append_eq_append_iff.mp hst with ⟨b, hb, -⟩ | ⟨b, hb, hrest⟩
      · exact ⟨b, hb.symm⟩
      · -- otherwise the separator begins in `s`, and ends there too
        cases b with
        | nil =>
          rw [List.append_nil] at hb
          rw [hb]
        | cons x b =>
          obtain ⟨hx, htail⟩ := List.cons.inj hrest
          cases b with
          | nil =>
            obtain rfl : '=' :: rest = t := htail
            exact absurd rfl (h '=' rfl)
          | cons y b =>
            obtain ⟨hy, -⟩ := List.cons.inj htail
            exact absurd ⟨a, b, by rw [hb, ← hx, ← hy]; simp [str]⟩ hs
  · rw [List.append_assoc (a ++ str ":="), front_append ha, front_append ha]

theorem mem_trimSuffix (hc : c ∈ s) (hne : c ≠ '\n') : c ∈ trimSuffix ['\n'] s := by
  by_cases h : ['\n'] <:+ s
  · obtain ⟨p, rfl⟩ := h
    rw [trimSuffix_append]
    exact (List.mem_append.mp hc).resolve_right fun hmem => hne (List.mem_singleton.mp hmem)
  · rwa [trimSuffix, if_neg h]

theorem entryText_field {key : Str} (hkey : ¬ HasValue key) (value : Str) :
    Go.entryText (field key value) = sentValue value := by
  unfold sentValue
  split
  · next hvalue =>
    rcases split_cases split_colonEq_ne_nil value with ⟨hno, -⟩ | ⟨a, rest, rfl, ha, -⟩
    · exact absurd hvalue hno
    · have hpieces : split (str ":=") (field key (a ++ str ":=" ++ rest)) =
          key :: a :: split (str ":=") (rest ++ ['\n']) := by
        rw [field, List.append_assoc _ _ ['\n'], split_key hkey, List.append_assoc,
          split_key ha]
      rw [front_append ha, Go.entryText, lineValue, hpieces]
      rfl
  · next hvalue => exact Go.lineValue_field hkey hvalue

theorem mem_of_mem_trimSuffix (h : c ∈ trimSuffix ['\n'] s) : c ∈ s := by
  unfold trimSuffix at h
  split at h
  · exact List.mem_of_mem_take h
  · exact h

theorem sentValue_subset (s : Str) : sentValue s ⊆ s := by
  intro c hc
  unfold sentValue at hc
  split at hc
  · exact front_subset s (mem_of_mem_trimSuffix hc)
  · exact hc

theorem sentValue_of_not_hasValue (h : ¬ HasValue s) : sentValue s = s := if_neg h

/-- The C++ agent reads no more of a text than the Go agent. -/
theorem front_lineText_subset (s : Str) : front (lineText s) ⊆ sentValue s := by
  have hs : s = lineText s ++ s.dropWhile fun c => c != '\n' && c != '\x00' :=
    List.takeWhile_append_dropWhile.symm
  have hhead : ∀ c ∈ (s.dropWhile fun c => c != '\n' && c != '\x00').head?, c ≠ '=' := by
    rintro c hc rfl
    have hstop := List.head?_dropWhile_not (fun c => c != '\n' && c != '\x00') s
    rw [Option.mem_def.mp hc] at hstop
    exact absurd hstop (by decide)
  have hfront : front (lineText s) <+: front s := by
    have hprefix := @front_isPrefix_append (lineText s) _ hhead
    rwa [← hs] at hprefix
  intro c hc
  have hline : c ∈ lineText s := front_subset _ hc
  unfold sentValue
  split
  · apply mem_trimSuffix (hfront.subset hc)
    rintro rfl
    exact absurd (List.mem_takeWhile_imp hline) (by decide)
  · rw [hs]
    exact List.mem_append_left _ hline

/-! ## What is read -/

theorem takeWhile_cstr (s : Str) : (cstr s).takeWhile (· != '\n') = lineText s := by
  rw [cstr, List.takeWhile_takeWhile]
  unfold lineText
  congr 1
  funext c
  rw [Bool.decide_and, Bool.decide_eq_true, Bool.decide_eq_true]

/-- The first line of a field ends at the first line break or NUL in its value. -/
theorem getElem?_readLines_line {key : Str} (hkey : '\n' ∉ key ∧ '\x00' ∉ key) (value : Str)
    (rest : List (Str × Str)) :
    (Cpp.readLines ((key, value) :: rest))[0]? = some (fieldLine key (lineText value)) := by
  have hhead : ∀ c ∈ key ++ str ":=", (c != '\n' && c != '\x00') = true := by
    intro c hc
    rw [Bool.and_eq_true, bne_iff_ne, bne_iff_ne]
    constructor <;> rintro rfl <;> rcases List.mem_append.mp hc with hmem | hmem
    · exact hkey.1 hmem
    · exact absurd hmem (by decide)
    · exact hkey.2 hmem
    · exact absurd hmem (by decide)
  have hbreak : ∀ t : Str, lineText (value ++ '\n' :: t) = lineText value := by
    intro t
    unfold lineText
    rw [List.takeWhile_append]
    split
    · next hlen => rw [List.takeWhile_cons_of_neg (by decide), List.append_nil,
        (List.takeWhile_prefix _).eq_of_length hlen]
    · rfl
  have hline : ∀ t : Str, lineText (fieldLine key value ++ '\n' :: t) =
      fieldLine key (lineText value) := by
    intro t
    rw [fieldLine, List.append_assoc, lineText, List.takeWhile_append_of_pos hhead]
    exact congrArg _ (hbreak t)
  unfold Cpp.readLines
  rw [List.map_cons, unlines_cons, head?_split_char, takeWhile_cstr]
  exact congrArg some (hline _)

/-! ## What is pasted -/

variable {subcmd : Str} {fields : List (Str × Str)}

theorem mem_commands_iff {line : Str} :
    Cpp.shellText text ∈ [Cpp.shellText line, str "/usr/bin/qrwg/vtysh -e \"write\""] ↔
      text = line ∨ text = str "write" := by
  have hwrite : str "/usr/bin/qrwg/vtysh -e \"write\"" = Cpp.shellText (str "write") := by decide
  rw [hwrite, List.mem_pair, shellText_injective.eq_iff, shellText_injective.eq_iff]

/-- The C++ agent pastes a command line and `write`. -/
theorem cppPastes_runScmd {line : Str} (hlen : fields.length ≤ 16) (hsubcmd : Plain subcmd)
    (hnul : '\x00' ∉ subcmd) (haction : Cpp.action subcmd (Cpp.readValues fields) = Cpp.runScmd line)
    (h : CppPastes (helloMessage subcmd fields) text) : text = line ∨ text = str "write" := by
  obtain ⟨msg, handled, hmsg, hdo, hmem⟩ := h
  rw [Cpp.handleConnectionCPP_lines hlen] at hmsg
  obtain rfl := Option.some.inj hmsg
  obtain ⟨-, hrun⟩ := (Cpp.doAction_request hlen hsubcmd hnul).mp hdo
  rw [haction] at hrun
  obtain ⟨-, rfl⟩ := Cpp.runScmd_eq_ok.mp hrun
  exact mem_commands_iff.mp hmem

/-- The C++ agent pastes nothing when it runs no command line. -/
theorem not_cppPastes {ok : Bool} (hlen : fields.length ≤ 16) (hsubcmd : Plain subcmd)
    (hnul : '\x00' ∉ subcmd)
    (haction : Cpp.action subcmd (Cpp.readValues fields) = .ok ⟨ok, []⟩) :
    ¬ CppPastes (helloMessage subcmd fields) text := by
  rintro ⟨msg, handled, hmsg, hdo, hmem⟩
  rw [Cpp.handleConnectionCPP_lines hlen] at hmsg
  obtain rfl := Option.some.inj hmsg
  obtain ⟨-, hrun⟩ := (Cpp.doAction_request hlen hsubcmd hnul).mp hdo
  rw [haction] at hrun
  obtain rfl := Except.ok.inj hrun
  cases hmem

theorem goDoAction_entries (host : Go.Host) (hlen : fields.length ≤ 16) (hsubcmd : Plain subcmd) :
    Go.doAction host (helloMessage subcmd fields) =
      (deed subcmd).go host (keyValues (fields.map fun f => Go.entryText (field f.1 f.2))) := by
  unfold Go.doAction
  rw [Go.decode_entries hlen hsubcmd]
  exact Go.action_eq_deed host subcmd _

theorem plain_subcmd : Plain (str "ADD_WIREGUARD_PEER") ∧ Plain (str "SET_WIREGUARD_INTERFACE") ∧
    Plain (str "SET_WIREGUARD_GLOBAL_CONFIG") :=
  ⟨plain_of_not_mem (by decide) (.inl (by decide)), plain_of_not_mem (by decide) (.inl (by decide)),
    plain_of_not_mem (by decide) (.inl (by decide))⟩

/-- The deed for a peer is its command. -/
theorem go_addWireguardPeer (host : Go.Host) (publicKey nets endpoint : Str) :
    (deed (str "ADD_WIREGUARD_PEER")).go host (keyValues [publicKey, nets, endpoint]) =
      Go.runScmd host (peerScmd publicKey nets endpoint) := by
  have hcmd : Cpp.vtyshCmd (str "ADD_WIREGUARD_PEER") = some .addWireguardPeer := by decide
  have hparts : partsText (keyValues [publicKey, nets, endpoint]) [.words (str "wg peer "), .value 0,
      .words (str " allowed-ips "), .value 1, .words (str " endpoint "), .value 2,
      .words (str " persistent-keepalive 25")] = peerScmd publicKey nets endpoint := by
    simp only [partsText, List.flatMap_cons, List.flatMap_nil, Part.text, peerScmd,
      List.append_assoc, List.append_nil]
    rfl
  rw [deed, hcmd, Option.elim_some, commandDeed, Deed.go, hparts]

/-- The Go agent pastes the command line of the values that it reads. -/
theorem goPastes_peer {publicKey nets endpoint : Str} :
    GoPastes (helloMessage (str "ADD_WIREGUARD_PEER") [(str "PublicKey", publicKey),
        (str "AllowedIPs", nets), (str "Endpoint", endpoint)]) text ↔
      text = peerScmd (sentValue publicKey) (sentValue nets) (sentValue endpoint) := by
  have hdo : ∀ host, Go.doAction host (helloMessage (str "ADD_WIREGUARD_PEER")
      [(str "PublicKey", publicKey), (str "AllowedIPs", nets), (str "Endpoint", endpoint)]) =
      Go.runScmd host (peerScmd (sentValue publicKey) (sentValue nets) (sentValue endpoint)) := by
    intro host
    have hvalues : [(str "PublicKey", publicKey), (str "AllowedIPs", nets),
        (str "Endpoint", endpoint)].map (fun f => Go.entryText (field f.1 f.2)) =
        [sentValue publicKey, sentValue nets, sentValue endpoint] := by
      simp only [List.map_cons, List.map_nil]
      rw [entryText_field (by decide), entryText_field (by decide), entryText_field (by decide)]
    rw [goDoAction_entries host (by simp) plain_subcmd.1, hvalues, go_addWireguardPeer]
  constructor
  · rintro ⟨host, handled, hhandled, hscript⟩
    rw [hdo] at hhandled
    obtain ⟨-, rfl⟩ := Go.runScmd_eq_ok.mp hhandled
    exact (scriptText_injective (Option.some.inj hscript)).symm
  · rintro rfl
    refine ⟨Go.usualHost, ⟨true, some _, true⟩, ?_, rfl⟩
    rw [hdo]
    exact Go.runScmd_eq_ok.mpr ⟨rfl, rfl⟩

theorem inert_peerScmd {publicKey nets endpoint : Str} :
    Inert (peerScmd publicKey nets endpoint) ↔ Inert publicKey ∧ Inert nets ∧ Inert endpoint := by
  have hwords : Inert (str "wg peer ") ∧ Inert (str " allowed-ips ") ∧ Inert (str " endpoint ") ∧
      Inert (str " persistent-keepalive 25") := by
    unfold Inert
    decide
  simp only [peerScmd, inert_append, hwords]
  tauto

variable {client : Client}

theorem CheckedPeer.inert_publicKey (h : CheckedPeer client) :
    Inert client.publicKey ↔ '\n' ∉ client.publicKey := by
  refine ⟨fun hinert => hinert.2, fun hnewline => ⟨isQuotable_of_not_mem fun c hc => ?_, hnewline⟩⟩
  simp only [List.mem_cons, List.not_mem_nil, or_false] at hc
  rcases hc with rfl | rfl | rfl | rfl <;> exact h.not_mem_publicKey (by decide) (by decide)

theorem CheckedPeer.inert_nets (h : CheckedPeer client) :
    Inert (unsplit [','] (pushedIPs client)) := by
  refine ⟨isQuotable_of_not_mem fun c hc => ?_, not_mem_of_isNetsChar h.allNetsChar (by decide)⟩
  simp only [List.mem_cons, List.not_mem_nil, or_false] at hc
  rcases hc with rfl | rfl | rfl | rfl <;> exact not_mem_of_isNetsChar h.allNetsChar (by decide)

/-- What the agents paste for a checked client is inert just when its key is on one line and its
endpoint, as the Go agent reads it, is inert. -/
theorem CheckedPeer.messageInert_iff (h : CheckedPeer client) :
    PastesInert (addWireguardPeer client) ↔
      '\n' ∉ client.publicKey ∧ Inert (sentValue client.endpoint) := by
  have hvalue : ¬ HasValue client.publicKey := fun hoccurs =>
    h.not_mem_publicKey (by decide) (by decide) (hoccurs.subset (List.mem_cons_self))
  have hgo : ∀ {text}, GoPastes (addWireguardPeer client) text ↔
      text = peerScmd client.publicKey (unsplit [','] (pushedIPs client))
        (sentValue client.endpoint) := by
    intro text
    have hnets := h.plain_nets.2
    unfold addWireguardPeer
    rw [goPastes_peer, sentValue_of_not_hasValue hvalue, ← unsplit_pushedIPs,
      sentValue_of_not_hasValue hnets]
  constructor
  · intro hpastes
    obtain ⟨hinert, -⟩ := hpastes _ (.inr (hgo.mpr rfl))
    obtain ⟨hkey, -, hendpoint⟩ := inert_peerScmd.mp hinert
    exact ⟨hkey.2, hendpoint⟩
  · rintro ⟨hkey, hendpoint⟩ text hpasted
    have hinert : Inert text := by
      rcases hpasted with hcpp | hgopasted
      · have haction := @action_peer (peerFields client.publicKey client) rfl
        obtain ⟨-, hfirst, hsecond, hthird⟩ := h.readValues_line hkey
          (getElem?_readLines_line ⟨by decide, by decide⟩ client.endpoint [])
        have hfront : lineValue (fieldLine (str "Endpoint") (lineText client.endpoint)) =
            front (lineText client.endpoint) := by
          unfold lineValue fieldLine front
          rw [split_key (by decide), List.getElem?_cons_succ, ← List.head?_eq_getElem?,
            List.head?_eq_some_head (split_ne_nil _ _), Option.getD_some]
        rw [hfirst, hsecond, hthird, hfront] at haction
        rcases cppPastes_runScmd (by simp [peerFields]) plain_subcmd.1 (by decide) haction hcpp with
          rfl | rfl
        · exact inert_peerScmd.mpr ⟨h.inert_publicKey.mpr hkey, h.inert_nets,
            hendpoint.subset (front_lineText_subset _)⟩
        · unfold Inert
          decide
      · rw [hgo.mp hgopasted]
        exact inert_peerScmd.mpr ⟨h.inert_publicKey.mpr hkey, h.inert_nets, hendpoint⟩
    exact ⟨hinert, hinert.runs⟩

/-! ## Interfaces and settings -/

theorem inert_networkLine {line ip mask : Str} (hline : Inert line)
    (hip : ∀ c ∈ ip, isAddrChar c = true ∨ c = '/') (hmask : ∀ c ∈ mask, isAddrChar c = true) :
    Inert (networkLine line ip mask) := by
  have haddr : ∀ {c : Char}, isAddrChar c = true ∨ c = '/' → isQuotable c = true ∧ c ≠ '\n' := by
    intro c hc
    have hnot : ∀ d ∈ ['"', '$', '\x60', '\\', '\n'], ¬ (isAddrChar d = true ∨ d = '/') := by
      simp only [List.forall_mem_cons, List.not_mem_nil, false_imp_iff, implies_true, and_true]
      decide
    refine ⟨?_, fun heq => hnot '\n' (by simp) (heq ▸ hc)⟩
    simp only [isQuotable, Bool.and_eq_true, bne_iff_ne]
    refine ⟨⟨⟨?_, ?_⟩, ?_⟩, ?_⟩ <;> rintro rfl <;> exact hnot _ (by simp) hc
  have hspace : Inert [' '] := by
    unfold Inert
    decide
  have hsplit : networkLine line ip mask = line ++ ([' '] ++ (ip ++ ([' '] ++ mask))) := by
    simp [networkLine]
  rw [hsplit, inert_append, inert_append, inert_append, inert_append]
  exact ⟨hline, hspace, inert_iff.mpr fun c hc => haddr (hip c hc), hspace,
    inert_iff.mpr fun c hc => haddr (.inl (hmask c hc))⟩

/-- The agents paste an address of an interface only when they have read it as one. -/
theorem pastesInert_interface (address : Str) (listenPort : Int) :
    PastesInert (helloMessage (str "SET_WIREGUARD_INTERFACE")
      [(str "Addresses", address), (str "ListenPort", itoa listenPort)]) := by
  have hcmd : Cpp.vtyshCmd (str "SET_WIREGUARD_INTERFACE") = some .setWireguardInterface := by decide
  have hwords : Inert (str "ip address wg0") ∧ Inert (str "write") := by
    unfold Inert
    decide
  intro text hpasted
  have hinert : Inert text := by
    rcases hpasted with hcpp | hgo
    · cases hnetwork : Cpp.getIPNetmask ((Cpp.readValues [(str "Addresses", address),
        (str "ListenPort", itoa listenPort)]).get 0) with
      | none =>
        refine absurd hcpp (@not_cppPastes _ _ _ false (by simp) plain_subcmd.2.1 (by decide) ?_)
        rw [Cpp.action_eq_deed, deed, hcmd, Option.elim_some, commandDeed, Deed.cpp, hnetwork]
      | some network =>
        obtain ⟨ip, mask⟩ := network
        obtain ⟨addr, length, bits, -, -, hip, hmask⟩ := Cpp.getIPNetmask_eq_some.mp hnetwork
        have haction : Cpp.action (str "SET_WIREGUARD_INTERFACE") (Cpp.readValues
            [(str "Addresses", address), (str "ListenPort", itoa listenPort)]) =
            Cpp.runScmd (networkLine (str "ip address wg0") ip mask) := by
          rw [Cpp.action_eq_deed, deed, hcmd, Option.elim_some, commandDeed, Deed.cpp, hnetwork]
          rfl
        rcases cppPastes_runScmd (by simp) plain_subcmd.2.1 (by decide) haction hcpp with rfl | rfl
        · refine inert_networkLine hwords.1 (fun c hc => .inl ?_) fun c hc => ?_
          · rw [hip] at hc
            exact isAddrChar_inetNtoa _ c hc
          · rw [hmask] at hc
            exact isAddrChar_inetNtoa _ c hc
        · exact hwords.2
    · obtain ⟨host, handled, hhandled, hscript⟩ := hgo
      rw [goDoAction_entries host (by simp) plain_subcmd.2.1, deed, hcmd, Option.elim_some,
        commandDeed, Deed.go, bind_eq_ok] at hhandled
      obtain ⟨texts, htexts, hrun⟩ := hhandled
      obtain ⟨-, rfl⟩ := Go.runScmd_eq_ok.mp hrun
      rw [scriptText_injective (Option.some.inj hscript).symm]
      obtain ⟨hip, hmask⟩ := isAddrChar_of_networkTexts htexts
      exact inert_networkLine hwords.1 hip hmask
  exact ⟨hinert, hinert.runs⟩

/-- Nothing is pasted for the settings. -/
theorem pastesInert_settings (endpointAddress : Str) (mtu persistentKeepalive : Int) :
    PastesInert (helloMessage (str "SET_WIREGUARD_GLOBAL_CONFIG")
      [(str "EndpointAddress", endpointAddress), (str "MTU", itoa mtu),
        (str "PersistentKeepalive", itoa persistentKeepalive)]) := by
  have hcmd : Cpp.vtyshCmd (str "SET_WIREGUARD_GLOBAL_CONFIG") = some .setWireguardGlobalConfig := by
    decide
  rintro text (hcpp | ⟨host, handled, hhandled, hscript⟩)
  · refine absurd hcpp (@not_cppPastes _ _ _ true (by simp) plain_subcmd.2.2 (by decide) ?_)
    rw [Cpp.action_eq_deed, deed, hcmd, Option.elim_some, commandDeed, Deed.cpp]
  · rw [goDoAction_entries host (by simp) plain_subcmd.2.2, deed, hcmd, Option.elim_some,
      commandDeed, Deed.go] at hhandled
    obtain rfl := Except.ok.inj hhandled
    cases hscript

end

/-! ## Requests -/

/-- The condition on a request: the public key of a client is on one line, and its endpoint, as the
Go agent reads it, is inert. -/
def RecordRequest.TextsInert : RecordRequest → Prop
  | newClient _ body | updateClient _ body =>
    '\n' ∉ body.publicKey ∧ Inert (sentValue body.endpoint)
  | wireGuardServerInterfaces _ _ | globalSettingSubmit _ _ => True

section
variable {derive : Key → Key} {db : Db} {env : Env} {body : Client} {smsg : RequestMessage}

/-- The message of a new client is that of the record that is saved. -/
theorem savedBy_newClient (h : ((newClient derive env body).run db).1.message = some smsg) :
    ∃ client, SavedBy derive db (.newClient env body) client ∧ smsg = addWireguardPeer client ∧
      ('\n' ∉ client.publicKey ↔ '\n' ∉ body.publicKey) ∧ client.endpoint = body.endpoint := by
  rcases (newClient_commits derive env body).run db with ⟨hgive, -⟩ | ⟨f, hf, hrun⟩
  · rw [hgive.2] at h
    cases h
  · obtain ⟨privateKey, publicKey, presharedKey, hbody, hpair, hpreshared, rfl⟩ := hf
    rw [hrun] at h
    obtain rfl := Option.some.inj (message_savingClient h)
    refine ⟨_, .newClient hbody hpair hpreshared, rfl, ?_, rfl⟩
    cases hpair with
    | generated key hempty =>
      rw [hempty]
      exact iff_of_true (plain_toText _).1 List.not_mem_nil
    | given => exact Iff.rfl

/-- The message of an update is that of the record that is saved. -/
theorem savedBy_updateClient (h : ((updateClient env body).run db).1.message = some smsg) :
    ∃ client, SavedBy derive db (.updateClient env body) client ∧ smsg = addWireguardPeer client ∧
      client.publicKey = body.publicKey ∧ client.endpoint = body.endpoint := by
  unfold updateClient at h
  split at h
  · cases h
  · rw [Prog.run_bind, getClientByID, Prog.run_read] at h
    dsimp only at h
    split at h
    · cases h
    · next client hread =>
      rcases (updateStoredClient_commits env body client).run db with ⟨hgive, -⟩ | ⟨f, hf, hrun⟩
      · rw [hgive.2] at h
        cases h
      · obtain ⟨hbody, hkeys, rfl⟩ := hf
        rw [hrun] at h
        obtain rfl := Option.some.inj (message_savingClient h)
        exact ⟨_, .updateClient hread hbody hkeys, rfl, rfl, rfl⟩

end

theorem textsInert_newClientAt {endpoint : Str} (h : '=' ∉ endpoint) :
    (newClientAt endpoint).TextsInert ↔ '\n' ∉ endpoint ∧ endpoint.all isQuotable = true := by
  have hvalue : ¬ HasValue endpoint := fun hoccurs =>
    h (hoccurs.subset (List.mem_cons_of_mem _ List.mem_cons_self))
  have htexts : (newClientAt endpoint).TextsInert ↔ Inert (sentValue endpoint) :=
    and_iff_right List.not_mem_nil
  rw [htexts, sentValue_of_not_hasValue hvalue, Inert, and_comm]

end QrWireguard.WebUi
