import QrWireguard.WebUi.KeyPairs
import QrWireguard.WebUi.PeerTexts

/-!
# Peers

The two texts for a client are made of different fields. They describe one peer just when the
record keeps these fields in step.
-/

namespace QrWireguard.WebUi

open BePlugin WebAgent

/-- What the agent reads of a text on one line: what stands in front of a NUL and of `:=`. -/
def cutValue (s : Str) : Str := (split (str ":=") (cstr s)).head (split_ne_nil _ _)

section
variable {s e : Str}

theorem cutValue_of_plain (hnul : '\x00' ∉ s) (hvalue : ¬ HasValue s) : cutValue s = s := by
  have hpieces : split (str ":=") (cstr s) = [s] := by
    rw [cstr_of_not_mem hnul, split_of_not_infix hvalue]
  simp only [cutValue, hpieces, List.head_cons]

/-- The rest of the text begins with the character that ends the value. -/
theorem exists_cutValue (s : Str) : '\x00' ∉ cutValue s ∧ ¬ HasValue (cutValue s) ∧
    ∃ rest, s = cutValue s ++ rest ∧ ∀ c ∈ rest.head?, c = '\x00' ∨ c = ':' := by
  have hcstr : '\x00' ∉ cstr s := by
    intro hmem
    simpa using List.mem_takeWhile_imp hmem
  have hback : ∀ c ∈ (s.dropWhile (· != '\x00')).head?, c = '\x00' := by
    intro c hc
    have hstop := List.head?_dropWhile_not (· != '\x00') s
    rw [Option.mem_def.mp hc] at hstop
    simpa using hstop
  have hs : s = cstr s ++ s.dropWhile (· != '\x00') :=
    (List.takeWhile_append_dropWhile (p := (· != '\x00'))).symm
  rcases split_cases split_colonEq_ne_nil (cstr s) with ⟨hno, hone⟩ | ⟨a, rest, ha, hno, hsplit⟩
  · have hcut : cutValue s = cstr s := by simp only [cutValue, hone, List.head_cons]
    rw [hcut]
    exact ⟨hcstr, hno, _, hs, fun c hc => .inl (hback c hc)⟩
  · have hcut : cutValue s = a := by simp only [cutValue, hsplit, List.head_cons]
    rw [hcut]
    refine ⟨?_, hno, str ":=" ++ rest ++ s.dropWhile (· != '\x00'), ?_, ?_⟩
    · intro hmem
      apply hcstr
      rw [ha, List.append_assoc]
      exact List.mem_append_left _ hmem
    · rw [← List.append_assoc, ← List.append_assoc, ← ha, ← hs]
    · intro c hc
      exact .inr (Option.some.inj hc).symm

/-- An endpoint that both texts show as it is. -/
structure IsEndpoint (endpoint : Str) : Prop where
  newline : '\n' ∉ endpoint
  nul : '\x00' ∉ endpoint
  comment : '#' ∉ endpoint
  value : ¬ HasValue endpoint
  quotable : endpoint.all isQuotable = true
  word : ∃ e, words isspace endpoint = [e]

/-- Both sides cut an endpoint, the agent in front of a NUL and of `:=`, the section in front of
a comment. They leave the same word just when there is nothing to cut. -/
theorem cutValue_entryValue : words isspace (cutValue s) = [e] ∧ entryValue s = e ↔
    '\x00' ∉ s ∧ '#' ∉ s ∧ ¬ HasValue s ∧ words isspace s = [e] := by
  constructor
  · rintro ⟨hwords, hentry⟩
    obtain ⟨hnul, hvalue, rest, hs, hhead⟩ := exists_cutValue s
    have hword : IsWord isspace e := (isWord_of_mem_words (hwords ▸ List.mem_singleton_self e)).1
    have htrim : trim isspace (cutValue s) = e := (trim_eq_iff hword).mpr hwords
    have hcomment : '#' ∉ cutValue s := by
      have hspace : isspace '#' = false := by decide
      intro hmem
      rw [← mem_trim_iff hspace, htrim, ← hentry] at hmem
      simpa using List.mem_takeWhile_imp (mem_of_mem_trim hmem)
    -- what is not a space in front of the comment stands in the value already
    have hrest : (rest.takeWhile (· != '#')).filter (fun c => !isspace c) = [] := by
      have hfilter : ∀ t : Str, (trim isspace t).filter (fun c => !isspace c) =
          t.filter fun c => !isspace c := filter_trim (by simp)
      have hline : s.takeWhile (· != '#') = cutValue s ++ rest.takeWhile (· != '#') := by
        conv_lhs => rw [hs]
        exact List.takeWhile_append_of_pos (bne_of_not_mem hcomment)
      have hsame := hfilter (s.takeWhile (· != '#'))
      rw [← entryValue, hentry, ← htrim, hfilter, hline, List.filter_append] at hsame
      simpa using hsame
    have hnil : rest = [] := by
      cases rest with
      | nil => rfl
      | cons c rest =>
        rcases hhead c rfl with rfl | rfl
        · simp [isspace] at hrest
        · simp [isspace] at hrest
    rw [hnil, List.append_nil] at hs
    rw [hs]
    exact ⟨hnul, hcomment, hvalue, hwords⟩
  · rintro ⟨hnul, hcomment, hvalue, hwords⟩
    have hword : IsWord isspace e := (isWord_of_mem_words (hwords ▸ List.mem_singleton_self e)).1
    rw [cutValue_of_plain hnul hvalue, entryValue_of_not_mem hcomment]
    exact ⟨hwords, (trim_eq_iff hword).mpr hwords⟩

end

/-! ## Networks -/

/-- A character of a list of CIDR texts. -/
def isNetsChar (c : Char) : Bool := isAddrChar c || c == '/' || c == ','

/-- The networks that the message names. -/
def pushedIPs (client : Client) : List Str :=
  if client.allowedIPs = [] then [str "0.0.0.0/0"] else client.allowedIPs

/-- The networks that the section names. -/
def renderedIPs (client : Client) : List Str := client.allocatedIPs ++ client.extraAllowedIPs

section
variable {cidrs : List Str} {nets : List IPNet}

theorem isNetsChar_of_mem (h : ∀ cidr ∈ cidrs, cidr = [] ∨ validateCIDR cidr = true) :
    ∀ c ∈ unsplit [','] cidrs, isNetsChar c = true := by
  intro c hc
  rcases mem_unsplit hc with hcomma | ⟨cidr, hcidr, hmem⟩
  · rw [List.mem_singleton.mp hcomma]
    rfl
  · rcases h cidr hcidr with rfl | hvalid
    · cases hmem
    · obtain ⟨r, hr⟩ := Option.isSome_iff_exists.mp hvalid
      rcases isAddrChar_of_parseCIDR hr c hmem with haddr | rfl
      · rw [isNetsChar, haddr]
        rfl
      · rfl

theorem not_mem_of_isNetsChar {s : Str} {c : Char} (h : ∀ d ∈ s, isNetsChar d = true)
    (hc : isNetsChar c = false) : c ∉ s := by
  intro hmem
  rw [h c hmem] at hc
  cases hc

theorem isspace_of_isNetsChar {c : Char} (h : isNetsChar c = true) : isspace c = false := by
  rw [Bool.eq_false_iff]
  intro hs
  simp only [isspace, Bool.or_eq_true, beq_iff_eq, or_assoc] at hs
  rcases hs with rfl | rfl | rfl | rfl | rfl | rfl <;> revert h <;> decide

theorem comma_not_mem_of_validateCIDR {cidr : Str} (h : validateCIDR cidr = true) : ',' ∉ cidr := by
  obtain ⟨r, hr⟩ := Option.isSome_iff_exists.mp h
  intro hmem
  rcases isAddrChar_of_parseCIDR hr _ hmem with haddr | hslash
  · revert haddr
    decide
  · revert hslash
    decide

theorem nil_not_mem_of_validateCIDR (h : ∀ cidr ∈ cidrs, validateCIDR cidr = true) :
    [] ∉ cidrs := by
  intro hmem
  have hempty := h [] hmem
  revert hempty
  decide

/-- A list of texts is read when all of them are CIDR texts. -/
theorem readNets_eq_some (hne : cidrs ≠ [])
    (h : ∀ cidr ∈ cidrs, cidr = [] ∨ validateCIDR cidr = true) :
    readNets (unsplit [','] cidrs) = some nets ↔ [] ∉ cidrs ∧ cidrs.filterMap readNet = nets := by
  have hcomma : ∀ cidr ∈ cidrs, ',' ∉ cidr := by
    intro cidr hcidr
    rcases h cidr hcidr with rfl | hvalid
    · exact List.not_mem_nil
    · exact comma_not_mem_of_validateCIDR hvalid
  rw [readNets, split_unsplit_of_not_mem hne hcomma, mapM_eq_some_iff]
  have hall : (∀ cidr ∈ cidrs, (readNet cidr).isSome = true) ↔ [] ∉ cidrs := by
    constructor
    · intro hread hnil
      have hempty := hread [] hnil
      revert hempty
      decide
    · intro hnil cidr hcidr
      rw [readNet, Option.isSome_map]
      rcases h cidr hcidr with rfl | hvalid
      · exact absurd hcidr hnil
      · exact hvalid
  rw [hall]

/-- The template writes an empty text in front of the extra networks when there are no others. -/
theorem wgConfAllowedIPs_eq (client : Client) : wgConfAllowedIPs client =
    unsplit [','] ((if client.allocatedIPs = [] then [[]] else client.allocatedIPs) ++
      client.extraAllowedIPs) := by
  unfold wgConfAllowedIPs
  cases client.allocatedIPs with
  | nil => rfl
  | cons cidr cidrs =>
    rw [if_neg (List.cons_ne_nil _ _), List.cons_append, unsplit, unsplit, List.flatMap_append,
      List.append_assoc]
    rfl

theorem pushedIPs_ne_nil (client : Client) : pushedIPs client ≠ [] := by
  unfold pushedIPs
  split
  · exact List.cons_ne_nil _ _
  · assumption

theorem unsplit_pushedIPs (client : Client) : unsplit [','] (pushedIPs client) =
    if client.allowedIPs = [] then str "0.0.0.0/0" else unsplit [','] client.allowedIPs := by
  unfold pushedIPs
  split
  · rfl
  · rfl

end

/-! ## Checked records -/

/-- What all records that are saved have in common. -/
structure CheckedPeer (client : Client) : Prop where
  publicKey : client.publicKey = [] ∨ (parseKey client.publicKey).isSome = true
  allocatedIPs : ∀ cidr ∈ client.allocatedIPs, validateCIDR cidr = true
  allowedIPs : validateAllowedIPs client.allowedIPs = true
  extraAllowedIPs : validateExtraAllowedIPs client.extraAllowedIPs = true

theorem SavedBy.checkedPeer {derive : Key → Key} {db : Db} {r : ClientRequest} {client : Client}
    (h : SavedBy derive db r client)
    (hclients : ∀ client ∈ db.clients.readAll, CheckedPeer client) : CheckedPeer client := by
  cases h with
  | newClient hbody hpair hpreshared =>
    refine ⟨?_, hbody.allocatedIPs, hbody.allowedIPs, hbody.extraAllowedIPs⟩
    cases hpair with
    | generated key =>
      refine .inr ?_
      change (parseKey (derive key).toText).isSome = true
      rw [parseKey_toText]
      rfl
    | given hne hkey => exact .inr hkey
  | updateClient hread hbody hkeys =>
    have hold := hclients _ (Dir.mem_readAll.mpr ⟨_, hread⟩)
    refine ⟨?_, hbody.allocatedIPs, hbody.allowedIPs, hbody.extraAllowedIPs⟩
    change _ = [] ∨ _
    rcases hkeys.publicKey with hsame | hnew
    · have hkey := hold.publicKey
      rwa [hsame] at hkey
    · exact hnew
  | setClientStatus hread =>
    have hold := hclients _ (Dir.mem_readAll.mpr ⟨_, hread⟩)
    exact ⟨hold.publicKey, hold.allocatedIPs, hold.allowedIPs, hold.extraAllowedIPs⟩

theorem clients_checkedPeer {derive : Key → Key} {db : Db}
    (h : Reach (fun db => db.clients = .empty) (ClientStep derive) (fun _ _ => True) db) :
    ∀ client ∈ db.clients.readAll, CheckedPeer client := by
  refine h.invariant (I := fun db => ∀ client ∈ db.clients.readAll, CheckedPeer client) ?_ ?_
  · intro db hempty client hmem
    rw [hempty] at hmem
    cases hmem
  · intro db r db' hclients _ hstep
    apply hstep.effect.forall_clients hclients
    intro client hsaved
    exact hsaved.checkedPeer hclients

section
variable {client : Client}

theorem CheckedPeer.pushed (h : CheckedPeer client) :
    ∀ cidr ∈ pushedIPs client, validateCIDR cidr = true := by
  unfold pushedIPs
  split
  · intro cidr hcidr
    rw [List.mem_singleton.mp hcidr]
    decide +kernel
  · exact List.all_eq_true.mp h.allowedIPs

theorem CheckedPeer.rendered (h : CheckedPeer client) :
    ∀ cidr ∈ (if client.allocatedIPs = [] then [[]] else client.allocatedIPs) ++
      client.extraAllowedIPs, cidr = [] ∨ validateCIDR cidr = true := by
  intro cidr hcidr
  rcases List.mem_append.mp hcidr with hallocated | hextra
  · split at hallocated
    · exact .inl (List.mem_singleton.mp hallocated)
    · exact .inr (h.allocatedIPs cidr hallocated)
  · simpa using List.all_eq_true.mp h.extraAllowedIPs cidr hextra

theorem CheckedPeer.not_mem_publicKey (h : CheckedPeer client) {c : Char}
    (hbase : isBase64Char c = false) (hbreak : isLineBreak c = false) : c ∉ client.publicKey := by
  intro hmem
  rcases h.publicKey with hnil | hkey
  · rw [hnil] at hmem
    cases hmem
  · obtain ⟨key, hkey⟩ := Option.isSome_iff_exists.mp hkey
    rcases isBase64Char_of_parseKey hkey c hmem with hchar | hchar
    · rw [hchar] at hbase
      cases hbase
    · rw [hchar] at hbreak
      cases hbreak

theorem CheckedPeer.allNetsChar (h : CheckedPeer client) :
    ∀ c ∈ unsplit [','] (pushedIPs client), isNetsChar c = true :=
  isNetsChar_of_mem fun cidr hcidr => .inr (h.pushed cidr hcidr)

theorem CheckedPeer.isWord (h : CheckedPeer client) :
    IsWord isspace (unsplit [','] (pushedIPs client)) := by
  constructor
  · obtain ⟨cidr, cidrs, hcidrs⟩ := List.exists_cons_of_ne_nil (pushedIPs_ne_nil client)
    have hvalid := h.pushed cidr (by rw [hcidrs]; exact List.mem_cons_self)
    rw [hcidrs, unsplit]
    intro hnil
    rw [(List.append_eq_nil_iff.mp hnil).1] at hvalid
    revert hvalid
    decide
  · intro c hc
    exact isspace_of_isNetsChar (h.allNetsChar c hc)

end

/-! ## One peer -/

/-- The command and the section for a client can both be read, and describe one peer. -/
def SamePeer (settings : GlobalSetting) (client : Client) : Prop :=
  ∃ p q, pushedPeer (addWireguardPeer client) = some p ∧ renderedPeer settings client = some q ∧
    p.Same q

/-- The fields of a client and of the settings are in step. -/
structure PeerAgrees (settings : GlobalSetting) (client : Client) : Prop where
  publicKey : '\n' ∉ client.publicKey ∧ ∃ key, words isspace client.publicKey = [key]
  presharedKey : '\n' ∉ client.presharedKey
  endpoint : IsEndpoint client.endpoint
  keepalive : settings.persistentKeepalive = 25
  allocatedIPs : client.allocatedIPs ≠ []
  extraAllowedIPs : [] ∉ client.extraAllowedIPs
  networks : ∀ net, net ∈ (pushedIPs client).filterMap readNet ↔
    net ∈ (renderedIPs client).filterMap readNet
  short : client.publicKey.length + (unsplit [','] (pushedIPs client)).length +
    client.endpoint.length ≤ 175

section
variable {settings : GlobalSetting} {client : Client} {p : Peer}

theorem lineValue_cstr {key value : Str} (hkey : ¬ HasValue key) :
    lineValue (fieldLine key (cstr value)) = cutValue value := by
  unfold lineValue fieldLine cutValue
  rw [split_key hkey, List.getElem?_cons_succ, ← List.head?_eq_getElem?,
    List.head?_eq_some_head (split_ne_nil _ _), Option.getD_some]

theorem CheckedPeer.plain_publicKey (h : CheckedPeer client) (hkey : '\n' ∉ client.publicKey) :
    Plain client.publicKey :=
  plain_of_not_mem hkey (.inl (h.not_mem_publicKey (by decide) (by decide)))

theorem CheckedPeer.plain_nets (h : CheckedPeer client) :
    Plain (unsplit [','] (pushedIPs client)) :=
  plain_of_not_mem (not_mem_of_isNetsChar h.allNetsChar (by decide))
    (.inr (not_mem_of_isNetsChar h.allNetsChar (by decide)))

/-- The lines of the key and of the networks are whole. -/
theorem CheckedPeer.readLines (h : CheckedPeer client) (hkey : '\n' ∉ client.publicKey) :
    Cpp.readLines (peerFields client.publicKey client) =
      fieldLine (str "PublicKey") client.publicKey ::
        fieldLine (str "AllowedIPs") (unsplit [','] (pushedIPs client)) ::
          Cpp.readLines [(str "Endpoint", client.endpoint)] := by
  have hnames : ∀ key ∈ [str "PublicKey", str "AllowedIPs"],
      Plain key ∧ '\x00' ∉ key := by
    decide
  have hlines := @Cpp.readLines_append [(str "PublicKey", client.publicKey),
    (str "AllowedIPs", unsplit [','] (pushedIPs client))]
    (fun f hf => hnames _ (List.mem_map_of_mem hf)) (fun f hf => by
      rcases List.mem_pair.mp hf with rfl | rfl
      · exact ⟨h.plain_publicKey hkey, h.not_mem_publicKey (by decide) (by decide)⟩
      · exact ⟨h.plain_nets, not_mem_of_isNetsChar h.allNetsChar (by decide)⟩)
    [(str "Endpoint", client.endpoint)]
  rw [unsplit_pushedIPs] at hlines ⊢
  exact hlines

/-- The agent reads the key and the networks as they are, and of the endpoint what stands on its
line. -/
theorem CheckedPeer.readValues_line (h : CheckedPeer client) (hkey : '\n' ∉ client.publicKey)
    {text : Str} (hline : (Cpp.readLines [(str "Endpoint", client.endpoint)])[0]? =
      some (fieldLine (str "Endpoint") text)) :
    Cpp.ReadsAll (peerFields client.publicKey client) ∧
      Cpp.readValue (peerFields client.publicKey client) 0 = client.publicKey ∧
      Cpp.readValue (peerFields client.publicKey client) 1 = unsplit [','] (pushedIPs client) ∧
      Cpp.readValue (peerFields client.publicKey client) 2 =
        lineValue (fieldLine (str "Endpoint") text) := by
  have hlines := h.readLines hkey
  have hfirst : (Cpp.readLines (peerFields client.publicKey client))[0]? =
      some (fieldLine (str "PublicKey") client.publicKey) := congrArg (·[0]?) hlines
  have hsecond : (Cpp.readLines (peerFields client.publicKey client))[1]? =
      some (fieldLine (str "AllowedIPs") _) := congrArg (·[1]?) hlines
  have hthird : (Cpp.readLines (peerFields client.publicKey client))[2]? =
      some (fieldLine (str "Endpoint") text) := by
    rw [← hline]
    exact congrArg (·[2]?) hlines
  refine ⟨?_, ?_, ?_, ?_⟩
  · intro i hi
    rcases i with - | - | - | i
    · exact ⟨_, hfirst, hasValue_fieldLine _ _⟩
    · exact ⟨_, hsecond, hasValue_fieldLine _ _⟩
    · exact ⟨_, hthird, hasValue_fieldLine _ _⟩
    · exact absurd hi (by simp [peerFields])
  · rw [Cpp.readValue, hfirst, Option.getD_some,
      lineValue_fieldLine (by decide) (h.plain_publicKey hkey).2]
  · rw [Cpp.readValue, hsecond, Option.getD_some, lineValue_fieldLine (by decide) h.plain_nets.2]
  · rw [Cpp.readValue, hthird, Option.getD_some]

/-- The agent cuts an endpoint on one line. -/
theorem CheckedPeer.readValues (h : CheckedPeer client) (hkey : '\n' ∉ client.publicKey)
    (hendpoint : '\n' ∉ client.endpoint) :
    Cpp.ReadsAll (peerFields client.publicKey client) ∧
      Cpp.readValue (peerFields client.publicKey client) 0 = client.publicKey ∧
      Cpp.readValue (peerFields client.publicKey client) 1 = unsplit [','] (pushedIPs client) ∧
      Cpp.readValue (peerFields client.publicKey client) 2 = cutValue client.endpoint := by
  rw [← @lineValue_cstr (str "Endpoint") client.endpoint (by decide)]
  exact h.readValues_line hkey (Cpp.getElem?_readLines_cons ⟨by decide, by decide⟩ hendpoint [])

theorem isQuotable_of_not_mem {s : Str} (h : ∀ c ∈ ['"', '$', '\x60', '\\'], c ∉ s) :
    s.all isQuotable = true := by
  rw [List.all_eq_true]
  intro c hc
  simp only [isQuotable, Bool.and_eq_true, bne_iff_ne]
  refine ⟨⟨⟨?_, ?_⟩, ?_⟩, ?_⟩ <;> rintro rfl <;> exact h _ (by simp) hc

theorem CheckedPeer.quotable (h : CheckedPeer client) (endpoint : Str) :
    (peerScmd client.publicKey (unsplit [','] (pushedIPs client)) endpoint).all isQuotable =
      endpoint.all isQuotable := by
  have hspecial : ∀ c ∈ ['"', '$', '\x60', '\\'],
      isBase64Char c = false ∧ isLineBreak c = false ∧ isNetsChar c = false := by
    intro c hc
    simp only [List.mem_cons, List.not_mem_nil, or_false] at hc
    rcases hc with rfl | rfl | rfl | rfl <;> decide
  have hkey : client.publicKey.all isQuotable = true := by
    apply isQuotable_of_not_mem
    intro c hc
    exact h.not_mem_publicKey (hspecial c hc).1 (hspecial c hc).2.1
  have hnets : (unsplit [','] (pushedIPs client)).all isQuotable = true := by
    apply isQuotable_of_not_mem
    intro c hc
    exact not_mem_of_isNetsChar h.allNetsChar (hspecial c hc).2.2
  have hnames : (str "wg peer ").all isQuotable = true ∧
      (str " allowed-ips ").all isQuotable = true ∧ (str " endpoint ").all isQuotable = true ∧
        (str " persistent-keepalive 25").all isQuotable = true := by
    decide
  simp only [peerScmd, List.all_append, hkey, hnets, hnames, Bool.true_and, Bool.and_true]

/-- What the agent reads for a checked client. -/
theorem CheckedPeer.commandReads (h : CheckedPeer client) (hkey : '\n' ∉ client.publicKey)
    (hendpoint : '\n' ∉ client.endpoint) :
    CommandReads (peerFields client.publicKey client) p ↔
      client.publicKey.length + (unsplit [','] (pushedIPs client)).length +
          (cutValue client.endpoint).length ≤ 175 ∧
        (cutValue client.endpoint).all isQuotable = true ∧
        words isspace client.publicKey = [p.publicKey] ∧
        (pushedIPs client).filterMap readNet = p.allowedIPs ∧
        (∃ e, words isspace (cutValue client.endpoint) = [e] ∧ p.endpoint = some e) ∧
        p.persistentKeepalive = some 25 := by
  obtain ⟨hreads, hfirst, hsecond, hthird⟩ := h.readValues hkey hendpoint
  have hname : unsplit [','] (pushedIPs client) ≠ str "allowed-ips" := by
    intro heq
    have hminus : '-' ∉ unsplit [','] (pushedIPs client) :=
      not_mem_of_isNetsChar h.allNetsChar (by decide)
    rw [heq] at hminus
    revert hminus
    decide
  have hkeys : str "allowed-ips" ∉ words isspace client.publicKey := by
    intro hmem
    exact h.not_mem_publicKey (by decide) (by decide) ((isWord_of_mem_words hmem).2 '-' (by decide))
  have hvalid : ∀ cidr ∈ pushedIPs client, cidr = [] ∨ validateCIDR cidr = true := fun cidr hcidr =>
    .inr (h.pushed cidr hcidr)
  have hnil : [] ∉ pushedIPs client := nil_not_mem_of_validateCIDR h.pushed
  have hcommand := @commandPeer_peerScmd p client.publicKey (unsplit [','] (pushedIPs client))
    (cutValue client.endpoint) hkeys h.isWord hname
  rw [readNets_eq_some (pushedIPs_ne_nil client) hvalid] at hcommand
  constructor
  · intro hc
    have hshort := hc.short
    have hquotable := hc.quotable
    have hpeer := hc.command
    rw [hfirst, hsecond, hthird] at hshort hquotable hpeer
    rw [h.quotable] at hquotable
    obtain ⟨hone, hnets, hrest⟩ := hcommand.mp hpeer
    exact ⟨hshort, hquotable, hone, hnets.2, hrest⟩
  · rintro ⟨hshort, hquotable, hone, hnets, hrest⟩
    refine ⟨hreads, ?_, ?_, ?_⟩
    · rwa [hfirst, hsecond, hthird]
    · rwa [hfirst, hsecond, hthird, h.quotable]
    · rw [hfirst, hsecond, hthird]
      exact hcommand.mpr ⟨hone, ⟨hnil, hnets⟩, hrest⟩

/-- The interval of the section is that of the command when it is 25. -/
theorem keepalive_eq_some (keepalive : Int) :
    (if keepalive != 0 then some (entryValue (itoa keepalive)) else none).mapM readNumber =
      some (some 25) ↔ keepalive = 25 := by
  have hentry : entryValue (itoa keepalive) = itoa keepalive := by
    rw [entryValue_of_not_mem (not_mem_itoa_of (by decide) (by decide) _)]
    apply trim_of_forall
    intro c hc
    rcases isdigit_of_mem_itoa hc with hdigit | rfl
    · exact isspace_of_isdigit hdigit
    · rfl
  have hread : readNumber (itoa keepalive) =
      if keepalive < 0 then none else some keepalive.natAbs := by
    unfold itoa readNumber
    split
    · apply if_neg
      rintro ⟨-, hdigits⟩
      have hminus := List.all_eq_true.mp hdigits '-' List.mem_cons_self
      revert hminus
      decide
    · rw [if_pos ⟨natDigits_ne_nil _, List.all_eq_true.mpr fun c => isdigit_of_mem_natDigits⟩,
        decimal_natDigits]
  by_cases hzero : keepalive = 0
  · subst hzero
    decide
  · rw [if_pos (bne_iff_ne.mpr hzero), hentry, Option.mapM_some, hread]
    split
    · apply iff_of_false
      · exact fun h => by cases h
      · omega
    · change some (some keepalive.natAbs) = some (some 25) ↔ _
      rw [Option.some.injEq, Option.some.injEq]
      omega

/-- The networks of a section are read when there is an address and no extra entry is empty. -/
theorem CheckedPeer.readNets_rendered (h : CheckedPeer client) {nets : List IPNet} :
    readNets (wgConfAllowedIPs client) = some nets ↔
      (client.allocatedIPs ≠ [] ∧ [] ∉ client.extraAllowedIPs) ∧
        (renderedIPs client).filterMap readNet = nets := by
  have hne : (if client.allocatedIPs = [] then [[]] else client.allocatedIPs) ++
      client.extraAllowedIPs ≠ [] := by
    intro hnil
    have hfirst := (List.append_eq_nil_iff.mp hnil).1
    split at hfirst
    · cases hfirst
    · contradiction
  rw [wgConfAllowedIPs_eq, readNets_eq_some hne h.rendered]
  by_cases hnone : client.allocatedIPs = []
  · rw [if_pos hnone]
    apply iff_of_false
    · exact fun hread => hread.1 (List.mem_append_left _ (List.mem_singleton_self _))
    · exact fun hread => hread.1.1 hnone
  · have hnil : [] ∉ client.allocatedIPs := nil_not_mem_of_validateCIDR h.allocatedIPs
    rw [if_neg hnone, List.mem_append, or_iff_right hnil]
    constructor
    · rintro ⟨hextra, hread⟩
      exact ⟨⟨hnone, hextra⟩, hread⟩
    · rintro ⟨⟨-, hextra⟩, hread⟩
      exact ⟨hextra, hread⟩

/-- What the section of a checked client says. -/
theorem CheckedPeer.sectionReads (h : CheckedPeer client) :
    SectionReads settings client p ↔
      ('\n' ∉ client.publicKey ∧ '\n' ∉ client.presharedKey ∧ '\n' ∉ client.endpoint) ∧
        trim isspace client.publicKey = p.publicKey ∧
        (client.allocatedIPs ≠ [] ∧ [] ∉ client.extraAllowedIPs) ∧
        (renderedIPs client).filterMap readNet = p.allowedIPs ∧
        (if settings.persistentKeepalive != 0 then
          some (entryValue (itoa settings.persistentKeepalive)) else none).mapM readNumber =
            some p.persistentKeepalive ∧
        (if client.endpoint != [] then some (entryValue client.endpoint) else none) =
          p.endpoint := by
  have hchars := isNetsChar_of_mem h.rendered
  rw [← wgConfAllowedIPs_eq] at hchars
  have hcomment : '#' ∉ wgConfAllowedIPs client := not_mem_of_isNetsChar hchars (by decide)
  have hnewline : '\n' ∉ wgConfAllowedIPs client := not_mem_of_isNetsChar hchars (by decide)
  have hkey : entryValue client.publicKey = trim isspace client.publicKey :=
    entryValue_of_not_mem (h.not_mem_publicKey (by decide) (by decide))
  have hvalue : entryValue (wgConfAllowedIPs client) = wgConfAllowedIPs client := by
    rw [entryValue_of_not_mem hcomment]
    exact trim_of_forall fun c hc => isspace_of_isNetsChar (hchars c hc)
  constructor
  · intro hs
    have hlines := hs.lines
    simp only [List.forall_mem_cons, List.not_mem_nil, false_imp_iff, implies_true,
      and_true] at hlines
    have hread := hs.allowedIPs
    rw [hvalue] at hread
    obtain ⟨hfull, hallowed⟩ := h.readNets_rendered.mp hread
    exact ⟨⟨hlines.1, hlines.2.1, hlines.2.2.2⟩, hkey ▸ hs.publicKey, hfull, hallowed, hs.keepalive,
      hs.endpoint⟩
  · rintro ⟨⟨hpublic, hpreshared, hendpoint⟩, hp, hfull, hallowed, hkeepalive, he⟩
    refine ⟨?_, hkey.trans hp, ?_, hkeepalive, he⟩
    · simp only [List.forall_mem_cons, List.not_mem_nil, false_imp_iff, implies_true, and_true]
      exact ⟨hpublic, hpreshared, hnewline, hendpoint⟩
    · rw [hvalue]
      exact h.readNets_rendered.mpr ⟨hfull, hallowed⟩

/-- The agent reads the peer of a checked client whose fields are in step. -/
theorem CheckedPeer.pushedPeer_agrees (h : CheckedPeer client) (ha : PeerAgrees settings client)
    {key e : Str} (hone : words isspace client.publicKey = [key])
    (hword : words isspace client.endpoint = [e]) :
    pushedPeer (addWireguardPeer client) =
      some ⟨key, (pushedIPs client).filterMap readNet, some e, some 25⟩ := by
  have hlength : textLength (peerFields client.publicKey client) = client.publicKey.length +
      (unsplit [','] (pushedIPs client)).length + client.endpoint.length := by
    rw [unsplit_pushedIPs]
    simp only [textLength, peerFields, List.map_cons, List.map_nil, List.sum_cons, List.sum_nil]
    omega
  have hshort := ha.short
  have hpacket := length_peerMessage client.publicKey client
  have hbuffer : (cstr (unlines (Cpp.messageLines (str "ADD_WIREGUARD_PEER")
      (peerFields client.publicKey client)))).length ≤ _ := (List.takeWhile_sublist _).length_le
  have hcut := cutValue_of_plain ha.endpoint.nul ha.endpoint.value
  change pushedPeer (helloMessage (str "ADD_WIREGUARD_PEER")
    (peerFields client.publicKey client)) = _
  rw [pushedPeer_eq_some rfl]
  refine ⟨?_, ?_, (h.commandReads ha.publicKey.1 ha.endpoint.newline).mpr ?_⟩
  · unfold Cpp.maxPacketSize
    omega
  · unfold Cpp.maxPacketSize
    omega
  · rw [hcut]
    exact ⟨hshort, ha.endpoint.quotable, hone, rfl, ⟨e, hword, rfl⟩, rfl⟩

theorem CheckedPeer.samePeer_iff (h : CheckedPeer client) (henabled : client.enabled = true)
    (settings : GlobalSetting) : SamePeer settings client ↔ PeerAgrees settings client := by
  constructor
  · rintro ⟨p, q, hp, hq, hsame⟩
    obtain ⟨hlines, hkey, hfull, hrendered, hkeepalive, hentry⟩ :=
      h.sectionReads.mp ((renderedPeer_eq_some henabled).mp hq)
    obtain ⟨-, -, hcommand⟩ := (pushedPeer_eq_some rfl).mp hp
    obtain ⟨hshort, hquotable, hone, hpushed, ⟨e, hword, he⟩, hinterval⟩ :=
      (h.commandReads hlines.1 hlines.2.2).mp hcommand
    rw [← hsame.endpoint, he] at hentry
    have hentry : entryValue client.endpoint = e := by
      split at hentry
      · exact Option.some.inj hentry
      · cases hentry
    obtain ⟨hnul, hcomment, hvalue, hwords⟩ := cutValue_entryValue.mp ⟨hword, hentry⟩
    rw [cutValue_of_plain hnul hvalue] at hshort hquotable
    refine ⟨⟨hlines.1, _, hone⟩, hlines.2.1,
      ⟨hlines.2.2, hnul, hcomment, hvalue, hquotable, e, hwords⟩, ?_, hfull.1, hfull.2, ?_, hshort⟩
    · rw [← hsame.persistentKeepalive, hinterval] at hkeepalive
      exact (keepalive_eq_some _).mp hkeepalive
    · rw [hpushed, hrendered]
      exact hsame.allowedIPs
  · intro ha
    obtain ⟨key, hone⟩ := ha.publicKey.2
    obtain ⟨e, hwords⟩ := ha.endpoint.word
    have hisKey : IsWord isspace key := (isWord_of_mem_words (hone ▸ List.mem_singleton_self key)).1
    obtain ⟨hword, hentry⟩ := cutValue_entryValue.mpr
      ⟨ha.endpoint.nul, ha.endpoint.comment, ha.endpoint.value, hwords⟩
    have hne : client.endpoint ≠ [] := by
      intro hnil
      rw [hnil] at hwords
      cases hwords
    refine ⟨⟨key, (pushedIPs client).filterMap readNet, some e, some 25⟩,
      ⟨key, (renderedIPs client).filterMap readNet, some e, some 25⟩,
      h.pushedPeer_agrees ha hone hwords, ?_, ?_⟩
    · apply (renderedPeer_eq_some henabled).mpr
      apply h.sectionReads.mpr
      refine ⟨⟨ha.publicKey.1, ha.presharedKey, ha.endpoint.newline⟩, (trim_eq_iff hisKey).mpr hone,
        ⟨ha.allocatedIPs, ha.extraAllowedIPs⟩, rfl, (keepalive_eq_some _).mpr ha.keepalive, ?_⟩
      rw [if_pos (bne_iff_ne.mpr hne), hentry]
    · exact ⟨rfl, ha.networks, rfl, rfl⟩

end

/-- Settings with the interval of the command. -/
def commandSettings : GlobalSetting :=
  ⟨str "203.0.113.1", [str "1.1.1.1"], 1450, 25, str "0xca6c", str "auto",
    str "/etc/wireguard/wg0.conf", usualTime⟩

/-- A client that allows just its own address. -/
def ownBody : Client := { usualBody with allowedIPs := [str "10.252.1.2/32"] }

/-- The record of that client. -/
def ownRecord : Client :=
  newRecord usualEnv ownBody alphaKey.toText alphaPublicKey.toText alphaPublicKey.toText

/-- The store with that client. -/
def ownDb : Db := freshDb.serveAll alphaDerive [.newClient usualEnv ownBody]

end QrWireguard.WebUi
