import QrWireguard.Misc.Lines
import QrWireguard.Misc.Sections
import QrWireguard.WebUi.Peers
import QrWireguard.WebUi.WgConf

/-!
# Reading the server configuration

The texts of a client stand in comments and behind keys, each on a line that it can leave by a line
break. Only the notes are written so that they stay in their comments.
-/

namespace QrWireguard.WebUi

/-- What a line of a configuration says. -/
inductive ConfLine where
  | heading (text : Str)
  | setting (key value : Str)
  | networks (cidrs : List Str)
  deriving DecidableEq

/-- A list of networks, which may be empty. -/
def readCIDRs (value : Str) : Option (List Str) :=
  if value = [] then some []
  else if (split [','] value).all validateCIDR then some (split [','] value) else none

/-- What an item says. -/
def readItem : Item → Option ConfLine
  | .header text => some (.heading text)
  | .entry key value =>
    if key = str "AllowedIPs" then (readCIDRs value).map .networks else some (.setting key value)

/-- What is read of a line. -/
def confLine (line : Str) : Option (List ConfLine) := (lineItems line).bind (·.mapM readItem)

/-- A setting that the template leaves out where there is none. -/
def confIf (b : Bool) (key value : Str) : List ConfLine := if b then [.setting key value] else []

/-- What the configuration is to say of the interface. -/
def interfaceConf (server : Server) (settings : GlobalSetting) : List ConfLine :=
  [.heading (str "[Interface]"),
    .setting (str "Address") (unsplit [','] server.interface.addresses),
    .setting (str "ListenPort") (itoa server.interface.listenPort),
    .setting (str "PrivateKey") server.keyPair.privateKey] ++
  confIf (settings.mtu != 0) (str "MTU") (itoa settings.mtu) ++
  [.setting (str "PostUp") server.interface.postUp,
    .setting (str "PreDown") server.interface.preDown,
    .setting (str "PostDown") server.interface.postDown,
    .setting (str "Table") settings.table]

/-- What the configuration is to say of a client. -/
def peerConf (settings : GlobalSetting) (client : Client) : List ConfLine :=
  [.heading (str "[Peer]"), .setting (str "PublicKey") client.publicKey] ++
  confIf (client.presharedKey != []) (str "PresharedKey") client.presharedKey ++
  [.networks (client.allocatedIPs ++ client.extraAllowedIPs)] ++
  confIf (settings.persistentKeepalive != 0) (str "PersistentKeepalive")
    (itoa settings.persistentKeepalive) ++
  confIf (client.endpoint != []) (str "Endpoint") client.endpoint

/-- The lines behind the first line of a text are blank or comments. -/
def Contained (text : Str) : Prop := ∀ line ∈ (split ['\n'] text).tail, confLine line = some []

/-- A text that is read as it is behind a key. -/
def Whole (text : Str) : Prop := '\n' ∉ text ∧ entryValue text = text

instance containedDecidable (text : Str) : Decidable (Contained text) :=
  inferInstanceAs (Decidable (∀ line ∈ (split ['\n'] text).tail, confLine line = some []))

instance wholeDecidable (text : Str) : Decidable (Whole text) :=
  inferInstanceAs (Decidable ('\n' ∉ text ∧ entryValue text = text))

/-- A key whose values are read as they are. -/
def IsSetting (key : Str) : Prop := IsKey key ∧ '\n' ∉ key ∧ key ≠ str "AllowedIPs"

instance isSettingDecidable (key : Str) : Decidable (IsSetting key) :=
  inferInstanceAs (Decidable (IsKey key ∧ '\n' ∉ key ∧ key ≠ str "AllowedIPs"))

/-- The texts of the server that the template writes stay on their lines. -/
def WholeServer (server : Server) (settings : GlobalSetting) : Prop :=
  ∀ text ∈ [unsplit [','] server.interface.addresses, server.keyPair.privateKey,
    server.interface.postUp, server.interface.preDown, server.interface.postDown,
    settings.table], Whole text

instance wholeServerDecidable (server : Server) (settings : GlobalSetting) :
    Decidable (WholeServer server settings) :=
  inferInstanceAs (Decidable (∀ text ∈ _, Whole text))

/-- The texts of a client stay on their lines, and no network that the template writes is
empty. -/
structure WholeClient (client : Client) : Prop where
  comments : ∀ text ∈ [client.id, client.name, client.email, client.tgUserid], Contained text
  values : ∀ text ∈ [client.publicKey, client.presharedKey, client.endpoint], Whole text
  networks : [] ∉ client.extraAllowedIPs
  allocated : client.allocatedIPs = [] → client.extraAllowedIPs = []

/-! ## Pieces -/

section
variable {key text value a b : Str}

theorem confLine_nil : confLine [] = some [] := by decide

theorem confLine_comment (text : Str) : confLine ('#' :: text) = some [] := by
  have hitems : lineItems ('#' :: text) = some [] := by
    unfold lineItems
    rw [List.takeWhile_cons_of_neg (by decide)]
    rfl
  rw [confLine, hitems]
  rfl

theorem tail_split_append (h : '\n' ∉ a) :
    (split ['\n'] (a ++ text)).tail = (split ['\n'] text).tail := by
  by_cases htext : '\n' ∈ text
  · obtain ⟨w, rest, rfl, hw⟩ := List.eq_append_cons_of_mem htext
    have haw : '\n' ∉ a ++ w := by
      rw [List.mem_append, not_or]
      exact ⟨h, hw⟩
    rw [← List.append_assoc, split_append_char haw, split_append_char hw]
    rfl
  · have hboth : '\n' ∉ a ++ text := by
      rw [List.mem_append, not_or]
      exact ⟨h, htext⟩
    rw [ split_of_not_infix (by rwa [List.singleton_infix_iff]),
      split_of_not_infix (by rwa [List.singleton_infix_iff])]
    rfl

/-- A comment with a text in it is read as nothing when the text stays in it. -/
theorem readText_comment (hstart : a.head? = some '#') (ha : '\n' ∉ a) :
    readText confLine (a ++ text) = some [] ↔ Contained text := by
  rw [readText_eq_nil_iff, Contained, ← tail_split_append ha]
  obtain ⟨first, rest, hsplit⟩ := List.exists_cons_of_ne_nil (split_ne_nil ['\n'] (a ++ text))
  obtain ⟨a', rfl⟩ : ∃ a', a = '#' :: a' := by
    cases a with
    | nil => cases hstart
    | cons c a' => exact ⟨a', congrArg (· :: a') (Option.some.inj hstart)⟩
  have hfirst : first = ('#' :: a' ++ text).takeWhile (· != '\n') := by
    have hhead := head?_split_char '\n' ('#' :: a' ++ text)
    rw [hsplit] at hhead
    exact Option.some.inj hhead
  have hcomment : confLine first = some [] := by
    rw [hfirst, List.cons_append, List.takeWhile_cons_of_pos (by decide)]
    exact confLine_comment _
  rw [hsplit, List.forall_mem_cons, List.tail_cons]
  exact and_iff_right hcomment

/-- What is read of a line with a key. -/
theorem confLine_entry (hkey : IsKey key) (value : Str) :
    confLine (key ++ str " = " ++ value) =
      (readItem (.entry key (entryValue value))).map fun line => [line] := by
  rw [confLine, lineItems_entry hkey, Option.bind_some, List.mapM_cons, List.mapM_nil]
  cases readItem (.entry key (entryValue value)) <;> rfl

theorem confLine_setting (hkey : IsKey key) (hother : key ≠ str "AllowedIPs") (value : Str) :
    confLine (key ++ str " = " ++ value) = some [.setting key (entryValue value)] := by
  rw [confLine_entry hkey, readItem, if_neg hother]
  rfl

theorem entry_append (key value rest : Str) :
    key ++ str " = " ++ (value ++ rest) = key ++ str " = " ++ value ++ rest :=
  (List.append_assoc ..).symm

theorem newline_not_mem_setting (hkey : '\n' ∉ key) (hvalue : '\n' ∉ value) :
    '\n' ∉ key ++ str " = " ++ value := by
  rw [List.mem_append, List.mem_append, not_or, not_or]
  exact ⟨⟨hkey, by decide⟩, hvalue⟩

/-- A value is read as it is just when it is whole. -/
theorem readText_setting (h : IsSetting key) :
    readText confLine (key ++ str " = " ++ value) = some [.setting key value] ↔ Whole value := by
  obtain ⟨hkey, hline, hother⟩ := h
  by_cases hvalue : '\n' ∈ value
  · obtain ⟨w, rest, rfl, hw⟩ := List.eq_append_cons_of_mem hvalue
    refine iff_of_false (fun h => ?_) fun h => h.1 hvalue
    rw [entry_append, readText_append_newline_eq_some] at h
    obtain ⟨x, y, hx, -, hxy⟩ := h
    rw [readText_of_not_mem (newline_not_mem_setting hline hw), confLine_setting hkey hother] at hx
    obtain rfl := Option.some.inj hx
    injection hxy with hsetting _
    injection hsetting with _ hentry
    have hmem : '\n' ∈ entryValue w := hentry ▸ hvalue
    exact hw ((List.takeWhile_sublist _).subset (mem_of_mem_trim hmem))
  · rw [readText_of_not_mem (newline_not_mem_setting hline hvalue), confLine_setting hkey hother,
      Whole, Option.some.injEq, List.cons.injEq, ConfLine.setting.injEq]
    simp [hvalue]

/-- A line with a key says at least one thing. -/
theorem length_readText_entry (hkey : IsKey key) (hline : '\n' ∉ key) {x : List ConfLine}
    (h : readText confLine (key ++ str " = " ++ value) = some x) : 1 ≤ x.length := by
  have hentry : ∀ {w : Str} {y : List ConfLine}, confLine (key ++ str " = " ++ w) = some y →
      1 ≤ y.length := by
    intro w y hy
    rw [confLine_entry hkey] at hy
    obtain ⟨line, -, rfl⟩ := Option.map_eq_some_iff.mp hy
    exact Nat.le_refl 1
  by_cases hvalue : '\n' ∈ value
  · obtain ⟨w, rest, rfl, hw⟩ := List.eq_append_cons_of_mem hvalue
    rw [entry_append, readText_append_newline_eq_some] at h
    obtain ⟨y, z, hy, -, rfl⟩ := h
    rw [readText_of_not_mem (newline_not_mem_setting hline hw)] at hy
    rw [List.length_append]
    exact (hentry hy).trans (Nat.le_add_right _ _)
  · rw [readText_of_not_mem (newline_not_mem_setting hline hvalue)] at h
    exact hentry h

end

/-! ## Comments -/

section
variable {a b : Str}

theorem isdigit_of_mem_zeroPadded {c : Char} {width n : Nat} (h : c ∈ zeroPadded width n) :
    isdigit c = true := by
  rcases List.mem_append.mp h with hzero | hdigit
  · rw [List.eq_of_mem_replicate hzero]
    rfl
  · exact isdigit_of_mem_natDigits hdigit

theorem newline_not_mem_toText (t : Time) : '\n' ∉ t.toText := by
  have hpadded : ∀ width n, '\n' ∉ zeroPadded width n := by
    intro width n h
    cases isdigit_of_mem_zeroPadded h
  have hfraction : '\n' ∉ fractionString t.nanosecond := by
    unfold fractionString
    split
    · exact List.not_mem_nil
    · intro h
      rcases List.mem_cons.mp h with hpoint | hdigit
      · cases hpoint
      · rw [List.mem_reverse] at hdigit
        have hmem := (List.dropWhile_sublist _).subset hdigit
        exact hpadded 9 t.nanosecond (List.mem_reverse.mp hmem)
  have hzone : '\n' ∉ str " +0000 UTC" := by decide
  simp [Time.toText, hpadded, hfraction, hzone]

theorem readText_append_nil (ha : readText confLine a = some [])
    (hb : readText confLine b = some []) : readText confLine (a ++ '\n' :: b) = some [] :=
  readText_append_newline_eq_some.mpr ⟨[], [], ha, hb, rfl⟩

theorem readText_comment_of_not_mem (h : '\n' ∉ b) : readText confLine ('#' :: b) = some [] := by
  rw [readText_of_not_mem]
  · exact confLine_comment b
  · simp [h]

/-- A text whose line breaks have been escaped stays in its comment. -/
theorem readText_escaped (ha : readText confLine a = some []) {lines : List Str}
    (hlines : ∀ line ∈ lines, '\n' ∉ line) :
    readText confLine (a ++ lines.flatMap (str "\n# " ++ ·)) = some [] := by
  induction lines generalizing a with
  | nil =>
    rw [List.flatMap_nil, List.append_nil]
    exact ha
  | cons line lines ih =>
    have hline : '\n' ∉ ' ' :: line := by
      simp [hlines line List.mem_cons_self]
    have hstep := ih (readText_append_nil ha (readText_comment_of_not_mem hline))
      fun l hl => hlines l (List.mem_cons_of_mem _ hl)
    rwa [List.append_assoc] at hstep

/-- The notes of a client are read as nothing, whatever they are. -/
theorem readText_notes (ha : '\n' ∉ a) (shown : Bool) (client : Client) :
    readText confLine ('#' :: a ++ templateIf shown
      (str "\n\n# Notes:\n# " ++ (escapeNotes client).additionalNotes)) = some [] := by
  have hfirst := readText_comment_of_not_mem ha
  cases shown with
  | false =>
    rw [templateIf, if_neg Bool.false_ne_true, List.append_nil]
    exact hfirst
  | true =>
    obtain ⟨line, lines, hsplit⟩ :=
      List.exists_cons_of_ne_nil (split_ne_nil ['\n'] client.additionalNotes)
    have hnotes : (escapeNotes client).additionalNotes =
        line ++ lines.flatMap (str "\n# " ++ ·) := by
      change unsplit (str "\n# ") (split ['\n'] client.additionalNotes) = _
      rw [hsplit]
      rfl
    have hmem : ∀ l ∈ line :: lines, '\n' ∉ l := by
      intro l hl
      exact not_mem_of_mem_split (hsplit ▸ hl)
    have hheading : readText confLine (str "# Notes:") = some [] := by decide
    have hline : '\n' ∉ ' ' :: line := by
      simp [hmem line List.mem_cons_self]
    have hblank : readText confLine [] = some [] := by decide
    have hall := readText_escaped (readText_append_nil hfirst (readText_append_nil hblank
      (readText_append_nil hheading (readText_comment_of_not_mem hline))))
        fun l hl => hmem l (List.mem_cons_of_mem _ hl)
    rw [hnotes, templateIf, if_pos rfl]
    convert hall using 2
    simp [str]

end

/-! ## Pieces -/

section
variable {key value : Str} {client : Client}

theorem whole_nil : Whole [] := ⟨List.not_mem_nil, rfl⟩

theorem whole_itoa (n : Int) : Whole (itoa n) := by
  have hnewline : '\n' ∉ itoa n := not_mem_itoa_of (by decide) (by decide) n
  refine ⟨hnewline, ?_⟩
  rw [entryValue_of_not_mem (not_mem_itoa_of (by decide) (by decide) n)]
  apply trim_of_forall
  intro c hc
  rcases isdigit_of_mem_itoa hc with hdigit | rfl
  · exact isspace_of_isdigit hdigit
  · rfl

theorem readText_settingIf (b : Bool) (h : IsSetting key) :
    readText confLine (templateIf b (key ++ str " = " ++ value)) = some (confIf b key value) ↔
      (b = true → Whole value) := by
  cases b with
  | false =>
    refine iff_of_true ?_ fun h => by cases h
    exact readText_of_not_mem List.not_mem_nil
  | true =>
    rw [templateIf, if_pos rfl, confIf, if_pos rfl, readText_setting h]
    exact ⟨fun h _ => h, fun h => h rfl⟩

theorem readText_settingIf_ne_nil (h : IsSetting key) :
    readText confLine (templateIf (value != []) (key ++ str " = " ++ value)) =
      some (confIf (value != []) key value) ↔ Whole value := by
  rw [readText_settingIf _ h]
  cases value with
  | nil => exact iff_of_true (fun _ => whole_nil) whole_nil
  | cons c value => exact ⟨fun h => h rfl, fun h _ => h⟩

theorem length_readText_settingIf (b : Bool) (hkey : IsSetting key) {x : List ConfLine}
    (h : readText confLine (templateIf b (key ++ str " = " ++ value)) = some x) :
    (confIf b key value).length ≤ x.length := by
  cases b with
  | false => exact Nat.zero_le _
  | true => exact length_readText_entry hkey.1 hkey.2.1 h

/-- The networks are read as they are when none is empty and the list does not begin with a
comma. -/
theorem readText_networks (h : CheckedPeer client) :
    readText confLine (str "AllowedIPs" ++ str " = " ++ wgConfAllowedIPs client) =
        some [.networks (client.allocatedIPs ++ client.extraAllowedIPs)] ↔
      [] ∉ client.extraAllowedIPs ∧
        (client.allocatedIPs = [] → client.extraAllowedIPs = []) := by
  have hchars : ∀ c ∈ wgConfAllowedIPs client, isNetsChar c = true := by
    rw [wgConfAllowedIPs_eq]
    exact isNetsChar_of_mem h.rendered
  have hvalue : entryValue (wgConfAllowedIPs client) = wgConfAllowedIPs client := by
    rw [entryValue_of_not_mem (not_mem_of_isNetsChar hchars (by decide))]
    exact trim_of_forall fun c hc => isspace_of_isNetsChar (hchars c hc)
  have hkey : IsKey (str "AllowedIPs") := ⟨by decide, by decide, by decide, by decide⟩
  rw [readText_of_not_mem (newline_not_mem_setting (by decide)
    (not_mem_of_isNetsChar hchars (by decide))), confLine_entry hkey, hvalue, readItem, if_pos rfl,
    Option.map_map]
  have hread : (readCIDRs (wgConfAllowedIPs client)).map
        ((fun line => [line]) ∘ ConfLine.networks) =
          some [.networks (client.allocatedIPs ++ client.extraAllowedIPs)] ↔
      readCIDRs (wgConfAllowedIPs client) =
        some (client.allocatedIPs ++ client.extraAllowedIPs) := by
    cases readCIDRs (wgConfAllowedIPs client) <;> simp
  have hcomma : ∀ cidr ∈ (if client.allocatedIPs = [] then [[]] else client.allocatedIPs) ++
      client.extraAllowedIPs, ',' ∉ cidr := by
    intro cidr hcidr
    rcases h.rendered cidr hcidr with rfl | hvalid
    · exact List.not_mem_nil
    · exact comma_not_mem_of_validateCIDR hvalid
  have hsplit : split [','] (wgConfAllowedIPs client) =
      (if client.allocatedIPs = [] then [[]] else client.allocatedIPs) ++
        client.extraAllowedIPs := by
    rw [wgConfAllowedIPs_eq, split_unsplit_of_not_mem _ hcomma]
    split_ifs <;> simp [*]
  rw [hread, readCIDRs, hsplit]
  by_cases hallocated : client.allocatedIPs = []
  · by_cases hextra : client.extraAllowedIPs = []
    · have hnil : wgConfAllowedIPs client = [] := by
        rw [wgConfAllowedIPs, hallocated, hextra]
        rfl
      rw [if_pos hnil, hallocated, hextra]
      simp
    · have hne : wgConfAllowedIPs client ≠ [] := by
        obtain ⟨cidr, rest, hcons⟩ := List.exists_cons_of_ne_nil hextra
        rw [wgConfAllowedIPs, hallocated, hcons]
        exact List.cons_ne_nil _ _
      have hempty : validateCIDR [] = false := by decide
      rw [if_neg hne, if_pos hallocated, List.cons_append, List.all_cons, hempty]
      simp [hallocated, hextra]
  · have hne : wgConfAllowedIPs client ≠ [] := by
      intro hnil
      obtain ⟨cidr, rest, hcons⟩ := List.exists_cons_of_ne_nil hallocated
      have hempty : split [','] [] = [[]] := rfl
      rw [hnil, if_neg hallocated, hempty, hcons, List.cons_append] at hsplit
      have hcidr := h.allocatedIPs cidr (by rw [hcons]; exact List.mem_cons_self)
      rw [← (List.cons.inj hsplit).1] at hcidr
      revert hcidr
      decide
    have hvalid : (client.allocatedIPs ++ client.extraAllowedIPs).all validateCIDR = true ↔
        [] ∉ client.extraAllowedIPs := by
      rw [List.all_append, Bool.and_eq_true, and_iff_right (List.all_eq_true.mpr h.allocatedIPs)]
      constructor
      · intro hall
        exact nil_not_mem_of_validateCIDR (List.all_eq_true.mp hall)
      · intro hnil
        apply List.all_eq_true.mpr
        intro cidr hcidr
        apply (h.rendered cidr (List.mem_append_right _ hcidr)).resolve_left
        intro hempty
        exact hnil (hempty ▸ hcidr)
    rw [if_neg hne, if_neg hallocated, ← hvalid]
    split_ifs <;> simp [*]

end

/-! ## The whole text -/

/-- The lines of the template up to the clients, with what each is to say. -/
def interfacePieces (server : Server) (settings : GlobalSetting) : List (Str × List ConfLine) :=
  [(str "# This file was generated using wireguard-ui (https://github.com/ngoduykhanh/wireguard-ui)",
      []),
    (str "# Please don't modify it manually, otherwise your change might get replaced.", []),
    ([], []),
    (str "# Address updated at:     " ++ server.interface.updatedAt.toText, []),
    (str "# Private Key updated at: " ++ server.keyPair.updatedAt.toText, []),
    (str "[Interface]", [.heading (str "[Interface]")]),
    (str "Address" ++ str " = " ++ unsplit [','] server.interface.addresses,
      [.setting (str "Address") (unsplit [','] server.interface.addresses)]),
    (str "ListenPort" ++ str " = " ++ itoa server.interface.listenPort,
      [.setting (str "ListenPort") (itoa server.interface.listenPort)]),
    (str "PrivateKey" ++ str " = " ++ server.keyPair.privateKey,
      [.setting (str "PrivateKey") server.keyPair.privateKey]),
    (templateIf (settings.mtu != 0) (str "MTU" ++ str " = " ++ itoa settings.mtu),
      confIf (settings.mtu != 0) (str "MTU") (itoa settings.mtu)),
    (str "PostUp" ++ str " = " ++ server.interface.postUp,
      [.setting (str "PostUp") server.interface.postUp]),
    (str "PreDown" ++ str " = " ++ server.interface.preDown,
      [.setting (str "PreDown") server.interface.preDown]),
    (str "PostDown" ++ str " = " ++ server.interface.postDown,
      [.setting (str "PostDown") server.interface.postDown]),
    (str "Table" ++ str " = " ++ settings.table, [.setting (str "Table") settings.table]),
    ([], [])]

/-- The lines of the template for a client, with what each is to say. -/
def clientPieces (settings : GlobalSetting) (client : Client) : List (Str × List ConfLine) :=
  if client.enabled then
    [([], []),
      (str "# ID:           " ++ client.id, []),
      (str "# Name:         " ++ client.name, []),
      (str "# Email:        " ++ client.email, []),
      (str "# Telegram:     " ++ client.tgUserid, []),
      (str "# Created at:   " ++ client.createdAt.toText, []),
      (str "# Update at:    " ++ client.updatedAt.toText ++
        templateIf ((escapeNotes client).additionalNotes != [])
          (str "\n\n# Notes:\n# " ++ (escapeNotes client).additionalNotes), []),
      (str "[Peer]", [.heading (str "[Peer]")]),
      (str "PublicKey" ++ str " = " ++ client.publicKey,
        [.setting (str "PublicKey") client.publicKey]),
      (templateIf (client.presharedKey != []) (str "PresharedKey" ++ str " = " ++
          client.presharedKey),
        confIf (client.presharedKey != []) (str "PresharedKey") client.presharedKey),
      (str "AllowedIPs" ++ str " = " ++ wgConfAllowedIPs client,
        [.networks (client.allocatedIPs ++ client.extraAllowedIPs)]),
      (templateIf (settings.persistentKeepalive != 0)
          (str "PersistentKeepalive" ++ str " = " ++ itoa settings.persistentKeepalive),
        confIf (settings.persistentKeepalive != 0) (str "PersistentKeepalive")
          (itoa settings.persistentKeepalive)),
      (templateIf (client.endpoint != []) (str "Endpoint" ++ str " = " ++ client.endpoint),
        confIf (client.endpoint != []) (str "Endpoint") client.endpoint)]
  else []

section
variable {server : Server} {settings : GlobalSetting} {client : Client} {clients : List Client}

theorem clientPieces_fst (settings : GlobalSetting) (client : Client) :
    (clientPieces settings client).map Prod.fst = wgConfClient settings (escapeNotes client) := by
  unfold clientPieces wgConfClient
  change _ = if client.enabled then _ else _
  split
  · rfl
  · rfl

theorem clientPieces_snd (settings : GlobalSetting) (client : Client) :
    (clientPieces settings client).flatMap Prod.snd =
      if client.enabled then peerConf settings client else [] := by
  unfold clientPieces
  split
  · simp [peerConf]
  · rfl

theorem interfacePieces_snd (server : Server) (settings : GlobalSetting) :
    (interfacePieces server settings).flatMap Prod.snd = interfaceConf server settings := by
  simp [interfacePieces, interfaceConf]

/-- All lines of a configuration, with what each is to say. -/
def confPieces (server : Server) (clients : List Client) (settings : GlobalSetting) :
    List (Str × List ConfLine) :=
  interfacePieces server settings ++ clients.flatMap (clientPieces settings) ++ [([], [])]

theorem serverConfigText_eq (server : Server) (clients : List Client) (settings : GlobalSetting) :
    serverConfigText wgConf server clients settings =
      unlines ((confPieces server clients settings).map Prod.fst) := by
  have hclients : (clients.map escapeNotes).flatMap (fun c => unlines (wgConfClient settings c)) =
      unlines ((clients.flatMap (clientPieces settings)).map Prod.fst) := by
    induction clients with
    | nil => rfl
    | cons client clients ih =>
      rw [List.map_cons, List.flatMap_cons, List.flatMap_cons, List.map_append, unlines_append,
        clientPieces_fst, ih]
  rw [serverConfigText, wgConf, hclients, confPieces, List.map_append, List.map_append,
    unlines_append, unlines_append]
  rfl

theorem confPieces_snd (server : Server) (clients : List Client) (settings : GlobalSetting) :
    (confPieces server clients settings).flatMap Prod.snd = interfaceConf server settings ++
      (clients.filter (·.enabled)).flatMap (peerConf settings) := by
  have hclients : (clients.flatMap (clientPieces settings)).flatMap Prod.snd =
      (clients.filter (·.enabled)).flatMap (peerConf settings) := by
    induction clients with
    | nil => rfl
    | cons client clients ih =>
      rw [List.flatMap_cons, List.flatMap_append, clientPieces_snd, ih]
      cases henabled : client.enabled <;> simp [henabled]
  rw [confPieces, List.flatMap_append, List.flatMap_append, interfacePieces_snd, hclients]
  exact List.append_nil _

theorem contained_of_not_mem {text : Str} (h : '\n' ∉ text) : Contained text := by
  rw [Contained, split_of_not_infix (by rwa [List.singleton_infix_iff])]
  exact fun line hline => by cases hline

/-- The lines up to the clients are read as they are meant when the texts of the server are
whole. -/
theorem interfacePieces_reads (server : Server) (settings : GlobalSetting) :
    (∀ p ∈ interfacePieces server settings, readText confLine p.1 = some p.2) ↔
      WholeServer server settings := by
  have hfirst : readText confLine (str
      "# This file was generated using wireguard-ui (https://github.com/ngoduykhanh/wireguard-ui)") =
        some [] := readText_comment_of_not_mem (by decide)
  have hsecond : readText confLine (str
      "# Please don't modify it manually, otherwise your change might get replaced.") = some [] :=
    readText_comment_of_not_mem (by decide)
  have hnil : readText confLine [] = some [] := by decide
  have haddress : readText confLine
      (str "# Address updated at:     " ++ server.interface.updatedAt.toText) = some [] :=
    (readText_comment rfl (by decide)).mpr (contained_of_not_mem (newline_not_mem_toText _))
  have hkey : readText confLine
      (str "# Private Key updated at: " ++ server.keyPair.updatedAt.toText) = some [] :=
    (readText_comment rfl (by decide)).mpr (contained_of_not_mem (newline_not_mem_toText _))
  have hheading : readText confLine (str "[Interface]") = some [.heading (str "[Interface]")] := by
    decide
  simp only [interfacePieces, WholeServer, List.forall_mem_cons, hfirst, hsecond, hnil, haddress,
    hkey, hheading, true_and, List.not_mem_nil, false_imp_iff, implies_true, and_true]
  rw [readText_setting (by decide), readText_setting (by decide), readText_setting (by decide),
    readText_settingIf _ (by decide), readText_setting (by decide), readText_setting (by decide),
    readText_setting (by decide), readText_setting (by decide)]
  simp only [whole_itoa, implies_true, true_and]

theorem interfacePieces_long (server : Server) (settings : GlobalSetting) :
    ∀ p ∈ interfacePieces server settings, ∀ x, readText confLine p.1 = some x →
      p.2.length ≤ x.length := by
  have hheading : readText confLine (str "[Interface]") = some [.heading (str "[Interface]")] := by
    decide
  have hentry : ∀ {key value x}, IsSetting key →
      readText confLine (key ++ str " = " ++ value) = some x → 1 ≤ x.length :=
    fun hkey => length_readText_entry hkey.1 hkey.2.1
  simp only [interfacePieces, List.forall_mem_cons, List.length_nil, Nat.zero_le, implies_true,
    true_and, List.not_mem_nil, false_imp_iff, and_true, hheading, Option.some.injEq,
    forall_eq', List.length_singleton, Nat.le_refl]
  exact ⟨fun _ => hentry (by decide), fun _ => hentry (by decide), fun _ => hentry (by decide),
    fun _ => length_readText_settingIf _ (by decide), fun _ => hentry (by decide),
    fun _ => hentry (by decide), fun _ => hentry (by decide), fun _ => hentry (by decide)⟩

/-- The lines for a client are read as they are meant when its texts are whole. -/
theorem clientPieces_reads (settings : GlobalSetting) (h : CheckedPeer client) :
    (∀ p ∈ clientPieces settings client, readText confLine p.1 = some p.2) ↔
      (client.enabled = true → WholeClient client) := by
  cases henabled : client.enabled with
  | false => simp [clientPieces, henabled]
  | true =>
    have hnil : readText confLine [] = some [] := by decide
    have hcreated : readText confLine
        (str "# Created at:   " ++ client.createdAt.toText) = some [] :=
      (readText_comment rfl (by decide)).mpr (contained_of_not_mem (newline_not_mem_toText _))
    have hheading : readText confLine (str "[Peer]") = some [.heading (str "[Peer]")] := by decide
    have hupdated : '\n' ∉ str " Update at:    " ++ client.updatedAt.toText := by
      rw [List.mem_append, not_or]
      exact ⟨by decide, newline_not_mem_toText _⟩
    have hnotes := readText_notes hupdated ((escapeNotes client).additionalNotes != []) client
    rw [clientPieces, if_pos henabled]
    simp only [List.forall_mem_cons, hnil, hcreated, hheading, true_and, List.not_mem_nil,
      false_imp_iff, implies_true, and_true]
    rw [readText_comment rfl (by decide), readText_comment rfl (by decide),
      readText_comment rfl (by decide), readText_comment rfl (by decide),
      readText_setting (by decide), readText_settingIf_ne_nil (by decide), readText_networks h,
      readText_settingIf _ (by decide), readText_settingIf_ne_nil (by decide)]
    constructor
    · intro hall _
      obtain ⟨hid, hname, hemail, htelegram, -, hkey, hpreshared, hnets, -, hendpoint⟩ := hall
      refine ⟨?_, ?_, hnets.1, hnets.2⟩
      · simp [hid, hname, hemail, htelegram]
      · simp [hkey, hpreshared, hendpoint]
    · intro hwhole
      obtain ⟨hcomments, hvalues, hnets, hallocated⟩ := hwhole trivial
      simp only [List.forall_mem_cons, List.not_mem_nil, false_imp_iff, implies_true, and_true]
        at hcomments hvalues
      obtain ⟨hid, hname, hemail, htelegram⟩ := hcomments
      obtain ⟨hkey, hpreshared, hendpoint⟩ := hvalues
      exact ⟨hid, hname, hemail, htelegram, hnotes, hkey, hpreshared, ⟨hnets, hallocated⟩,
        fun _ => whole_itoa _, hendpoint⟩

theorem clientPieces_long (settings : GlobalSetting) (client : Client) :
    ∀ p ∈ clientPieces settings client, ∀ x, readText confLine p.1 = some x →
      p.2.length ≤ x.length := by
  cases henabled : client.enabled with
  | false => simp [clientPieces, henabled]
  | true =>
    have hheading : readText confLine (str "[Peer]") = some [.heading (str "[Peer]")] := by decide
    have hnetworks : IsKey (str "AllowedIPs") ∧ '\n' ∉ str "AllowedIPs" := by decide
    have hkey : IsSetting (str "PublicKey") := by decide
    rw [clientPieces, if_pos henabled]
    simp only [List.forall_mem_cons, List.length_nil, Nat.zero_le, implies_true, true_and,
      List.not_mem_nil, false_imp_iff, and_true, hheading, Option.some.injEq, forall_eq',
      List.length_singleton, Nat.le_refl]
    exact ⟨fun _ => length_readText_entry hkey.1 hkey.2.1,
      fun _ => length_readText_settingIf _ (by decide),
      fun _ => length_readText_entry hnetworks.1 hnetworks.2,
      fun _ => length_readText_settingIf _ (by decide),
      fun _ => length_readText_settingIf _ (by decide)⟩

/-- In every state that the requests reach, the configuration says what the server and the enabled
clients mean just when their texts stay on their lines: whatever the notes are, and with the
addresses that were checked, but for a name, an e-mail address, an identifier or a value that has a
line break. -/
theorem readConf_iff {derive : Key → Key} {db : Db}
    (h : Reach (fun db => db.clients = .empty) (ClientStep derive) (fun _ _ => True) db) :
    readText confLine (serverConfigText wgConf server db.clients.readAll settings) =
        some (interfaceConf server settings ++
          (db.clients.readAll.filter (·.enabled)).flatMap (peerConf settings)) ↔
      WholeServer server settings ∧
        ∀ client ∈ db.clients.readAll, client.enabled = true → WholeClient client := by
  have hchecked := clients_checkedPeer h
  have hmem : ∀ p ∈ confPieces server db.clients.readAll settings,
      p ∈ interfacePieces server settings ∨
        (∃ client ∈ db.clients.readAll, p ∈ clientPieces settings client) ∨ p = ([], []) := by
    intro p hp
    rw [confPieces, List.mem_append, List.mem_append, List.mem_flatMap, List.mem_singleton] at hp
    exact or_assoc.mp hp
  rw [serverConfigText_eq, ← confPieces_snd, readText_pieces confLine_nil]
  · rw [← interfacePieces_reads server settings]
    constructor
    · intro hall
      refine ⟨fun p hp => hall p ?_, fun client hclient => ?_⟩
      · rw [confPieces]
        exact List.mem_append_left _ (List.mem_append_left _ hp)
      · apply (clientPieces_reads settings (hchecked client hclient)).mp
        intro p hp
        apply hall
        rw [confPieces]
        exact List.mem_append_left _ (List.mem_append_right _ (List.mem_flatMap.mpr
          ⟨client, hclient, hp⟩))
    · intro hwhole p hp
      rcases hmem p hp with hfirst | ⟨client, hclient, hpiece⟩ | rfl
      · exact hwhole.1 p hfirst
      · exact (clientPieces_reads settings (hchecked client hclient)).mpr
          (hwhole.2 client hclient) p hpiece
      · exact readText_of_not_mem List.not_mem_nil
  · intro p hp
    rcases hmem p hp with hfirst | ⟨client, -, hpiece⟩ | rfl
    · exact interfacePieces_long server settings p hfirst
    · exact clientPieces_long settings client p hpiece
    · exact fun _ _ => Nat.zero_le _

end

/-- A server that has just been set up. -/
def setupServer : Server :=
  ⟨⟨alphaKey.toText, alphaPublicKey.toText, usualTime⟩,
    ⟨[str "10.252.1.0/24"], 51820, usualTime, [], [], []⟩⟩

def setupSetting : GlobalSetting :=
  ⟨str "203.0.113.1", [str "1.1.1.1"], 1450, 15, str "0xca6c", str "auto",
    str "/etc/wireguard/wg0.conf", usualTime⟩

/-- The store after a client of this name has been created. -/
def namedDb (name : Str) : Db :=
  freshDb.serveAll alphaDerive [.newClient usualEnv { usualBody with name := name }]

/-- A name with a line break starts a section. -/
def headingName : Str := str "ann\n[Interface]\nPostUp = reboot"

theorem readConf_iff_names :
    readText confLine (serverConfigText wgConf setupServer (namedDb (str "ann")).clients.readAll
        setupSetting) = some (interfaceConf setupServer setupSetting ++
          peerConf setupSetting annRecord) ∧
      readText confLine (serverConfigText wgConf setupServer
        (namedDb headingName).clients.readAll setupSetting) ≠
          some (interfaceConf setupServer setupSetting ++ peerConf setupSetting annRecord) := by
  have hreach : ∀ name, Reach (fun db => db.clients = .empty) (ClientStep alphaDerive)
      (fun _ _ => True) (namedDb name) :=
    fun name => .step (.init rfl) (i := .newClient usualEnv { usualBody with name := name })
      trivial rfl
  have hann : (namedDb (str "ann")).clients.readAll = [annRecord] := by decide +kernel
  have hheading : (namedDb headingName).clients.readAll =
      [{ annRecord with name := headingName }] := by decide +kernel
  have hserver : WholeServer setupServer setupSetting := by decide +kernel
  constructor
  · have hwhole : WholeClient annRecord :=
      ⟨by decide +kernel, by decide +kernel, by decide, fun _ => rfl⟩
    have hread := (readConf_iff (hreach (str "ann"))).mpr ⟨hserver, by
      rw [hann]
      intro client hclient _
      exact List.mem_singleton.mp hclient ▸ hwhole⟩
    rwa [hann] at hread ⊢
  · intro hread
    have hcontained : ¬ Contained headingName := by decide +kernel
    rw [hheading] at hread
    have hall := (readConf_iff (hreach headingName)).mp (by rw [hheading]; exact hread)
    rw [hheading] at hall
    have hclient := hall.2 _ List.mem_cons_self rfl
    exact hcontained (hclient.comments headingName (by simp))

end QrWireguard.WebUi
