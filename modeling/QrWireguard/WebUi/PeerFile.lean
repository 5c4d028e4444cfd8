import QrWireguard.Vtysh.FileRuns
import QrWireguard.WebUi.ShellTexts

/-!
# Peers on their way to the configuration file

A message about a peer becomes a line for the shell, then a command of `vtysh`, then a line of the
configuration file. While the texts of the clients are carried as they are, the file holds for each
key what the last message about the key says, and all other lines as they were.
-/

namespace QrWireguard.WebUi

open BePlugin WebAgent Vtysh

/-- Processes of `vtysh -e` one after the other, each with the file for itself. -/
inductive EvalRuns : List Str → Option Str → Option Str → Prop
  | nil (contents : Option Str) : EvalRuns [] contents contents
  | cons {e : Vtysh.Env} {arg : Str} {args : List Str} {contents contents' : Option Str}
      (he : Serving e) (h : EvalRuns args (vtyshEval e startupConfig arg contents) contents') :
      EvalRuns (arg :: args) contents contents'

/-- What the C++ agent makes of the configuration file for a message, when the shell runs these
processes for a line. After a fault the file may hold anything. -/
inductive AgentRuns (sh : Str → List Str) (smsg : RequestMessage) : Option Str → Option Str → Prop
  | unsent {contents : Option Str} (h : handleConnectionCPP smsg = none) :
      AgentRuns sh smsg contents contents
  | handled {text : Str} {handled : Cpp.Handled} {contents contents' : Option Str}
      (hsent : handleConnectionCPP smsg = some text)
      (hhandled : Cpp.onIncomingMsg text = .ok handled)
      (hruns : EvalRuns (handled.commands.flatMap sh) contents contents') :
      AgentRuns sh smsg contents contents'
  | fault {text : Str} {fault : Fault} {contents contents' : Option Str}
      (hsent : handleConnectionCPP smsg = some text)
      (hfault : Cpp.onIncomingMsg text = .error fault) : AgentRuns sh smsg contents contents'

/-- A shell that runs `vtysh` on what stands between double quotes. -/
def RunsQuoted (sh : Str → List Str) : Prop := ∀ line text, ShellRuns line text → sh line = [text]

/-- The texts of a peer that get to its line in the file as they are. -/
structure Carried (publicKey nets endpoint : Str) : Prop where
  key : ∃ key : Key, publicKey = key.toText
  network : isdigit (firstByte nets) = true
  chars : ∀ c ∈ endpoint, isQuotable c = true ∧ c ≠ '\x00' ∧ c ≠ '%' ∧ c ≠ '/'
  token : IsToken endpoint ∧ endpoint.length ≤ 128 ∧ ¬ HasValue endpoint
  short : publicKey.length + nets.length + endpoint.length ≤ 175

/-- The texts of a client are carried. -/
def CarriedClient (client : Client) : Prop :=
  Carried client.publicKey (unsplit [','] (pushedIPs client)) client.endpoint

/-- The line of a client. -/
def clientLine (client : Client) : Str :=
  peerScmd client.publicKey (unsplit [','] (pushedIPs client)) client.endpoint

section
variable {client : Client} {sh : Str → List Str} {config : List Str} {key : Key}

/-! ## The texts -/

theorem length_toText (key : Key) : key.toText.length = publickeyMaxLen := by
  rw [Key.toText, length_encodeBase64, key.length_eq]

theorem not_mem_toText (key : Key) {c : Char} (hc : isBase64Char c = false) : c ∉ key.toText := by
  intro hmem
  rw [isBase64Char_of_mem_encode key.lt_256 c hmem] at hc
  cases hc

theorem isToken_toText (key : Key) : IsToken key.toText := by
  have hspaces : ∀ c, isspace c = true → isBase64Char c = false := by
    intro c hc
    simp only [isspace, Bool.or_eq_true, beq_iff_eq] at hc
    rcases hc with ((((rfl | rfl) | rfl) | rfl) | rfl) | rfl <;> decide
  constructor
  · intro hnil
    have hlen := length_toText key
    rw [hnil] at hlen
    cases hlen
  · intro c hc
    rw [← Bool.not_eq_true]
    exact fun hspace => not_mem_toText key (hspaces c hspace) hc

theorem publicKeyOk_toText (key : Key) : publicKeyOk key.toText = true := by
  have hlast : key.toText.getLast? = some '=' :=
    getLast?_encodeBase64 (by rw [key.length_eq]; decide)
  rw [publicKeyOk, length_toText, hlast]
  decide

/-- The command for a client is its line. -/
theorem clientLine_eq (client : Client) : clientLine client =
    peerLine client.publicKey (unsplit [','] (pushedIPs client)) client.endpoint (str "25") := by
  simp [clientLine, peerScmd, peerLine, str]

/-- The command for a client whose texts are carried is accepted. -/
theorem CheckedPeer.peerArgs (h : CheckedPeer client) (hc : CarriedClient client) :
    PeerArgs client.publicKey (unsplit [','] (pushedIPs client)) client.endpoint (str "25") := by
  obtain ⟨key, hkey⟩ := hc.key
  have hshort := hc.short
  have hspecial : ∀ c ∈ ['\x00', '%', '"'], isBase64Char c = false ∧ isNetsChar c = false := by
    intro c hmem
    simp only [List.mem_cons, List.not_mem_nil, or_false] at hmem
    rcases hmem with rfl | rfl | rfl <;> decide
  refine ⟨?_, ?_, ?_⟩
  · have hendpoint : checkEndpoint client.endpoint = .ok := by
      unfold checkEndpoint
      rw [if_neg (by have := hc.token.2.1; omega), if_neg fun hmem => (hc.chars _ hmem).2.2.2 rfl]
    have hkeepalive : checkKeepalive (str "25") = .ok := by
      unfold checkKeepalive
      exact if_neg (by decide)
    rw [Vtysh.accepts, hendpoint, hkeepalive, checkPublicKey, checkAllowedIps, if_pos hc.network, hkey,
      if_pos (publicKeyOk_toText key)]
    rfl
  · intro w hw
    simp only [List.mem_cons, List.not_mem_nil, or_false] at hw
    rcases hw with rfl | rfl | rfl | rfl
    · rw [hkey]
      exact ⟨isToken_toText key, not_mem_toText key (by decide), not_mem_toText key (by decide),
        not_mem_toText key (by decide)⟩
    · exact ⟨h.isWord, not_mem_of_isNetsChar h.allNetsChar (by decide),
        not_mem_of_isNetsChar h.allNetsChar (by decide),
        not_mem_of_isNetsChar h.allNetsChar (by decide)⟩
    · exact ⟨hc.token.1, fun hmem => (hc.chars _ hmem).2.1 rfl,
        fun hmem => (hc.chars _ hmem).2.2.1 rfl,
        fun hmem => absurd (hc.chars _ hmem).1 (by decide)⟩
    · decide
  · simp only [str, List.length_cons, List.length_nil]
    omega

/-! ## The agent -/

theorem write_shellText : str "/usr/bin/qrwg/vtysh -e \"write\"" = Cpp.shellText (str "write") := by
  decide

/-- The agent hands the command for a client to the shell. -/
theorem CheckedPeer.handled (h : CheckedPeer client) (hc : CarriedClient client) :
    ∃ text, handleConnectionCPP (addWireguardPeer client) = some text ∧ Cpp.onIncomingMsg text =
      .ok ⟨true, [clientLine client, str "write"].map Cpp.shellText⟩ := by
  have hkey : '\n' ∉ client.publicKey := by
    obtain ⟨key, hkey⟩ := hc.key
    rw [hkey]
    exact not_mem_toText key (by decide)
  have hnewline : '\n' ∉ client.endpoint := fun hmem =>
    absurd (hc.token.1.2 _ hmem) (by decide)
  have hnul : '\x00' ∉ client.endpoint := fun hmem => (hc.chars _ hmem).2.1 rfl
  obtain ⟨hreads, hfirst, hsecond, hthird⟩ := h.readValues hkey hnewline
  rw [cutValue_of_plain hnul hc.token.2.2] at hthird
  have hlen : (peerFields client.publicKey client).length ≤ 16 := by simp [peerFields]
  have hshort : (unlines (Cpp.messageLines (str "ADD_WIREGUARD_PEER")
      (peerFields client.publicKey client))).length < Cpp.maxPacketSize := by
    have htexts := hc.short
    rw [unsplit_pushedIPs] at htexts
    rw [length_peerMessage, Cpp.maxPacketSize]
    simp only [textLength, peerFields, List.map_cons, List.map_nil, List.sum_cons, List.sum_nil]
    omega
  have haction := @action_peer (peerFields client.publicKey client) rfl
  rw [hfirst, hsecond, hthird, runScmd_peer.mpr ⟨hc.short, rfl⟩, write_shellText] at haction
  have hsent := @Cpp.handleConnectionCPP_lines (str "ADD_WIREGUARD_PEER")
    (peerFields client.publicKey client) hlen
  refine ⟨_, hsent, ?_⟩
  rw [Cpp.onIncomingMsg_short plain_subcmd.1 (by decide) hshort]
  exact (Cpp.doAction_request hlen plain_subcmd.1 (by decide)).mpr ⟨hreads, haction⟩

/-- The agent hands the command that removes a client to the shell. -/
theorem handled_remove (hkey : client.publicKey = key.toText) :
    ∃ text, handleConnectionCPP (removeWireguardPeer client) = some text ∧ Cpp.onIncomingMsg text =
      .ok ⟨true, [str "no wg peer " ++ client.publicKey, str "write"].map Cpp.shellText⟩ := by
  let fields := [(str "PublicKey", client.publicKey)]
  have hlen : fields.length ≤ 16 := by simp [fields]
  have hsubcmd : Plain (str "REMOVE_WIREGUARD_PEER") :=
    plain_of_not_mem (by decide) (.inl (by decide))
  have hname : Plain (str "PublicKey") ∧ '\x00' ∉ str "PublicKey" :=
    ⟨plain_of_not_mem (by decide) (.inl (by decide)), by decide⟩
  have hkeyLen : client.publicKey.length = publickeyMaxLen := hkey ▸ length_toText key
  have hvalue : Plain client.publicKey ∧ '\x00' ∉ client.publicKey := by
    rw [hkey]
    exact ⟨plain_toText key, not_mem_toText key (by decide)⟩
  obtain ⟨hreads, hread⟩ := @Cpp.readValue_of_plain fields
    (fun f hf => by rw [List.mem_singleton.mp hf]; exact hname)
    (fun f hf => by rw [List.mem_singleton.mp hf]; exact hvalue)
  have hfirst : Cpp.readValue fields 0 = client.publicKey := hread 0 (Nat.zero_lt_one)
  have haction : Cpp.action (str "REMOVE_WIREGUARD_PEER") (Cpp.readValues fields) =
      Cpp.runScmd (str "no wg peer " ++ client.publicKey) := by
    have hcmd : Cpp.vtyshCmd (str "REMOVE_WIREGUARD_PEER") = some .removeWireguardPeer := by decide
    unfold Cpp.action
    rw [hcmd, ← hfirst]
    simp only [Cpp.get_readValues]
    rfl
  have hfits : (str "no wg peer " ++ client.publicKey).length ≤ 230 := by
    rw [List.length_append, hkeyLen]
    decide
  rw [Cpp.runScmd_eq_ok.mpr ⟨hfits, rfl⟩, write_shellText] at haction
  have hshort : (unlines (Cpp.messageLines (str "REMOVE_WIREGUARD_PEER") fields)).length <
      Cpp.maxPacketSize := by
    have hframe : frameLength (str "REMOVE_WIREGUARD_PEER") [str "PublicKey"] = 68 := by decide
    rw [length_messageLines]
    refine (congrArg (textLength fields + ·) hframe).trans_lt ?_
    simp only [fields, textLength, List.map_cons, List.map_nil, List.sum_cons, List.sum_nil,
      hkeyLen, publickeyMaxLen, Cpp.maxPacketSize]
    omega
  have hsent := @Cpp.handleConnectionCPP_lines (str "REMOVE_WIREGUARD_PEER") fields hlen
  refine ⟨_, hsent, ?_⟩
  rw [Cpp.onIncomingMsg_short hsubcmd (by decide) hshort]
  exact (Cpp.doAction_request hlen hsubcmd (by decide)).mpr ⟨hreads, haction⟩

/-! ## The file -/

theorem CheckedPeer.inert_line (h : CheckedPeer client) (hc : CarriedClient client) :
    Inert (clientLine client) := by
  have hkey : '\n' ∉ client.publicKey := by
    obtain ⟨key, hkey⟩ := hc.key
    rw [hkey]
    exact not_mem_toText key (by decide)
  refine inert_peerScmd.mpr ⟨h.inert_publicKey.mpr hkey, h.inert_nets, inert_iff.mpr ?_⟩
  intro c hmem
  refine ⟨(hc.chars c hmem).1, ?_⟩
  rintro rfl
  exact absurd (hc.token.1.2 _ hmem) (by decide)

theorem inert_remove (key : Key) : Inert (str "no wg peer " ++ key.toText) := by
  refine inert_append.mpr ⟨by unfold Inert; decide, isQuotable_of_not_mem fun c hc => ?_,
    not_mem_toText key (by decide)⟩
  simp only [List.mem_cons, List.not_mem_nil, or_false] at hc
  rcases hc with rfl | rfl | rfl | rfl <;> exact not_mem_toText key (by decide)

/-- A message with which the agent hands a command and `write` to the shell leaves in the file what
the command makes of its lines. -/
theorem AgentRuns.saved (hsh : RunsQuoted sh) {smsg : RequestMessage} {text line : Str}
    {contents contents' : Option Str} (hrun : AgentRuns sh smsg contents contents')
    (hsent : handleConnectionCPP smsg = some text)
    (hhandled : Cpp.onIncomingMsg text = .ok ⟨true, [line, str "write"].map Cpp.shellText⟩)
    (hinert : Inert line) (hsaved : Saved config contents) (hconfig : Restorable config)
    {P : List Str → Prop} (hrestorable : ∀ config', P config' → Restorable config')
    (hline : ∀ e w, At .config config (some startupConfig) w →
      Proc.Runs (vtyshExecute line) (Vtysh.Env.withConfig e startupConfig contents) w
        fun _ t => P t.configTop) :
    ∃ config', P config' ∧ Saved config' contents' := by
  have hwrite : Inert (str "write") := by
    unfold Inert
    decide
  have hargs : ([line, str "write"].map Cpp.shellText).flatMap sh = [line, str "write"] := by
    simp only [List.map_cons, List.map_nil, List.flatMap_cons, List.flatMap_nil,
      hsh _ _ hinert.runs, hsh _ _ hwrite.runs]
    rfl
  have hruns : EvalRuns [line, str "write"] contents contents' := by
    cases hrun with
    | unsent hnone =>
      rw [hsent] at hnone
      cases hnone
    | handled hsent' hhandled' hruns =>
      obtain rfl := Option.some.inj (hsent.symm.trans hsent')
      obtain rfl := Except.ok.inj (hhandled.symm.trans hhandled')
      exact hargs ▸ hruns
    | fault hsent' hfault =>
      obtain rfl := Option.some.inj (hsent.symm.trans hsent')
      rw [hhandled] at hfault
      cases hfault
  cases hruns with
  | cons he hrest =>
    obtain ⟨config', hP, hsaved'⟩ := saved_vtyshEval he hsaved hconfig fun w hw => hline _ w hw
    cases hrest with
    | cons he' hnil =>
      obtain ⟨config'', rfl, hsaved''⟩ := saved_vtyshEval (P := (· = config')) he' hsaved'
        (hrestorable config' hP) fun w hw => runs_write hw
      cases hnil
      exact ⟨_, hP, hsaved''⟩

end

/-- A change of a peer that the back end is told. -/
inductive PeerChange where
  | add (client : Client)
  | remove (client : Client)

namespace PeerChange

/-- The message of a change. -/
def message : PeerChange → RequestMessage
  | add client => addWireguardPeer client
  | remove client => removeWireguardPeer client

/-- The key whose peer changes. -/
def publicKey : PeerChange → Str
  | add client => client.publicKey
  | remove client => client.publicKey

/-- The line of the peer after the change. -/
def line : PeerChange → Option Str
  | add client => some (clientLine client)
  | remove _ => none

/-- The texts of a change are carried. -/
def Carried : PeerChange → Prop
  | add client => CheckedPeer client ∧ CarriedClient client
  | remove client => ∃ key : Key, client.publicKey = key.toText

end PeerChange

/-- What the last of the changes about a key says. -/
def lastLine : List PeerChange → Str → Option (Option Str)
  | [], _ => none
  | change :: changes, key =>
    (lastLine changes key).or (if change.publicKey = key then some change.line else none)

/-- Messages handled one after the other. -/
inductive AgentServes (sh : Str → List Str) : List RequestMessage → Option Str → Option Str → Prop
  | nil (contents : Option Str) : AgentServes sh [] contents contents
  | cons {smsg : RequestMessage} {rest : List RequestMessage} {first second third : Option Str}
      (h : AgentRuns sh smsg first second) (hrest : AgentServes sh rest second third) :
      AgentServes sh (smsg :: rest) first third

section
variable {sh : Str → List Str} {config : List Str} {contents contents' : Option Str}
  {change : PeerChange} {changes : List PeerChange}

theorem lastLine_cons_eq_some {key : Str} {line : Option Str} :
    lastLine (change :: changes) key = some line ↔ lastLine changes key = some line ∨
      lastLine changes key = none ∧ change.publicKey = key ∧ change.line = line := by
  rw [lastLine]
  cases lastLine changes key with
  | none => simp
  | some last => simp

theorem lastLine_cons_eq_none {key : Str} : lastLine (change :: changes) key = none ↔
    lastLine changes key = none ∧ change.publicKey ≠ key := by
  rw [lastLine]
  cases lastLine changes key with
  | none => simp
  | some last => simp

/-- The line of a peer has the key of the peer. -/
theorem PeerChange.Carried.configKey {line : Str} (h : change.Carried)
    (hline : change.line = some line) : configKey line = .peer change.publicKey := by
  cases change with
  | add client =>
    obtain rfl := Option.some.inj hline
    obtain ⟨key, hkey⟩ := h.2.key
    change Vtysh.configKey (clientLine client) = .peer client.publicKey
    rw [clientLine_eq, peerLine, hkey]
    simp only [List.append_assoc]
    rw [← List.append_assoc]
    exact configKey_peer (isToken_toText key) (isTail_keyword ⟨_, rfl⟩)
  | remove client => cases hline

/-- A message about a peer sets the line of its key in the file. -/
theorem AgentRuns.peerSet (hsh : RunsQuoted sh) (hcarried : change.Carried)
    (hrun : AgentRuns sh change.message contents contents') (hsaved : Saved config contents)
    (hconfig : Restorable config) :
    ∃ config', PeerSet change.publicKey change.line config config' ∧ Saved config' contents' := by
  cases change with
  | add client =>
    obtain ⟨hchecked, hc⟩ := hcarried
    obtain ⟨text, hsent, hhandled⟩ := hchecked.handled hc
    refine hrun.saved hsh hsent hhandled (hchecked.inert_line hc) hsaved hconfig
      (fun _ hset => hset.restorable) fun e w hw => ?_
    have hruns := (hchecked.peerArgs hc).runs (e := Vtysh.Env.withConfig e startupConfig contents)
      hconfig hw
    rwa [← clientLine_eq] at hruns
  | remove client =>
    obtain ⟨key, hkey⟩ := hcarried
    obtain ⟨text, hsent, hhandled⟩ := handled_remove hkey
    refine hrun.saved hsh hsent hhandled (hkey ▸ inert_remove key) hsaved hconfig
      (fun _ hset => hset.restorable) fun e w hw => ?_
    have htoken : IsToken key.toText ∧ '\x00' ∉ key.toText ∧ '"' ∉ key.toText :=
      ⟨isToken_toText key, not_mem_toText key (by decide), not_mem_toText key (by decide)⟩
    exact runs_noPeer (hkey ▸ length_toText key) (hkey ▸ htoken) hconfig hw

/-- After any sequence of messages about peers the file holds for each key what the last message
about the key says, and all other lines as they were. -/
theorem AgentServes.file (hsh : RunsQuoted sh) (hcarried : ∀ change ∈ changes, change.Carried)
    (hruns : AgentServes sh (changes.map PeerChange.message) contents contents')
    (hsaved : Saved config contents) (hconfig : Restorable config) :
    ∃ config', Restorable config' ∧ Saved config' contents' ∧ ∀ l, l ∈ config' ↔
      (∃ key, lastLine changes key = some (some l)) ∨
        l ∈ config ∧ ∀ key, configKey l = .peer key → lastLine changes key = none := by
  induction changes generalizing config contents with
  | nil =>
    cases hruns
    exact ⟨config, hconfig, hsaved, fun l => by simp [lastLine]⟩
  | cons change changes ih =>
    rw [List.map_cons] at hruns
    cases hruns with
    | cons hrun hrest =>
      have hchange := hcarried change List.mem_cons_self
      obtain ⟨config', hset, hsaved'⟩ := hrun.peerSet hsh hchange hsaved hconfig
      obtain ⟨config'', hconfig'', hsaved'', hmem⟩ := ih
        (fun other hother => hcarried other (List.mem_cons_of_mem _ hother)) hrest hsaved'
        hset.restorable
      refine ⟨config'', hconfig'', hsaved'', fun l => ?_⟩
      rw [hmem l, hset.mem l]
      constructor
      · rintro (⟨key, hlast⟩ | ⟨hline | ⟨hmem, hne⟩, hnone⟩)
        · exact .inl ⟨key, lastLine_cons_eq_some.mpr (.inl hlast)⟩
        · have hlast := hnone _ (hchange.configKey hline)
          exact .inl ⟨_, lastLine_cons_eq_some.mpr (.inr ⟨hlast, rfl, hline⟩)⟩
        · refine .inr ⟨hmem, fun key hkey => lastLine_cons_eq_none.mpr ⟨hnone key hkey, ?_⟩⟩
          exact fun heq => hne (heq ▸ hkey)
      · rintro (⟨key, hlast⟩ | ⟨hmem, hnone⟩)
        · rcases lastLine_cons_eq_some.mp hlast with hlast | ⟨hlast, rfl, hline⟩
          · exact .inl ⟨key, hlast⟩
          · refine .inr ⟨.inl hline, fun key hkey => ?_⟩
            rw [hchange.configKey hline] at hkey
            rw [← Key.peer.inj hkey]
            exact hlast
        · have hnone : ∀ key, configKey l = .peer key →
              lastLine changes key = none ∧ change.publicKey ≠ key :=
            fun key hkey => lastLine_cons_eq_none.mp (hnone key hkey)
          exact .inr ⟨.inr ⟨hmem, fun hkey => (hnone _ hkey).2 rfl⟩, fun key hkey =>
            (hnone key hkey).1⟩

end

/-- A shell that reads the word between double quotes. -/
def quotedSh (line : Str) : List Str :=
  match readQuoted (line.drop (str "/usr/bin/qrwg/vtysh -e \"").length) with
  | some (text, []) => [text]
  | _ => []

theorem runsQuoted_quotedSh : RunsQuoted quotedSh := by
  rintro line text ⟨-, rest, rfl, hread⟩
  unfold quotedSh
  rw [List.drop_left, hread]

theorem serving_obligingEnv : Serving obligingEnv := ⟨fun _ _ => rfl, fun _ => rfl, fun _ => rfl⟩

theorem exists_evalRuns (args : List Str) (contents : Option Str) :
    ∃ contents', EvalRuns args contents contents' := by
  induction args generalizing contents with
  | nil => exact ⟨contents, .nil contents⟩
  | cons arg args ih =>
    obtain ⟨contents', h⟩ := ih (vtyshEval obligingEnv startupConfig arg contents)
    exact ⟨contents', .cons serving_obligingEnv h⟩

theorem exists_agentRuns (sh : Str → List Str) (smsg : RequestMessage) (contents : Option Str) :
    ∃ contents', AgentRuns sh smsg contents contents' := by
  cases hsent : handleConnectionCPP smsg with
  | none => exact ⟨contents, .unsent hsent⟩
  | some text =>
    cases hhandled : Cpp.onIncomingMsg text with
    | error fault => exact ⟨contents, .fault hsent hhandled⟩
    | ok handled =>
      obtain ⟨contents', h⟩ := exists_evalRuns (handled.commands.flatMap sh) contents
      exact ⟨contents', .handled hsent hhandled h⟩

theorem carried_annRecord : CheckedPeer annRecord ∧ CarriedClient annRecord := by
  have hreach : Reach (fun db => db.clients = .empty) (ClientStep alphaDerive) (fun _ _ => True)
      annDb := .step (.init rfl) (i := .newClient usualEnv usualBody) trivial rfl
  have hchars : annRecord.endpoint.all (fun c => isQuotable c && c != '\x00' && c != '%' && c != '/') =
      true := by
    decide
  refine ⟨clients_checkedPeer hreach annRecord (by decide +kernel), ⟨alphaPublicKey, rfl⟩, by decide,
    fun c hc => ?_, ⟨by decide, by decide, ?_⟩, by decide +kernel⟩
  · simpa [and_assoc] using List.all_eq_true.mp hchars c hc
  exact (plain_of_not_mem (by decide) (.inr (by decide))).2

end QrWireguard.WebUi
