import QrWireguard.Vtysh.Eval
import QrWireguard.Vtysh.Fixed
import QrWireguard.Vtysh.PeerLookup
import QrWireguard.Vtysh.RoundTrip

/-!
# Peers in the configuration file

A run of `vtysh -e` finds the configuration in its file and leaves it there: a file that holds lines
which all come back holds afterwards what the command makes of these lines. The commands that the
agents use for peers set the line of a key, or remove it, and leave all other lines.
-/

namespace QrWireguard.Vtysh
open Cli Proc

/-- The contents of the configuration file that stand for a list of lines: none yet, or what
`config_dump` has written. -/
inductive Saved (config : List Str) : Option Str → Prop
  | absent (h : config = []) : Saved config none
  | dumped (timestr : Timestr) : Saved config (some (configDump config (some timestr)))

/-- An operating system on which programs succeed, the configuration file can be written and the
time is known. -/
structure Serving (e : Env) : Prop where
  system : ∀ trace command, e.system trace command = 0
  openWrite : ∀ trace, e.openWrite trace startupConfig = true
  localtime : ∀ trace, (e.localtime trace).isSome = true

section
variable {e : Env} {w : World} {config config' : List Str} {contents : Option Str} {arg line : Str}

/-- The file is loaded into an empty configuration. -/
theorem runs_load (he : Serving e) (hsaved : Saved config contents) (hconfig : Restorable config)
    (hempty : w.configTop = []) :
    Runs (vtyshLoadConfig startupConfig) (e.withConfig startupConfig contents) w fun _ t =>
      t.configTop = config ∧ t.vty.type = w.vty.type ∧ t.hostConfig = w.hostConfig := by
  have htype := fixed_type.keeps_vtyshLoadConfig (fun _ _ => rfl) startupConfig
    (e.withConfig startupConfig contents) w
  have hhost := fixed_hostConfig.keeps_vtyshLoadConfig (fun _ _ => rfl) startupConfig
    (e.withConfig startupConfig contents) w
  have hload : Runs (vtyshLoadConfig startupConfig) (e.withConfig startupConfig contents) w
      fun _ t => t.configTop = config := by
    cases hsaved with
    | absent hnil =>
      rw [hnil, ← hempty]
      simp only [vtyshLoadConfig, vtyshConfigFromFile, runs_bind, runs_modify, openRead,
        runs_request, Env.withConfig, if_pos]
      rfl
    | dumped timestr =>
      have hsystem : ∀ trace command, (e.withConfig startupConfig
          (some (configDump config (some timestr)))).system trace command = 0 := he.system
      have hfile : ∀ trace, (e.withConfig startupConfig
          (some (configDump config (some timestr)))).openRead trace startupConfig =
            some (configDump config (some timestr)) := by
        intro trace
        simp [Env.withConfig]
      exact (runs_vtyshLoadConfig hconfig.1 hconfig.2 hsystem hempty hfile).mono
        fun _ _ ht => ht.2
  refine ((hload.and htype).and hhost).mono fun _ t ht => ?_
  exact ⟨ht.1.1, ht.1.2, ht.2⟩

theorem runs_vtyshExecute_of_lookup {vline argv : List Str} {elem : CmdElement CmdFunc}
    {node : Node} (hnode : w.vty.node = node) (hstrvec : cmdMakeStrvec (cstr line) = some vline)
    (hlookup : cmdLookup .byCompletion (cmdNodeVector node) vline = .run elem argv)
    {P : World → Prop} (hemit : ∀ t text, P t → P (t.emit (.out text)))
    (hcall : Runs (call elem.func .vty argv) e w fun _ t => P t) :
    Runs (vtyshExecute line) e w fun _ t => P t := by
  unfold vtyshExecute vtyshExecuteFunc
  rw [hstrvec]
  simp only [runs_bind, cmdExecute, runs_get, World.vtyOf, hnode, hlookup, runs_ite, runs_vtyOut,
    runs_pure]
  refine hcall.mono fun ret t ht => ?_
  exact ⟨fun _ => hemit _ _ ht, fun _ => ⟨fun _ => hemit _ _ ht, fun _ =>
    ⟨fun _ => hemit _ _ ht, fun _ => ht⟩⟩⟩

theorem runs_vtyshExecute_of_error {vline : List Str} {code : Int} {node : Node}
    (hnode : w.vty.node = node) (hstrvec : cmdMakeStrvec (cstr line) = some vline)
    (hlookup : cmdLookup .byCompletion (cmdNodeVector node) vline = .error code)
    {P : World → Prop} (hemit : ∀ t text, P t → P (t.emit (.out text))) (hw : P w) :
    Runs (vtyshExecute line) e w fun _ t => P t := by
  unfold vtyshExecute vtyshExecuteFunc
  rw [hstrvec]
  simp only [runs_bind, cmdExecute, runs_get, World.vtyOf, hnode, hlookup, runs_ite, runs_vtyOut,
    runs_pure]
  exact ⟨fun _ => hemit _ _ hw, fun _ => ⟨fun _ => hemit _ _ hw, fun _ =>
    ⟨fun _ => hemit _ _ hw, fun _ => hw⟩⟩⟩

/-- A state with this configuration and configuration file, at this node of the terminal. -/
structure At (node : Node) (config : List Str) (hostConfig : Option Str) (t : World) : Prop where
  vty : t.vty = ⟨.shell, node⟩
  configTop : t.configTop = config
  hostConfig : t.hostConfig = hostConfig

theorem At.emit {node : Node} {hostConfig : Option Str} (h : At node config hostConfig w)
    (ev : Event) : At node config hostConfig (w.emit ev) := ⟨h.vty, h.configTop, h.hostConfig⟩

theorem At.setNode {node : Node} {hostConfig : Option Str} (h : At node config hostConfig w)
    (node' : Node) : At node' config hostConfig (w.setNode node' .vty) :=
  ⟨congrArg (fun vty => Vty.mk vty.type node') h.vty, h.configTop, h.hostConfig⟩

/-- The two commands after the load lead to the configuration node, from wherever the load has left
the terminal. -/
theorem runs_enterConfig {node : Node} {hostConfig : Option Str} (h : At node config hostConfig w) :
    Runs (vtyshExecute (str "enable")) e w fun _ t =>
      Runs (vtyshExecute (str "config terminal")) e t fun _ u => At .config config hostConfig u := by
  have henable : cmdMakeStrvec (cstr (str "enable")) = some [str "enable"] := by decide
  have hconfig : cmdMakeStrvec (cstr (str "config terminal")) =
      some [str "config", str "terminal"] := by decide
  have hterminal : ∀ t, At .enable config hostConfig t →
      Runs (vtyshExecute (str "config terminal")) e t fun _ u => At .config config hostConfig u := by
    intro t ht
    have hlookup : cmdLookup .byCompletion (cmdNodeVector .enable)
        [str "config", str "terminal"] =
          .run (entry configTerminalCmd [str "configure", str "terminal"] []) [] := by
      decide +kernel
    refine runs_vtyshExecute_of_lookup (congrArg Vty.node ht.vty) hconfig hlookup
      (fun u text hu => hu.emit _) ?_
    exact ht.setNode .config
  have hnode : w.vty.node = node := congrArg Vty.node h.vty
  have hlost : cmdLookup .byCompletion (cmdNodeVector node) [str "enable"] =
      .error cmdErrNoMatch →
      Runs (vtyshExecute (str "enable")) e w fun _ t => At node config hostConfig t := by
    intro hlookup
    exact runs_vtyshExecute_of_error hnode henable hlookup (fun u text hu => hu.emit _) h
  cases node with
  | view =>
    have hlookup : cmdLookup .byCompletion (cmdNodeVector .view) [str "enable"] =
        .run (entry configEnableCmd [str "enable"] []) [] := by
      decide +kernel
    refine (runs_vtyshExecute_of_lookup hnode henable hlookup
      (P := At .enable config hostConfig) (fun u text hu => hu.emit _) ?_).mono
        fun _ t ht => hterminal t ht
    exact h.setNode .enable
  | enable =>
    have hlookup : cmdLookup .byCompletion (cmdNodeVector .enable) [str "enable"] =
        .error cmdErrNoMatch := by
      decide +kernel
    exact (hlost hlookup).mono fun _ t ht => hterminal t ht
  | config =>
    have hlookup : cmdLookup .byCompletion (cmdNodeVector .config) [str "enable"] =
        .error cmdErrNoMatch := by
      decide +kernel
    have hagain : cmdLookup .byCompletion (cmdNodeVector .config) [str "config", str "terminal"] =
        .error cmdErrNoMatch := by
      decide +kernel
    refine (hlost hlookup).mono fun _ t ht => ?_
    exact runs_vtyshExecute_of_error (congrArg Vty.node ht.vty) hconfig hagain
      (fun u text hu => hu.emit _) ht

/-- What follows the command in eval mode. -/
def saveAndExit (configFile : Str) : Cli Int := do
  if ← openWrite configFile then
    dumpWith (fprintf configFile)
    Proc.exit
  else return cmdWarning

theorem evalMain_eq (configFile evalLine : Str) :
    evalMain configFile evalLine =
      evalCommand configFile evalLine >>= fun _ => saveAndExit configFile := by
  simp only [evalMain, evalCommand, saveAndExit, Proc.bind_assoc]

/-- The process ends with the lines in the file. -/
theorem saveAndExit_eq (he : Serving e) (contents : Option Str) (t : World) :
    ∃ timestr u, saveAndExit startupConfig (e.withConfig startupConfig contents) t = .exit u ∧
      rewritten e startupConfig u.trace = some (configDump t.configTop (some timestr)) := by
  obtain ⟨timestr, htime⟩ := Option.isSome_iff_exists.mp
    (he.localtime (.openWrite startupConfig :: t.trace))
  let e' := e.withConfig startupConfig contents
  let w := t.emit (.openWrite startupConfig)
  have hopen : openWrite startupConfig e' t = .done true w :=
    congrArg (Outcome.done · w) (he.openWrite t.trace)
  have hask : (Proc.ask fun e w => e.localtime w.trace : Cli _) e' w = .done (some timestr) w :=
    congrArg (Outcome.done · w) htime
  have hdump : dumpWith (fprintf startupConfig) e' w =
      .done () (w.emit (.write startupConfig (configDump w.configTop (some timestr)))) := by
    have hget : (Proc.get : Cli World) e' w = .done w w := rfl
    unfold dumpWith
    rw [bind_of_done hget, bind_of_done hask]
    rfl
  refine ⟨timestr, w.emit (.write startupConfig (configDump w.configTop (some timestr))), ?_, ?_⟩
  · unfold saveAndExit
    rw [bind_of_done hopen, if_pos rfl, bind_of_done hdump]
    rfl
  · have hopened : w.trace = .openWrite startupConfig :: t.trace := rfl
    simp [rewritten, hopened, he.openWrite, w]

/-- A process that has the file for itself leaves in it what its command makes of the lines. -/
theorem saved_vtyshEval (he : Serving e) (hsaved : Saved config contents)
    (hconfig : Restorable config) {P : List Str → Prop}
    (hcommand : ∀ w, At .config config (some startupConfig) w →
      Runs (vtyshExecute arg) (e.withConfig startupConfig contents) w fun _ t => P t.configTop) :
    ∃ config', P config' ∧ Saved config' (vtyshEval e startupConfig arg contents) := by
  have hcommand : Runs (evalCommand startupConfig arg) (e.withConfig startupConfig contents)
      (initWorld (some startupConfig) []) fun _ t => P t.configTop := by
    simp only [evalCommand, runs_bind]
    refine (runs_load he hsaved hconfig rfl).mono fun _ t ht => ?_
    have hat : At t.vty.node config (some startupConfig) t :=
      ⟨congrArg (fun type => Vty.mk type t.vty.node) ht.2.1, ht.1, ht.2.2⟩
    exact (runs_enterConfig hat).mono fun _ u hu => hu.mono fun _ v hv => hcommand v hv
  obtain ⟨ret, t, hdone, hP⟩ := runs_iff.mp hcommand
  obtain ⟨timestr, u, hexit, htext⟩ := saveAndExit_eq he contents t
  have hmain : evalMain startupConfig arg (e.withConfig startupConfig contents)
      (initWorld (some startupConfig) []) = .exit u := by
    rw [evalMain_eq, bind_of_done hdone]
    exact hexit
  have hfinal : finalText e startupConfig arg contents =
      some (configDump t.configTop (some timestr)) := by
    unfold finalText
    rw [hdone]
    dsimp only
    rw [hmain]
    exact htext
  refine ⟨t.configTop, hP, ?_⟩
  unfold vtyshEval
  rw [hfinal]
  exact .dumped timestr

/-! ## The commands of the agents -/

/-- Arguments with which the command for a peer is accepted, and stores a line that comes back. -/
structure PeerArgs (key allowedIps endpoint keepalive : Str) : Prop where
  accepted : accepts .wgPeerPersistentKeepalive [key, allowedIps, endpoint, keepalive] = true
  words : ∀ w ∈ [key, allowedIps, endpoint, keepalive],
    IsToken w ∧ '\x00' ∉ w ∧ '%' ∉ w ∧ '"' ∉ w
  short : key.length + allowedIps.length + endpoint.length + keepalive.length ≤ 400

/-- The line of a peer, and the command for it. -/
def peerLine (key allowedIps endpoint keepalive : Str) : Str :=
  str "wg peer " ++ key ++ str " allowed-ips " ++ allowedIps ++ str " endpoint " ++ endpoint ++
    str " persistent-keepalive " ++ keepalive

/-- The line of a key has become this one, or is gone, and the other lines are as they were. -/
structure PeerSet (key : Str) (line : Option Str) (config config' : List Str) : Prop where
  restorable : Restorable config'
  mem : ∀ l, l ∈ config' ↔ line = some l ∨ l ∈ config ∧ configKey l ≠ .peer key

section
variable {key allowedIps endpoint keepalive : Str} {hostConfig : Option Str}

/-- A deletion by the text that the lines with a key start with removes just the line with the
key. -/
theorem Keyed.mem_delLineByleft_iff (h : Keyed config) {key : Key}
    (hp : ∀ {k x}, Stored k x → (line <+: x ↔ k = key)) (l : Str) :
    l ∈ configDelLineByleft config line ↔ l ∈ config ∧ configKey l ≠ key := by
  constructor
  · intro hmem
    exact ⟨List.eraseP_sublist.subset hmem, h.delLineByleft_removes hp l hmem⟩
  · rintro ⟨hmem, hkey⟩
    rw [configDelLineByleft, List.mem_eraseP_of_neg]
    · exact hmem
    · intro hprefix
      exact hkey ((hp (h.stored l hmem)).mp (List.isPrefixOf_iff_prefix.mp hprefix))

theorem peerLine_eq_unwords (key allowedIps endpoint keepalive : Str) :
    peerLine key allowedIps endpoint keepalive = unwords ' ' (storedWords .wgPeerPersistentKeepalive
      [key, allowedIps, endpoint, keepalive]) := by
  simp [peerLine, storedWords, unwords, str]

theorem PeerArgs.length_peerLine (h : PeerArgs key allowedIps endpoint keepalive) :
    (peerLine key allowedIps endpoint keepalive).length ≤ 500 := by
  have hshort := h.short
  simp only [peerLine, List.length_append, str, List.length_cons, List.length_nil]
  omega

theorem PeerArgs.not_mem_peerLine (h : PeerArgs key allowedIps endpoint keepalive) {c : Char}
    (hc : c = '\x00' ∨ c = '%' ∨ c = '"') : c ∉ peerLine key allowedIps endpoint keepalive := by
  have hwords : ∀ w ∈ storedWords .wgPeerPersistentKeepalive [key, allowedIps, endpoint, keepalive],
      c ∉ w := by
    intro w hw
    rcases mem_storedWords _ _ w hw with hkeyword | ⟨n, rfl⟩ | ⟨harg, -⟩
    · have hkeywords : ∀ k ∈ lineKeywords, '\x00' ∉ k ∧ '%' ∉ k ∧ '"' ∉ k := by decide
      obtain ⟨hnul, hpercent, hquote⟩ := hkeywords w hkeyword
      rcases hc with rfl | rfl | rfl <;> assumption
    · apply not_mem_itoa_of
      · rcases hc with rfl | rfl | rfl <;> decide
      · rcases hc with rfl | rfl | rfl <;> decide
    · obtain ⟨-, hnul, hpercent, hquote⟩ := h.words w harg
      rcases hc with rfl | rfl | rfl <;> assumption
  rw [peerLine_eq_unwords]
  intro hmem
  rcases mem_unwords hmem with hblank | ⟨w, hw, hmem⟩
  · rcases hc with rfl | rfl | rfl <;> revert hblank <;> decide
  · exact hwords w hw hmem

theorem PeerArgs.storable (h : PeerArgs key allowedIps endpoint keepalive) :
    Storable .wgPeerPersistentKeepalive [key, allowedIps, endpoint, keepalive] where
  addresses := fun w hw => absurd hw List.not_mem_nil
  keywords := fun p hp => absurd hp List.not_mem_nil
  plain := fun w hw => (h.words w hw).2.2.1
  names := fun hfunc => absurd hfunc (by decide)
  quotes := by
    rw [← peerLine_eq_unwords, List.count_eq_zero_of_not_mem (h.not_mem_peerLine (.inr (.inr rfl)))]
    exact Nat.zero_le 1
  short := by
    rw [← peerLine_eq_unwords]
    exact h.length_peerLine.trans (by decide)

/-- The words of the command. -/
theorem PeerArgs.cmdMakeStrvec (h : PeerArgs key allowedIps endpoint keepalive) :
    Vtysh.cmdMakeStrvec (cstr (peerLine key allowedIps endpoint keepalive)) =
      some [str "wg", str "peer", key, str "allowed-ips", allowedIps, str "endpoint", endpoint,
        str "persistent-keepalive", keepalive] := by
  have hstorable := h.storable
  have hwords := @storedWords_token .wgPeerPersistentKeepalive
    [key, allowedIps, endpoint, keepalive] fun w hw => ⟨(h.words w hw).1, (h.words w hw).2.1⟩
  rw [cstr_of_not_mem (h.not_mem_peerLine (.inl rfl)), peerLine_eq_unwords,
    ← List.append_nil (unwords _ _)]
  exact @cmdMakeStrvec_unwords 'w' ['g'] [] _ (fun w hw => (hwords w hw).1)
    ⟨by decide, by decide⟩ hstorable.quotes (.inl rfl)

/-- The edits of the command set the line of the key. -/
theorem PeerArgs.peerSet (h : PeerArgs key allowedIps endpoint keepalive)
    (hconfig : Restorable config) :
    ∃ config', runEdits config (edits .wgPeerPersistentKeepalive
        [key, allowedIps, endpoint, keepalive]) = some config' ∧
      PeerSet key (some (peerLine key allowedIps endpoint keepalive)) config config' := by
  have hkey : key.length = publickeyMaxLen := by
    have hacc := h.accepted
    simp only [accepts, List.all_cons, Bool.and_eq_true] at hacc
    exact publicKey_length hacc.1
  have hline : snprintf 2048 (peerLine key allowedIps endpoint keepalive) =
      peerLine key allowedIps endpoint keepalive :=
    List.take_of_length_le (h.length_peerLine.trans (by decide))
  have hne : 0 < (peerLine key allowedIps endpoint keepalive).length := by
    simp [peerLine, str]
  have hrun : runEdits config (edits .wgPeerPersistentKeepalive
      [key, allowedIps, endpoint, keepalive]) =
        some (listnodeAddSort (peerLine key allowedIps endpoint keepalive)
          (configDelLineByleft config (str "wg peer " ++ key))) := by
    have htail : str "wg peer " ++ key ++ (str " allowed-ips " ++ allowedIps ++ str " endpoint " ++
        endpoint ++ str " persistent-keepalive " ++ keepalive) =
          peerLine key allowedIps endpoint keepalive := by
      simp only [peerLine, List.append_assoc]
    simp only [edits, peerEdits, runEdits_delLeft, runEdits_add_last, snprintf_peer hkey]
    rw [htail, hline, configAddLine, vasprintf_of_not_mem (h.not_mem_peerLine (.inr (.inl rfl)))]
    exact if_pos hne
  refine ⟨_, hrun, ?_, fun l => ?_⟩
  · exact hconfig.effect (fun w hw => ⟨(h.words w hw).1, (h.words w hw).2.1⟩) (fun _ => h.storable)
      (.inr ⟨h.accepted, .inl hrun⟩)
  · rw [mem_insertAfter, hconfig.1.mem_delLineByleft_iff fun hs => hs.peer_prefix hkey,
      Option.some.injEq, eq_comm]

/-- The command for a peer sets its line. -/
theorem PeerArgs.runs (h : PeerArgs key allowedIps endpoint keepalive) (hconfig : Restorable config)
    (hat : At .config config hostConfig w) :
    Runs (vtyshExecute (peerLine key allowedIps endpoint keepalive)) e w fun _ t =>
      PeerSet key (some (peerLine key allowedIps endpoint keepalive)) config t.configTop := by
  obtain ⟨config', hrun, hset⟩ := h.peerSet hconfig
  have hstore : ∀ t : World, t.configTop = config → t.vty = ⟨.shell, .config⟩ →
      Runs (wgPeerStore .vty key (str " allowed-ips " ++ allowedIps ++ str " endpoint " ++
        endpoint ++ str " persistent-keepalive " ++ keepalive)) e t fun _ u =>
          u.configTop = config' := by
    intro t htop hvty
    simp only [edits, peerEdits, runEdits_delLeft, runEdits_add_last] at hrun
    simp only [wgPeerStore, runs_bind, runs_delLineByleft, runs_addLine, htop]
    refine ⟨config', hrun, ?_⟩
    have hshort := h.short
    simp only [runs_ensureConfig, runs_bind, runs_sprintf, runs_system, runs_pure]
    refine ⟨fun hfile => ?_, fun _ => ⟨?_, rfl⟩⟩
    · exact rfl
    · simp only [List.length_append, str, List.length_cons, List.length_nil, privatekeyPath]
      omega
  refine runs_vtyshExecute_of_lookup (congrArg Vty.node hat.vty) h.cmdMakeStrvec
    (cmdLookup_peerKeepalive key allowedIps endpoint keepalive) (fun _ _ ht => ht) ?_
  have hcall : Runs (wgPeerPersistentKeepalive .vty [key, allowedIps, endpoint, keepalive]) e w
      fun _ t => t.configTop = config' := by
    refine runs_peerChecks h.accepted ?_
    simp only [runs_bind, runs_stat, runs_ite, runs_system]
    exact ⟨fun _ => hstore _ hat.configTop hat.vty, fun _ => hstore _ hat.configTop hat.vty⟩
  refine hcall.mono fun _ t ht => ?_
  rw [ht]
  exact hset

/-- The command that removes a peer removes its line. -/
theorem runs_noPeer (hlen : key.length = publickeyMaxLen)
    (hkey : IsToken key ∧ '\x00' ∉ key ∧ '"' ∉ key) (hconfig : Restorable config)
    (hat : At .config config hostConfig w) :
    Runs (vtyshExecute (str "no wg peer " ++ key)) e w fun _ t =>
      PeerSet key none config t.configTop := by
  have hline : str "no wg peer " ++ key = unwords ' ' [str "no", str "wg", str "peer", key] := by
    simp [unwords, str]
  have hnul : '\x00' ∉ str "no wg peer " ++ key := by
    simp [str, hkey.2.1]
  have hquote : '"' ∉ str "no wg peer " ++ key := by
    simp [str, hkey.2.2]
  have hwords : ∀ w ∈ [str "no", str "wg", str "peer", key], IsToken w := by
    have hkeywords : ∀ w ∈ [str "no", str "wg", str "peer"], IsToken w := by decide
    intro w hw
    rcases List.mem_append.mp (show w ∈ [str "no", str "wg", str "peer"] ++ [key] from hw) with
      hw | hw
    · exact hkeywords w hw
    · rw [List.mem_singleton.mp hw]
      exact hkey.1
  have hstrvec : cmdMakeStrvec (cstr (str "no wg peer " ++ key)) =
      some [str "no", str "wg", str "peer", key] := by
    rw [cstr_of_not_mem hnul, ← List.append_nil (_ ++ _), hline]
    refine @cmdMakeStrvec_unwords 'n' ['o'] [] _ hwords ⟨by decide, by decide⟩ ?_ (.inl rfl)
    exact (List.count_eq_zero_of_not_mem (hline ▸ hquote)).trans_le (Nat.zero_le 1)
  have hcut : snprintf 1024 (str "wg peer " ++ key) = str "wg peer " ++ key :=
    List.take_of_length_le (by simp [hlen, str, publickeyMaxLen])
  have hset : PeerSet key none config (configDelLineByleft config (str "wg peer " ++ key)) := by
    refine ⟨?_, fun l => ?_⟩
    · exact ⟨hconfig.1.delLineByleft _, fun l hl => hconfig.2 l (List.eraseP_sublist.subset hl)⟩
    · rw [hconfig.1.mem_delLineByleft_iff fun hs => hs.peer_prefix hlen]
      simp
  refine runs_vtyshExecute_of_lookup (congrArg Vty.node hat.vty) hstrvec (cmdLookup_noPeer key)
    (fun _ _ ht => ht) ?_
  have hcall : Runs (noWgPeer .vty [key]) e w fun _ t =>
      t.configTop = configDelLineByleft config (str "wg peer " ++ key) := by
    simp only [noWgPeer, runs_bind, runs_delLineByleft, runs_ensureConfig, runs_sprintf,
      runs_system, runs_pure, hcut, hat.configTop]
    refine ⟨fun _ => rfl, fun _ => ⟨?_, rfl⟩⟩
    simp [str, hlen, publickeyMaxLen]
  refine hcall.mono fun _ t ht => ?_
  rw [ht]
  exact hset

/-- `write` leaves the lines as they are. -/
theorem runs_write (hat : At .config config (some startupConfig) w) :
    Runs (vtyshExecute (str "write")) (e.withConfig startupConfig contents) w fun _ t =>
      t.configTop = config := by
  have hlookup : cmdLookup .byCompletion (cmdNodeVector .config) [str "write"] =
      .run (entry configWriteCmd [str "write"] []) [] := by
    decide +kernel
  refine runs_vtyshExecute_of_lookup (congrArg Vty.node hat.vty) (by decide) hlookup
    (fun _ _ ht => ht) ?_
  have hcall : Runs (configWriteFile []) (e.withConfig startupConfig contents) w
      fun _ t => t.configTop = config := by
    have hdump : ∀ t : World, t.configTop = config →
        Runs (dumpWith (fprintf startupConfig)) (e.withConfig startupConfig contents) t
          fun _ u => u.configTop = config := by
      intro t ht
      simp only [dumpWith, runs_bind, runs_get, runs_ask, runs_ite, runs_vtyOut]
      exact ⟨fun _ => ht, fun _ => ht⟩
    simp only [configWriteFile, runs_bind, runs_get, hat.hostConfig, openWrite, runs_request,
      runs_ite, runs_vtyOut, runs_pure]
    refine ⟨fun _ => hdump _ hat.configTop, fun _ => hat.configTop⟩
  exact hcall

end

end

end QrWireguard.Vtysh
