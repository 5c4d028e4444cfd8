import QrWireguard.Vtysh.OneLine

/-!
# Which lines a command removes

The commands that set or remove the address of an interface, a route, a peer or a bridge
delete by the beginning of a line, without a word boundary. Such a command removes only lines
of its own key exactly when the first line that starts with the text it deletes by has that
key.
-/

namespace QrWireguard.Vtysh
open Cli Proc

/-! ## Edits and counts -/

theorem count_insertAfter (v x : Str) (l : List Str) :
    (insertAfter v l).count x = l.count x + if v = x then 1 else 0 := by
  rw [(perm_insertAfter v l).count_eq, List.count_cons]
  simp

section Edits
variable {config config' : List Str} {es : List Edit} {x : Str}

/-- A line after edits was there before, or one of them added it. -/
theorem mem_runEdits (h : runEdits config es = some config') (hx : x ∈ config') :
    x ∈ config ∨ ∃ line args, Edit.add line args ∈ es ∧ vasprintf line args = some x := by
  induction es generalizing config with
  | nil =>
    rw [runEdits_nil, Option.some.injEq] at h
    exact .inl (h ▸ hx)
  | cons edit es ih =>
    obtain ⟨config₁, hedit, hrun⟩ := Option.bind_eq_some_iff.mp h
    rcases ih hrun with hmem | ⟨line, args, hmem, hv⟩
    · cases edit with
      | del line => exact .inl (List.eraseP_sublist.subset (Option.some.inj hedit ▸ hmem))
      | delLeft line => exact .inl (List.eraseP_sublist.subset (Option.some.inj hedit ▸ hmem))
      | add line args =>
        obtain ⟨info, hinfo, rfl | ⟨-, rfl⟩⟩ := configAddLine_eq_some hedit
        · rcases mem_insertAfter.mp hmem with rfl | hmem
          · exact .inr ⟨line, args, by simp, hinfo⟩
          · exact .inl hmem
        · exact .inl hmem
    · exact .inr ⟨line, args, by simp [hmem], hv⟩

/-- Edits take away only lines that one of them looks for. -/
theorem count_runEdits_lt (h : runEdits config es = some config')
    (hlt : config'.count x < config.count x) :
    Edit.del x ∈ es ∨ ∃ p, Edit.delLeft p ∈ es ∧ p <+: x := by
  induction es generalizing config with
  | nil =>
    rw [runEdits_nil, Option.some.injEq] at h
    exact absurd hlt (by simp [h])
  | cons edit es ih =>
    obtain ⟨config₁, hedit, hrun⟩ := Option.bind_eq_some_iff.mp h
    by_cases hlt₁ : config'.count x < config₁.count x
    · rcases ih hrun hlt₁ with hmem | ⟨p, hmem, hp⟩
      · exact .inl (by simp [hmem])
      · exact .inr ⟨p, by simp [hmem], hp⟩
    · -- the first edit takes the line away
      have hlt₂ : config₁.count x < config.count x := by omega
      cases edit with
      | del line =>
        rw [← Option.some.inj hedit] at hlt₂
        have hfind : config.find? (· == line) = some x := count_eraseP_lt_iff.mp hlt₂
        have hx : (x == line) = true := List.find?_some (p := (· == line)) hfind
        exact .inl (by simp [beq_iff_eq.mp hx])
      | delLeft line =>
        rw [← Option.some.inj hedit] at hlt₂
        refine .inr ⟨line, by simp, List.isPrefixOf_iff_prefix.mp ?_⟩
        exact List.find?_some (count_eraseP_lt_iff.mp hlt₂)
      | add line args =>
        obtain ⟨info, -, rfl | ⟨-, rfl⟩⟩ := configAddLine_eq_some hedit
        · rw [listnodeAddSort, count_insertAfter] at hlt₂; omega
        · omega

/-- Replacing the first line that starts with `p`: the lines taken away have the key `k` if and
only if that line has it, when the new line has it or does not start with `p`. -/
theorem removed_hasKey_iff {p k line : Str}
    (h : runEdits config [.delLeft p, .add line []] = some config')
    (hown : ∀ info, vasprintf line [] = some info → p <+: info → HasKey ' ' k info) :
    (∀ x, config'.count x < config.count x → HasKey ' ' k x) ↔
      ∀ x, config.find? (p.isPrefixOf ·) = some x → HasKey ' ' k x := by
  rw [runEdits_delLeft, runEdits_add_last] at h
  obtain ⟨info, hinfo, hconfig⟩ := configAddLine_eq_some h
  refine ⟨fun hall x hx => ?_, fun hfirst x hlt => ?_⟩
  · have hlt : (configDelLineByleft config p).count x < config.count x :=
      count_eraseP_lt_iff.mpr hx
    rcases hconfig with rfl | ⟨-, rfl⟩
    · by_cases hxi : info = x
      · subst hxi
        refine hown info hinfo (List.isPrefixOf_iff_prefix.mp ?_)
        exact List.find?_some hx
      · exact hall x (by rw [listnodeAddSort, count_insertAfter, if_neg hxi]; exact hlt)
    · exact hall x hlt
  · have hlt' : (configDelLineByleft config p).count x < config.count x := by
      rcases hconfig with rfl | ⟨-, rfl⟩
      · rw [listnodeAddSort, count_insertAfter] at hlt
        omega
      · exact hlt
    exact hfirst x (count_eraseP_lt_iff.mp hlt')

end Edits

/-! ## Formats -/

/-- A format is printed blank by blank. -/
theorem vasprintf_append_blank {u r out : Str} (h : vasprintf (u ++ ' ' :: r) [] = some out) :
    ∃ v o, vasprintf u [] = some v ∧ vasprintf r [] = some o ∧ out = v ++ ' ' :: o := by
  match u with
  | [] =>
    rw [List.nil_append, vasprintf_cons (by decide)] at h
    obtain ⟨o, ho, rfl⟩ := Option.map_eq_some_iff.mp h
    exact ⟨[], o, rfl, ho, rfl⟩
  | c :: u =>
    by_cases hc : c = '%'
    · subst hc
      match u with
      | [] => simp [vasprintf] at h
      | d :: u =>
        by_cases hd : d = '%'
        · subst hd
          simp only [List.cons_append, vasprintf, if_true] at h
          obtain ⟨out', hout', rfl⟩ := Option.map_eq_some_iff.mp h
          obtain ⟨v, o, hv, ho, rfl⟩ := vasprintf_append_blank hout'
          exact ⟨'%' :: v, o, by simp [vasprintf, hv], ho, rfl⟩
        · simp [vasprintf, hd] at h
    · rw [List.cons_append, vasprintf_cons hc] at h
      obtain ⟨out', hout', rfl⟩ := Option.map_eq_some_iff.mp h
      obtain ⟨v, o, hv, ho, rfl⟩ := vasprintf_append_blank hout'
      exact ⟨c :: v, o, by rw [vasprintf_cons hc, hv]; rfl, ho, rfl⟩

/-- Two texts that are printed alike are the same. -/
theorem vasprintf_inj {u u' out : Str} (h : vasprintf u [] = some out)
    (h' : vasprintf u' [] = some out) : u = u' := by
  induction out generalizing u u' with
  | nil =>
    rcases vasprintf_cases h with ⟨rfl, -⟩ | ⟨_, _, _, _, _, ho, _⟩ | ⟨_, _, _, ho, _⟩
    · rcases vasprintf_cases h' with ⟨rfl, -⟩ | ⟨_, _, _, _, _, ho, _⟩ | ⟨_, _, _, ho, _⟩
      · rfl
      · cases ho
      · cases ho
    · cases ho
    · cases ho
  | cons c out ih =>
    rcases vasprintf_cases h with ⟨-, ho⟩ | ⟨d, t, o, hd, rfl, ho, ht⟩ | ⟨t, o, rfl, ho, ht⟩
    · cases ho
    · cases ho
      rcases vasprintf_cases h' with
        ⟨-, ho'⟩ | ⟨d', t', o', hd', rfl, ho', ht'⟩ | ⟨t', o', rfl, ho', ht'⟩
      · cases ho'
      · cases ho'
        rw [ih ht ht']
      · cases ho'
        exact absurd rfl hd
    · cases ho
      rcases vasprintf_cases h' with
        ⟨-, ho'⟩ | ⟨d', t', o', hd', rfl, ho', ht'⟩ | ⟨t', o', rfl, ho', ht'⟩
      · cases ho'
      · cases ho'
        exact absurd rfl hd'
      · cases ho'
        rw [ih ht ht']

theorem vasprintf_isTail {u rest out : Str} (hr : IsTail rest)
    (h : vasprintf (u ++ rest) [] = some out) :
    ∃ v o, vasprintf u [] = some v ∧ IsTail o ∧ out = v ++ o := by
  rcases hr with rfl | ⟨r, rfl⟩
  · exact ⟨out, [], by simpa using h, .inl rfl, by simp⟩
  · obtain ⟨v, o, hv, -, rfl⟩ := vasprintf_append_blank h
    exact ⟨v, ' ' :: o, hv, .inr ⟨o, rfl⟩, rfl⟩

/-- A line stored under a key that starts with the text of that key has it: a percent sign in
the key would have made the stored key shorter. -/
theorem printed_hasKey {kw u rest info : Str} (hkw : '%' ∉ kw) (hu : ' ' ∉ u)
    (hr : IsTail rest) (h : vasprintf (kw ++ (u ++ rest)) [] = some info)
    (hpre : kw ++ u <+: info) : HasKey ' ' (kw ++ u) info := by
  rw [vasprintf_append hkw] at h
  obtain ⟨out, hout, rfl⟩ := Option.map_eq_some_iff.mp h
  obtain ⟨v, o, hv, ho, rfl⟩ := vasprintf_isTail hr hout
  have hpre' : u <+: v ++ o := (List.prefix_append_right_inj kw).mp hpre
  have hle : u.length ≤ v.length := by
    by_contra hlt
    have hvu : v <+: u :=
      List.prefix_of_prefix_length_le (List.prefix_append _ _) hpre' (by omega)
    obtain ⟨w, rfl⟩ := hvu
    have hwo : w <+: o := (List.prefix_append_right_inj v).mp hpre'
    cases w with
    | nil => simp at hlt
    | cons c w =>
      obtain ⟨s, rfl⟩ := hwo
      rcases ho with ho | ⟨r, ho⟩
      · simp at ho
      · simp only [List.cons_append, List.cons.injEq] at ho
        simp [ho.1] at hu
  have hplain : '%' ∉ u := fun hm => by have := (vasprintf_length hv).2 hm; omega
  rw [vasprintf_of_not_mem hplain, Option.some.injEq] at hv
  subst hv
  rcases ho with rfl | ⟨r, rfl⟩
  · exact .inl (by simp)
  · exact .inr ⟨r, by simp⟩

/-! ## The commands -/

/-- The commands that set or remove a line by its key. -/
def keyedCommands : List CmdFunc :=
  [.ipAddress, .ipAddressDhcp, .noIpAddress, .noIpRoute, .wgPeerPublicKey, .wgPeerAllowedIps,
    .wgPeerEndpoint, .wgPeerPersistentKeepalive, .noWgPeer, .bridgeAdd, .noBridgeAdd]

/-- The keyword and the key of a command, as they stand in a line. -/
def keyText : CmdFunc → List Str → Str
  | .ipAddress, argv | .ipAddressDhcp, argv | .noIpAddress, argv =>
    str "ip address " ++ argv.headD []
  | .noIpRoute, argv => str "ip route " ++ unwords ' ' argv
  | .bridgeAdd, argv | .noBridgeAdd, argv => str "bridge " ++ itoa (atoi (argv.headD []))
  | _, argv => str "wg peer " ++ argv.headD []

/-- The text a command deletes by: `no_wg_peer` prints it into 1024 bytes. -/
def delText : CmdFunc → List Str → Str
  | .noWgPeer, argv => snprintf 1024 (keyText .noWgPeer argv)
  | func, argv => keyText func argv

/-- Only lines with the command's key were taken away. -/
def OnlyOwn (func : CmdFunc) (argv config config' : List Str) : Prop :=
  ∀ line, config'.count line < config.count line → HasKey ' ' (keyText func argv) line

/-- The first line that starts with the text the command deletes by has the command's key. -/
def OwnFirst (func : CmdFunc) (argv config : List Str) : Prop :=
  ∀ line, config.find? ((delText func argv).isPrefixOf ·) = some line →
    HasKey ' ' (keyText func argv) line

/-- The question of `no_ip_address` is not answered with a refusal. -/
def Confirmed (func : CmdFunc) (e : Env) (w : World) : Prop :=
  func = .noIpAddress → (e.stdin (.out (str "Do you really want to down the ip address ? (y/n):\n") ::
    w.trace)).any (fun line => firstByte line ≠ 'y') = false

/-! ## Bridges -/

/-- The lines of bridges have one digit as number. -/
def BridgeForm (config : List Str) : Prop :=
  ∀ line ∈ config, str "bridge " <+: line →
    line = str "bridge disable" ∨ ∃ n : Int, (1 ≤ n ∧ n ≤ 9) ∧
      HasKey ' ' (str "bridge " ++ itoa n) line

theorem BridgeForm.hasKey {config : List Str} (h : BridgeForm config) {n : Int}
    (hn : 1 ≤ n ∧ n ≤ 9) {line : Str} (hmem : line ∈ config)
    (hp : str "bridge " ++ itoa n <+: line) : HasKey ' ' (str "bridge " ++ itoa n) line := by
  obtain ⟨d, hd, hitoa⟩ := itoa_bridge hn
  rcases h line hmem ((List.prefix_append _ _).trans hp) with rfl | ⟨m, hm, hkey⟩
  · have hne : d ≠ 'd' := by rintro rfl; revert hd; decide
    simp [hitoa, str, hne] at hp
  · obtain ⟨d', -, hitoa'⟩ := itoa_bridge hm
    have hdd : d = d' := by
      have hp' := hkey.isPrefix
      obtain ⟨r, rfl⟩ := hp
      rw [hitoa', hitoa, List.append_assoc, List.prefix_append_right_inj] at hp'
      simpa [eq_comm] using hp'
    rw [hitoa, hdd, ← hitoa']
    exact hkey

/-- Only the bridge handlers add a line that starts like a line of a bridge. -/
theorem edits_add_first {func : CmdFunc} {argv args : List Str} {line : Str}
    (hmem : Edit.add line args ∈ edits func argv)
    (hb : func ≠ .bridgeDisable ∧ func ≠ .bridgeAdd) :
    ∃ c rest, line = c :: rest ∧ c ≠ '%' ∧ c ≠ 'b' := by
  fun_cases edits func argv
  case case1 => exact absurd rfl hb.1
  case case3 => exact absurd rfl hb.2
  case case26 arg =>
    simp only [edits, List.mem_cons, reduceCtorEq, false_or, List.not_mem_nil, or_false,
      Edit.add.injEq] at hmem
    obtain ⟨rfl, -⟩ := hmem
    split <;> exact ⟨_, _, rfl, by decide, by decide⟩
  -- the texts of the other lines start with a literal
  all_goals
    simp_all only [edits, ruleEdits, peerEdits, List.mem_cons, reduceCtorEq, false_or,
      List.not_mem_nil, or_false, Edit.add.injEq]
  all_goals exact ⟨_, _, rfl, by decide, by decide⟩

theorem edits_bridgeAdd (argv : List Str) :
    (∃ arg eth1 eth2, argv = [arg, eth1, eth2]) ∨ edits .bridgeAdd argv = [] := by
  match argv with
  | [arg, eth1, eth2] => exact .inl ⟨arg, eth1, eth2, rfl⟩
  | [] | [_] | [_, _] | _ :: _ :: _ :: _ :: _ => exact .inr rfl

theorem BridgeForm.effect {func : CmdFunc} {argv config config' : List Str} (h : BridgeForm config)
    (he : Effect func argv config config') : BridgeForm config' := by
  have hadd : ∀ es config₁, accepts func argv = true →
      (∀ line args, Edit.add line args ∈ es → Edit.add line args ∈ edits func argv) →
      runEdits config es = some config₁ → BridgeForm config₁ := by
    intro es config₁ hacc hes hrun x hx hp
    rcases mem_runEdits hrun hx with hold | ⟨line, args, hmem, hv⟩
    · exact h x hold hp
    · by_cases hdis : func = .bridgeDisable
      · subst hdis
        have := hes _ _ hmem
        simp only [edits, ruleEdits, List.mem_cons, reduceCtorEq, false_or, List.not_mem_nil,
          or_false, Edit.add.injEq] at this
        obtain ⟨rfl, rfl⟩ := this
        exact .inl (Option.some.inj hv).symm
      · by_cases hadd : func = .bridgeAdd
        · subst hadd
          have hmem' := hes _ _ hmem
          rcases edits_bridgeAdd argv with ⟨arg, eth1, eth2, rfl⟩ | hnil
          · have hn : 1 ≤ atoi arg ∧ atoi arg ≤ 9 := by
              simp only [accepts, Bool.and_eq_true, decide_eq_true_eq] at hacc
              exact hacc.1.1
            simp only [edits, List.mem_cons, reduceCtorEq, false_or, List.not_mem_nil, or_false,
              Edit.add.injEq] at hmem'
            obtain ⟨rfl, rfl⟩ := hmem'
            obtain ⟨out, hout, rfl⟩ := printed_bridge hn hv
            refine .inr ⟨atoi arg, hn, ?_⟩
            rcases hout with rfl | ⟨r, rfl⟩
            · exact .inl (by simp)
            · exact .inr ⟨r, rfl⟩
          · simp [hnil] at hmem'
        · obtain ⟨c, rest, rfl, hc, hcb⟩ := edits_add_first (hes _ _ hmem) ⟨hdis, hadd⟩
          rw [vasprintf_cons hc] at hv
          obtain ⟨out, -, rfl⟩ := Option.map_eq_some_iff.mp hv
          simp [str, hcb.symm] at hp
  rcases he with rfl | ⟨hacc, hrun | hrun⟩
  · exact h
  · exact hadd _ _ hacc (fun _ _ hm => hm) hrun
  · refine hadd _ _ hacc (fun line args hm => ?_) hrun
    rcases List.mem_append.mp hm with hm | hm
    · exact hm
    · fun_cases undoEdits func argv <;> simp_all [undoEdits]

theorem bridgeForm_of_reach {e : Env} {ok : Input → Prop} {w : World} (h : ShellReach e ok w) :
    BridgeForm w.configTop :=
  h.invariant (I := fun w => BridgeForm w.configTop)
    (fun w hw => by rw [show w.configTop = [] from hw]; intro line hl; simp at hl)
    fun _ _ _ hw _ hst => ShellStep.config hst hw fun _ _ _ _ _ _ hb he => hb.effect he

/-! ## What an accepted command does -/

section Success
variable {e : Env} {w : World} {v : VtyRef}

/-- The edits of a command that ends well were made. -/
def Edited (func : CmdFunc) (argv config : List Str) (ret : Int) (t : World) : Prop :=
  ret = cmdSuccess → runEdits config (edits func argv) = some t.configTop

theorem sat_edited_ensureConfig {func : CmdFunc} {argv : List Str} {config : List Str}
    {rest : Cli Int} (hrun : runEdits w.configTop (edits func argv) = some config)
    (hrest : KeepsConfig rest) :
    Sat (ensureConfig v rest) e (w.setConfig config) (Edited func argv w.configTop) := by
  rw [sat_ensureConfig]
  refine ⟨fun _ _ => hrun, fun _ => hrest.sat fun _ t ht _ => ?_⟩
  rw [ht]
  exact hrun

theorem sat_edited_notSupportedInterface (name : Str) (func : CmdFunc) (argv config : List Str) :
    Sat (notSupportedInterface name) e w (Edited func argv config) := by
  simp [notSupportedInterface, Edited]

theorem ipAddress_edited (argv : List Str) :
    Sat (ipAddress v argv) e w (Edited .ipAddress argv w.configTop) := by
  unfold ipAddress
  split
  · next name addr mask =>
    simp only [sat_ite, sat_bind, sat_sprintf, sat_delLineByleft, sat_addLine,
      World.setConfig_setConfig]
    refine ⟨fun _ => sat_edited_notSupportedInterface _ _ _ _, fun _ _ _ config hadd => ?_⟩
    exact sat_edited_ensureConfig ((runEdits_add_last _ _ _).trans hadd)
      (keepsConfig_ipAddressApply name addr mask)
  · exact sat_undefined

theorem ipAddressDhcp_edited (argv : List Str) :
    Sat (ipAddressDhcp v argv) e w (Edited .ipAddressDhcp argv w.configTop) := by
  unfold ipAddressDhcp
  split
  · simp only [sat_ite, sat_bind, sat_sprintf, sat_delLineByleft, sat_addLine,
      World.setConfig_setConfig]
    refine ⟨fun _ => sat_edited_notSupportedInterface _ _ _ _, fun _ _ _ config hadd => ?_⟩
    exact sat_edited_ensureConfig ((runEdits_add_last _ _ _).trans hadd)
      keepsConfig_ipAddressDhcpApply
  · exact sat_undefined

theorem noIpAddress_edited (argv : List Str) (hyes : Confirmed .noIpAddress e w) :
    Sat (noIpAddress argv) e w (Edited .noIpAddress argv w.configTop) := by
  unfold noIpAddress
  split
  · next name =>
    simp only [sat_ite, sat_bind, sat_vtyOut, sat_fgetsStdin, sat_pure, sat_sprintf,
      sat_delLineByleft]
    refine ⟨fun _ => sat_edited_notSupportedInterface _ _ _ _, fun _ => ⟨fun hno => ?_, ?_⟩⟩
    · rw [World.emit_trace, hyes rfl] at hno
      simp at hno
    · intro _ _
      refine (keepsConfig_noIpAddressApply name).sat fun _ t ht _ => ?_
      rw [ht]
      rfl
  · exact sat_undefined

theorem noIpRoute_edited (argv : List Str) :
    Sat (noIpRoute argv) e w (Edited .noIpRoute argv w.configTop) := by
  unfold noIpRoute
  split
  · simp only [sat_bind, sat_sprintf, sat_delLineByleft]
    intro _
    refine keepsConfig_noIpRouteApply.sat fun _ t ht _ => ?_
    rw [ht]
    rfl
  · exact sat_undefined

theorem noWgPeer_edited (argv : List Str) :
    Sat (noWgPeer v argv) e w (Edited .noWgPeer argv w.configTop) := by
  unfold noWgPeer
  split
  · simp only [sat_bind, sat_delLineByleft]
    exact sat_edited_ensureConfig rfl fun e w => by simp
  · exact sat_undefined

/-- The code of a check that fails is not the one of success. -/
def PeerCheck.Refuses (check : PeerCheck) : Prop :=
  ∀ text code, check = .fail text code → code ≠ cmdSuccess

theorem refuses_checkPublicKey (key : Str) : (checkPublicKey key).Refuses := by
  unfold PeerCheck.Refuses checkPublicKey
  split <;> simp +contextual [eq_comm]

theorem refuses_checkAllowedIps (allowedIps : Str) : (checkAllowedIps allowedIps).Refuses := by
  unfold PeerCheck.Refuses checkAllowedIps
  split <;> simp +contextual [eq_comm]

theorem refuses_checkEndpoint (endpoint : Str) : (checkEndpoint endpoint).Refuses := by
  unfold PeerCheck.Refuses checkEndpoint
  split
  · simp +contextual [eq_comm]
  · split <;> simp +contextual [eq_comm]

theorem refuses_checkKeepalive (keepalive : Str) : (checkKeepalive keepalive).Refuses := by
  unfold PeerCheck.Refuses checkKeepalive
  split <;> simp +contextual [eq_comm]

/-- Checks that end well have all passed. -/
theorem sat_peerChecks_success {checks : List PeerCheck} {rest : Cli Int}
    {Q : Int → World → Prop} (hrefuse : ∀ check ∈ checks, check.Refuses)
    (hpass : checks.all PeerCheck.passes = true → Sat rest e w Q)
    (hfail : ∀ code t, code ≠ cmdSuccess → Q code t) : Sat (peerChecks checks rest) e w Q := by
  induction checks with
  | nil => exact hpass rfl
  | cons check checks ih =>
    cases check with
    | ok =>
      exact ih (fun c hc => hrefuse c (by simp [hc])) fun h =>
        hpass (by simpa [PeerCheck.passes] using h)
    | fail text code => exact hfail code _ (hrefuse _ (by simp) text code rfl)

theorem wgPeer_edited {func : CmdFunc} {argv : List Str} {checks : List PeerCheck}
    {key tail : Str} (hrefuse : ∀ check ∈ checks, check.Refuses)
    (hedits : edits func argv = peerEdits key tail) :
    Sat (wgPeer v checks key tail) e w (Edited func argv w.configTop) := by
  refine sat_peerChecks_success hrefuse (fun _ => ?_) fun code t hcode h => absurd h hcode
  have hstore : ∀ w' : World, w'.configTop = w.configTop →
      Sat (wgPeerStore v key tail) e w' (Edited func argv w.configTop) := by
    intro w' hw'
    simp only [wgPeerStore, sat_bind, sat_delLineByleft, sat_addLine, World.setConfig_setConfig]
    intro config hadd
    rw [← hw']
    refine sat_edited_ensureConfig ?_ (keepsConfig_wgSet _ _)
    rw [hedits]
    exact (runEdits_add_last _ _ _).trans hadd
  simp only [sat_bind, sat_stat, sat_ite, sat_system]
  exact ⟨fun _ => hstore _ rfl, fun _ => hstore _ rfl⟩

end Success

/-! ## Only own lines -/

section OnlyOwn
variable {e : Env} {w t : World} {v : VtyRef} {argv : List Str} {r : Int}

theorem removed_hasKey_iff_of_del {p k : Str} {config config' : List Str}
    (h : runEdits config [.delLeft p] = some config') :
    (∀ x, config'.count x < config.count x → HasKey ' ' k x) ↔
      ∀ x, config.find? (p.isPrefixOf ·) = some x → HasKey ' ' k x := by
  rw [← Option.some.inj h]
  exact forall_congr' fun x => imp_congr_left count_eraseP_lt_iff

theorem ipAddress_onlyOwn (hargs : ∀ a ∈ argv, ' ' ∉ a)
    (hrun : ipAddress v argv e w = .done cmdSuccess t) :
    OnlyOwn .ipAddress argv w.configTop t.configTop ↔ OwnFirst .ipAddress argv w.configTop := by
  have hed := Sat.of_done (ipAddress_edited argv) hrun rfl
  unfold ipAddress at hrun
  split at hrun
  · next name addr mask =>
    refine removed_hasKey_iff hed fun info hinfo hp => ?_
    rw [List.append_assoc _ _ mask, List.append_assoc _ addr, List.append_assoc _ (str " "),
      List.append_assoc] at hinfo
    exact printed_hasKey (by decide) (hargs name (by simp)) (.inr ⟨_, rfl⟩) hinfo hp
  · cases hrun

theorem ipAddressDhcp_onlyOwn (hargs : ∀ a ∈ argv, ' ' ∉ a)
    (hrun : ipAddressDhcp v argv e w = .done cmdSuccess t) :
    OnlyOwn .ipAddressDhcp argv w.configTop t.configTop ↔
      OwnFirst .ipAddressDhcp argv w.configTop := by
  have hed := Sat.of_done (ipAddressDhcp_edited argv) hrun rfl
  unfold ipAddressDhcp at hrun
  split at hrun
  · next name =>
    refine removed_hasKey_iff hed fun info hinfo hp => ?_
    rw [List.append_assoc] at hinfo
    exact printed_hasKey (by decide) (hargs name (by simp)) (.inr ⟨_, rfl⟩) hinfo hp
  · cases hrun

theorem noIpAddress_onlyOwn (hyes : Confirmed .noIpAddress e w)
    (hrun : noIpAddress argv e w = .done cmdSuccess t) :
    OnlyOwn .noIpAddress argv w.configTop t.configTop ↔
      OwnFirst .noIpAddress argv w.configTop := by
  have hed := Sat.of_done (noIpAddress_edited argv hyes) hrun rfl
  unfold noIpAddress at hrun
  split at hrun
  · exact removed_hasKey_iff_of_del hed
  · cases hrun

theorem noIpRoute_onlyOwn (hrun : noIpRoute argv e w = .done cmdSuccess t) :
    OnlyOwn .noIpRoute argv w.configTop t.configTop ↔ OwnFirst .noIpRoute argv w.configTop := by
  have hed := Sat.of_done (noIpRoute_edited argv) hrun rfl
  unfold noIpRoute at hrun
  split at hrun
  · next dest mask =>
    have hkey : keyText .noIpRoute [dest, mask] = str "ip route " ++ dest ++ str " " ++ mask := by
      simp [keyText, unwords, str]
    unfold OnlyOwn OwnFirst
    rw [show delText .noIpRoute [dest, mask] = _ from hkey, hkey]
    exact removed_hasKey_iff_of_del hed
  · cases hrun

theorem noWgPeer_onlyOwn (hrun : noWgPeer v argv e w = .done cmdSuccess t) :
    OnlyOwn .noWgPeer argv w.configTop t.configTop ↔ OwnFirst .noWgPeer argv w.configTop := by
  have hed := Sat.of_done (noWgPeer_edited argv) hrun rfl
  unfold noWgPeer at hrun
  split at hrun
  · exact removed_hasKey_iff_of_del hed
  · cases hrun

theorem noBridgeAdd_edited (argv : List Str) :
    Sat (noBridgeAdd v argv) e w fun r t => r = cmdSuccess →
      accepts .noBridgeAdd argv = true ∧
        runEdits w.configTop (edits .noBridgeAdd argv) = some t.configTop := by
  unfold noBridgeAdd
  split
  · next arg =>
    simp only [sat_ite, sat_bind, sat_vtyOut, sat_pure, sat_delLineByleft]
    refine ⟨fun _ => by simp, fun hnum => ?_⟩
    have hacc : accepts .noBridgeAdd [arg] = true := decide_eq_true (by omega)
    have hed : Edited .noBridgeAdd [arg] w.configTop cmdSuccess
        (w.setConfig (configDelLineByleft w.configTop
          (snprintf 1024 (str "bridge " ++ itoa (atoi arg))))) := fun _ => rfl
    refine (sat_edited_ensureConfig (hed rfl) fun e w => by simp).mono fun r t ht hr => ?_
    exact ⟨hacc, ht hr⟩
  · exact sat_undefined

theorem noBridgeAdd_onlyOwn (hrun : noBridgeAdd v argv e w = .done cmdSuccess t) :
    OnlyOwn .noBridgeAdd argv w.configTop t.configTop ↔
      OwnFirst .noBridgeAdd argv w.configTop := by
  obtain ⟨hacc, hed⟩ := Sat.of_done (noBridgeAdd_edited argv) hrun rfl
  unfold noBridgeAdd at hrun
  split at hrun
  · next arg =>
    have hn : 1 ≤ atoi arg ∧ atoi arg ≤ 9 := by simpa [accepts] using hacc
    simp only [edits, snprintf_bridge hn] at hed
    exact removed_hasKey_iff_of_del hed
  · cases hrun

/-- A handler of a peer that ends well has accepted the key. -/
theorem wgPeer_publicKey {checks : List PeerCheck} {key tail : Str}
    (hrefuse : ∀ check ∈ checks, check.Refuses) (hkey : checkPublicKey key ∈ checks)
    (hrun : wgPeer v checks key tail e w = .done cmdSuccess t) : key.length = publickeyMaxLen := by
  have hsat : Sat (wgPeer v checks key tail) e w fun r _ =>
      r = cmdSuccess → checks.all PeerCheck.passes = true :=
    sat_peerChecks_success hrefuse (fun h => sat_iff.mpr fun _ _ _ _ => h)
      fun _ _ hcode hr => absurd hr hcode
  exact publicKey_length (List.all_eq_true.mp (Sat.of_done hsat hrun rfl) _ hkey)

theorem wgPeer_onlyOwn {func : CmdFunc} {checks : List PeerCheck} {key tail : Str}
    (hrefuse : ∀ check ∈ checks, check.Refuses) (hkey : checkPublicKey key ∈ checks)
    (hedits : edits func argv = peerEdits key tail)
    (htext : keyText func argv = str "wg peer " ++ key)
    (hdel : delText func argv = str "wg peer " ++ key) (hargs : ' ' ∉ key) (ht : IsTail tail)
    (hrun : wgPeer v checks key tail e w = .done cmdSuccess t) :
    OnlyOwn func argv w.configTop t.configTop ↔ OwnFirst func argv w.configTop := by
  have hed := Sat.of_done (wgPeer_edited hrefuse hedits) hrun rfl
  have hlen := wgPeer_publicKey hrefuse hkey hrun
  unfold OnlyOwn OwnFirst
  rw [htext, hdel]
  rw [hedits, peerEdits, snprintf_peer hlen] at hed
  refine removed_hasKey_iff hed fun info hinfo hp => ?_
  rw [snprintf_append (by simp [hlen, str, publickeyMaxLen]), List.append_assoc] at hinfo
  exact printed_hasKey (by decide) hargs (ht.take _) hinfo hp

/-- In a state whose bridge lines have one digit, `bridge_add` removes only lines of its
bridge, also when it takes the bridge back. -/
theorem bridgeAdd_onlyOwn (hform : BridgeForm w.configTop)
    (hrun : bridgeAdd v argv e w = .done cmdSuccess t) :
    OnlyOwn .bridgeAdd argv w.configTop t.configTop ∧ OwnFirst .bridgeAdd argv w.configTop := by
  have heff := Sat.of_done (bridgeAdd_effect argv) hrun
  unfold bridgeAdd at hrun
  split at hrun
  · next arg eth1 eth2 =>
    have hn : 1 ≤ atoi arg ∧ atoi arg ≤ 9 := by
      by_contra hn
      rw [if_pos (by omega)] at hrun
      cases hrun
    constructor
    · intro x hlt
      have hmem : x ∈ w.configTop := List.count_pos_iff.mp (by omega)
      have hdel : ∀ es, es = edits .bridgeAdd [arg, eth1, eth2] ∨
          es = edits .bridgeAdd [arg, eth1, eth2] ++ undoEdits .bridgeAdd [arg, eth1, eth2] →
          runEdits w.configTop es = some t.configTop →
          str "bridge " ++ itoa (atoi arg) <+: x := by
        intro es hes hedits
        rcases count_runEdits_lt hedits hlt with hx | ⟨p, hp, hpx⟩
        · rcases hes with rfl | rfl <;> simp [edits, undoEdits] at hx
        · rcases hes with rfl | rfl <;>
            simp only [edits, undoEdits, snprintf_bridge hn, List.cons_append, List.nil_append,
              List.mem_cons, Edit.delLeft.injEq, reduceCtorEq, List.not_mem_nil, or_false,
              false_or, or_self] at hp <;>
            exact hp ▸ hpx
      rcases heff with heq | ⟨-, hedits | hedits⟩
      · rw [heq] at hlt
        exact absurd hlt (lt_irrefl _)
      · exact hform.hasKey hn hmem (hdel _ (.inl rfl) hedits)
      · exact hform.hasKey hn hmem (hdel _ (.inr rfl) hedits)
    · intro x hx
      exact hform.hasKey hn (List.mem_of_find?_eq_some hx)
        (List.isPrefixOf_iff_prefix.mp (List.find?_some hx))
  · cases hrun

end OnlyOwn

/-- A command that sets or removes a line by its key takes away only lines of its own key,
word for word, if and only if the first line that starts with the text it deletes by has that
key. The state of `bridge_add`, which may delete twice, is one that a run reaches. -/
theorem onlyOwn_iff_ownFirst {e : Env} {w t : World} {v : VtyRef} {filter : Filter} {line : Str}
    {vline argv : List Str} {elem : CmdElement CmdFunc}
    (hw : elem.func = .bridgeAdd → ShellReach e (fun _ => True) w)
    (hline : cmdMakeStrvec (cstr line) = some vline)
    (hl : cmdLookup filter (cmdNodeVector (w.vtyOf v).node) vline = .run elem argv)
    (hcmd : elem.func ∈ keyedCommands) (hyes : Confirmed elem.func e w)
    (hrun : cmdExecute filter vline v e w = .done cmdSuccess t) :
    OnlyOwn elem.func argv w.configTop t.configTop ↔ OwnFirst elem.func argv w.configTop := by
  have hcall : call elem.func v argv e w = .done cmdSuccess t := by
    simpa [cmdExecute, bind, Proc.get, hl] using hrun
  have hargs : ∀ a ∈ argv, ' ' ∉ a := fun a ha hm => by
    have := (cmdMakeStrvec_words hline a (cmdLookup_argv hl a ha)).1.2 ' ' hm
    simp [isspace_blank] at this
  generalize elem.func = func at *
  simp only [keyedCommands, List.mem_cons, List.not_mem_nil, or_false] at hcmd
  rcases hcmd with rfl | rfl | rfl | rfl | rfl | rfl | rfl | rfl | rfl | rfl | rfl
  · exact ipAddress_onlyOwn hargs hcall
  · exact ipAddressDhcp_onlyOwn hargs hcall
  · exact noIpAddress_onlyOwn hyes hcall
  · exact noIpRoute_onlyOwn hcall
  · simp only [call] at hcall
    unfold wgPeerPublicKey at hcall
    split at hcall
    · exact wgPeer_onlyOwn (by simp [refuses_checkPublicKey]) (by simp) rfl rfl rfl
        (hargs _ (by simp)) (.inl rfl) hcall
    · cases hcall
  · simp only [call] at hcall
    unfold wgPeerAllowedIps at hcall
    split at hcall
    · exact wgPeer_onlyOwn (by simp [refuses_checkPublicKey, refuses_checkAllowedIps]) (by simp)
        rfl rfl rfl (hargs _ (by simp)) (isTail_keyword ⟨_, rfl⟩) hcall
    · cases hcall
  · simp only [call] at hcall
    unfold wgPeerEndpoint at hcall
    split at hcall
    · refine wgPeer_onlyOwn
        (by simp [refuses_checkPublicKey, refuses_checkAllowedIps, refuses_checkEndpoint])
        (by simp) rfl rfl rfl (hargs _ (by simp)) ?_ hcall
      simp only [List.append_assoc]
      exact isTail_keyword ⟨_, rfl⟩
    · cases hcall
  · simp only [call] at hcall
    unfold wgPeerPersistentKeepalive at hcall
    split at hcall
    · refine wgPeer_onlyOwn (by simp [refuses_checkPublicKey, refuses_checkAllowedIps,
        refuses_checkEndpoint, refuses_checkKeepalive])
        (by simp) rfl rfl rfl (hargs _ (by simp)) ?_ hcall
      simp only [List.append_assoc]
      exact isTail_keyword ⟨_, rfl⟩
    · cases hcall
  · exact noWgPeer_onlyOwn hcall
  · have hboth := bridgeAdd_onlyOwn (bridgeForm_of_reach (hw rfl)) hcall
    exact ⟨fun _ => hboth.2, fun _ => hboth.1⟩
  · exact noBridgeAdd_onlyOwn hcall

theorem onlyOwn_iff_ownFirst_wg0 : ∃ w t : World,
    w.configTop = [str "ip address wg0 10.0.0.1 255.255.255.0"] ∧
    (OnlyOwn .noIpAddress [str "wg0"] w.configTop t.configTop ↔
      OwnFirst .noIpAddress [str "wg0"] w.configTop) := by
  have hiff := @onlyOwn_iff_ownFirst obligingEnv
    (stateAfter obligingEnv emptyShell [.typed (str "ip address wg0 10.0.0.1 255.255.255.0")]) _
    .vty .byCompletion (str "no ip address wg0")
    [str "no", str "ip", str "address", str "wg0"] [str "wg0"]
    ⟨str "no ip address ETHNAME", .noIpAddress,
      [[str "no"], [str "ip"], [str "address"], [str "ETHNAME"]], 4⟩
    (by simp) (by decide +kernel) (by decide +kernel) (by decide) (fun _ => rfl)
    (Outcome.eq_done (by decide +kernel) emptyShell)
  exact ⟨_, _, by decide +kernel, hiff⟩

/-- The interface of a longer name loses its line. -/
theorem not_onlyOwn_of_longer_name :
    ¬ ∀ (e : Env) (w t : World) (v : VtyRef) (filter : Filter) (line : Str)
      (vline argv : List Str) (elem : CmdElement CmdFunc), ShellReach e (fun _ => True) w →
      cmdMakeStrvec (cstr line) = some vline →
      cmdLookup filter (cmdNodeVector (w.vtyOf v).node) vline = .run elem argv →
      elem.func ∈ keyedCommands → Confirmed elem.func e w →
      cmdExecute filter vline v e w = .done cmdSuccess t →
      OnlyOwn elem.func argv w.configTop t.configTop := by
  intro h
  have hown := h obligingEnv
    (stateAfter obligingEnv emptyShell [.typed (str "ip address wg01 10.0.0.1 255.255.255.0")]) _
    .vty .byCompletion (str "ip address wg0 10.0.1.1 255.255.255.0")
    [str "ip", str "address", str "wg0", str "10.0.1.1", str "255.255.255.0"]
    [str "wg0", str "10.0.1.1", str "255.255.255.0"]
    ⟨str "ip address ETHNAME A.B.C.D A.B.C.D", .ipAddress,
      [[str "ip"], [str "address"], [str "ETHNAME"], [str "A.B.C.D"], [str "A.B.C.D"]], 5⟩
    (reach_stateAfter (.init rfl) (fun _ _ => trivial) (by decide +kernel))
    (by decide +kernel) (by decide +kernel) (by decide) (by simp [Confirmed])
    (Outcome.eq_done (by decide +kernel) emptyShell)
    (str "ip address wg01 10.0.0.1 255.255.255.0") (by decide +kernel)
  revert hown
  decide

end QrWireguard.Vtysh
