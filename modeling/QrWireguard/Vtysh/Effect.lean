import QrWireguard.Vtysh.Shell

/-!
# What a command does to the configuration

Every handler either leaves `config_top` alone or makes a fixed sequence of edits that depends
only on its arguments: `edits`. `call_config` says so once for all handlers; what is proved of
the configuration afterwards is proved of the edits.
-/

namespace QrWireguard.Vtysh
open Cli Proc

/-! ## Edits -/

/-- A call that changes the configuration list. -/
inductive Edit where
  | del (line : Str)
  | delLeft (line : Str)
  | add (line : Str) (args : List Str)
  deriving DecidableEq

/-- The list after one edit. -/
def Edit.apply (config : List Str) : Edit → Option (List Str)
  | .del line => some (configDelLine config line)
  | .delLeft line => some (configDelLineByleft config line)
  | .add line args => configAddLine config line args

/-- The list after a sequence of edits. -/
def runEdits (config : List Str) : List Edit → Option (List Str)
  | [] => some config
  | edit :: rest => (edit.apply config).bind (runEdits · rest)

@[simp] theorem runEdits_nil (config : List Str) : runEdits config [] = some config := rfl

@[simp] theorem runEdits_del (config : List Str) (line : Str) (rest : List Edit) :
    runEdits config (.del line :: rest) = runEdits (configDelLine config line) rest := rfl

@[simp] theorem runEdits_delLeft (config : List Str) (line : Str) (rest : List Edit) :
    runEdits config (.delLeft line :: rest) = runEdits (configDelLineByleft config line) rest :=
  rfl

@[simp] theorem runEdits_add (config : List Str) (line : Str) (args : List Str)
    (rest : List Edit) : runEdits config (.add line args :: rest) =
      (configAddLine config line args).bind (runEdits · rest) := rfl

/-- The last edit of a storing handler adds the line. -/
theorem runEdits_add_last (config : List Str) (line : Str) (args : List Str) :
    runEdits config [.add line args] = configAddLine config line args := by
  cases h : configAddLine config line args <;> simp [h]

theorem runEdits_append (config : List Str) (es fs : List Edit) :
    runEdits config (es ++ fs) = (runEdits config es).bind (runEdits · fs) := by
  induction es generalizing config with
  | nil => rfl
  | cons edit es ih =>
    simp only [List.cons_append, runEdits]
    cases edit.apply config with
    | none => rfl
    | some config' => simp [ih]

/-! ## Edits and checks of the handlers -/

/-- The edits of a `wg peer` handler. -/
def peerEdits (key tail : Str) : List Edit :=
  [.delLeft (snprintf 2048 (str "wg peer " ++ key)),
    .add (snprintf 2048 (str "wg peer " ++ key ++ tail)) []]

/-- The edits of a rule handler that stores a line under its own text. -/
def ruleEdits (line : Str) : List Edit := [.del line, .add line []]

/-- The edits a handler makes once its checks have passed. -/
def edits : CmdFunc → List Str → List Edit
  | .bridgeDisable, _ => ruleEdits (str "bridge disable")
  | .noBridgeDisable, _ => [.del (str "bridge disable")]
  | .bridgeAdd, [arg, eth1, eth2] =>
    [.delLeft (snprintf 1024 (str "bridge " ++ itoa (atoi arg))),
      .add (snprintf 1024
        (str "bridge " ++ itoa (atoi arg) ++ str " " ++ eth1 ++ str " " ++ eth2)) []]
  | .noBridgeAdd, [arg] => [.delLeft (snprintf 1024 (str "bridge " ++ itoa (atoi arg)))]
  | .configHostname, [name] => [.delLeft (str "hostname"), .add (str "hostname %s") [name]]
  | .configNoHostname, _ => [.delLeft (str "hostname ")]
  | .ipAddress, [name, addr, mask] =>
    [.delLeft (str "ip address " ++ name),
      .add (str "ip address " ++ name ++ str " " ++ addr ++ str " " ++ mask) []]
  | .noIpAddress, [name] => [.delLeft (str "ip address " ++ name)]
  | .ipAddressDhcp, [name] =>
    [.delLeft (str "ip address " ++ name), .add (str "ip address " ++ name ++ str " dhcp") []]
  | .ipRoute, [dest, mask, gateway, name] =>
    ruleEdits
      (str "ip route " ++ dest ++ str " " ++ mask ++ str " " ++ gateway ++ str " " ++ name)
  | .noIpRoute, [dest, mask] => [.delLeft (str "ip route " ++ dest ++ str " " ++ mask)]
  | .configDns, [first, second] =>
    [.delLeft (str "nameserver"), .add (str "nameserver %s %s") [first, second]]
  | .configNoDns, _ => [.delLeft (str "nameserver")]
  | .sfirewallNatPortmap, argv => ruleEdits (portmapLine argv)
  | .noSfirewallNatPortmap, argv => [.del (portmapLine argv)]
  | .sfirewallFilterRules, argv =>
    match FilterArgs.ofArgv argv with
    | some a => .del a.twin.line :: ruleEdits a.line
    | none => []
  | .noSfirewallFilterRules, argv =>
    match FilterArgs.ofArgv argv with
    | some a => [.del a.line]
    | none => []
  | .wgListenport, [port] =>
    [.delLeft (snprintf 1024 (str "wg listenport")),
      .add (snprintf 1024 (str "wg listenport " ++ itoa (atoi port))) []]
  | .wgPeerPublicKey, [key] => peerEdits key []
  | .wgPeerAllowedIps, [key, allowedIps] => peerEdits key (str " allowed-ips " ++ allowedIps)
  | .wgPeerEndpoint, [key, allowedIps, endpoint] =>
    peerEdits key (str " allowed-ips " ++ allowedIps ++ str " endpoint " ++ endpoint)
  | .wgPeerPersistentKeepalive, [key, allowedIps, endpoint, keepalive] =>
    peerEdits key (str " allowed-ips " ++ allowedIps ++ str " endpoint " ++ endpoint ++
      str " persistent-keepalive " ++ keepalive)
  | .noWgPeer, [key] => [.delLeft (snprintf 1024 (str "wg peer " ++ key))]
  | .wgLink, [arg] =>
    [.delLeft (str "wg link-up"), .delLeft (str "wg link-down"),
      .add (if arg = str "link-up" then str "wg link-up" else str "wg link-down") []]
  | _, _ => []

/-- The edit `bridge_add` makes after all when the interfaces cannot be added. -/
def undoEdits : CmdFunc → List Str → List Edit
  | .bridgeAdd, [arg, _, _] => [.delLeft (str "bridge " ++ itoa (atoi arg))]
  | _, _ => []

/-- All checks of a list pass. -/
def ArgCheck.passes : ArgCheck → Bool
  | .ok => true
  | _ => false

def PeerCheck.passes : PeerCheck → Bool
  | .ok => true
  | _ => false

/-- The checks of a handler that depend on its arguments alone. -/
def accepts : CmdFunc → List Str → Bool
  | .bridgeAdd, [arg, eth1, eth2] =>
    decide (1 ≤ atoi arg ∧ atoi arg ≤ 9) && decide ('"' ∉ eth1) && decide ('"' ∉ eth2)
  | .noBridgeAdd, [arg] => decide (1 ≤ atoi arg ∧ atoi arg ≤ 9)
  | .configHostname, [name] => isalpha (firstByte name)
  | .ipAddress, [name, _, _] => supportedInterface name
  | .noIpAddress, [name] => supportedInterface name
  | .ipAddressDhcp, [name] => decide (name = str "wan")
  | .ipRoute, [_, _, _, name] => supportedInterface name
  | .sfirewallNatPortmap, [num, _, _, proto, port1, port2] =>
    [checkRuleNumber num, checkPortOfAll proto port1, checkPortOfAll proto port2].all
      ArgCheck.passes
  | .noSfirewallNatPortmap, [num, _, _, proto, port1, port2] =>
    [checkRuleNumber num, checkPortOfAll proto port1, checkPortOfAll proto port2].all
      ArgCheck.passes
  | .sfirewallFilterRules, argv =>
    (FilterArgs.ofArgv argv).any fun a => a.checks.all ArgCheck.passes
  | .noSfirewallFilterRules, argv =>
    (FilterArgs.ofArgv argv).any fun a => a.checks.all ArgCheck.passes
  | .wgPeerPublicKey, [key] => [checkPublicKey key].all PeerCheck.passes
  | .wgPeerAllowedIps, [key, allowedIps] =>
    [checkPublicKey key, checkAllowedIps allowedIps].all PeerCheck.passes
  | .wgPeerEndpoint, [key, allowedIps, endpoint] =>
    [checkPublicKey key, checkAllowedIps allowedIps, checkEndpoint endpoint].all PeerCheck.passes
  | .wgPeerPersistentKeepalive, [key, allowedIps, endpoint, keepalive] =>
    [checkPublicKey key, checkAllowedIps allowedIps, checkEndpoint endpoint,
      checkKeepalive keepalive].all PeerCheck.passes
  | .sfirewallNatPortmap, _ => false
  | .noSfirewallNatPortmap, _ => false
  | _, _ => true

/-! ## Functions that leave the configuration alone -/

/-- No run changes `config_top`. -/
abbrev KeepsConfig {α : Type} (p : Cli α) : Prop := Keeps World.configTop p

theorem keepsConfig_emit (ev : Event) : KeepsConfig (emit ev) := fun _ _ => rfl

theorem keepsConfig_system (command : Str) : KeepsConfig (system command) := fun _ _ => rfl

theorem keepsConfig_sprintf (size : Nat) (text : Str) : KeepsConfig (sprintf size text) := by
  intro e w
  simp

theorem keepsConfig_systemLines (lines : List Str) : KeepsConfig (systemLines lines) := by
  refine keeps_forM (fun text => keeps_bind (keepsConfig_sprintf _ _) fun line => ?_) lines
  exact keeps_bind (keepsConfig_system line) fun _ => keeps_pure _

theorem keepsConfig_ipAddressApply (name addr mask : Str) :
    KeepsConfig (ipAddressApply name addr mask) := by
  refine keeps_bind (keepsConfig_systemLines _) fun _ => ?_
  intro e w
  simp [rebootHint]

theorem keepsConfig_noIpAddressApply (name : Str) : KeepsConfig (noIpAddressApply name) := by
  refine keeps_bind (keepsConfig_systemLines _) fun _ => ?_
  intro e w
  simp [rebootHint]

theorem keepsConfig_ipAddressDhcpApply : KeepsConfig ipAddressDhcpApply :=
  keeps_bind (keepsConfig_systemLines _) fun _ => keeps_pure _

theorem keepsConfig_ipRouteApply (dest mask gateway name : Str) :
    KeepsConfig (ipRouteApply dest mask gateway name) :=
  keeps_bind (keepsConfig_systemLines _) fun _ => keeps_pure _

theorem keepsConfig_noIpRouteApply : KeepsConfig noIpRouteApply :=
  keeps_bind (keepsConfig_systemLines _) fun _ => keeps_pure _

theorem keepsConfig_writeResolvConf (lines : List Str) : KeepsConfig (writeResolvConf lines) := by
  refine keeps_bind (fun _ _ => rfl) fun opened => keeps_ite ?_ ?_
  · exact keeps_bind (keeps_forM (fun _ => keepsConfig_emit _) lines) fun _ => keeps_pure _
  · exact keeps_bind (keepsConfig_emit _) fun _ => keeps_pure _

theorem keepsConfig_configHostnameApply (name : Str) :
    KeepsConfig (configHostnameApply name) := by
  intro e w
  simp [configHostnameApply]

theorem keepsConfig_wgListenportApply (port : Str) : KeepsConfig (wgListenportApply port) := by
  intro e w
  simp [wgListenportApply]

theorem keepsConfig_showFile (path : Str) : KeepsConfig (showFile path) := by
  intro e w
  simp only [showFile, sat_bind, sat_openRead]
  cases e.openRead w.trace path <;> simp

theorem keepsConfig_dumpWith {print : Str → Cli Unit} (h : ∀ text, KeepsConfig (print text)) :
    KeepsConfig (dumpWith print) := by
  refine keeps_bind keeps_get fun _ => keeps_bind (keeps_ask _) fun _ => keeps_ite ?_ (h _)
  exact keepsConfig_emit _

theorem keepsConfig_configWriteFile (argv : List Str) : KeepsConfig (configWriteFile argv) := by
  refine keeps_bind keeps_get fun w => ?_
  cases w.hostConfig with
  | none => exact keeps_bind (keepsConfig_emit _) fun _ => keeps_pure _
  | some config =>
    refine keeps_bind (fun _ _ => rfl) fun opened => keeps_ite ?_ ?_
    · exact keeps_bind (keepsConfig_dumpWith fun _ => keepsConfig_emit _) fun _ =>
        keeps_bind (keepsConfig_emit _) fun _ => keeps_pure _
    · exact keeps_bind (keepsConfig_emit _) fun _ => keeps_pure _

theorem keepsConfig_showStartupConfig (argv : List Str) :
    KeepsConfig (showStartupConfig argv) := by
  refine keeps_bind keeps_get fun w => ?_
  cases w.hostConfig with
  | none => exact keeps_undefined
  | some config =>
    refine keeps_bind (fun _ _ => rfl) fun contents => ?_
    cases contents with
    | none => exact keeps_bind (keepsConfig_emit _) fun _ => keeps_pure _
    | some contents =>
      exact keeps_bind (keeps_forM (fun _ => keepsConfig_emit _) _) fun _ => keeps_pure _

theorem keepsConfig_ruleParams (count size : Nat) (text : Str) :
    KeepsConfig (ruleParams count size text) := by
  refine keeps_bind (keeps_forM (fun s => ?_) _) fun _ => keeps_pure _
  exact keeps_bind (keepsConfig_sprintf size s) fun _ => keeps_pure _

theorem keepsConfig_portmapApplyLoop (lines : List Str) :
    KeepsConfig (portmapApplyLoop lines) := by
  induction lines with
  | nil => exact keeps_pure _
  | cons xbuf lines ih =>
    unfold portmapApplyLoop
    refine keeps_ite (keeps_bind keeps_undefined fun _ => ?_) ?_ <;>
    · refine keeps_ite (keeps_bind (keepsConfig_ruleParams _ _ _) fun params => ?_) ih
      cases params with
      | none => exact ih
      | some params => exact keeps_bind (keepsConfig_emit _) fun _ => ih

theorem keepsConfig_filterApplyLoop (actionIndex count : Nat) (lines : List Str) :
    KeepsConfig (filterApplyLoop actionIndex count lines) := by
  induction lines generalizing actionIndex count with
  | nil => exact keeps_pure _
  | cons xbuf lines ih =>
    unfold filterApplyLoop
    refine keeps_ite (keeps_bind keeps_undefined fun _ => ?_) ?_ <;>
    · refine keeps_ite (keeps_bind (keepsConfig_ruleParams _ _ _) fun params => ?_) (ih _ _)
      cases params.bind FilterArgs.ofArgv with
      | none => exact ih _ _
      | some params => exact keeps_bind (keepsConfig_emit _) fun _ => ih _ _

theorem keepsConfig_applyFirewallRules : KeepsConfig applyFirewallRules := by
  intro e w
  simp [applyFirewallRules, touchMissing]

theorem keepsConfig_sfirewallNatPortmapApply (argv : List Str) :
    KeepsConfig (sfirewallNatPortmapApply argv) := by
  refine keeps_bind (fun _ _ => rfl) fun opened => keeps_ite (keeps_pure _) ?_
  refine keeps_bind (keepsConfig_emit _) fun _ => keeps_bind (fun _ _ => rfl) fun contents => ?_
  cases contents with
  | none => exact keeps_pure _
  | some contents =>
    exact keeps_bind (keepsConfig_portmapApplyLoop _) fun _ =>
      keeps_bind keepsConfig_applyFirewallRules fun _ => keeps_pure _

theorem keepsConfig_sfirewallFilterRulesApply (argv : List Str) :
    KeepsConfig (sfirewallFilterRulesApply argv) := by
  refine keeps_bind (fun _ _ => rfl) fun opened => keeps_ite (keeps_pure _) ?_
  refine keeps_bind (keepsConfig_emit _) fun _ => keeps_bind (fun _ _ => rfl) fun contents => ?_
  cases contents with
  | none => exact keeps_pure _
  | some contents =>
    exact keeps_bind (keepsConfig_filterApplyLoop _ _ _) fun _ =>
      keeps_bind keepsConfig_applyFirewallRules fun _ => keeps_pure _

/-- The handlers that may change the configuration. -/
def editsConfig : CmdFunc → Bool
  | .bridgeDisable | .noBridgeDisable | .bridgeAdd | .noBridgeAdd | .configHostname
  | .configNoHostname | .ipAddress | .noIpAddress | .ipAddressDhcp | .ipRoute | .noIpRoute
  | .configDns | .configNoDns | .sfirewallNatPortmap | .noSfirewallNatPortmap
  | .sfirewallFilterRules | .noSfirewallFilterRules | .wgListenport | .wgPeerPublicKey
  | .wgPeerAllowedIps | .wgPeerEndpoint | .wgPeerPersistentKeepalive | .noWgPeer | .wgLink => true
  | _ => false

/-- No other handler changes it. -/
theorem keepsConfig_call (func : CmdFunc) (v : VtyRef) (argv : List Str)
    (h : editsConfig func = false) : KeepsConfig (call func v argv) := by
  intro e w
  cases func <;> simp only [editsConfig, reduceCtorEq] at h
  case showCpuinfo => exact keepsConfig_showFile _ e w
  case showMeminfo => exact keepsConfig_showFile _ e w
  case showInterruptsinfo => exact keepsConfig_showFile _ e w
  case configWriteFile => exact keepsConfig_configWriteFile argv e w
  case configWriteTerminal =>
    exact keeps_bind (keepsConfig_dumpWith fun _ => keepsConfig_emit _) (fun _ => keeps_pure _) e w
  case showStartupConfig => exact keepsConfig_showStartupConfig argv e w
  case sfirewallNatPortmapApply => exact keepsConfig_sfirewallNatPortmapApply argv e w
  case sfirewallFilterRulesApply => exact keepsConfig_sfirewallFilterRulesApply argv e w
  case showVersion =>
    exact keeps_bind (keeps_ask _)
      (fun _ => keeps_bind (keeps_forM (fun _ => keepsConfig_emit _) _) fun _ => keeps_pure _) e w
  case configList =>
    exact keeps_bind keeps_get
      (fun _ => keeps_bind (keeps_forM (fun _ => keepsConfig_emit _) _) fun _ => keeps_pure _) e w
  case configExit =>
    simp only [call, configExit, sat_bind, sat_get]
    split <;> simp
  -- the other handlers have no loop: run them, on arguments of the right number
  case showBridgeMac => simp only [call]; unfold showBridgeMac; split <;> simp
  case configSh => simp only [call]; unfold configSh; split <;> simp
  case configPing => simp only [call]; unfold configPing; split <;> simp
  case configPingCount => simp only [call]; unfold configPingCount; split <;> simp
  case configSsh => simp only [call]; unfold configSsh; split <;> simp
  case configSshPort => simp only [call]; unfold configSshPort; split <;> simp
  case configTcpdump => simp only [call]; unfold configTcpdump; split <;> simp
  case showIpConfigName => simp only [call]; unfold showIpConfigName; split <;> simp
  case showSfirewall => simp only [call]; unfold showSfirewall; split <;> simp
  case showWgConf => simp only [call]; unfold showWgConf; split <;> simp
  case wgRekey =>
    simp only [call, wgRekey, sat_bind, sat_system, sat_vtyOut, sat_openRead]
    split <;> simp
  all_goals
    simp [call, showBridge, configTerminal, enable, disable, showUptime, configReboot,
      configPoweroff, configSysinfo, showDate, netNetstatInfo, showIpAddress, showIpConfig,
      showIpRoute, wgClearkey, showWg]

/-! ## The handlers -/

theorem sat_argChecks {checks : List ArgCheck} {rest : Cli Int} {e : Env} {w : World}
    {Q : Int → World → Prop} (hpass : checks.all ArgCheck.passes = true → Sat rest e w Q)
    (hfail : ∀ text code, Q code (w.emit (.out text))) : Sat (argChecks checks rest) e w Q := by
  induction checks with
  | nil => exact hpass rfl
  | cons check checks ih =>
    cases check with
    | ok => exact ih fun h => hpass (by simpa [ArgCheck.passes] using h)
    | fail text code => exact hfail text code
    | overrun => trivial

theorem sat_peerChecks {checks : List PeerCheck} {rest : Cli Int} {e : Env} {w : World}
    {Q : Int → World → Prop} (hpass : checks.all PeerCheck.passes = true → Sat rest e w Q)
    (hfail : ∀ text code, Q code (w.emit (.out text))) : Sat (peerChecks checks rest) e w Q := by
  induction checks with
  | nil => exact hpass rfl
  | cons check checks ih =>
    cases check with
    | ok => exact ih fun h => hpass (by simpa [PeerCheck.passes] using h)
    | fail text code => exact hfail text code

/-- What a handler may have done to the configuration: nothing, or its edits, after its checks
have passed. -/
def Effect (func : CmdFunc) (argv : List Str) (config config' : List Str) : Prop :=
  config' = config ∨
    (accepts func argv = true ∧
      (runEdits config (edits func argv) = some config' ∨
        runEdits config (edits func argv ++ undoEdits func argv) = some config'))

section Handlers
variable {e : Env} {w : World} {v : VtyRef}

theorem effect_refl (func : CmdFunc) (argv config : List Str) :
    Effect func argv config config := .inl rfl

theorem sat_effect_of_keeps {p : Cli Int} (h : KeepsConfig p) (func : CmdFunc) (argv : List Str) :
    Sat p e w fun _ t => Effect func argv w.configTop t.configTop :=
  h.sat fun _ t ht => by rw [ht]; exact effect_refl _ _ _

/-- The end of most storing handlers: edits, then nothing that changes the configuration. -/
theorem sat_effect_edits {func : CmdFunc} {argv : List Str} {config : List Str} {rest : Cli Int}
    (hacc : accepts func argv = true)
    (hrun : runEdits w.configTop (edits func argv) = some config) (hrest : KeepsConfig rest) :
    Sat (ensureConfig v rest) e (w.setConfig config) fun _ t =>
      Effect func argv w.configTop t.configTop := by
  rw [sat_ensureConfig]
  refine ⟨fun _ => .inr ⟨hacc, .inl hrun⟩, fun _ => hrest.sat fun _ t ht => ?_⟩
  rw [ht]
  exact .inr ⟨hacc, .inl hrun⟩

theorem bridgeDisable_effect (argv : List Str) :
    Sat (bridgeDisable v argv) e w fun _ t =>
      Effect .bridgeDisable argv w.configTop t.configTop := by
  simp only [bridgeDisable, sat_bind, sat_delLine, sat_addLine, World.setConfig_setConfig]
  intro config hadd
  exact sat_effect_edits rfl ((runEdits_add_last _ _ _).trans hadd) (keeps_pure _)

theorem noBridgeDisable_effect (argv : List Str) :
    Sat (noBridgeDisable v argv) e w fun _ t =>
      Effect .noBridgeDisable argv w.configTop t.configTop := by
  simp only [noBridgeDisable, sat_bind, sat_delLine]
  exact sat_effect_edits rfl rfl (keeps_pure _)

theorem bridgeIfInvalid_spec (eth : Str) :
    Sat (bridgeIfInvalid eth) e w fun r t =>
      t.configTop = w.configTop ∧ (r = false → '"' ∉ eth) := by
  simp only [bridgeIfInvalid, sat_bind, sat_sprintf, sat_ite, sat_pure, sat_system]
  intro _
  exact ⟨fun _ => ⟨trivial, by simp⟩, fun hq => ⟨rfl, fun _ => hq⟩⟩

theorem bridgeAddApply_spec (num eth1 eth2 : Str) :
    Sat (bridgeAddApply num eth1 eth2) e w fun _ t => t.configTop = w.configTop ∨
      t.configTop = configDelLineByleft w.configTop (str "bridge " ++ num) := by
  simp [bridgeAddApply]

theorem bridgeAdd_effect (argv : List Str) :
    Sat (bridgeAdd v argv) e w fun _ t => Effect .bridgeAdd argv w.configTop t.configTop := by
  unfold bridgeAdd
  split
  · next arg eth1 eth2 =>
    simp only [sat_ite, sat_bind, sat_vtyOut, sat_pure]
    refine ⟨fun _ => effect_refl _ _ _, fun hnum => ?_⟩
    refine (bridgeIfInvalid_spec eth1).mono ?_
    rintro r1 w1 ⟨hw1, hq1⟩
    refine ⟨fun _ => .inl hw1, fun hr1 => ?_⟩
    refine (bridgeIfInvalid_spec eth2).mono ?_
    rintro r2 w2 ⟨hw2, hq2⟩
    refine ⟨fun _ => .inl (hw2.trans hw1), fun hr2 => ?_⟩
    simp only [sat_delLineByleft, sat_addLine, World.setConfig_setConfig]
    intro config hadd
    have hacc : accepts .bridgeAdd [arg, eth1, eth2] = true := by
      simp [accepts, hq1 (by simpa using hr1), hq2 (by simpa using hr2)]
      omega
    have hrun : runEdits w.configTop (edits .bridgeAdd [arg, eth1, eth2]) = some config := by
      rw [← hw1, ← hw2]
      exact (runEdits_add_last _ _ _).trans hadd
    rw [sat_ensureConfig]
    refine ⟨fun _ => .inr ⟨hacc, .inl hrun⟩, fun _ => ?_⟩
    refine (bridgeAddApply_spec _ _ _).mono fun _ t ht => ?_
    rcases ht with ht | ht
    · exact .inr ⟨hacc, .inl (by rw [ht]; exact hrun)⟩
    · refine .inr ⟨hacc, .inr ?_⟩
      rw [ht, runEdits_append, hrun]
      rfl
  · exact sat_undefined

theorem noBridgeAdd_effect (argv : List Str) :
    Sat (noBridgeAdd v argv) e w fun _ t => Effect .noBridgeAdd argv w.configTop t.configTop := by
  unfold noBridgeAdd
  split
  · next arg =>
    simp only [sat_ite, sat_bind, sat_vtyOut, sat_pure, sat_delLineByleft]
    refine ⟨fun _ => effect_refl _ _ _, fun hnum => ?_⟩
    refine sat_effect_edits (by simp [accepts]; omega) rfl fun e w => ?_
    simp
  · exact sat_undefined

theorem configHostname_effect (argv : List Str) :
    Sat (configHostname v argv) e w fun _ t =>
      Effect .configHostname argv w.configTop t.configTop := by
  unfold configHostname
  split
  · next name =>
    simp only [sat_ite, sat_bind, sat_vtyOut, sat_pure, sat_delLineByleft, sat_addLine, World.setConfig_setConfig]
    refine ⟨fun _ => effect_refl _ _ _, fun halpha config hadd => ?_⟩
    exact sat_effect_edits (by simpa [accepts] using halpha) ((runEdits_add_last _ _ _).trans hadd)
      (keepsConfig_configHostnameApply name)
  · exact sat_undefined

theorem configNoHostname_effect (argv : List Str) :
    Sat (configNoHostname argv) e w fun _ t =>
      Effect .configNoHostname argv w.configTop t.configTop := by
  simp [configNoHostname, Effect, accepts, edits]

theorem sat_notSupportedInterface (name : Str) (func : CmdFunc) (argv : List Str) :
    Sat (notSupportedInterface name) e w fun _ t => Effect func argv w.configTop t.configTop :=
  effect_refl _ _ _

theorem ipAddress_effect (argv : List Str) :
    Sat (ipAddress v argv) e w fun _ t => Effect .ipAddress argv w.configTop t.configTop := by
  unfold ipAddress
  split
  · next name addr mask =>
    simp only [sat_ite, sat_bind, sat_sprintf, sat_delLineByleft, sat_addLine, World.setConfig_setConfig]
    refine ⟨fun _ => sat_notSupportedInterface _ _ _, fun hname _ _ config hadd => ?_⟩
    exact sat_effect_edits (show supportedInterface name = true by simpa using hname) ((runEdits_add_last _ _ _).trans hadd)
      (keepsConfig_ipAddressApply name addr mask)
  · exact sat_undefined

theorem noIpAddress_effect (argv : List Str) :
    Sat (noIpAddress argv) e w fun _ t => Effect .noIpAddress argv w.configTop t.configTop := by
  unfold noIpAddress
  split
  · next name =>
    simp only [sat_ite, sat_bind, sat_vtyOut, sat_fgetsStdin, sat_pure, sat_sprintf,
      sat_delLineByleft]
    refine ⟨fun _ => sat_notSupportedInterface _ _ _, fun hname => ?_⟩
    refine ⟨fun _ => effect_refl _ _ _, fun _ _ => ?_⟩
    refine (keepsConfig_noIpAddressApply name).sat fun _ t ht => ?_
    exact .inr ⟨by simpa [accepts] using hname, .inl (by rw [ht]; rfl)⟩
  · exact sat_undefined

theorem ipAddressDhcp_effect (argv : List Str) :
    Sat (ipAddressDhcp v argv) e w fun _ t =>
      Effect .ipAddressDhcp argv w.configTop t.configTop := by
  unfold ipAddressDhcp
  split
  · next name =>
    simp only [sat_ite, sat_bind, sat_sprintf, sat_delLineByleft, sat_addLine, World.setConfig_setConfig]
    refine ⟨fun _ => sat_notSupportedInterface _ _ _, fun hname _ _ config hadd => ?_⟩
    exact sat_effect_edits (decide_eq_true (not_ne_iff.mp hname)) ((runEdits_add_last _ _ _).trans hadd)
      keepsConfig_ipAddressDhcpApply
  · exact sat_undefined

theorem ipRoute_effect (argv : List Str) :
    Sat (ipRoute v argv) e w fun _ t => Effect .ipRoute argv w.configTop t.configTop := by
  unfold ipRoute
  split
  · next dest mask gateway name =>
    simp only [sat_ite, sat_bind, sat_sprintf, sat_delLine, sat_addLine, World.setConfig_setConfig]
    refine ⟨fun _ => sat_notSupportedInterface _ _ _, fun hname _ config hadd => ?_⟩
    exact sat_effect_edits (show supportedInterface name = true by simpa using hname)
      ((runEdits_add_last _ _ _).trans hadd) (keepsConfig_ipRouteApply dest mask gateway name)
  · exact sat_undefined

theorem noIpRoute_effect (argv : List Str) :
    Sat (noIpRoute argv) e w fun _ t => Effect .noIpRoute argv w.configTop t.configTop := by
  unfold noIpRoute
  split
  · next dest mask =>
    simp only [sat_bind, sat_sprintf, sat_delLineByleft]
    intro _
    refine keepsConfig_noIpRouteApply.sat fun _ t ht => ?_
    exact .inr ⟨rfl, .inl (by rw [ht]; rfl)⟩
  · exact sat_undefined

theorem configDns_effect (argv : List Str) :
    Sat (configDns v argv) e w fun _ t => Effect .configDns argv w.configTop t.configTop := by
  unfold configDns
  split
  · next first second =>
    simp only [sat_bind, sat_delLineByleft, sat_addLine, World.setConfig_setConfig]
    intro config hadd
    exact sat_effect_edits rfl ((runEdits_add_last _ _ _).trans hadd) (keepsConfig_writeResolvConf _)
  · exact sat_undefined

theorem configNoDns_effect (argv : List Str) :
    Sat (configNoDns v argv) e w fun _ t => Effect .configNoDns argv w.configTop t.configTop := by
  simp only [configNoDns, sat_bind, sat_delLineByleft]
  exact sat_effect_edits rfl rfl (keepsConfig_writeResolvConf _)

theorem sfirewallNatPortmap_effect (argv : List Str) :
    Sat (sfirewallNatPortmap v argv) e w fun _ t =>
      Effect .sfirewallNatPortmap argv w.configTop t.configTop := by
  unfold sfirewallNatPortmap
  split
  · refine sat_argChecks (fun hpass => ?_) fun _ _ => effect_refl _ _ _
    simp only [sat_bind, sat_sprintf, sat_delLine, sat_addLine, World.setConfig_setConfig]
    intro _ config hadd
    exact sat_effect_edits hpass ((runEdits_add_last _ _ _).trans hadd) (keeps_pure _)
  · exact sat_undefined

theorem noSfirewallNatPortmap_effect (argv : List Str) :
    Sat (noSfirewallNatPortmap v argv) e w fun _ t =>
      Effect .noSfirewallNatPortmap argv w.configTop t.configTop := by
  unfold noSfirewallNatPortmap
  split
  · refine sat_argChecks (fun hpass => ?_) fun _ _ => effect_refl _ _ _
    simp only [sat_bind, sat_sprintf, sat_delLine]
    intro _
    exact sat_effect_edits hpass rfl (keeps_pure _)
  · exact sat_undefined

/-- A filter rule that passes its checks names a position, so its twin is removed. -/
theorem FilterArgs.position_of_checks {a : FilterArgs}
    (h : a.checks.all ArgCheck.passes = true) :
    a.position = str "insert" ∨ a.position = str "append" := by
  have hpos : (checkKeyword [str "insert", str "append"] a.position).passes = true := by
    simp only [FilterArgs.checks, List.all_cons, Bool.and_eq_true] at h
    exact h.2.2.2.1
  unfold checkKeyword at hpos
  split at hpos
  · next hmem => simpa using hmem
  · simp [ArgCheck.passes] at hpos

theorem sfirewallFilterRules_effect (argv : List Str) :
    Sat (sfirewallFilterRules v argv) e w fun _ t =>
      Effect .sfirewallFilterRules argv w.configTop t.configTop := by
  unfold sfirewallFilterRules
  split
  · next a ha =>
    refine sat_argChecks (fun hpass => ?_) fun _ _ => effect_refl _ _ _
    have hpos : a.position = str "append" ∨ a.position = str "insert" :=
      (FilterArgs.position_of_checks hpass).symm
    simp only [hpos, if_true, sat_bind, sat_sprintf, sat_delLine, sat_addLine, World.setConfig_setConfig]
    intro _ _ config hadd
    refine sat_effect_edits (by simp [accepts, ha, hpass]) ?_ (keeps_pure _)
    simp only [edits, ha]
    exact (runEdits_add_last _ _ _).trans hadd
  · exact sat_undefined

theorem noSfirewallFilterRules_effect (argv : List Str) :
    Sat (noSfirewallFilterRules v argv) e w fun _ t =>
      Effect .noSfirewallFilterRules argv w.configTop t.configTop := by
  unfold noSfirewallFilterRules
  split
  · next a ha =>
    refine sat_argChecks (fun hpass => ?_) fun _ _ => effect_refl _ _ _
    simp only [sat_bind, sat_sprintf, sat_delLine]
    intro _
    exact sat_effect_edits (by simp [accepts, ha, hpass]) (by simp [edits, ha]) (keeps_pure _)
  · exact sat_undefined

theorem wgListenport_effect (argv : List Str) :
    Sat (wgListenport v argv) e w fun _ t =>
      Effect .wgListenport argv w.configTop t.configTop := by
  unfold wgListenport
  split
  · next port =>
    simp only [sat_bind, sat_delLineByleft, sat_addLine, World.setConfig_setConfig]
    intro config hadd
    exact sat_effect_edits rfl ((runEdits_add_last _ _ _).trans hadd) (keepsConfig_wgListenportApply port)
  · exact sat_undefined

theorem keepsConfig_wgSet (size : Nat) (text : Str) : KeepsConfig (do
    let szInfo ← sprintf size text
    let _ ← system szInfo
    return cmdSuccess : Cli Int) := by
  intro e w
  simp

theorem wgPeer_effect {func : CmdFunc} {argv : List Str} {checks : List PeerCheck}
    {key tail : Str} (hacc : checks.all PeerCheck.passes = true → accepts func argv = true)
    (hedits : edits func argv = peerEdits key tail) :
    Sat (wgPeer v checks key tail) e w fun _ t =>
      Effect func argv w.configTop t.configTop := by
  refine sat_peerChecks (fun hpass => ?_) fun _ _ => effect_refl _ _ _
  have hstore : ∀ w' : World, w'.configTop = w.configTop →
      Sat (wgPeerStore v key tail) e w' fun _ t => Effect func argv w.configTop t.configTop := by
    intro w' hw'
    simp only [wgPeerStore, sat_bind, sat_delLineByleft, sat_addLine, World.setConfig_setConfig]
    intro config hadd
    rw [← hw']
    refine sat_effect_edits (hacc hpass) ?_ (keepsConfig_wgSet _ _)
    rw [hedits]
    exact (runEdits_add_last _ _ _).trans hadd
  simp only [sat_bind, sat_stat, sat_ite, sat_system]
  exact ⟨fun _ => hstore _ rfl, fun _ => hstore _ rfl⟩

theorem wgPeerPublicKey_effect (argv : List Str) :
    Sat (wgPeerPublicKey v argv) e w fun _ t =>
      Effect .wgPeerPublicKey argv w.configTop t.configTop := by
  unfold wgPeerPublicKey
  split
  · exact wgPeer_effect id rfl
  · exact sat_undefined

theorem wgPeerAllowedIps_effect (argv : List Str) :
    Sat (wgPeerAllowedIps v argv) e w fun _ t =>
      Effect .wgPeerAllowedIps argv w.configTop t.configTop := by
  unfold wgPeerAllowedIps
  split
  · exact wgPeer_effect id rfl
  · exact sat_undefined

theorem wgPeerEndpoint_effect (argv : List Str) :
    Sat (wgPeerEndpoint v argv) e w fun _ t =>
      Effect .wgPeerEndpoint argv w.configTop t.configTop := by
  unfold wgPeerEndpoint
  split
  · exact wgPeer_effect id rfl
  · exact sat_undefined

theorem wgPeerPersistentKeepalive_effect (argv : List Str) :
    Sat (wgPeerPersistentKeepalive v argv) e w fun _ t =>
      Effect .wgPeerPersistentKeepalive argv w.configTop t.configTop := by
  unfold wgPeerPersistentKeepalive
  split
  · exact wgPeer_effect id rfl
  · exact sat_undefined

theorem noWgPeer_effect (argv : List Str) :
    Sat (noWgPeer v argv) e w fun _ t => Effect .noWgPeer argv w.configTop t.configTop := by
  unfold noWgPeer
  split
  · simp only [sat_bind, sat_delLineByleft]
    exact sat_effect_edits rfl rfl fun e w => by simp
  · exact sat_undefined

theorem wgLink_effect (argv : List Str) :
    Sat (wgLink v argv) e w fun _ t => Effect .wgLink argv w.configTop t.configTop := by
  unfold wgLink
  split
  · next arg =>
    simp only [sat_ite, sat_bind, sat_delLineByleft, sat_addLine, World.setConfig_setConfig]
    refine ⟨fun harg config hadd => ?_, fun harg config hadd => ?_⟩
    · refine sat_effect_edits rfl ?_ fun e w => by simp
      simp only [edits, if_pos harg]
      exact (runEdits_add_last _ _ _).trans hadd
    · refine sat_effect_edits rfl ?_ fun e w => by simp
      simp only [edits, if_neg harg]
      exact (runEdits_add_last _ _ _).trans hadd
  · exact sat_undefined

end Handlers

/-- What a handler may have done to the configuration when it returns. -/
theorem call_effect (func : CmdFunc) (v : VtyRef) (argv : List Str) (e : Env) (w : World) :
    Sat (call func v argv) e w fun _ t => Effect func argv w.configTop t.configTop := by
  cases func with
  | bridgeDisable => exact bridgeDisable_effect argv
  | noBridgeDisable => exact noBridgeDisable_effect argv
  | bridgeAdd => exact bridgeAdd_effect argv
  | noBridgeAdd => exact noBridgeAdd_effect argv
  | configHostname => exact configHostname_effect argv
  | configNoHostname => exact configNoHostname_effect argv
  | ipAddress => exact ipAddress_effect argv
  | noIpAddress => exact noIpAddress_effect argv
  | ipAddressDhcp => exact ipAddressDhcp_effect argv
  | ipRoute => exact ipRoute_effect argv
  | noIpRoute => exact noIpRoute_effect argv
  | configDns => exact configDns_effect argv
  | configNoDns => exact configNoDns_effect argv
  | sfirewallNatPortmap => exact sfirewallNatPortmap_effect argv
  | noSfirewallNatPortmap => exact noSfirewallNatPortmap_effect argv
  | sfirewallFilterRules => exact sfirewallFilterRules_effect argv
  | noSfirewallFilterRules => exact noSfirewallFilterRules_effect argv
  | wgListenport => exact wgListenport_effect argv
  | wgPeerPublicKey => exact wgPeerPublicKey_effect argv
  | wgPeerAllowedIps => exact wgPeerAllowedIps_effect argv
  | wgPeerEndpoint => exact wgPeerEndpoint_effect argv
  | wgPeerPersistentKeepalive => exact wgPeerPersistentKeepalive_effect argv
  | noWgPeer => exact noWgPeer_effect argv
  | wgLink => exact wgLink_effect argv
  | _ => exact sat_effect_of_keeps (keepsConfig_call _ v argv rfl) _ _

end QrWireguard.Vtysh
