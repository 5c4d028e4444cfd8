import QrWireguard.Vtysh.Effect

/-!
# What no command changes

The state of the shell that no handler reaches: the type of a terminal and the name of the
configuration file. A handler causes events, changes the configuration and the host name, and moves
a terminal to a node; what all of these leave alone, every handler and every load of a file leaves
alone.
-/

namespace QrWireguard.Vtysh
open Cli Proc

variable {γ : Type} {g : World → γ}

/-- A part of the state that the handlers do not reach. -/
structure Fixed (g : World → γ) : Prop where
  emit : ∀ w ev, g (w.emit ev) = g w
  setConfig : ∀ w config, g (w.setConfig config) = g w
  setNode : ∀ w node v, g (w.setNode node v) = g w
  hostName : ∀ (w : World) name, g { w with hostName := name } = g w

theorem fixed_type : Fixed fun w => w.vty.type where
  emit _ _ := rfl
  setConfig _ _ := rfl
  setNode _ _ v := by cases v <;> rfl
  hostName _ _ := rfl

theorem fixed_hostConfig : Fixed World.hostConfig where
  emit _ _ := rfl
  setConfig _ _ := rfl
  setNode _ _ v := by cases v <;> rfl
  hostName _ _ := rfl

namespace Fixed

theorem keeps_emit (hg : Fixed g) (ev : Event) : Keeps g (Cli.emit ev) := fun _ w => hg.emit w ev

theorem keeps_request (hg : Fixed g) {α : Type} (ev : Event) (answer : Env → List Event → α) :
    Keeps g (request ev answer) := fun _ w => hg.emit w ev

theorem keeps_sprintf (size : Nat) (text : Str) : Keeps g (sprintf size text) := by
  intro e w
  simp

theorem keeps_systemLines (hg : Fixed g) (lines : List Str) : Keeps g (systemLines lines) := by
  refine keeps_forM (fun text => keeps_bind (keeps_sprintf _ _) fun line => ?_) lines
  exact keeps_bind (hg.keeps_request _ _) fun _ => keeps_pure _

theorem keeps_rebootHint (hg : Fixed g) (name : Str) : Keeps g (rebootHint name) :=
  keeps_ite (hg.keeps_emit _) (keeps_pure _)

theorem keeps_ipAddressApply (hg : Fixed g) (name addr mask : Str) :
    Keeps g (ipAddressApply name addr mask) :=
  keeps_bind (hg.keeps_systemLines _) fun _ => keeps_bind (fun _ w => hg.emit w _) fun _ =>
    keeps_bind (hg.keeps_rebootHint name) fun _ => keeps_pure _

theorem keeps_noIpAddressApply (hg : Fixed g) (name : Str) : Keeps g (noIpAddressApply name) :=
  keeps_bind (hg.keeps_systemLines _) fun _ => keeps_bind (fun _ w => hg.emit w _) fun _ =>
    keeps_bind (hg.keeps_rebootHint name) fun _ => keeps_pure _

theorem keeps_ipAddressDhcpApply (hg : Fixed g) : Keeps g ipAddressDhcpApply :=
  keeps_bind (hg.keeps_systemLines _) fun _ => keeps_pure _

theorem keeps_ipRouteApply (hg : Fixed g) (dest mask gateway name : Str) :
    Keeps g (ipRouteApply dest mask gateway name) :=
  keeps_bind (hg.keeps_systemLines _) fun _ => keeps_pure _

theorem keeps_noIpRouteApply (hg : Fixed g) : Keeps g noIpRouteApply :=
  keeps_bind (hg.keeps_systemLines _) fun _ => keeps_pure _

theorem keeps_writeResolvConf (hg : Fixed g) (lines : List Str) :
    Keeps g (writeResolvConf lines) := by
  refine keeps_bind (hg.keeps_request _ _) fun opened => keeps_ite ?_ ?_
  · exact keeps_bind (keeps_forM (fun _ => hg.keeps_emit _) lines) fun _ => keeps_pure _
  · exact keeps_bind (hg.keeps_emit _) fun _ => keeps_pure _

theorem keeps_configHostnameApply (hg : Fixed g) (name : Str) :
    Keeps g (configHostnameApply name) := by
  intro e w
  simp [configHostnameApply, hg.emit, hg.hostName]

theorem keeps_wgListenportApply (hg : Fixed g) (port : Str) : Keeps g (wgListenportApply port) := by
  intro e w
  simp [wgListenportApply, hg.emit]

theorem keeps_bridgeAddApply (hg : Fixed g) (num eth1 eth2 : Str) :
    Keeps g (bridgeAddApply num eth1 eth2) := by
  intro e w
  simp [bridgeAddApply, hg.emit, hg.setConfig]

theorem keeps_dumpWith (hg : Fixed g) {print : Str → Cli Unit}
    (h : ∀ text, Keeps g (print text)) : Keeps g (dumpWith print) :=
  keeps_bind keeps_get fun _ => keeps_bind (keeps_ask _) fun _ =>
    keeps_ite (hg.keeps_emit _) (h _)

theorem keeps_showFile (hg : Fixed g) (path : Str) : Keeps g (showFile path) := by
  refine keeps_bind (hg.keeps_request _ _) fun contents => ?_
  cases contents with
  | none => exact keeps_pure _
  | some contents =>
    exact keeps_ite (keeps_bind (hg.keeps_emit _) fun _ => keeps_pure _) keeps_undefined

theorem keeps_configWriteFile (hg : Fixed g) (argv : List Str) :
    Keeps g (configWriteFile argv) := by
  refine keeps_bind keeps_get fun w => ?_
  cases w.hostConfig with
  | none => exact keeps_bind (hg.keeps_emit _) fun _ => keeps_pure _
  | some config =>
    refine keeps_bind (hg.keeps_request _ _) fun opened => keeps_ite ?_ ?_
    · exact keeps_bind (hg.keeps_dumpWith fun _ => hg.keeps_emit _) fun _ =>
        keeps_bind (hg.keeps_emit _) fun _ => keeps_pure _
    · exact keeps_bind (hg.keeps_emit _) fun _ => keeps_pure _

theorem keeps_showStartupConfig (hg : Fixed g) (argv : List Str) :
    Keeps g (showStartupConfig argv) := by
  refine keeps_bind keeps_get fun w => ?_
  cases w.hostConfig with
  | none => exact keeps_undefined
  | some config =>
    refine keeps_bind (hg.keeps_request _ _) fun contents => ?_
    cases contents with
    | none => exact keeps_bind (hg.keeps_emit _) fun _ => keeps_pure _
    | some contents =>
      exact keeps_bind (keeps_forM (fun _ => hg.keeps_emit _) _) fun _ => keeps_pure _

theorem keeps_ruleParams (count size : Nat) (text : Str) : Keeps g (ruleParams count size text) :=
  keeps_bind (keeps_forM (fun _ => keeps_bind (keeps_sprintf _ _) fun _ => keeps_pure _) _)
    fun _ => keeps_pure _

theorem keeps_portmapApplyLoop (hg : Fixed g) (lines : List Str) :
    Keeps g (portmapApplyLoop lines) := by
  induction lines with
  | nil => exact keeps_pure _
  | cons xbuf lines ih =>
    unfold portmapApplyLoop
    refine keeps_ite (keeps_bind keeps_undefined fun _ => ?_) ?_ <;>
    · refine keeps_ite (keeps_bind (keeps_ruleParams _ _ _) fun params => ?_) ih
      cases params with
      | none => exact ih
      | some params => exact keeps_bind (hg.keeps_emit _) fun _ => ih

theorem keeps_filterApplyLoop (hg : Fixed g) (actionIndex count : Nat) (lines : List Str) :
    Keeps g (filterApplyLoop actionIndex count lines) := by
  induction lines generalizing actionIndex count with
  | nil => exact keeps_pure _
  | cons xbuf lines ih =>
    unfold filterApplyLoop
    refine keeps_ite (keeps_bind keeps_undefined fun _ => ?_) ?_ <;>
    · refine keeps_ite (keeps_bind (keeps_ruleParams _ _ _) fun params => ?_) (ih _ _)
      cases params.bind FilterArgs.ofArgv with
      | none => exact ih _ _
      | some params => exact keeps_bind (hg.keeps_emit _) fun _ => ih _ _

theorem keeps_applyFirewallRules (hg : Fixed g) : Keeps g applyFirewallRules := by
  intro e w
  simp [applyFirewallRules, touchMissing, hg.emit]

theorem keeps_sfirewallNatPortmapApply (hg : Fixed g) (argv : List Str) :
    Keeps g (sfirewallNatPortmapApply argv) := by
  refine keeps_bind (hg.keeps_request _ _) fun opened => keeps_ite (keeps_pure _) ?_
  refine keeps_bind (hg.keeps_emit _) fun _ => keeps_bind (hg.keeps_request _ _) fun contents => ?_
  cases contents with
  | none => exact keeps_pure _
  | some contents =>
    exact keeps_bind (hg.keeps_portmapApplyLoop _) fun _ =>
      keeps_bind hg.keeps_applyFirewallRules fun _ => keeps_pure _

theorem keeps_sfirewallFilterRulesApply (hg : Fixed g) (argv : List Str) :
    Keeps g (sfirewallFilterRulesApply argv) := by
  refine keeps_bind (hg.keeps_request _ _) fun opened => keeps_ite (keeps_pure _) ?_
  refine keeps_bind (hg.keeps_emit _) fun _ => keeps_bind (hg.keeps_request _ _) fun contents => ?_
  cases contents with
  | none => exact keeps_pure _
  | some contents =>
    exact keeps_bind (hg.keeps_filterApplyLoop _ _ _) fun _ =>
      keeps_bind hg.keeps_applyFirewallRules fun _ => keeps_pure _

/-! ## Parts of the handlers -/

theorem keeps_delLine (hg : Fixed g) (line : Str) : Keeps g (delLine line) :=
  fun _ w => hg.setConfig w _

theorem keeps_delLineByleft (hg : Fixed g) (line : Str) : Keeps g (delLineByleft line) :=
  fun _ w => hg.setConfig w _

theorem keeps_addLine (hg : Fixed g) (line : Str) (args : List Str) :
    Keeps g (addLine line args) := by
  intro e w
  rw [sat_addLine]
  exact fun config _ => hg.setConfig w config

theorem keeps_ensureConfig (v : VtyRef) {rest : Cli Int} (h : Keeps g rest) :
    Keeps g (ensureConfig v rest) :=
  keeps_bind keeps_get fun _ => keeps_ite (keeps_pure _) h

theorem keeps_setNode (hg : Fixed g) (node : Node) (v : VtyRef) :
    Keeps g (Proc.modify (·.setNode node v) : Cli Unit) := fun _ w => hg.setNode w node v

theorem keeps_refusal (hg : Fixed g) (text : Str) (code : Int) :
    Keeps g (do vtyOut text; return code : Cli Int) :=
  keeps_bind (hg.keeps_emit _) fun _ => keeps_pure _

theorem keeps_argChecks (hg : Fixed g) (checks : List ArgCheck) {rest : Cli Int}
    (h : Keeps g rest) : Keeps g (argChecks checks rest) := fun e w =>
  sat_argChecks (fun _ => h e w) fun _ _ => hg.emit w _

/-- A handler that deletes a line, adds one and applies it. -/
theorem keeps_store (hg : Fixed g) (v : VtyRef) {del : Cli Unit} (hdel : Keeps g del) (line : Str)
    (args : List Str) {rest : Cli Int} (h : Keeps g rest) :
    Keeps g (do del; addLine line args; ensureConfig v rest : Cli Int) :=
  keeps_bind hdel fun _ => keeps_bind (hg.keeps_addLine line args) fun _ => keeps_ensureConfig v h

theorem keeps_wgPeer (hg : Fixed g) (v : VtyRef) (checks : List PeerCheck) (key tail : Str) :
    Keeps g (wgPeer v checks key tail) := by
  intro e w
  refine sat_peerChecks (fun _ => ?_) fun _ _ => hg.emit w _
  simp [wgPeerStore, hg.emit, hg.setConfig]

/-! ## The handlers -/

/-- No handler changes it. -/
theorem keeps_call (hg : Fixed g) (func : CmdFunc) (v : VtyRef) (argv : List Str) :
    Keeps g (call func v argv) := by
  cases func
  case bridgeDisable => exact hg.keeps_store v (hg.keeps_delLine _) _ _ (keeps_pure _)
  case noBridgeDisable =>
    exact keeps_bind (hg.keeps_delLine _) fun _ => keeps_ensureConfig v (keeps_pure _)
  case configTerminal => exact keeps_bind (hg.keeps_setNode _ v) fun _ => keeps_pure _
  case enable => exact keeps_bind (hg.keeps_setNode _ v) fun _ => keeps_pure _
  case disable =>
    refine keeps_bind keeps_get fun w => keeps_ite ?_ (keeps_pure _)
    exact keeps_bind (hg.keeps_setNode _ v) fun _ => keeps_pure _
  case configExit =>
    refine keeps_bind keeps_get fun w => ?_
    cases (w.vtyOf v).node with
    | view => exact keeps_exit
    | enable => exact keeps_bind (hg.keeps_setNode _ v) fun _ => keeps_pure _
    | config => exact keeps_bind (hg.keeps_setNode _ v) fun _ => keeps_pure _
  case showVersion =>
    exact keeps_bind (keeps_ask _) fun _ =>
      keeps_bind (keeps_forM (fun _ => hg.keeps_emit _) _) fun _ => keeps_pure _
  case configList =>
    exact keeps_bind keeps_get fun _ =>
      keeps_bind (keeps_forM (fun _ => hg.keeps_emit _) _) fun _ => keeps_pure _
  case showCpuinfo => exact hg.keeps_showFile _
  case showMeminfo => exact hg.keeps_showFile _
  case showInterruptsinfo => exact hg.keeps_showFile _
  case configWriteFile => exact hg.keeps_configWriteFile argv
  case configWriteTerminal =>
    exact keeps_bind (hg.keeps_dumpWith fun _ => hg.keeps_emit _) fun _ => keeps_pure _
  case showStartupConfig => exact hg.keeps_showStartupConfig argv
  case sfirewallNatPortmapApply => exact hg.keeps_sfirewallNatPortmapApply argv
  case sfirewallFilterRulesApply => exact hg.keeps_sfirewallFilterRulesApply argv
  case configNoDns =>
    exact keeps_bind (hg.keeps_delLineByleft _) fun _ =>
      keeps_ensureConfig v (hg.keeps_writeResolvConf _)
  -- the other handlers match on their arguments
  all_goals simp only [call]
  case bridgeAdd =>
    unfold bridgeAdd
    split
    · have hinvalid : ∀ eth, Keeps g (bridgeIfInvalid eth) := fun eth =>
        keeps_bind (keeps_sprintf _ _) fun _ => keeps_ite (keeps_pure _)
          (keeps_bind (hg.keeps_request _ _) fun _ => keeps_pure _)
      refine keeps_ite (hg.keeps_refusal _ _) (keeps_bind (hinvalid _) fun _ => ?_)
      refine keeps_ite (hg.keeps_refusal _ _) (keeps_bind (hinvalid _) fun _ => ?_)
      refine keeps_ite (hg.keeps_refusal _ _) ?_
      exact hg.keeps_store v (hg.keeps_delLineByleft _) _ _ (hg.keeps_bridgeAddApply _ _ _)
    · exact keeps_undefined
  case configHostname =>
    unfold configHostname
    split
    · refine keeps_ite (hg.keeps_refusal _ _) ?_
      exact hg.keeps_store v (hg.keeps_delLineByleft _) _ _ (hg.keeps_configHostnameApply _)
    · exact keeps_undefined
  case ipAddress =>
    unfold ipAddress
    split
    · refine keeps_ite (hg.keeps_refusal _ _) (keeps_bind (keeps_sprintf _ _) fun _ => ?_)
      refine keeps_bind (hg.keeps_delLineByleft _) fun _ => ?_
      refine keeps_bind (keeps_sprintf _ _) fun _ => ?_
      exact keeps_bind (hg.keeps_addLine _ _) fun _ =>
        keeps_ensureConfig v (hg.keeps_ipAddressApply _ _ _)
    · exact keeps_undefined
  case noIpAddress =>
    unfold noIpAddress
    split
    · refine keeps_ite (hg.keeps_refusal _ _) (keeps_bind (hg.keeps_emit _) fun _ => ?_)
      refine keeps_bind (hg.keeps_request _ _) fun _ => keeps_ite (hg.keeps_refusal _ _) ?_
      exact keeps_bind (keeps_sprintf _ _) fun _ =>
        keeps_bind (hg.keeps_delLineByleft _) fun _ => hg.keeps_noIpAddressApply _
    · exact keeps_undefined
  case ipAddressDhcp =>
    unfold ipAddressDhcp
    split
    · refine keeps_ite (hg.keeps_refusal _ _) (keeps_bind (keeps_sprintf _ _) fun _ => ?_)
      refine keeps_bind (hg.keeps_delLineByleft _) fun _ => ?_
      refine keeps_bind (keeps_sprintf _ _) fun _ => ?_
      exact keeps_bind (hg.keeps_addLine _ _) fun _ =>
        keeps_ensureConfig v hg.keeps_ipAddressDhcpApply
    · exact keeps_undefined
  case ipRoute =>
    unfold ipRoute
    split
    · refine keeps_ite (hg.keeps_refusal _ _) (keeps_bind (keeps_sprintf _ _) fun _ => ?_)
      exact hg.keeps_store v (hg.keeps_delLine _) _ _ (hg.keeps_ipRouteApply _ _ _ _)
    · exact keeps_undefined
  case noIpRoute =>
    unfold noIpRoute
    split
    · exact keeps_bind (keeps_sprintf _ _) fun _ =>
        keeps_bind (hg.keeps_delLineByleft _) fun _ => hg.keeps_noIpRouteApply
    · exact keeps_undefined
  case configDns =>
    unfold configDns
    split
    · exact hg.keeps_store v (hg.keeps_delLineByleft _) _ _ (hg.keeps_writeResolvConf _)
    · exact keeps_undefined
  case sfirewallNatPortmap =>
    unfold sfirewallNatPortmap
    split
    · refine hg.keeps_argChecks _ (keeps_bind (keeps_sprintf _ _) fun _ => ?_)
      exact hg.keeps_store v (hg.keeps_delLine _) _ _ (keeps_pure _)
    · exact keeps_undefined
  case noSfirewallNatPortmap =>
    unfold noSfirewallNatPortmap
    split
    · refine hg.keeps_argChecks _ (keeps_bind (keeps_sprintf _ _) fun _ => ?_)
      exact keeps_bind (hg.keeps_delLine _) fun _ => keeps_ensureConfig v (keeps_pure _)
    · exact keeps_undefined
  case sfirewallFilterRules =>
    unfold sfirewallFilterRules
    split
    · have hstore : ∀ line, Keeps g (do
          let line ← sprintf 1024 line
          delLine line
          addLine line []
          ensureConfig v (pure 0) : Cli Int) := fun line =>
        keeps_bind (keeps_sprintf _ _) fun _ =>
          hg.keeps_store v (hg.keeps_delLine _) _ _ (keeps_pure _)
      refine hg.keeps_argChecks _ (keeps_ite ?_ (hstore _))
      exact keeps_bind (keeps_sprintf _ _) fun _ =>
        keeps_bind (hg.keeps_delLine _) fun _ => hstore _
    · exact keeps_undefined
  case noSfirewallFilterRules =>
    unfold noSfirewallFilterRules
    split
    · refine hg.keeps_argChecks _ (keeps_bind (keeps_sprintf _ _) fun _ => ?_)
      exact keeps_bind (hg.keeps_delLine _) fun _ => keeps_ensureConfig v (keeps_pure _)
    · exact keeps_undefined
  case wgListenport =>
    unfold wgListenport
    split
    · exact hg.keeps_store v (hg.keeps_delLineByleft _) _ _ (hg.keeps_wgListenportApply _)
    · exact keeps_undefined
  case wgPeerPublicKey =>
    unfold wgPeerPublicKey
    split
    · exact hg.keeps_wgPeer v _ _ _
    · exact keeps_undefined
  case wgPeerAllowedIps =>
    unfold wgPeerAllowedIps
    split
    · exact hg.keeps_wgPeer v _ _ _
    · exact keeps_undefined
  case wgPeerEndpoint =>
    unfold wgPeerEndpoint
    split
    · exact hg.keeps_wgPeer v _ _ _
    · exact keeps_undefined
  case wgPeerPersistentKeepalive =>
    unfold wgPeerPersistentKeepalive
    split
    · exact hg.keeps_wgPeer v _ _ _
    · exact keeps_undefined
  all_goals intro e w
  case wgRekey =>
    simp only [wgRekey, sat_bind, sat_system, sat_vtyOut, sat_openRead]
    split <;> simp [hg.emit]
  case showBridgeMac => unfold showBridgeMac; split <;> simp [hg.emit]
  case configSh => unfold configSh; split <;> simp [hg.emit]
  case configPing => unfold configPing; split <;> simp [hg.emit]
  case configPingCount => unfold configPingCount; split <;> simp [hg.emit]
  case configSsh => unfold configSsh; split <;> simp [hg.emit]
  case configSshPort => unfold configSshPort; split <;> simp [hg.emit]
  case configTcpdump => unfold configTcpdump; split <;> simp [hg.emit]
  case showIpConfigName => unfold showIpConfigName; split <;> simp [hg.emit]
  case showSfirewall => unfold showSfirewall; split <;> simp [hg.emit]
  case showWgConf => unfold showWgConf; split <;> simp [hg.emit]
  case noBridgeAdd => unfold noBridgeAdd; split <;> simp [hg.emit, hg.setConfig]
  case noWgPeer => unfold noWgPeer; split <;> simp [hg.emit, hg.setConfig]
  case wgLink => unfold wgLink; split <;> simp [hg.emit, hg.setConfig]
  all_goals
    simp [configNoHostname, showBridge, showUptime, configReboot, configPoweroff, configSysinfo,
      showDate, netNetstatInfo, showIpAddress, showIpConfig, showIpRoute, wgClearkey, showWg,
      hg.emit, hg.setConfig, hg.hostName]

theorem keeps_cmdExecute (hg : Fixed g) (filter : Filter) (vline : List Str) (v : VtyRef) :
    Keeps g (cmdExecute filter vline v) := by
  refine keeps_bind keeps_get fun w => ?_
  cases cmdLookup filter (cmdNodeVector (w.vtyOf v).node) vline with
  | error code => exact keeps_pure _
  | run elem argv => exact hg.keeps_call elem.func v argv
  | undefined => exact keeps_undefined

theorem keeps_vtyshExecute (hg : Fixed g) (line : Str) : Keeps g (vtyshExecute line) := by
  unfold vtyshExecute vtyshExecuteFunc
  cases cmdMakeStrvec (cstr line) with
  | none => exact keeps_pure _
  | some vline =>
    refine keeps_bind (hg.keeps_cmdExecute _ vline .vty) fun ret => ?_
    have hreport : ∀ text, Keeps g (do vtyOut text; return ret : Cli Int) := fun text =>
      hg.keeps_refusal text ret
    exact keeps_ite (hreport _) (keeps_ite (hreport _) (keeps_ite (hreport _) (keeps_pure _)))

/-! ## Loading a file -/

theorem keeps_configFromFileLine (hg : Fixed g) (buf : Str) :
    Keeps g (configFromFileLine buf) := by
  have hreport : ∀ ret, Keeps g (configFromFileReport buf ret) := by
    intro ret
    unfold configFromFileReport
    exact keeps_ite (hg.keeps_emit _) (keeps_ite (hg.keeps_emit _)
      (keeps_ite (hg.keeps_emit _) (keeps_pure _)))
  have hwords : ∀ vline, Keeps g (configFromFileWords buf vline) := by
    rintro (- | vline)
    · exact keeps_pure _
    · have hretry : Keeps g (configFromFileRetry vline) :=
        keeps_bind (hg.keeps_vtyshExecute _) fun _ => keeps_bind (hg.keeps_vtyshExecute _) fun _ =>
          keeps_bind (hg.keeps_setNode _ _) fun _ => hg.keeps_cmdExecute _ _ _
      unfold configFromFileWords
      exact keeps_bind (hg.keeps_cmdExecute _ vline _) fun ret =>
        keeps_ite (keeps_bind hretry hreport) (hreport ret)
  unfold configFromFileLine
  refine keeps_ite (keeps_pure _) (keeps_ite ?_ (hwords _))
  exact keeps_bind (hg.keeps_setNode _ _) fun _ => hwords _

theorem keeps_configFromLines (hg : Fixed g) (lines : List Str) :
    Keeps g (configFromLines lines) := by
  induction lines with
  | nil => exact keeps_pure _
  | cons buf lines ih => exact keeps_bind (hg.keeps_configFromFileLine buf) fun _ => ih

/-- Loading a file does not change it either, when it is not part of the terminal that is made for
the load. -/
theorem keeps_vtyshLoadConfig (hg : Fixed g) (hmyvty : ∀ w vty, g { w with myvty := vty } = g w)
    (filename : Str) : Keeps g (vtyshLoadConfig filename) := by
  refine keeps_bind (fun _ w => hmyvty w _) fun _ => ?_
  refine keeps_bind (hg.keeps_request _ _) fun contents => ?_
  cases contents with
  | none => exact keeps_pure _
  | some contents => exact keeps_bind (hg.keeps_configFromLines _) fun _ => keeps_pure _

end Fixed

end QrWireguard.Vtysh
