import QrWireguard.Vtysh.Command

/-!
# The commands of the nodes

The tables `cmd_bridge_init`, `cmd_common_init`, `cmd_tool_init`, `cmd_ip_init`,
`cmd_firewall_init` and `cmd_vpn_init` install, in the order of `cmd_parse_init`, and the node
vectors after `cmd_sort_node`.
-/

namespace QrWireguard.Vtysh

/-- The handlers of the installed commands. -/
inductive CmdFunc where
  | bridgeDisable | noBridgeDisable | bridgeAdd | noBridgeAdd | showBridge | showBridgeMac
  | configTerminal | enable | disable | configExit | showVersion | showCpuinfo | showMeminfo
  | showInterruptsinfo | showUptime | configList | configWriteFile | configWriteTerminal
  | showStartupConfig | configHostname | configNoHostname
  | configSh | configPing | configPingCount | configSsh | configSshPort | configReboot
  | configPoweroff | configSysinfo | configTcpdump | showDate | netNetstatInfo
  | showIpAddress | showIpConfig | showIpConfigName | showIpRoute | ipAddress | noIpAddress
  | ipAddressDhcp | ipRoute | noIpRoute | configDns | configNoDns
  | sfirewallNatPortmap | noSfirewallNatPortmap | sfirewallNatPortmapApply
  | sfirewallFilterRules | noSfirewallFilterRules | sfirewallFilterRulesApply | showSfirewall
  | wgListenport | wgPeerPublicKey | wgPeerAllowedIps | wgPeerEndpoint
  | wgPeerPersistentKeepalive | noWgPeer | wgLink | wgRekey | wgClearkey | showWg | showWgConf
  deriving DecidableEq, Repr

/-- The nodes that have commands. `AUTH_ENABLE_NODE` is entered only when an enable password
is set, and the commands that set one are compiled out. -/
inductive Node where
  | view
  | enable
  | config
  deriving DecidableEq, Repr

/-- A template with its handler. -/
structure Defun where
  string : Str
  func : CmdFunc

/-! ## The templates -/

def bridgeDisableCmd : Defun := ⟨str "bridge disable", .bridgeDisable⟩
def noBridgeDisableCmd : Defun := ⟨str "no bridge disable", .noBridgeDisable⟩
def bridgeAddCmd : Defun := ⟨str "bridge NUM WORD WORD", .bridgeAdd⟩
def noBridgeAddCmd : Defun := ⟨str "no bridge NUM", .noBridgeAdd⟩
def showBridgeCmd : Defun := ⟨str "show bridge", .showBridge⟩
def showBridgeMacCmd : Defun := ⟨str "show bridge WORD", .showBridgeMac⟩

def configTerminalCmd : Defun := ⟨str "configure terminal", .configTerminal⟩
def configEnableCmd : Defun := ⟨str "enable", .enable⟩
def configDisableCmd : Defun := ⟨str "disable", .disable⟩
def configExitCmd : Defun := ⟨str "exit", .configExit⟩
def showVersionCmd : Defun := ⟨str "show version", .showVersion⟩
def showCpuinfoCmd : Defun := ⟨str "show cpuinfo", .showCpuinfo⟩
def showMeminfoCmd : Defun := ⟨str "show meminfo", .showMeminfo⟩
def showInterruptsinfoCmd : Defun := ⟨str "show interruptsinfo", .showInterruptsinfo⟩
def showUptimeCmd : Defun := ⟨str "show uptime", .showUptime⟩
def configListCmd : Defun := ⟨str "list", .configList⟩
def configWriteFileCmd : Defun := ⟨str "write file", .configWriteFile⟩
def configWriteCmd : Defun := ⟨str "write", .configWriteFile⟩
def configWriteMemoryCmd : Defun := ⟨str "write memory", .configWriteFile⟩
def configWriteTerminalCmd : Defun := ⟨str "write terminal", .configWriteTerminal⟩
def showRunningConfigCmd : Defun := ⟨str "show running-config", .configWriteTerminal⟩
def showStartupConfigCmd : Defun := ⟨str "show startup-config", .showStartupConfig⟩
def hostnameCmd : Defun := ⟨str "hostname WORD", .configHostname⟩
def noHostnameCmd : Defun := ⟨str "no hostname [HOSTNAME]", .configNoHostname⟩

def configShCmd : Defun := ⟨str "end WORD", .configSh⟩
def configPingCmd : Defun := ⟨str "ping WORD", .configPing⟩
def configPingCmdCount : Defun := ⟨str "ping WORD NUM", .configPingCount⟩
def configSshCmd : Defun := ⟨str "ssh WORD", .configSsh⟩
def configSshPortCmd : Defun := ⟨str "ssh WORD PORT", .configSshPort⟩
def configRebootCmd : Defun := ⟨str "reboot", .configReboot⟩
def configPoweroffCmd : Defun := ⟨str "poweroff", .configPoweroff⟩
def configSysinfoCmd : Defun := ⟨str "show sysinfo", .configSysinfo⟩
def configTcpdumpCmd : Defun := ⟨str "tcpdump INTERFACE EXPRESSION", .configTcpdump⟩
def showDateCmd : Defun := ⟨str "show date", .showDate⟩
def netNetstatInfoCmd : Defun := ⟨str "netstat", .netNetstatInfo⟩

def showIpAddressCmd : Defun := ⟨str "show ip address", .showIpAddress⟩
def showIpConfigCmd : Defun := ⟨str "show ip config", .showIpConfig⟩
def showIpConfigNameCmd : Defun := ⟨str "show ip config WORD", .showIpConfigName⟩
def showIpRouteCmd : Defun := ⟨str "show ip route", .showIpRoute⟩
def ipAddressCmd : Defun := ⟨str "ip address ETHNAME A.B.C.D A.B.C.D", .ipAddress⟩
def noIpAddressCmd : Defun := ⟨str "no ip address ETHNAME", .noIpAddress⟩
def ipAddressDhcpCmd : Defun := ⟨str "ip address ETHNAME dhcp", .ipAddressDhcp⟩
def ipRouteCmd : Defun := ⟨str "ip route A.B.C.D A.B.C.D A.B.C.D ETHNAME", .ipRoute⟩
def noIpRouteCmd : Defun := ⟨str "no ip route A.B.C.D A.B.C.D", .noIpRoute⟩
def configDnsCmd : Defun := ⟨str "nameserver A.B.C.D A.B.C.D", .configDns⟩
def configNoDnsCmd : Defun := ⟨str "no nameserver", .configNoDns⟩

def sfirewallNatPortmapCmd : Defun :=
  ⟨str "sfirewall nat portmap NUM (vpn|wan) A.B.C.D (tcp|udp|all) PORT PORT",
    .sfirewallNatPortmap⟩
def noSfirewallNatPortmapCmd : Defun :=
  ⟨str "no sfirewall nat portmap NUM (vpn|wan) A.B.C.D (tcp|udp|all) PORT PORT",
    .noSfirewallNatPortmap⟩
def sfirewallNatPortmapApplyCmd : Defun :=
  ⟨str "sfirewall nat portmap apply", .sfirewallNatPortmapApply⟩

set_option maxRecDepth 2000 in
def sfirewallFilterRulesCmd : Defun :=
  ⟨str "sfirewall filter NUM (lan2wan|wan2lan) (in|out|fw) (insert|append) (permit|deny|reject) (tcp|udp|icmp) A.B.C.D/E PORT A.B.C.D/E PORT DAY FROMTIME TOTIME",
    .sfirewallFilterRules⟩

set_option maxRecDepth 2000 in
def noSfirewallFilterRulesCmd : Defun :=
  ⟨str "no sfirewall filter NUM (lan2wan|wan2lan) (in|out|fw) (insert|append) (permit|deny|reject) (tcp|udp|icmp) A.B.C.D/E PORT A.B.C.D/E PORT DAY FROMTIME TOTIME",
    .noSfirewallFilterRules⟩
def sfirewallFilterRulesApplyCmd : Defun :=
  ⟨str "sfirewall filter apply", .sfirewallFilterRulesApply⟩
def showSfirewallCmd : Defun := ⟨str "show sfirewall (all|nat|filter|mangle)", .showSfirewall⟩

def wgListenportCmd : Defun := ⟨str "wg listenport NUM", .wgListenport⟩
def wgPeerPublicKeyCmd : Defun := ⟨str "wg peer PUBLICKEY", .wgPeerPublicKey⟩
def wgPeerAllowedIpsCmd : Defun := ⟨str "wg peer PUBLICKEY allowed-ips WORD", .wgPeerAllowedIps⟩
def wgPeerEndpointCmd : Defun :=
  ⟨str "wg peer PUBLICKEY allowed-ips WORD endpoint (none|FQDN:PORT|A.B.C.D:PORT)",
    .wgPeerEndpoint⟩
set_option maxRecDepth 2000 in
def wgPeerPersistentKeepaliveCmd : Defun :=
  ⟨str "wg peer PUBLICKEY allowed-ips WORD endpoint (none|FQDN:PORT|A.B.C.D:PORT) persistent-keepalive (off|NUM)",
    .wgPeerPersistentKeepalive⟩
def noWgPeerCmd : Defun := ⟨str "no wg peer PUBLICKEY", .noWgPeer⟩
def wgLinkCmd : Defun := ⟨str "wg (link-up|link-down)", .wgLink⟩
def wgRekeyCmd : Defun := ⟨str "wg regenerate-key", .wgRekey⟩
def wgClearkeyCmd : Defun := ⟨str "wg clear-key", .wgClearkey⟩
def showWgCmd : Defun := ⟨str "show wg", .showWg⟩
def showWgConfCmd : Defun := ⟨str "show wg ETHNAME", .showWgConf⟩

/-! ## What each file installs -/

def cmdBridgeInit : Node → List Defun
  | .view => []
  | .enable => [showBridgeCmd, showBridgeMacCmd]
  | .config => [bridgeDisableCmd, noBridgeDisableCmd, bridgeAddCmd, noBridgeAddCmd]

def cmdCommonInit : Node → List Defun
  | .view =>
    [showVersionCmd, configExitCmd, configEnableCmd, showCpuinfoCmd, showMeminfoCmd,
      showInterruptsinfoCmd, showUptimeCmd]
  | .enable =>
    [showVersionCmd, configExitCmd, configListCmd, configWriteTerminalCmd, configWriteFileCmd,
      configWriteMemoryCmd, configWriteCmd, showCpuinfoCmd, showMeminfoCmd,
      showInterruptsinfoCmd, showUptimeCmd, configDisableCmd, configTerminalCmd,
      showRunningConfigCmd, showStartupConfigCmd]
  | .config =>
    [showVersionCmd, configExitCmd, configWriteTerminalCmd, configWriteFileCmd,
      configWriteMemoryCmd, configWriteCmd, showRunningConfigCmd, showStartupConfigCmd,
      hostnameCmd, noHostnameCmd]

def cmdToolInit : Node → List Defun
  | .view => [configPingCmd, configPingCmdCount, configSshCmd, configSshPortCmd]
  | .enable =>
    [configPingCmd, configPingCmdCount, configSshCmd, configSshPortCmd, configTcpdumpCmd,
      netNetstatInfoCmd, configSysinfoCmd, showDateCmd]
  | .config =>
    [configPingCmd, configPingCmdCount, configRebootCmd, configPoweroffCmd, configSshCmd,
      configSshPortCmd, showDateCmd, configShCmd]

def cmdIpInit : Node → List Defun
  | .view => []
  | .enable => [showIpAddressCmd, showIpConfigCmd, showIpConfigNameCmd, showIpRouteCmd]
  | .config =>
    [showIpAddressCmd, showIpConfigCmd, showIpConfigNameCmd, showIpRouteCmd, ipAddressCmd,
      noIpAddressCmd, ipAddressDhcpCmd, ipRouteCmd, noIpRouteCmd, configDnsCmd, configNoDnsCmd]

def cmdFirewallInit : Node → List Defun
  | .view => []
  | .enable => [showSfirewallCmd]
  | .config =>
    [sfirewallNatPortmapCmd, noSfirewallNatPortmapCmd, sfirewallNatPortmapApplyCmd,
      sfirewallFilterRulesCmd, noSfirewallFilterRulesCmd, sfirewallFilterRulesApplyCmd,
      showSfirewallCmd]

def cmdVpnInit : Node → List Defun
  | .view => []
  | .enable => [showWgCmd, showWgConfCmd]
  | .config =>
    [showWgCmd, showWgConfCmd, wgListenportCmd, wgPeerPublicKeyCmd, wgPeerAllowedIpsCmd,
      wgPeerEndpointCmd, wgPeerPersistentKeepaliveCmd, noWgPeerCmd, wgLinkCmd, wgRekeyCmd,
      wgClearkeyCmd]

/-- `cmd_parse_init`: the templates of a node, in the order of installation. -/
def cmdParseInit (node : Node) : List Defun :=
  cmdBridgeInit node ++ cmdCommonInit node ++ cmdToolInit node ++ cmdIpInit node ++
    cmdFirewallInit node ++ cmdVpnInit node

/-- The elements of a node in the order of installation. -/
def installed (node : Node) : List (CmdElement CmdFunc) :=
  (cmdParseInit node).filterMap fun d => cmdInstallElement d.string d.func

/-- The command vector of a node after `cmd_sort_node`. -/
def cmdNodeVector (node : Node) : List (CmdElement CmdFunc) := cmdSortNode (installed node)

/-- Every template parses, so nothing is lost on installation. -/
theorem length_installed (node : Node) : (installed node).length = (cmdParseInit node).length := by
  cases node <;> decide +kernel

end QrWireguard.Vtysh
