import QrWireguard.Vtysh.Vty

/-!
# Firewall commands

`cmd_fw.c`. The `no` form of each rule command checks its arguments exactly as the plain form
does, so both share the checks.
-/

namespace QrWireguard.Vtysh
open Cli

/-- What a check of the arguments yields: they pass, they are refused with a text and a code,
or they do not fit the buffer they are copied to. -/
inductive ArgCheck where
  | ok
  | fail (text : Str) (code : Int)
  | overrun

/-- Run the checks up to the first that does not pass. -/
def argChecks : List ArgCheck → Cli Int → Cli Int
  | [], rest => rest
  | .ok :: checks, rest => argChecks checks rest
  | .fail text code :: _, _ => do
    vtyOut text
    return code
  | .overrun :: _, _ => Proc.undefined

/-- The check of a rule number, which looks at its first byte. -/
def checkRuleNumber (num : Str) : ArgCheck :=
  if isdigit (firstByte num) then .ok
  else .fail (str "% Invalid format '" ++ num ++ str "'\n") cmdErrNothingTodo

/-! ## Port forwarding -/

/-- A port of a rule for all protocols must be 0. -/
def checkPortOfAll (proto port : Str) : ArgCheck :=
  if proto = str "all" ∧ port ≠ str "0" then
    .fail (str "% Invalid port number '" ++ port ++ str "'\n") cmdErrNothingTodo
  else .ok

/-- The line of a port forwarding rule. -/
def portmapLine (argv : List Str) : Str := str "sfirewall nat portmap " ++ unwords ' ' argv

/-- `sfirewall_nat_portmap`. -/
def sfirewallNatPortmap (v : VtyRef) (argv : List Str) : Cli Int :=
  match argv with
  | [num, _, _, proto, port1, port2] =>
    argChecks [checkRuleNumber num, checkPortOfAll proto port1, checkPortOfAll proto port2] do
      let line ← sprintf 1024 (portmapLine argv)
      delLine line
      addLine line []
      ensureConfig v (pure 0)
  | _ => Proc.undefined

/-- `no_sfirewall_nat_portmap`. -/
def noSfirewallNatPortmap (v : VtyRef) (argv : List Str) : Cli Int :=
  match argv with
  | [num, _, _, proto, port1, port2] =>
    argChecks [checkRuleNumber num, checkPortOfAll proto port1, checkPortOfAll proto port2] do
      let line ← sprintf 1024 (portmapLine argv)
      delLine line
      ensureConfig v (pure 0)
  | _ => Proc.undefined

/-! ## Filter rules -/

/-- An argument that must be one of the keywords. -/
def checkKeyword (keywords : List Str) (arg : Str) : ArgCheck :=
  if arg ∈ keywords then .ok
  else .fail (str "% Not supported option(" ++ arg ++ str ").\n") cmdWarning

/-- A port: `any`, or a number from 1 to 65535. -/
def checkPort (port : Str) : ArgCheck :=
  let invalid := ArgCheck.fail (str "% Invalid port number '" ++ port ++ str "'\n")
    cmdErrNothingTodo
  if port = str "any" then .ok
  else if !isdigit (firstByte port) then invalid
  else if atoi port ≤ 0 ∨ 65535 < atoi port then invalid
  else .ok

/-- An address with a mask: it starts with a digit, and at most two bytes follow the first
slash. -/
def checkCidr (addr : Str) : ArgCheck :=
  if !isdigit (firstByte addr) then
    .fail (str "% Invalid ip address '" ++ addr ++ str "'\n") cmdErrNothingTodo
  else if 256 ≤ addr.length then .overrun
  else match addr.dropWhile (· != '/') with
    | [] =>
      .fail (str "% Invalid ip address/netmask '" ++ addr ++ str "'\n") cmdErrNothingTodo
    | s =>
      if 3 < s.length then
        .fail (str "% Invalid netmask '" ++ s.tail ++ str "'\n") cmdErrNothingTodo
      else .ok

/-- `strtok` called over and over with one delimiter. -/
def strtok (delim : Char) (s : Str) : List Str := words (· == delim) s

/-- The days of a rule: `any`, or at most seven pieces of three bytes. -/
def checkDay (day : Str) : ArgCheck :=
  let invalid := ArgCheck.fail (str "% Invalid day value '" ++ day ++ str "'\n") cmdErrNothingTodo
  if day = str "any" then .ok
  else if 128 ≤ day.length then .overrun
  else if (strtok '|' day).any (fun s => s.length != 3) then invalid
  else if 7 < (strtok '|' day).length then invalid
  else .ok

/-- A time of day: `any`, or two pieces of two bytes, an hour and a minute. -/
def checkTime (time : Str) : ArgCheck :=
  let invalid := ArgCheck.fail (str "% Invalid time value '" ++ time ++ str "'\n")
    cmdErrNothingTodo
  if time = str "any" then .ok
  else if 128 ≤ time.length then .overrun
  else match strtok ':' time with
    | [] => invalid
    | hour :: rest =>
      if hour.length ≠ 2 then invalid
      else if 23 < atoi hour ∨ atoi hour < 0 then
        .fail (str "% Invalid time(hour) value '" ++ time ++ str "'\n") cmdErrNothingTodo
      else match rest with
        | [] => invalid
        | minute :: _ =>
          if minute.length ≠ 2 then invalid
          else if 59 < atoi minute ∨ atoi minute < 0 then
            .fail (str "% Invalid time(minute) value '" ++ time ++ str "'\n") cmdErrNothingTodo
          else .ok

/-- The arguments of a filter rule. -/
structure FilterArgs where
  num : Str
  zone : Str
  direction : Str
  position : Str
  action : Str
  proto : Str
  src : Str
  sport : Str
  dst : Str
  dport : Str
  day : Str
  fromtime : Str
  totime : Str
  deriving DecidableEq

namespace FilterArgs

/-- The arguments by position. -/
def ofArgv : List Str → Option FilterArgs
  | [num, zone, direction, position, action, proto, src, sport, dst, dport, day, fromtime,
      totime] =>
    some ⟨num, zone, direction, position, action, proto, src, sport, dst, dport, day, fromtime,
      totime⟩
  | _ => none

/-- The arguments as a list. -/
def toArgv (a : FilterArgs) : List Str :=
  [a.num, a.zone, a.direction, a.position, a.action, a.proto, a.src, a.sport, a.dst, a.dport,
    a.day, a.fromtime, a.totime]

/-- The line of a filter rule. -/
def line (a : FilterArgs) : Str := str "sfirewall filter " ++ unwords ' ' a.toArgv

/-- The checks of `sfirewall_filter_rules`, in the order of the source. -/
def checks (a : FilterArgs) : List ArgCheck :=
  [checkRuleNumber a.num,
    checkKeyword [str "lan2wan", str "wan2lan"] a.zone,
    checkKeyword [str "in", str "out", str "fw"] a.direction,
    checkKeyword [str "insert", str "append"] a.position,
    checkKeyword [str "permit", str "deny", str "reject"] a.action,
    checkPort a.sport,
    checkPort a.dport,
    checkCidr a.src,
    checkCidr a.dst,
    checkDay a.day,
    checkTime a.fromtime,
    checkTime a.totime]

/-- The same rule at the other position. -/
def twin (a : FilterArgs) : FilterArgs :=
  if a.position = str "append" then { a with position := str "insert" }
  else { a with position := str "append" }

end FilterArgs

/-- `sfirewall_filter_rules`. The rule's twin at the other position is removed first. -/
def sfirewallFilterRules (v : VtyRef) (argv : List Str) : Cli Int :=
  match FilterArgs.ofArgv argv with
  | some a =>
    argChecks a.checks do
      if a.position = str "append" ∨ a.position = str "insert" then
        let line ← sprintf 1024 a.twin.line
        delLine line
      let line ← sprintf 1024 a.line
      delLine line
      addLine line []
      ensureConfig v (pure 0)
  | none => Proc.undefined

/-- `no_sfirewall_filter_rules`. -/
def noSfirewallFilterRules (v : VtyRef) (argv : List Str) : Cli Int :=
  match FilterArgs.ofArgv argv with
  | some a =>
    argChecks a.checks do
      let line ← sprintf 1024 a.line
      delLine line
      ensureConfig v (pure 0)
  | none => Proc.undefined

/-! ## Applying the rules -/

/-- `touch` of a rule file that does not exist. -/
def touchMissing (path : Str) : Cli Unit := do
  if !(← stat path) then
    let _ ← system (str "touch " ++ path ++ str " > /dev/null 2>&1")

/-- `apply_firewall_rules`. -/
def applyFirewallRules : Cli Unit := do
  if !(← stat (str "/etc/config/firewall.ORG")) then
    let _ ← system (str "cp /etc/config/firewall /etc/config/firewall.ORG > /dev/null 2>&1")
  touchMissing (str "/etc/config/sfirewall_filter")
  touchMissing (str "/etc/config/sfirewall_mac")
  touchMissing (str "/etc/config/sfirewall_nat")
  let _ ← system
    (str "cat /etc/config/sfirewall_filter /etc/config/sfirewall_mac /etc/config/sfirewall_nat > /tmp/sfirewall")
  let _ ← system (str "mv /tmp/sfirewall /etc/config > /dev/null 2>&1")
  let _ ← system (str "cat /etc/config/firewall.ORG /etc/config/sfirewall > /tmp/firewall")
  let _ ← system (str "mv /tmp/firewall /etc/config > /dev/null 2>&1")
  let _ ← system (str "uci commit firewall > /dev/null 2>&1")
  let _ ← system (str "/etc/init.d/firewall restart > /dev/null 2>&1")

/-- The first `count` words of a rule line after its keywords, copied into buffers of `size`
bytes; `none` when there are fewer. The words in front of a missing one are copied too. -/
def ruleParams (count size : Nat) (text : Str) : Cli (Option (List Str)) := do
  let params := (strtok ' ' text).take count
  params.forM fun s => do
    let _ ← sprintf size s
  return if params.length < count then none else some params

/-- The stanza of a port forwarding rule. -/
def portmapStanza : List Str → Str
  | [_, src, dest, proto, port1, port2] =>
    str "config redirect\n" ++
    str "       option target          'DNAT'\n" ++
    str "       option src             '" ++ src ++ str "'\n" ++
    str "       option dest            'lan'\n" ++
    str "       option proto           '" ++ proto ++ str "'\n" ++
    (if port1 ≠ str "0" then str "       option src_dport       '" ++ port1 ++ str "'\n" else []) ++
    str "       option dest_ip         '" ++ dest ++ str "'\n" ++
    (if port2 ≠ str "0" then str "       option dest_port       '" ++ port2 ++ str "'\n" else []) ++
    str "       option enabled         '1'\n" ++
    str "\n"
  | _ => []

/-- The loop of `sfirewall_nat_portmap_apply` over the lines of the rule file. The last byte of
each line is cut off. -/
def portmapApplyLoop : List Str → Cli Unit
  | [] => pure ()
  | xbuf :: lines => do
    let xbuf := cstr xbuf
    if xbuf = [] then Proc.undefined
    let xbuf := xbuf.dropLast
    if (str "sfirewall nat portmap").isPrefixOf xbuf then
      match ← ruleParams 6 32 (xbuf.drop 22) with
      | none => portmapApplyLoop lines
      | some params =>
        fprintf (str "/etc/config/sfirewall_nat") (portmapStanza params)
        portmapApplyLoop lines
    else portmapApplyLoop lines

/-- `sfirewall_nat_portmap_apply`. -/
def sfirewallNatPortmapApply (_argv : List Str) : Cli Int := do
  if !(← openWrite (str "/etc/config/sfirewall_nat")) then return cmdWarning
  fprintf (str "/etc/config/sfirewall_nat") (str "\n")
  match ← openRead (str "/qrwg/config/portmap.txt") with
  | none => return cmdWarning
  | some contents =>
    portmapApplyLoop (fgets 1024 contents)
    applyFirewallRules
    return cmdSuccess

/-- The targets of the actions, by `action_index`. -/
def action (actionIndex : Nat) : Str :=
  [str "ACCEPT", str "DROP", str "REJECT"].getD actionIndex []

/-- The new `action_index`, which stays as it was for an unknown action. -/
def nextActionIndex (actionIndex : Nat) (param : Str) : Nat :=
  if param = str "permit" then 0
  else if param = str "deny" then 1
  else if param = str "reject" then 2
  else actionIndex

/-- The stanza of a filter rule. The end time is written when there is a start time. -/
def filterStanza (actionIndex count : Nat) (a : FilterArgs) : Str :=
  let weekdays := a.day.map fun c => if c = '|' then ' ' else c
  str "config rule\n" ++
  (if a.zone = str "lan2wan" then
    str "        option src 'lan'\n" ++ str "        option dest 'wan'\n"
  else if a.zone = str "wan2lan" then
    str "        option src 'wan'\n" ++ str "        option dest 'lan'\n"
  else []) ++
  str "        option proto '" ++ a.proto ++ str "'\n" ++
  str "        option family 'ipv4'\n" ++
  str "        option src_ip '" ++ a.src ++ str "'\n" ++
  (if a.sport ≠ str "any" then str "        option src_port '" ++ a.sport ++ str "'\n" else []) ++
  str "        option dest_ip '" ++ a.dst ++ str "'\n" ++
  (if a.dport ≠ str "any" then str "        option dest_port '" ++ a.dport ++ str "'\n" else []) ++
  (if weekdays ≠ str "any" then str "        option weekdays '" ++ weekdays ++ str "'\n" else []) ++
  (if a.fromtime ≠ str "any" then
    str "        option start_time '" ++ a.fromtime ++ str "'\n" ++
    str "        option stop_time '" ++ a.totime ++ str "'\n"
  else []) ++
  str "        option target '" ++ action actionIndex ++ str "'\n" ++
  str "        option name 'SFIREWALL_FILTER" ++ itoa count ++ str "'\n" ++
  str "        option enabled '1'\n" ++
  str "\n"

/-- The loop of `sfirewall_filter_rules_apply` over the lines of the rule file. -/
def filterApplyLoop (actionIndex count : Nat) : List Str → Cli Unit
  | [] => pure ()
  | xbuf :: lines => do
    let xbuf := cstr xbuf
    if xbuf = [] then Proc.undefined
    let xbuf := xbuf.dropLast
    if (str "sfirewall filter").isPrefixOf xbuf then
      match (← ruleParams 13 64 (xbuf.drop 17)).bind FilterArgs.ofArgv with
      | none => filterApplyLoop actionIndex count lines
      | some a =>
        let actionIndex := nextActionIndex actionIndex a.action
        fprintf (str "/etc/config/sfirewall_filter") (filterStanza actionIndex count a)
        filterApplyLoop actionIndex (count + 1) lines
    else filterApplyLoop actionIndex count lines

/-- `sfirewall_filter_rules_apply`. -/
def sfirewallFilterRulesApply (_argv : List Str) : Cli Int := do
  if !(← openWrite (str "/etc/config/sfirewall_filter")) then return cmdWarning
  fprintf (str "/etc/config/sfirewall_filter") (str "\n")
  match ← openRead (str "/qrwg/config/filter.txt") with
  | none => return cmdWarning
  | some contents =>
    filterApplyLoop 0 0 (fgets 1024 contents)
    applyFirewallRules
    return cmdSuccess

/-- `show_sfirewall`: an argument that is not one of the keywords shows nothing. -/
def showSfirewall : List Str → Cli Int
  | [arg] => do
    if arg = str "all" then
      let _ ← system (str "iptables -n -v -L")
    else if arg = str "nat" then
      let _ ← system (str "iptables -t nat -n -v -L")
    else if arg = str "filter" then
      let _ ← system (str "iptables -t filter -n -v -L")
    else if arg = str "mangle" then
      let _ ← system (str "iptables -t mangle -n -v -L")
    return cmdSuccess
  | _ => Proc.undefined

end QrWireguard.Vtysh
