import QrWireguard.Misc.CString
import QrWireguard.Misc.Words
import Mathlib.Data.List.Sort
import Mathlib.Data.Char

/-!
# The command interpreter

`command.c`: splitting a line into words, building a command's word lists from its template,
matching words against them, and choosing the command a line stands for. The help texts of
the templates are left out. A node's command vector is a list of slots; the filters empty the
slots of the commands that do not match.
-/

namespace QrWireguard.Vtysh

/-! ## Return values of the commands -/

abbrev cmdSuccess : Int := 0
abbrev cmdWarning : Int := 1
abbrev cmdErrNoMatch : Int := 2
abbrev cmdErrAmbiguous : Int := 3
abbrev cmdErrIncomplete : Int := 4
abbrev cmdErrExeedArgcMax : Int := 5
abbrev cmdErrNothingTodo : Int := 6
abbrev cmdSuccessDaemon : Int := 10

/-- `CMD_ARGC_MAX`. -/
abbrev cmdArgcMax : Nat := 25

/-! ## Splitting a line -/

/-- The quote treatment of `cmd_make_strvec`: when there are two quotes, the first two become
blanks and the blanks between them become dashes. -/
def unquote (string : Str) : Str :=
  match string.dropWhile (· != '"') with
  | [] => string
  | _ :: quoted =>
    match quoted.dropWhile (· != '"') with
    | [] => string
    | _ :: rest =>
      string.takeWhile (· != '"') ++ ' ' ::
        (quoted.takeWhile (· != '"')).map (fun c => if c = ' ' then '-' else c) ++ ' ' :: rest

/-- `cmd_make_strvec`: the words of a line; `none` for a blank line or a comment. -/
def cmdMakeStrvec (string : Str) : Option (List Str) :=
  match (unquote string).dropWhile isspace with
  | [] => none
  | c :: cs => if c = '!' ∨ c = '#' then none else some (words isspace (c :: cs))

/-! ## Templates -/

/-- The end of a word of a template. -/
def endsToken (c : Char) : Bool := isspace c || c == ')' || c == '|'

/-- Add a word to the last position. -/
def addAlternative (cmd : Str) : List (List Str) → List (List Str)
  | [] => []
  | [strvec] => [strvec ++ [cmd]]
  | strvec :: allvec => strvec :: addAlternative cmd allvec

/-- The loop of `cmd_make_descvec`, with a bound on its rounds. `multiple` is 0 outside
parentheses and counts the words inside. `none` is the exit on a stray bar. -/
def cmdMakeDescvecLoop : Nat → Nat → List (List Str) → Str → Option (List (List Str))
  | 0, _, _, _ => none
  | fuel + 1, multiple, allvec, cp =>
    let cp := cp.dropWhile isspace
    let (multiple, cp) := if cp.head? = some '(' then (1, cp.tail) else (multiple, cp)
    let (multiple, cp) := if cp.head? = some ')' then (0, cp.tail) else (multiple, cp)
    if cp.head? = some '|' ∧ multiple = 0 then none
    else
      let cp := if cp.head? = some '|' then cp.tail else cp
      let cp := cp.dropWhile isspace
      let (multiple, cp) := if cp.head? = some '(' then (1, cp.tail) else (multiple, cp)
      if cp = [] then some allvec
      else
        let token := cp.takeWhile (fun c => !endsToken c)
        let cp := cp.dropWhile (fun c => !endsToken c)
        if multiple = 0 then cmdMakeDescvecLoop fuel 0 (allvec ++ [[token]]) cp
        else if multiple = 1 then cmdMakeDescvecLoop fuel 2 (allvec ++ [[token]]) cp
        else cmdMakeDescvecLoop fuel (multiple + 1) (addAlternative token allvec) cp

/-- `cmd_make_descvec`: the words of each position of a template. Every round but the last
takes at least one byte, or is followed by one that does. -/
def cmdMakeDescvec (string : Str) : Option (List (List Str)) :=
  cmdMakeDescvecLoop (2 * string.length + 2) 0 [] string

/-- `CMD_OPTION`. -/
def cmdOption (s : Str) : Bool := firstByte s == '['

/-- `CMD_VARIABLE`. -/
def cmdVariable (s : Str) : Bool :=
  (decide ('A' ≤ firstByte s) && decide (firstByte s ≤ 'Z')) || firstByte s == '<'

/-- `CMD_VARARG`. -/
def cmdVararg (s : Str) : Bool := firstByte s == '.'

/-- `CMD_RANGE`. -/
def cmdRange (s : Str) : Bool := firstByte s == '<'

/-- `cmd_cmdsize`: the number of positions in front of the first optional one. -/
def cmdCmdsize : List (List Str) → Nat
  | [] => 0
  | [cmd] :: strvec => if cmdOption cmd then 0 else cmdCmdsize strvec + 1
  | _ :: strvec => cmdCmdsize strvec + 1

/-- `struct cmd_element`: the template, the handler, the words of each position and the
number of mandatory positions. -/
structure CmdElement (F : Type) where
  string : Str
  func : F
  strvec : List (List Str)
  cmdsize : Nat
  deriving DecidableEq

variable {F : Type}

/-- What `cmd_install_element` stores; `none` when the template does not parse. -/
def cmdInstallElement (string : Str) (func : F) : Option (CmdElement F) :=
  (cmdMakeDescvec string).map fun strvec => ⟨string, func, strvec, cmdCmdsize strvec⟩

/-- The part of `cmd_sort_node` that orders the words of an element's last position. -/
def sortLast (strvec : List (List Str)) : List (List Str) :=
  match strvec.getLast? with
  | none => []
  | some last => strvec.dropLast ++ [last.insertionSort (· ≤ ·)]

/-- `cmd_sort_node`, for one node: the elements in the order of their templates, the words of
each last position in order. -/
def cmdSortNode (cmdVector : List (CmdElement F)) : List (CmdElement F) :=
  (cmdVector.insertionSort fun a b => a.string ≤ b.string).map fun e =>
    { e with strvec := sortLast e.strvec }

/-! ## Matching one word -/

/-- `enum match_type`, in the order of the source. -/
inductive MatchType where
  | noMatch
  | extendMatch
  | ipv4PrefixMatch
  | ipv4Match
  | ipv6PrefixMatch
  | ipv6Match
  | rangeMatch
  | varargMatch
  | partlyMatch
  | exactMatch
  deriving DecidableEq, Repr

namespace MatchType

/-- The value of the enumerator. -/
def rank : MatchType → Nat
  | noMatch => 0
  | extendMatch => 1
  | ipv4PrefixMatch => 2
  | ipv4Match => 3
  | ipv6PrefixMatch => 4
  | ipv6Match => 5
  | rangeMatch => 6
  | varargMatch => 7
  | partlyMatch => 8
  | exactMatch => 9

/-- The update `if (match_type < m) match_type = m`. -/
def raise (matchType m : MatchType) : MatchType := if matchType.rank < m.rank then m else matchType

end MatchType

/-- The checks at the end of a group of `cmd_ipv4_match`: at most three digits, at most 255. -/
def ipv4GroupOk (buf : Str) : Bool := decide (buf.length ≤ 3) && decide (atoi buf ≤ 255)

/-- The loops of `cmd_ipv4_match`; `buf` is the part of the current group already read. -/
def cmdIpv4MatchLoop (dots nums : Nat) (buf : Str) : Str → MatchType
  | [] =>
    if ipv4GroupOk buf then (if nums + 1 < 4 then .partlyMatch else .exactMatch) else .noMatch
  | c :: cs =>
    if c = '.' then
      if 3 ≤ dots then .noMatch
      else if cs.head? = some '.' then .noMatch
      else if cs = [] then .partlyMatch
      else if ipv4GroupOk buf then cmdIpv4MatchLoop (dots + 1) (nums + 1) [] cs
      else .noMatch
    else if isdigit c then cmdIpv4MatchLoop dots nums (buf ++ [c]) cs
    else .noMatch

/-- `cmd_ipv4_match`. -/
def cmdIpv4Match (s : Str) : MatchType := cmdIpv4MatchLoop 0 0 [] s

/-- The last part of `cmd_ipv4_prefix_match`, after the slash. -/
def ipv4MaskMatch (s : Str) : MatchType :=
  if s.all isdigit then (if 32 < atoi s then .noMatch else .exactMatch) else .noMatch

/-- The loops of `cmd_ipv4_prefix_match`. A slash in front of the third dot separates groups
as a dot does. -/
def cmdIpv4PrefixMatchLoop (dots : Nat) (buf : Str) : Str → MatchType
  | [] => if ipv4GroupOk buf && !buf.isEmpty then .partlyMatch else .noMatch
  | c :: cs =>
    if c = '/' then
      if ipv4GroupOk buf && !buf.isEmpty then
        if dots = 3 then (if cs = [] then .partlyMatch else ipv4MaskMatch cs)
        else cmdIpv4PrefixMatchLoop dots [] cs
      else .noMatch
    else if c = '.' then
      if dots = 3 then .noMatch
      else if cs.head? = some '.' ∨ cs.head? = some '/' then .noMatch
      else if cs = [] then .partlyMatch
      else if ipv4GroupOk buf && !buf.isEmpty then cmdIpv4PrefixMatchLoop (dots + 1) [] cs
      else .noMatch
    else if isdigit c then cmdIpv4PrefixMatchLoop dots (buf ++ [c]) cs
    else .noMatch

/-- `cmd_ipv4_prefix_match`. -/
def cmdIpv4PrefixMatch (s : Str) : MatchType := cmdIpv4PrefixMatchLoop 0 [] s

/-- The states of `cmd_ipv6_match`. -/
inductive Ipv6State where
  | start
  | colon
  | double
  | addr
  | dot
  deriving DecidableEq

/-- The variables of `cmd_ipv6_match`; `dist` is `str - sp`. -/
structure Ipv6Scan where
  state : Ipv6State := .start
  colons : Int := 0
  nums : Nat := 0
  doubleColon : Nat := 0
  dist : Int := 0

/-- One round of `cmd_ipv6_match` at a byte that `next` follows; `none` is `no_match`. -/
def ipv6Round (v : Ipv6Scan) (next : Option Char) : Option Ipv6Scan :=
  match v.state with
  | .start => some v
  | .colon =>
    if next = some ':' then some { v with colons := v.colons + 1, state := .double }
    else some { v with colons := v.colons + 1, dist := -1, state := .addr }
  | .double =>
    if v.doubleColon ≠ 0 then none
    else if next = some ':' then none
    else some { v with
      colons := if next = none then v.colons else v.colons + 1, dist := -1, state := .addr,
      doubleColon := v.doubleColon + 1, nums := v.nums + 1 }
  | .addr =>
    if next = some ':' ∨ next = none then
      if 3 < v.dist then none else some { v with nums := v.nums + 1, state := .colon }
    else if next = some '.' then some { v with state := .dot }
    else some v
  | .dot => some { v with state := .addr }

/-- The loop of `cmd_ipv6_match`. The first byte only chooses the state it is read in. -/
def cmdIpv6MatchLoop (v : Ipv6Scan) : Str → MatchType
  | [] => .exactMatch
  | c :: cs =>
    let entered : Option Ipv6Scan :=
      if v.state = .start then
        if c = ':' then
          if cs.head? ≠ some ':' ∧ cs ≠ [] then none
          else some { v with colons := v.colons - 1, state := .colon }
        else some { v with dist := 0, state := .addr }
      else some v
    match entered.bind (ipv6Round · cs.head?) with
    | none => .noMatch
    | some v =>
      if 8 < v.nums then .noMatch
      else if 7 < v.colons then .noMatch
      else cmdIpv6MatchLoop { v with dist := v.dist + 1 } cs

/-- `cmd_ipv6_match`. -/
def cmdIpv6Match (s : Str) : MatchType :=
  if s.all (fun c => c ∈ str "0123456789abcdefABCDEF:.%") then cmdIpv6MatchLoop {} s
  else .noMatch

/-- `strtoul (s, &endptr, 10)` when it reads the whole string. Without digits nothing is
read, and a minus sign negates the value modulo 2^64. -/
def strtoulAll (s : Str) : Option Nat :=
  let unsigned (t : Str) : Option Nat :=
    if t ≠ [] ∧ t.all isdigit then some (min (2 ^ 64 - 1) (decimal t)) else none
  if s = [] then some 0
  else match s.dropWhile isspace with
    | '-' :: t => (unsigned t).map fun n => if decimal t < 2 ^ 64 then (2 ^ 64 - n) % 2 ^ 64 else n
    | '+' :: t => unsigned t
    | t => unsigned t

/-- `DECIMAL_STRLEN_MAX`. -/
abbrev decimalStrlenMax : Nat := 10

/-- `cmd_range_match` for a range `<min-max>`. -/
def cmdRangeMatch (range s : Str) : Bool :=
  match strtoulAll s with
  | none => false
  | some val =>
    let range := range.tail
    match range.dropWhile (· != '-') with
    | [] => false
    | _ :: rest =>
      let buf := range.takeWhile (· != '-')
      if decimalStrlenMax < buf.length then false
      else match strtoulAll buf with
        | none => false
        | some min =>
          if '>' ∉ rest then false
          else
            let buf := rest.takeWhile (· != '>')
            if decimalStrlenMax < buf.length then false
            else match strtoulAll buf with
              | none => false
              | some max => decide (min ≤ val ∧ val ≤ max)

/-! ## Filtering the commands -/

/-- The two filters: `cmd_filter_by_completion`, which takes any prefix of a keyword and any
beginning of an address, and `cmd_filter_by_string`, which takes whole ones. -/
inductive Filter where
  | byCompletion
  | byString
  deriving DecidableEq

/-- Does the filter take a word with this match of an address? -/
def Filter.takes : Filter → MatchType → Bool
  | .byCompletion, m => m ≠ .noMatch
  | .byString, m => m = .exactMatch

/-- One alternative of a position against a word: the match type it counts as, if any. -/
def descMatch (filter : Filter) (command s : Str) : Option MatchType :=
  if cmdVararg s then some .varargMatch
  else if cmdRange s then (if cmdRangeMatch s command then some .rangeMatch else none)
  else if s = str "X:X::X:X" then
    (if filter.takes (cmdIpv6Match command) then some .ipv6Match else none)
  else if s = str "X:X::X:X/M" then none
  else if s = str "A.B.C.D" then
    (if filter.takes (cmdIpv4Match command) then some .ipv4Match else none)
  else if s = str "A.B.C.D/M" then
    (if filter.takes (cmdIpv4PrefixMatch command) then some .ipv4PrefixMatch else none)
  else if cmdOption s || cmdVariable s then some .extendMatch
  else match filter with
    | .byCompletion =>
      if command.isPrefixOf s then
        (if command = s then some .exactMatch else some .partlyMatch)
      else none
    | .byString => if command = s then some .exactMatch else none

/-- The loop over the alternatives of one position: the match type so far raised by those
that match, and whether one did. -/
def descvecMatch (filter : Filter) (command : Str) (matchType : MatchType) :
    List Str → MatchType × Bool
  | [] => (matchType, false)
  | s :: descvec =>
    match descMatch filter command s with
    | none => descvecMatch filter command matchType descvec
    | some m => ((descvecMatch filter command (matchType.raise m) descvec).1, true)

/-- `cmd_filter_by_completion` and `cmd_filter_by_string`: the match type of the word at
position `index`, and the slots with those emptied whose command does not match. -/
def cmdFilter (filter : Filter) (command : Str) (index : Nat) (matchType : MatchType) :
    List (Option (CmdElement F)) → MatchType × List (Option (CmdElement F))
  | [] => (matchType, [])
  | none :: v =>
    let (matchType, v) := cmdFilter filter command index matchType v
    (matchType, none :: v)
  | some e :: v =>
    match e.strvec[index]? with
    | none =>
      let (matchType, v) := cmdFilter filter command index matchType v
      (matchType, none :: v)
    | some descvec =>
      let (matchType, matched) := descvecMatch filter command matchType descvec
      let (matchType, v) := cmdFilter filter command index matchType v
      (matchType, (if matched then some e else none) :: v)

/-- What the ambiguity check does with one alternative: it leaves it, counts it, counts it
under a name that must be the same for all, or finds an incomplete address. -/
inductive Vote where
  | skip
  | count
  | name
  | incomplete

/-- The `switch` of `is_cmd_ambiguous`. -/
def ambiguousVote (command : Str) (type : MatchType) (s : Str) : Vote :=
  match type with
  | .exactMatch => if !(cmdOption s || cmdVariable s) && command = s then .count else .skip
  | .partlyMatch =>
    if !(cmdOption s || cmdVariable s) && command.isPrefixOf s then .name else .skip
  | .rangeMatch => if cmdRangeMatch s command then .name else .skip
  | .ipv6Match => if s = str "X:X::X:X" then .count else .skip
  | .ipv6PrefixMatch => .skip
  | .ipv4Match => if s = str "A.B.C.D" then .count else .skip
  | .ipv4PrefixMatch =>
    match cmdIpv4PrefixMatch command with
    | .noMatch => .skip
    | .partlyMatch => .incomplete
    | _ => .count
  | .extendMatch => if cmdOption s || cmdVariable s then .count else .skip
  | .noMatch => .skip
  | .varargMatch => .skip

/-- The loop of `is_cmd_ambiguous` over the alternatives of one position. It returns early
with 1 (ambiguous) or 2 (incomplete), or yields the name matched so far and whether an
alternative counted. -/
def ambiguousDescvec (command : Str) (type : MatchType) (matched : Option Str) (counted : Bool) :
    List Str → Except Nat (Option Str × Bool)
  | [] => .ok (matched, counted)
  | s :: descvec =>
    match ambiguousVote command type s with
    | .skip => ambiguousDescvec command type matched counted descvec
    | .count => ambiguousDescvec command type matched true descvec
    | .name =>
      if matched.any (· ≠ s) then .error 1
      else ambiguousDescvec command type (some s) true descvec
    | .incomplete => .error 2

/-- `is_cmd_ambiguous`: the early return, or the slots with those emptied that have no
alternative of the best match type. -/
def isCmdAmbiguous (command : Str) (index : Nat) (type : MatchType) (matched : Option Str) :
    List (Option (CmdElement F)) → Except Nat (List (Option (CmdElement F)))
  | [] => .ok []
  | none :: v => (isCmdAmbiguous command index type matched v).map (none :: ·)
  | some e :: v =>
    match ambiguousDescvec command type matched false (e.strvec.getD index []) with
    | .error ret => .error ret
    | .ok (matched, counted) =>
      (isCmdAmbiguous command index type matched v).map
        ((if counted then some e else none) :: ·)

/-! ## Choosing a command -/

/-- Where the choice of a command ends: with an error code, with a command and its arguments,
or with a read outside a vector. -/
inductive Lookup (F : Type) where
  | error (code : Int)
  | run (e : CmdElement F) (argv : List Str)
  | undefined
  deriving DecidableEq

/-- The loop over the words: the slots left at the end, the number of words read and whether
the last match was a variable argument. -/
def filterWords (filter : Filter) (index : Nat) (v : List (Option (CmdElement F))) :
    List Str → Except Int (List (Option (CmdElement F)) × Nat × Bool)
  | [] => .ok (v, index, false)
  | command :: vline =>
    match cmdFilter filter command index .noMatch v with
    | (matchType, v) =>
      if matchType = .varargMatch then .ok (v, index, true)
      else match isCmdAmbiguous command index matchType none v with
        | .error ret => .error (if ret = 1 then cmdErrAmbiguous else cmdErrNoMatch)
        | .ok v => filterWords filter (index + 1) v vline

/-- The argument treatment: the words at the positions that are not one keyword. `none` is a
read of a position the command does not have; the error is `CMD_ERR_EXEED_ARGC_MAX`. -/
def bindArgs (strvec : List (List Str)) (varflag : Bool) (argv : List Str) :
    List Str → Option (Except Int (List Str))
  | [] => some (.ok argv)
  | word :: vline =>
    let next (strvec : List (List Str)) (varflag : Bool) (argv : List Str) :=
      if cmdArgcMax ≤ argv.length then some (.error cmdErrExeedArgcMax)
      else bindArgs strvec varflag argv vline
    if varflag then next strvec.tail true (argv ++ [word])
    else match strvec with
      | [] => none
      | [s] :: strvec =>
        if cmdVararg s || cmdVariable s || cmdOption s then
          next strvec (cmdVararg s) (argv ++ [word])
        else next strvec false argv
      | _ :: strvec => next strvec false (argv ++ [word])

/-- `cmd_execute_command` and `cmd_execute_command_strict` up to the call of the handler. No
installed command belongs to a daemon. -/
def cmdLookup (filter : Filter) (cmdVector : List (CmdElement F)) (vline : List Str) : Lookup F :=
  match filterWords filter 0 (cmdVector.map some) vline with
  | .error code => .error code
  | .ok (v, index, vararg) =>
    let left := v.reduceOption
    match left.filter (fun e => vararg || decide (e.cmdsize ≤ index)) with
    | [] => if left.isEmpty then .error cmdErrNoMatch else .error cmdErrIncomplete
    | [e] =>
      match bindArgs e.strvec false [] vline with
      | none => .undefined
      | some (.error code) => .error code
      | some (.ok argv) => .run e argv
    | _ => .error cmdErrAmbiguous

end QrWireguard.Vtysh
