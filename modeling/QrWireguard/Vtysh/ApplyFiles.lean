import QrWireguard.Vtysh.OneLine
import QrWireguard.Vtysh.Rules

/-!
# The files of the apply commands

`sfirewall nat portmap apply` and `sfirewall filter apply` generate a rule file each, and
`apply_firewall_rules` composes the firewall from the rule files. A command whose input cannot be
opened has truncated its rule file by then.
-/

namespace QrWireguard.Vtysh
open Cli Proc

/-! ## The file system behind the events -/

/-- The contents of the files that exist. -/
abbrev Files := Str → Option Str

/-- What the programs the shell starts make of the files, and when written text arrives. -/
structure FileSystem where
  /-- The files after a command of `system`. -/
  system : Str → Files → Files
  /-- The files after a program of `cmd_execute_system_command`. -/
  exec : Str → List Str → Files → Files
  /-- Does the text written next leave its buffer? -/
  flushed : List Event → Bool

namespace FileSystem

/-- The files after an event. A file opened for writing is truncated. -/
def step (fs : FileSystem) (e : Env) (older : List Event) (files : Files) : Event → Files
  | .system command => fs.system command files
  | .exec command argv => fs.exec command argv files
  | .openWrite path =>
    if e.openWrite older path then Function.update files path (some []) else files
  | .write path text =>
    if fs.flushed older then Function.update files path ((files path).map (· ++ text)) else files
  | .unlink path => Function.update files path none
  | _ => files

/-- The files after the events so far, the latest first. -/
def files (fs : FileSystem) (e : Env) (init : Files) : List Event → Files
  | [] => init
  | ev :: older => fs.step e older (fs.files e init older) ev

/-- The firewall the next `apply_firewall_rules` installs. -/
def installed (fs : FileSystem) (e : Env) (files : Files) : Option Str :=
  fs.files e files ((applyFirewallRules e emptyShell).stateD emptyShell).trace
    (str "/etc/config/firewall")

end FileSystem

/-! ## The apply commands -/

namespace RuleKind

/-- The command that applies the rules. -/
def apply : RuleKind → CmdFunc
  | filter => .sfirewallFilterRulesApply
  | portmap => .sfirewallNatPortmapApply

/-- The rule file the command generates. -/
def ruleFile : RuleKind → Str
  | filter => str "/etc/config/sfirewall_filter"
  | portmap => str "/etc/config/sfirewall_nat"

/-- The file it reads the rules from. -/
def inputFile : RuleKind → Str
  | filter => str "/qrwg/config/filter.txt"
  | portmap => str "/qrwg/config/portmap.txt"

/-- The loop over the lines of that file. -/
def applyLoop : RuleKind → List Str → Cli Unit
  | filter => filterApplyLoop 0 0
  | portmap => portmapApplyLoop

end RuleKind

/-- The generated rule files and the composed ones. -/
def firewallFiles : List Str :=
  [str "/etc/config/sfirewall_nat", str "/etc/config/sfirewall_filter", str "/etc/config/sfirewall",
    str "/etc/config/firewall"]

/-- The events of an apply command up to the opening of its input. -/
def openingEvents (k : RuleKind) (older : List Event) : List Event :=
  .write k.ruleFile (str "\n") :: .openWrite k.ruleFile :: older

section
variable {e : Env} {w : World} {v : VtyRef} {k : RuleKind} {argv : List Str}

theorem ruleFile_mem (k : RuleKind) : k.ruleFile ∈ firewallFiles := by
  cases k with
  | filter => exact .tail _ (.head _)
  | portmap => exact .head _

theorem apply_inj : ∀ {k k' : RuleKind}, k.apply = k'.apply → k = k'
  | .filter, .filter, _ => rfl
  | .portmap, .portmap, _ => rfl

theorem call_apply (k : RuleKind) (v : VtyRef) (argv : List Str) :
    call k.apply v argv = (do
      if !(← openWrite k.ruleFile) then return cmdWarning
      fprintf k.ruleFile (str "\n")
      match ← openRead k.inputFile with
      | none => return cmdWarning
      | some contents =>
        k.applyLoop (fgets 1024 contents)
        applyFirewallRules
        return cmdSuccess) := by
  cases k with
  | filter => rfl
  | portmap => rfl

/-- The rule file does not open: nothing else happens. -/
theorem sat_apply_refused (hwrite : e.openWrite w.trace k.ruleFile = false) :
    Sat (call k.apply v argv) e w fun ret t =>
      ret = cmdWarning ∧ t.trace = .openWrite k.ruleFile :: w.trace := by
  simp [call_apply, hwrite]

/-- The rule file opens and the input does not. -/
theorem sat_apply_unread (hwrite : e.openWrite w.trace k.ruleFile = true)
    (hread : e.openRead (openingEvents k w.trace) k.inputFile = none) :
    Sat (call k.apply v argv) e w fun ret t =>
      ret = cmdWarning ∧ t.trace = .openRead k.inputFile :: openingEvents k w.trace := by
  rw [openingEvents] at hread
  simp [call_apply, hwrite, hread, openingEvents]

/-- Both open: the command does not fail. -/
theorem sat_apply_read (hwrite : e.openWrite w.trace k.ruleFile = true) {contents : Str}
    (hread : e.openRead (openingEvents k w.trace) k.inputFile = some contents) :
    Sat (call k.apply v argv) e w fun ret _ => ret = cmdSuccess := by
  rw [openingEvents] at hread
  simp only [call_apply, sat_bind, sat_openWrite, sat_ite, sat_fprintf, sat_openRead,
    World.emit_trace, hwrite, hread, Bool.not_true, Bool.false_eq_true, false_implies,
    not_false_eq_true, true_implies, true_and]
  exact sat_iff.mpr fun _ _ _ => sat_iff.mpr fun _ _ _ => rfl

/-- The run when both open. -/
theorem runs_apply_read (hwrite : e.openWrite w.trace k.ruleFile = true) {contents : Str}
    (hread : e.openRead (openingEvents k w.trace) k.inputFile = some contents)
    {Q : Int → World → Prop} : Runs (call k.apply v argv) e w Q ↔
      Runs (k.applyLoop (fgets 1024 contents)) e
        (((w.emit (.openWrite k.ruleFile)).emit (.write k.ruleFile (str "\n"))).emit
          (.openRead k.inputFile))
        fun _ t => Runs applyFirewallRules e t fun _ u => Q cmdSuccess u := by
  rw [openingEvents] at hread
  simp only [call_apply, runs_bind, openWrite, fprintf, openRead, runs_request, runs_emit,
    runs_ite, World.emit_trace, hwrite, hread, Bool.not_true, Bool.false_eq_true, false_implies,
    not_false_eq_true, true_implies, true_and]
  rfl

end

/-! ## Runs -/

/-- A handler called with its arguments. -/
structure HandlerCall where
  func : CmdFunc
  v : VtyRef
  argv : List Str

/-- Every call that returns, one after the other, is in the relation. -/
def Along (e : Env) (R : HandlerCall → World → Int → World → Prop) :
    List HandlerCall → World → Prop
  | [], _ => True
  | c :: calls, w => Sat (call c.func c.v c.argv) e w fun ret t =>
    R c w ret t ∧ Along e R calls t

/-- Relations that agree on each call that returns agree along every run. -/
theorem along_congr {e : Env} {R S : HandlerCall → World → Int → World → Prop}
    (h : ∀ c w, Sat (call c.func c.v c.argv) e w fun ret t => R c w ret t ↔ S c w ret t)
    (calls : List HandlerCall) (w : World) : Along e R calls w ↔ Along e S calls w := by
  induction calls generalizing w with
  | nil => exact Iff.rfl
  | cons c calls ih =>
    have hcall := h c w
    simp only [Along, sat_iff] at hcall ⊢
    constructor
    · intro hR ret t ht
      obtain ⟨hr, hrest⟩ := hR ret t ht
      exact ⟨(hcall ret t ht).mp hr, (ih t).mp hrest⟩
    · intro hS ret t ht
      obtain ⟨hs, hrest⟩ := hS ret t ht
      exact ⟨(hcall ret t ht).mpr hs, (ih t).mpr hrest⟩

section
variable (fs : FileSystem) (e : Env) (init : Files)

/-- The rule files and the composed files are as they were, and so is the firewall the next
`apply_firewall_rules` installs. -/
def KeepsFirewall (w t : World) : Prop :=
  (∀ path ∈ firewallFiles, fs.files e init t.trace path = fs.files e init w.trace path) ∧
    ∀ later : Env, fs.installed later (fs.files e init t.trace) =
      fs.installed later (fs.files e init w.trace)

/-- An apply command that fails changes nothing. -/
def FailureKeeps (c : HandlerCall) (w : World) (ret : Int) (t : World) : Prop :=
  ∀ k : RuleKind, c.func = k.apply → ret = cmdWarning → KeepsFirewall fs e init w t

/-- What a failed command leaves of a rule file it could open. -/
def leftover (k : RuleKind) (older : List Event) : Str :=
  if fs.flushed (.openWrite k.ruleFile :: older) then str "\n" else []

/-- Where the rule file of an apply command opens and its input does not, the rule file holds no more
than what is left of it. -/
def NothingToLose (c : HandlerCall) (w : World) : Prop :=
  ∀ k : RuleKind, c.func = k.apply → e.openWrite w.trace k.ruleFile = true →
    e.openRead (openingEvents k w.trace) k.inputFile = none →
    fs.files e init w.trace k.ruleFile = some (leftover fs k w.trace)

variable {fs e init} {w : World} {k : RuleKind}

theorem files_openWrite_of_refused {path : Str} {older : List Event}
    (h : e.openWrite older path = false) :
    fs.files e init (.openWrite path :: older) = fs.files e init older := by
  simp [FileSystem.files, FileSystem.step, h]

/-- The files after a failed command that could open its rule file: only that file has changed. -/
theorem files_openingEvents {older : List Event} (h : e.openWrite older k.ruleFile = true) :
    fs.files e init (.openRead k.inputFile :: openingEvents k older) =
      Function.update (fs.files e init older) k.ruleFile (some (leftover fs k older)) := by
  simp only [openingEvents, FileSystem.files, FileSystem.step, h, if_true, leftover]
  split <;> simp

theorem keepsFirewall_of_files_eq {t : World}
    (h : fs.files e init t.trace = fs.files e init w.trace) : KeepsFirewall fs e init w t := by
  refine ⟨fun path _ => ?_, fun later => ?_⟩
  · rw [h]
  · rw [h]

/-- One call: a failure changes nothing exactly when there is nothing to lose. -/
theorem failureKeeps_iff (c : HandlerCall) (w : World) :
    Sat (call c.func c.v c.argv) e w fun ret t =>
      FailureKeeps fs e init c w ret t ↔ NothingToLose fs e init c w := by
  by_cases hc : ∃ k : RuleKind, c.func = k.apply
  · obtain ⟨k, hk⟩ := hc
    have hkind : ∀ k' : RuleKind, c.func = k'.apply → k' = k :=
      fun k' hk' => apply_inj (hk'.symm.trans hk)
    rw [hk]
    cases hwrite : e.openWrite w.trace k.ruleFile with
    | false =>
      refine (sat_apply_refused hwrite).mono fun ret t ht => ?_
      obtain ⟨-, htrace⟩ := ht
      refine iff_of_true (fun _ _ _ => ?_) fun k' hk' hopen => ?_
      · apply keepsFirewall_of_files_eq
        rw [htrace, files_openWrite_of_refused hwrite]
      · rw [hkind k' hk', hwrite] at hopen
        cases hopen
    | true =>
      cases hread : e.openRead (openingEvents k w.trace) k.inputFile with
      | some contents =>
        refine (sat_apply_read hwrite hread).mono fun ret t ht => ?_
        refine iff_of_true (fun _ _ hret => ?_) fun k' hk' _ hnone => ?_
        · rw [ht] at hret
          cases hret
        · rw [hkind k' hk', hread] at hnone
          cases hnone
      | none =>
        refine (sat_apply_unread hwrite hread).mono fun ret t ht => ?_
        obtain ⟨hret, htrace⟩ := ht
        have hfiles : fs.files e init t.trace = Function.update (fs.files e init w.trace)
            k.ruleFile (some (leftover fs k w.trace)) := by
          rw [htrace]
          exact files_openingEvents hwrite
        constructor
        · intro hkeeps k' hk' _ _
          obtain rfl := hkind k' hk'
          have hfile := (hkeeps k' hk' hret).1 k'.ruleFile (ruleFile_mem k')
          rw [hfiles, Function.update_self] at hfile
          exact hfile.symm
        · intro hlose k' hk' _
          obtain rfl := hkind k' hk'
          apply keepsFirewall_of_files_eq
          rw [hfiles, ← hlose k' hk' hwrite hread, Function.update_eq_self]
  · refine sat_iff.mpr fun ret t _ => ?_
    exact iff_of_true (fun k hk => absurd ⟨k, hk⟩ hc) fun k hk => absurd ⟨k, hk⟩ hc

end

/-- Whatever handlers run, in whatever order and with whatever answers: the apply commands that fail
along the run change nothing, exactly when none of them opens its rule file, cannot open its input
and has something to lose in the rule file. -/
theorem failuresKeep_iff (fs : FileSystem) (e : Env) (init : Files) (calls : List HandlerCall)
    (w : World) :
    Along e (FailureKeeps fs e init) calls w ↔
      Along e (fun c w _ _ => NothingToLose fs e init c w) calls w :=
  along_congr (fun c w => failureKeeps_iff c w) calls w

/-- A file system without programs, where written text waits in its buffer. -/
def stillFiles : FileSystem where
  system _ files := files
  exec _ _ files := files
  flushed _ := false

/-- The filter rules of an earlier apply. -/
def earlierRules : Files := fun path =>
  if path = str "/etc/config/sfirewall_filter" then some (str "\nconfig rule\n") else none

/-- The rule file is empty after an apply without input. -/
theorem not_failuresKeep : ¬ ∀ (fs : FileSystem) (e : Env) (init : Files)
    (calls : List HandlerCall) (w : World), Along e (FailureKeeps fs e init) calls w := by
  intro h
  have hkeeps :=
    h stillFiles obligingEnv earlierRules [⟨RuleKind.filter.apply, .vty, []⟩] emptyShell
  rw [along_congr fun c w => failureKeeps_iff c w] at hkeeps
  obtain ⟨ret, t, hdone⟩ : ∃ ret t,
      call RuleKind.filter.apply .vty [] obligingEnv emptyShell = .done ret t := ⟨_, _, rfl⟩
  have hlose := (sat_iff.mp hkeeps ret t hdone).1 .filter rfl rfl rfl
  revert hlose
  decide

end QrWireguard.Vtysh
