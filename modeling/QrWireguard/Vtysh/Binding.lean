import Mathlib.Data.List.GetD
import QrWireguard.Vtysh.AddressArgs
import QrWireguard.Vtysh.Order

/-!
# Binding the arguments

The positions of a command that a lookup reads all exist, and a handler is called with one
argument for each position that yields one. The lookup is written once more with its reads
checked, and the two agree.
-/

namespace QrWireguard.Vtysh

variable {F : Type}

/-! ## Reads of positions -/

/-- `is_cmd_ambiguous` with its reads checked: `none` is a read behind the end of a command. -/
def isCmdAmbiguousChecked (command : Str) (index : Nat) (type : MatchType) (matched : Option Str) :
    List (Option (CmdElement F)) → Option (Except Nat (List (Option (CmdElement F))))
  | [] => some (.ok [])
  | none :: v =>
    (isCmdAmbiguousChecked command index type matched v).map fun r => r.map (none :: ·)
  | some e :: v =>
    match e.strvec[index]? with
    | none => none
    | some descvec =>
      match ambiguousDescvec command type matched false descvec with
      | .error ret => some (.error ret)
      | .ok (matched, counted) =>
        (isCmdAmbiguousChecked command index type matched v).map fun r =>
          r.map ((if counted then some e else none) :: ·)

/-- The loop over the words with its reads checked. The filters look at the length of a command
before they read it. -/
def filterWordsChecked (filter : Filter) (index : Nat) (v : List (Option (CmdElement F))) :
    List Str → Option (Except Int (List (Option (CmdElement F)) × Nat × Bool))
  | [] => some (.ok (v, index, false))
  | command :: vline =>
    match cmdFilter filter command index .noMatch v with
    | (matchType, v) =>
      if matchType = .varargMatch then some (.ok (v, index, true))
      else match isCmdAmbiguousChecked command index matchType none v with
        | none => none
        | some (.error ret) => some (.error (if ret = 1 then cmdErrAmbiguous else cmdErrNoMatch))
        | some (.ok v) => filterWordsChecked filter (index + 1) v vline

/-- The lookup with all its reads checked: `none` is a read behind the end of a command, in the
loop over the words or in the argument treatment. -/
def cmdLookupChecked (filter : Filter) (cmdVector : List (CmdElement F)) (vline : List Str) :
    Option (Lookup F) :=
  match filterWordsChecked filter 0 (cmdVector.map some) vline with
  | none => none
  | some (.error code) => some (.error code)
  | some (.ok (v, index, vararg)) =>
    let left := v.reduceOption
    match left.filter (fun e => vararg || decide (e.cmdsize ≤ index)) with
    | [] => some (if left.isEmpty then .error cmdErrNoMatch else .error cmdErrIncomplete)
    | [e] =>
      match bindArgs e.strvec false [] vline with
      | none => none
      | some (.error code) => some (.error code)
      | some (.ok argv) => some (.run e argv)
    | _ => some (.error cmdErrAmbiguous)

section
variable {filter : Filter} {word : Str} {index : Nat} {type : MatchType} {e : CmdElement F}
  {v v' : List (Option (CmdElement F))} {vline : List Str}

/-- A command that takes a word has a position for it. -/
theorem lt_of_takes (h : e.takes filter word index = true) : index < e.strvec.length := by
  by_contra hlt
  rw [CmdElement.takes, CmdElement.alternatives, List.getD_eq_default _ _ (by omega)] at h
  cases h

theorem isCmdAmbiguousChecked_eq {matched : Option Str}
    (h : ∀ e ∈ v.reduceOption, index < e.strvec.length) :
    isCmdAmbiguousChecked word index type matched v =
      some (isCmdAmbiguous word index type matched v) := by
  induction v generalizing matched with
  | nil => rfl
  | cons slot v ih =>
    cases slot with
    | none =>
      rw [isCmdAmbiguousChecked, ih h]
      rfl
    | some d =>
      rw [List.reduceOption_cons_of_some] at h
      have hd : index < d.strvec.length := h d List.mem_cons_self
      have hv : ∀ e ∈ v.reduceOption, index < e.strvec.length := fun e he =>
        h e (List.mem_cons_of_mem _ he)
      rw [isCmdAmbiguousChecked, isCmdAmbiguous, List.getElem?_eq_getElem hd,
        List.getD_eq_getElem _ _ hd]
      dsimp only
      cases ambiguousDescvec word type matched false d.strvec[index] with
      | error ret => rfl
      | ok p =>
        dsimp only
        rw [ih hv]
        rfl

/-- The loop over the words reads no position behind the end of a command. -/
theorem filterWordsChecked_eq :
    filterWordsChecked filter index v vline = some (filterWords filter index v vline) := by
  induction vline generalizing index v with
  | nil => rfl
  | cons word vline ih =>
    have htaken : ∀ e ∈ (v.map (Option.filter (CmdElement.takes filter word index))).reduceOption,
        index < e.strvec.length := by
      intro e he
      rw [reduceOption_map_filter] at he
      exact lt_of_takes (List.mem_filter.mp he).2
    have hround := filterWordsChecked.eq_2 filter index v word vline
    rw [cmdFilter_eq] at hround
    rw [hround, filterWords_cons, bestMatch_eq]
    dsimp only
    split
    · rfl
    · rw [isCmdAmbiguousChecked_eq htaken]
      cases isCmdAmbiguous word index
        ((matchTypes filter word index v).foldl MatchType.raise .noMatch) none
        (v.map (Option.filter (CmdElement.takes filter word index))) with
      | error ret => rfl
      | ok left => exact ih

/-! ## Words and positions -/

/-- No word of the template is a variable argument. -/
def NoVararg (e : CmdElement F) : Prop := ∀ descvec ∈ e.strvec, ∀ s ∈ descvec, cmdVararg s = false

/-- Without variable arguments the loop reads all words. -/
theorem filterWords_index {j : Nat} {vararg : Bool} (hvararg : ∀ x ∈ v.reduceOption, NoVararg x)
    (h : filterWords filter index v vline = .ok (v', j, vararg)) :
    j = index + vline.length ∧ vararg = false := by
  induction vline generalizing index v with
  | nil =>
    cases h
    exact ⟨rfl, rfl⟩
  | cons word vline ih =>
    rw [filterWords_cons, if_neg (bestMatch_ne_varargMatch hvararg)] at h
    split at h
    · cases h
    · next left hleft =>
      have hsub : ∀ x ∈ left.reduceOption, NoVararg x := by
        intro x hx
        rw [reduceOption_left hleft] at hx
        exact hvararg x (mem_leftOf.mp hx).1
      obtain ⟨hj, hflag⟩ := ih hsub h
      refine ⟨?_, hflag⟩
      rw [hj, List.length_cons]
      omega

/-- A command that is left has a position for every word. -/
theorem length_le_of_left {j : Nat} {vararg : Bool} (hvararg : ∀ x ∈ v.reduceOption, NoVararg x)
    (h : filterWords filter 0 v vline = .ok (v', j, vararg)) (he : e ∈ v'.reduceOption) :
    vline.length ≤ e.strvec.length := by
  cases hlen : vline.length with
  | zero => exact Nat.zero_le _
  | succ n =>
    have hlast : vline[n]? = some vline[n] := List.getElem?_eq_getElem (by omega)
    have htakes := filterWords_takes hvararg h he n hlast
    rw [Nat.zero_add] at htakes
    exact lt_of_takes htakes

/-- When a command runs, there is a word for every mandatory position and a position for every
word. -/
theorem length_of_run {cmdVector : List (CmdElement F)} {argv : List Str}
    (hvararg : ∀ e ∈ cmdVector, NoVararg e)
    (h : cmdLookup filter cmdVector vline = .run e argv) :
    e.cmdsize ≤ vline.length ∧ vline.length ≤ e.strvec.length := by
  have hslots : ∀ x ∈ (cmdVector.map some).reduceOption, NoVararg x := by
    rw [reduceOption_map_some]
    exact hvararg
  obtain ⟨left, index, vararg, hleft, honly⟩ := cmdLookup_left h
  obtain ⟨hmem, hcomplete⟩ := mem_of_filter_eq_singleton honly
  obtain ⟨rfl, rfl⟩ := filterWords_index hslots hleft
  have hsize : e.cmdsize ≤ vline.length := by simpa using hcomplete
  exact ⟨hsize, length_le_of_left hslots hleft hmem⟩

/-! ## The argument treatment -/

theorem bindArgs_ne_none {strvec : List (List Str)} {varflag : Bool} {argv : List Str}
    (h : vline.length ≤ strvec.length) : bindArgs strvec varflag argv vline ≠ none := by
  induction vline generalizing strvec varflag argv with
  | nil => simp [bindArgs]
  | cons word vline ih =>
    cases strvec with
    | nil => exact absurd h (Nat.not_succ_le_zero _)
    | cons descvec strvec =>
      have hlen : vline.length ≤ strvec.length := Nat.le_of_succ_le_succ h
      have hnext : ∀ varflag argv,
          (if cmdArgcMax ≤ argv.length then some (.error cmdErrExeedArgcMax)
            else bindArgs strvec varflag argv vline) ≠ none := by
        intro varflag argv
        split
        · simp
        · exact ih hlen
      unfold bindArgs
      dsimp only
      split
      · exact hnext true _
      · split
        · next heq => cases heq
        · next heq =>
          obtain ⟨-, rfl⟩ := List.cons.inj heq
          split
          · exact hnext _ _
          · exact hnext _ _
        · next heq =>
          obtain ⟨-, rfl⟩ := List.cons.inj heq
          exact hnext _ _

/-- The array of the arguments is not filled to its end. -/
theorem bindArgs_length_lt {strvec : List (List Str)} {varflag : Bool} {argv argv' : List Str}
    (h : bindArgs strvec varflag argv vline = some (.ok argv')) (hlt : argv.length < cmdArgcMax) :
    argv'.length < cmdArgcMax := by
  induction vline generalizing strvec varflag argv with
  | nil =>
    rw [bindArgs, Option.some.injEq, Except.ok.injEq] at h
    rwa [← h]
  | cons word vline ih =>
    have hnext : ∀ {strvec varflag argv},
        (if cmdArgcMax ≤ argv.length then some (.error cmdErrExeedArgcMax)
          else bindArgs strvec varflag argv vline) = some (.ok argv') →
        argv'.length < cmdArgcMax := by
      intro strvec varflag argv hrun
      split at hrun
      · cases hrun
      · next hroom => exact ih hrun (not_le.mp hroom)
    unfold bindArgs at h
    dsimp only at h
    split at h
    · exact hnext h
    · split at h
      · cases h
      · split at h
        · exact hnext h
        · exact hnext h
      · exact hnext h

end

/-! ## Elements of a node -/

/-- `cmd_install_element` made the element; `cmd_sort_node` may have reordered words inside its
positions since. -/
def IsInstalled (e : CmdElement F) : Prop :=
  ∃ (string : Str) (func : F) (d : CmdElement F),
    cmdInstallElement string func = some d ∧ Rearranged d e

/-- No word of the template is optional. -/
def NoOption (e : CmdElement F) : Prop := ∀ descvec ∈ e.strvec, ∀ s ∈ descvec, cmdOption s = false

theorem cmdCmdsize_perm {strvec strvec' : List (List Str)}
    (h : List.Forall₂ List.Perm strvec strvec') : cmdCmdsize strvec = cmdCmdsize strvec' := by
  induction h with
  | nil => rfl
  | @cons descvec descvec' strvec strvec' hd _ ih =>
    have hlen := hd.length_eq
    match descvec, descvec', hd, hlen with
    | [], [], _, _ => rw [cmdCmdsize, cmdCmdsize, ih] <;> simp
    | [s], [s'], hd, _ =>
      obtain rfl : s = s' := by simpa using hd
      rw [cmdCmdsize, cmdCmdsize, ih]
    | _ :: _ :: _, _ :: _ :: _, _, _ => rw [cmdCmdsize, cmdCmdsize, ih] <;> simp

theorem cmdCmdsize_of_no_option {strvec : List (List Str)}
    (h : ∀ descvec ∈ strvec, ∀ s ∈ descvec, cmdOption s = false) :
    cmdCmdsize strvec = strvec.length := by
  induction strvec with
  | nil => rfl
  | cons descvec strvec ih =>
    have hrest := ih fun d hd => h d (List.mem_cons_of_mem _ hd)
    match descvec, h with
    | [s], h =>
      have hs : cmdOption s = false := h [s] List.mem_cons_self s (List.mem_singleton_self s)
      simp [cmdCmdsize, hs, hrest]
    | [], _ => simp [cmdCmdsize, hrest]
    | _ :: _ :: _, _ => simp [cmdCmdsize, hrest]

/-- The mandatory positions are the ones in front of the first optional one, in any order of the
words inside them. -/
theorem IsInstalled.cmdsize_eq {e : CmdElement F} (h : IsInstalled e) :
    e.cmdsize = cmdCmdsize e.strvec := by
  obtain ⟨string, func, d, hd, hre⟩ := h
  obtain ⟨strvec, -, rfl⟩ := Option.map_eq_some_iff.mp hd
  rw [← hre.cmdsize]
  exact cmdCmdsize_perm hre.strvec

theorem isInstalled_of_mem_cmdNodeVector {node : Node} {e : CmdElement CmdFunc}
    (h : e ∈ cmdNodeVector node) : IsInstalled e := by
  obtain ⟨d, hd, rfl⟩ := List.mem_map.mp h
  have hmem : d ∈ installed node := (List.perm_insertionSort _ _).subset hd
  obtain ⟨defun, -, hinstall⟩ := List.mem_filterMap.mp hmem
  exact ⟨defun.string, defun.func, d, hinstall, rfl, rfl, rfl, sortLast_perm d.strvec⟩

/-- The words at the positions of a template that yield an argument, in order. -/
def boundWords (strvec : List (List Str)) (vline : List Str) : List Str :=
  ((strvec.zip vline).filter fun p => bindsArg p.1).map Prod.snd

theorem length_boundWords {strvec : List (List Str)} {vline : List Str}
    (h : strvec.length = vline.length) :
    (boundWords strvec vline).length = (argPositions strvec).length := by
  have hzip := zip_argPositions strvec vline
  have hfst : ((strvec.zip vline).filter fun p => bindsArg p.1).map Prod.fst =
      argPositions strvec := by
    have hmap := List.filter_map (f := Prod.fst) (p := bindsArg) (l := strvec.zip vline)
    rw [List.map_fst_zip h.le] at hmap
    exact hmap.symm
  rw [boundWords, List.length_map, ← hfst, List.length_map]

/-- Without variable arguments no read is out of range. When a handler is called, there is a word
for every mandatory position and a position for every word, the arguments fit their array, and
they are the words at the positions that yield one: all of these when no word is optional. -/
theorem arguments_bound (filter : Filter) (cmdVector : List (CmdElement F)) (vline : List Str)
    (hinstalled : ∀ e ∈ cmdVector, IsInstalled e) (hvararg : ∀ e ∈ cmdVector, NoVararg e) :
    cmdLookupChecked filter cmdVector vline = some (cmdLookup filter cmdVector vline) ∧
    ∀ e argv, cmdLookup filter cmdVector vline = .run e argv →
      e.cmdsize ≤ vline.length ∧ vline.length ≤ e.strvec.length ∧
      argv.length < cmdArgcMax ∧ argv = boundWords e.strvec vline ∧
      (NoOption e → argv.length = (argPositions e.strvec).length) := by
  have hslots : ∀ x ∈ (cmdVector.map some).reduceOption, NoVararg x := by
    rw [reduceOption_map_some]
    exact hvararg
  refine ⟨?_, fun e argv hrun => ?_⟩
  · unfold cmdLookupChecked cmdLookup
    rw [filterWordsChecked_eq]
    cases hv : filterWords filter 0 (cmdVector.map some) vline with
    | error code => rfl
    | ok p =>
      obtain ⟨left, index, vararg⟩ := p
      dsimp only
      rcases hfound : left.reduceOption.filter fun e => vararg || decide (e.cmdsize ≤ index) with
        _ | ⟨e, _ | ⟨d, l⟩⟩
      · rw [hfound]
      · have hmem := (mem_of_filter_eq_singleton hfound).1
        have hsome : bindArgs e.strvec false [] vline ≠ none :=
          bindArgs_ne_none (length_le_of_left hslots hv hmem)
        rw [hfound]
        dsimp only
        cases hb : bindArgs e.strvec false [] vline with
        | none => exact absurd hb hsome
        | some r =>
          cases r with
          | error code => rfl
          | ok argv => rfl
      · rw [hfound]
  · have he := cmdLookup_mem hrun
    obtain ⟨hsize, hlen⟩ := length_of_run hvararg hrun
    have hargv : argv = boundWords e.strvec vline := bindArgs_eq (hvararg e he) (cmdLookup_run hrun)
    refine ⟨hsize, hlen, bindArgs_length_lt (cmdLookup_run hrun) (by decide), hargv, ?_⟩
    intro hoption
    rw [(hinstalled e he).cmdsize_eq, cmdCmdsize_of_no_option hoption] at hsize
    rw [hargv]
    exact length_boundWords (le_antisymm hsize hlen)

/-- The commands of the view node. -/
theorem arguments_bound_ping :
    cmdLookupChecked .byCompletion (cmdNodeVector .view) [str "ping", str "8.8.8.8"] =
      some (cmdLookup .byCompletion (cmdNodeVector .view) [str "ping", str "8.8.8.8"]) ∧
    ∀ e argv, cmdLookup .byCompletion (cmdNodeVector .view) [str "ping", str "8.8.8.8"] =
        .run e argv →
      e.cmdsize ≤ 2 ∧ 2 ≤ e.strvec.length ∧ argv.length < cmdArgcMax ∧
      argv = boundWords e.strvec [str "ping", str "8.8.8.8"] ∧
      (NoOption e → argv.length = (argPositions e.strvec).length) :=
  arguments_bound .byCompletion (cmdNodeVector .view) [str "ping", str "8.8.8.8"]
    (fun _ he => isInstalled_of_mem_cmdNodeVector he)
    (fun e he descvec hd => (addressTemplates .view e he descvec hd).1)

end QrWireguard.Vtysh
