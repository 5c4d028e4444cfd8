import QrWireguard.Misc.CommonPrefix
import QrWireguard.Vtysh.Abbrev
import QrWireguard.Vtysh.Binding

/-!
# Completion

`cmd_complete_command` and its parts. Completion filters the words in front of the last one with
a loop of its own, collects the keywords that go on from the last word, and replaces the word when
they all go on in the same way. The last word is absent when the line ends with a blank.
-/

namespace QrWireguard.Vtysh

variable {F : Type}

abbrev cmdCompleteFullMatch : Int := 7
abbrev cmdCompleteMatch : Int := 8
abbrev cmdCompleteListMatch : Int := 9

/-- The slots as `is_cmd_ambiguous` leaves them, also when it returns early. -/
def scannedSlots (command : Str) (index : Nat) (type : MatchType) (matched : Option Str) :
    List (Option (CmdElement F)) → List (Option (CmdElement F))
  | [] => []
  | none :: v => none :: scannedSlots command index type matched v
  | some e :: v =>
    match ambiguousDescvec command type matched false (e.strvec.getD index []) with
    | .error _ => some e :: v
    | .ok (matched, counted) =>
      (if counted then some e else none) :: scannedSlots command index type matched v

/-- The first loop of `cmd_complete_command`, over the words in front of the last one. `none` is
`CMD_ERR_AMBIGUOUS`; an incomplete address does not end the loop. -/
def completeFilter (index : Nat) (v : List (Option (CmdElement F))) :
    List Str → Option (List (Option (CmdElement F)))
  | [] => some v
  | command :: vline =>
    match cmdFilter .byCompletion command index .noMatch v with
    | (matchType, v) =>
      match isCmdAmbiguous command index matchType none v with
      | .error ret =>
        if ret = 1 then none
        else completeFilter (index + 1) (scannedSlots command index matchType none v) vline
      | .ok v => completeFilter (index + 1) v vline

/-- `cmd_entry_function`. -/
def cmdEntryFunction (src : Option Str) (dst : Str) : Option Str :=
  if cmdOption dst || cmdVariable dst || cmdVararg dst || decide (dst = str "A.B.C.D") ||
      decide (dst = str "A.B.C.D/M") || cmdRange dst then none
  else match src with
    | none => some dst
    | some src => if src.isPrefixOf dst then some dst else none

/-- `cmd_unique_string`. -/
def cmdUniqueString (v : List Str) (s : Str) : Bool := v.all (· != s)

/-- The loop over the alternatives of one position: `matchvec` with those that go on from the
last word. -/
def addMatches (src : Option Str) (matchvec : List Str) : List Str → List Str
  | [] => matchvec
  | cmd :: descvec =>
    match cmdEntryFunction src cmd with
    | none => addMatches src matchvec descvec
    | some string =>
      addMatches src (if cmdUniqueString matchvec string then matchvec ++ [string] else matchvec)
        descvec

/-- The second loop of `cmd_complete_command`, over the commands that are left. -/
def completionMatches (src : Option Str) (index : Nat) (matchvec : List Str) :
    List (Option (CmdElement F)) → List Str
  | [] => matchvec
  | none :: v => completionMatches src index matchvec v
  | some e :: v =>
    match e.strvec[index]? with
    | none => completionMatches src index matchvec v
    | some descvec => completionMatches src index (addMatches src matchvec descvec) v

/-- The loop of `cmd_lcd` over neighbouring strings. -/
def cmdLcdLoop (lcd : Int) : List Str → Int
  | s1 :: s2 :: matched =>
    let j : Int := commonLength s1 s2
    cmdLcdLoop (if lcd < 0 then j else if j < lcd then j else lcd) (s2 :: matched)
  | _ => lcd

/-- `cmd_lcd`. -/
def cmdLcd : List Str → Int
  | s1 :: s2 :: matched => cmdLcdLoop (-1) (s1 :: s2 :: matched)
  | _ => 0

/-- `cmd_complete_command`: the status and the strings, for the words in front of the last one
and the last one. -/
def cmdCompleteCommand (cmdVector : List (CmdElement F)) (vline : List Str) (last : Option Str) :
    Int × Option (List Str) :=
  match completeFilter 0 (cmdVector.map some) vline with
  | none => (cmdErrAmbiguous, none)
  | some v =>
    match completionMatches last vline.length [] v with
    | [] => (if last.isNone then cmdErrNothingTodo else cmdErrNoMatch, none)
    | [string] => (cmdCompleteFullMatch, some [string])
    | string :: matchvec =>
      match last with
      | none => (cmdCompleteListMatch, some (string :: matchvec))
      | some word =>
        let lcd := cmdLcd (string :: matchvec)
        if lcd ≠ 0 ∧ (word.length : Int) < lcd then
          (cmdCompleteMatch, some [string.take lcd.toNat])
        else (cmdCompleteListMatch, some (string :: matchvec))

/-- The words that completion considers, unless it gives up before. -/
def completionWords (cmdVector : List (CmdElement F)) (vline : List Str) (last : Option Str) :
    Option (List Str) :=
  (completeFilter 0 (cmdVector.map some) vline).map (completionMatches last vline.length [])

section
variable {word : Str} {index : Nat} {v v' : List (Option (CmdElement F))} {vline : List Str}
  {src last : Option Str} {matchvec : List Str}

/-! ## The words considered -/

/-- Without variable arguments, completion filters the words as the executor does. -/
theorem completeFilter_eq {j : Nat} {vararg : Bool} (hvararg : ∀ x ∈ v.reduceOption, NoVararg x)
    (h : filterWords .byCompletion index v vline = .ok (v', j, vararg)) :
    completeFilter index v vline = some v' := by
  induction vline generalizing index v with
  | nil =>
    cases h
    rfl
  | cons word vline ih =>
    have hround := completeFilter.eq_2 index v word vline
    rw [cmdFilter_eq, ← bestMatch_eq] at hround
    rw [filterWords_cons, if_neg (bestMatch_ne_varargMatch hvararg)] at h
    rw [hround]
    dsimp only
    generalize hleft : isCmdAmbiguous word index (bestMatch .byCompletion word index v) none
      (v.map (Option.filter (CmdElement.takes .byCompletion word index))) = res at h ⊢
    cases res with
    | error ret => cases h
    | ok left =>
      refine ih (fun x hx => ?_) h
      rw [reduceOption_left hleft] at hx
      exact hvararg x (mem_leftOf.mp hx).1

/-- Completion offers the keywords that the last word is a beginning of. -/
theorem cmdEntryFunction_eq_some {dst string : Str} : cmdEntryFunction src dst = some string ↔
    string = dst ∧ isKeyword dst = true ∧ ∀ word ∈ src, word <+: dst := by
  have hskip : (cmdOption dst || cmdVariable dst || cmdVararg dst ||
      decide (dst = str "A.B.C.D") || decide (dst = str "A.B.C.D/M") || cmdRange dst) =
        !isKeyword dst := by
    have haddress : dst = str "A.B.C.D" ∨ dst = str "A.B.C.D/M" → cmdVariable dst = true := by
      rintro (rfl | rfl) <;> decide
    have hrange : cmdRange dst = true → cmdVariable dst = true := by
      intro h
      rw [cmdVariable, Bool.or_eq_true]
      exact .inr h
    unfold isKeyword
    cases hvariable : cmdVariable dst with
    | true => simp
    | false =>
      rw [hvariable] at haddress hrange
      have h1 : dst ≠ str "A.B.C.D" := fun h => by simpa using haddress (.inl h)
      have h2 : dst ≠ str "A.B.C.D/M" := fun h => by simpa using haddress (.inr h)
      have h3 : cmdRange dst = false := by simpa using hrange
      simp [h1, h2, h3, Bool.or_comm]
  rw [cmdEntryFunction.eq_def, hskip]
  cases hkeyword : isKeyword dst with
  | false => simp
  | true =>
    cases src with
    | none => simp [eq_comm]
    | some word =>
      by_cases hp : word <+: dst
      · simp [hp, eq_comm (a := dst)]
      · simp [hp]

theorem mem_addUnique {string s : Str} :
    s ∈ (if cmdUniqueString matchvec string then matchvec ++ [string] else matchvec) ↔
      s ∈ matchvec ∨ s = string := by
  by_cases hunique : cmdUniqueString matchvec string = true
  · simp [hunique]
  · have hmem : string ∈ matchvec := by simpa [cmdUniqueString] using hunique
    rw [if_neg hunique]
    constructor
    · exact .inl
    · rintro (h | rfl)
      · exact h
      · exact hmem

theorem nodup_addUnique (string : Str) (h : matchvec.Nodup) :
    (if cmdUniqueString matchvec string then matchvec ++ [string] else matchvec).Nodup := by
  split
  · next hunique =>
    have hnew : ∀ x ∈ matchvec, x ≠ string := by simpa [cmdUniqueString] using hunique
    refine List.nodup_append.mpr ⟨h, List.nodup_singleton _, fun x hx y hy => ?_⟩
    rw [List.mem_singleton.mp hy]
    exact hnew x hx
  · exact h

theorem addMatches_spec (src : Option Str) (descvec : List Str) (h : matchvec.Nodup) :
    (addMatches src matchvec descvec).Nodup ∧ ∀ s, s ∈ addMatches src matchvec descvec ↔
      s ∈ matchvec ∨ s ∈ descvec ∧ isKeyword s = true ∧ ∀ word ∈ src, word <+: s := by
  induction descvec generalizing matchvec with
  | nil => simpa [addMatches] using h
  | cons cmd descvec ih =>
    unfold addMatches
    cases hentry : cmdEntryFunction src cmd with
    | none =>
      have hno : ¬ (isKeyword cmd = true ∧ ∀ word ∈ src, word <+: cmd) := by
        intro hyes
        have hsome := cmdEntryFunction_eq_some.mpr ⟨rfl, hyes⟩
        rw [hentry] at hsome
        cases hsome
      refine ⟨(ih h).1, fun s => ?_⟩
      rw [(ih h).2 s, List.mem_cons]
      constructor
      · exact Or.imp id fun hs => ⟨.inr hs.1, hs.2⟩
      · rintro (hs | ⟨rfl | hs, hyes⟩)
        · exact .inl hs
        · exact absurd hyes hno
        · exact .inr ⟨hs, hyes⟩
    | some string =>
      obtain ⟨rfl, hyes⟩ := cmdEntryFunction_eq_some.mp hentry
      have hnext := ih (nodup_addUnique string h)
      refine ⟨hnext.1, fun s => ?_⟩
      rw [hnext.2 s, mem_addUnique, List.mem_cons]
      constructor
      · rintro ((hs | rfl) | hs)
        · exact .inl hs
        · exact .inr ⟨.inl rfl, hyes⟩
        · exact .inr ⟨.inr hs.1, hs.2⟩
      · rintro (hs | ⟨rfl | hs, hs'⟩)
        · exact .inl (.inl hs)
        · exact .inl (.inr rfl)
        · exact .inr ⟨hs, hs'⟩

/-- The words considered are collected without duplicates, from the commands that are left. -/
theorem completionMatches_spec (src : Option Str) (index : Nat)
    (v : List (Option (CmdElement F))) (h : matchvec.Nodup) :
    (completionMatches src index matchvec v).Nodup ∧
    ∀ s, s ∈ completionMatches src index matchvec v ↔ s ∈ matchvec ∨
      (∃ e ∈ v.reduceOption, s ∈ e.alternatives index) ∧
        isKeyword s = true ∧ ∀ word ∈ src, word <+: s := by
  induction v generalizing matchvec with
  | nil => simpa [completionMatches] using h
  | cons slot v ih =>
    cases slot with
    | none =>
      rw [completionMatches, List.reduceOption_cons_of_none]
      exact ih h
    | some e =>
      rw [completionMatches, List.reduceOption_cons_of_some]
      have halternatives : e.alternatives index = (e.strvec[index]?).getD [] :=
        List.getD_eq_getElem?_getD
      cases hpos : e.strvec[index]? with
      | none =>
        refine ⟨(ih h).1, fun s => ?_⟩
        rw [(ih h).2 s]
        simp [halternatives, hpos]
      | some descvec =>
        have hadd := addMatches_spec src descvec h
        have hnext := ih hadd.1
        refine ⟨hnext.1, fun s => ?_⟩
        rw [hnext.2 s, hadd.2 s]
        simp only [List.mem_cons, exists_eq_or_imp, halternatives, hpos, Option.getD_some]
        rw [or_assoc, ← or_and_right]

/-! ## The replacement -/

/-- The loop takes the smallest agreement of neighbours. -/
theorem cmdLcdLoop_eq (n : Nat) (l : List Str) : cmdLcdLoop n l = chainLength n l := by
  fun_induction chainLength n l with
  | case1 n s t l ih =>
    rw [cmdLcdLoop, ← ih]
    congr 1
    split
    · omega
    · split <;> omega
  | case2 n l hl =>
    unfold cmdLcdLoop
    split
    · next s t l => exact absurd rfl (hl s t l)
    · rfl

theorem cmdLcd_eq (s t : Str) (l : List Str) :
    cmdLcd (s :: t :: l) = chainLength (commonLength s t) (t :: l) := by
  rw [cmdLcd, cmdLcdLoop, if_pos (by decide), cmdLcdLoop_eq]

/-- `cmd_complete_command` considers exactly the keywords, once each, that go on from the last
word at its position in the commands that the executor's filtering leaves. It reports a full match
when there is one, and replaces the last word only by the longest common beginning of them all,
when that goes on from the word. -/
theorem completion_agrees (cmdVector : List (CmdElement F)) (vline : List Str) (last : Option Str)
    (left : List (Option (CmdElement F))) (j : Nat) (vararg : Bool)
    (hvararg : ∀ e ∈ cmdVector, NoVararg e)
    (hleft : filterWords .byCompletion 0 (cmdVector.map some) vline = .ok (left, j, vararg)) :
    ∃ matchvec, completionWords cmdVector vline last = some matchvec ∧ matchvec.Nodup ∧
      (∀ s, s ∈ matchvec ↔ (∃ e ∈ left.reduceOption, s ∈ e.alternatives vline.length) ∧
        isKeyword s = true ∧ ∀ word ∈ last, word <+: s) ∧
      ((cmdCompleteCommand cmdVector vline last).1 = cmdCompleteFullMatch ↔
        ∃ s, matchvec = [s]) ∧
      ((cmdCompleteCommand cmdVector vline last).1 = cmdCompleteFullMatch →
        (cmdCompleteCommand cmdVector vline last).2 = some matchvec) ∧
      ((cmdCompleteCommand cmdVector vline last).1 = cmdCompleteMatch →
        ∃ word string, last = some word ∧
          (cmdCompleteCommand cmdVector vline last).2 = some [string] ∧
          IsCommonPrefix string matchvec ∧ word <+: string ∧ word ≠ string) := by
  have hslots : ∀ x ∈ (cmdVector.map some).reduceOption, NoVararg x := by
    rw [reduceOption_map_some]
    exact hvararg
  have hfilter := completeFilter_eq hslots hleft
  obtain ⟨hnodup, hmem⟩ := completionMatches_spec last vline.length left List.nodup_nil
  refine ⟨completionMatches last vline.length [] left, by rw [completionWords, hfilter]; rfl,
    hnodup, fun s => by simpa using hmem s, ?_⟩
  have hwords : ∀ word ∈ last, ∀ s ∈ completionMatches last vline.length [] left, word <+: s := by
    intro word hword s hs
    exact (((hmem s).mp hs).resolve_left List.not_mem_nil).2.2 word hword
  unfold cmdCompleteCommand
  rw [hfilter]
  dsimp only
  generalize completionMatches last vline.length [] left = matchvec at hwords
  match matchvec, hwords with
  | [], _ => cases last <;> simp
  | [s], _ => simp
  | s :: t :: l, hwords =>
    cases last with
    | none => simp
    | some word =>
      dsimp only
      have hprefix := isCommonPrefix_take s t l
      have hle : chainLength (commonLength s t) (t :: l) ≤ s.length :=
        (chainLength_le _ _).trans (commonLength_le_left s t)
      rw [cmdLcd_eq]
      split
      · next hlt =>
        refine ⟨by simp, by simp, fun _ => ⟨word, _, rfl, rfl, hprefix, ?_, ?_⟩⟩
        · exact hprefix.longest word fun u hu => hwords word rfl u hu
        · intro heq
          have hlen := congrArg List.length heq
          simp only [Int.toNat_natCast, List.length_take, min_eq_left hle] at hlen
          omega
      · simp

end

/-- Two commands, and the words that go on from `show i`. -/
theorem completion_agrees_show :
    ∃ matchvec,
      completionWords (F := Nat)
        [⟨str "show (ip|iface)", 0, [[str "show"], [str "ip", str "iface"]], 2⟩,
          ⟨str "show version", 1, [[str "show"], [str "version"]], 2⟩]
        [str "show"] (some (str "i")) = some matchvec ∧ matchvec.Nodup := by
  obtain ⟨matchvec, hwords, hnodup, -⟩ := completion_agrees (F := Nat)
    [⟨str "show (ip|iface)", 0, [[str "show"], [str "ip", str "iface"]], 2⟩,
      ⟨str "show version", 1, [[str "show"], [str "version"]], 2⟩]
    [str "show"] (some (str "i"))
    [some ⟨str "show (ip|iface)", 0, [[str "show"], [str "ip", str "iface"]], 2⟩,
      some ⟨str "show version", 1, [[str "show"], [str "version"]], 2⟩] 1 false
    (by unfold NoVararg; decide) (by decide +kernel)
  exact ⟨matchvec, hwords, hnodup⟩

end QrWireguard.Vtysh
