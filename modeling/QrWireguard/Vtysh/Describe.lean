import QrWireguard.Vtysh.Complete

/-!
# Descriptions

`cmd_describe_command` lists what can stand at the end of a line when `?` is typed. It filters the
words in front as the executor does, and then takes the alternatives of the next position, or the
end of the line where a template ends.
-/

namespace QrWireguard.Vtysh

variable {F : Type}

/-- `desc_cr`, which stands for the end of the line. -/
def descCr : Str := str "<cr>"

/-- `desc_unique_string`, which finds the string. -/
def descUniqueString (v : List Str) (s : Str) : Bool := v.any (· == s)

/-- `cmd_entry_function_desc`. An address or a number of which nothing is typed matches. -/
def cmdEntryFunctionDesc (src : Option Str) (dst : Str) : Option Str :=
  if cmdVararg dst then some dst
  else if cmdRange dst then if src.all (cmdRangeMatch dst ·) then some dst else none
  else if dst = str "X:X::X:X" then
    if src.all (cmdIpv6Match · ≠ .noMatch) then some dst else none
  else if dst = str "A.B.C.D" then
    if src.all (cmdIpv4Match · ≠ .noMatch) then some dst else none
  else if dst = str "A.B.C.D/M" then
    if src.all (cmdIpv4PrefixMatch · ≠ .noMatch) then some dst else none
  else if cmdOption dst || cmdVariable dst then some dst
  else match src with
    | none => some dst
    | some src => if src.isPrefixOf dst then some dst else none

/-- A string is put in the match vector unless it is there. -/
def setDesc (matchvec : List Str) (string : Str) : List Str :=
  if descUniqueString matchvec string then matchvec else matchvec ++ [string]

/-- The loop over the alternatives of one position. -/
def addDescs (src : Option Str) (matchvec : List Str) : List Str → List Str
  | [] => matchvec
  | cmd :: descvec =>
    match cmdEntryFunctionDesc src cmd with
    | none => addDescs src matchvec descvec
    | some string => addDescs src (setDesc matchvec string) descvec

/-- The loop over the commands that are left. A template that is over goes on with the end of the
line, when no word has been begun. -/
def describeMatches (src : Option Str) (index : Nat) (matchvec : List Str) :
    List (Option (CmdElement F)) → List Str
  | [] => matchvec
  | none :: v => describeMatches src index matchvec v
  | some e :: v =>
    match e.strvec[index]? with
    | some descvec => describeMatches src index (addDescs src matchvec descvec) v
    | none =>
      if src = none ∧ index = e.strvec.length then
        describeMatches src index (setDesc matchvec descCr) v
      else describeMatches src index matchvec v

/-- What is left of the commands when the last word has been begun. -/
def describedSlots (last : Option Str) (index : Nat) (v : List (Option (CmdElement F))) :
    List (Option (CmdElement F)) :=
  match last with
  | none => v
  | some command => (cmdFilter .byCompletion command index .noMatch v).2

/-- `cmd_describe_command`: the error, or the words that are listed, for the words in front of the
last one and the last one. -/
def cmdDescribeCommand (cmdVector : List (CmdElement F)) (vline : List Str) (last : Option Str) :
    Except Int (List Str) :=
  match filterWords .byCompletion 0 (cmdVector.map some) vline with
  | .error code => .error code
  | .ok (v, _, true) => .ok (v.reduceOption.flatMap (·.strvec.getLastD []) ++ [descCr])
  | .ok (v, _, false) =>
    match describeMatches last vline.length [] (describedSlots last vline.length v) with
    | [] => .error cmdErrNoMatch
    | string :: matchvec => .ok (string :: matchvec)

/-- A template without variable arguments and without addresses with a mask, each of whose
positions has a word other than that for the end of the line. -/
def Describable (e : CmdElement F) : Prop := ∀ descvec ∈ e.strvec, descvec ≠ [] ∧
  ∀ s ∈ descvec, cmdVararg s = false ∧ s ≠ str "A.B.C.D/M" ∧ s ≠ str "X:X::X:X/M" ∧ s ≠ descCr

theorem describable_of_mem_cmdNodeVector (node : Node) :
    ∀ e ∈ cmdNodeVector node, Describable e := by
  unfold Describable
  cases node <;> decide +kernel

/-! ## Vectors without duplicates -/

section
variable {matchvec l : List Str} {s string : Str}

theorem setDesc_of_mem (h : string ∈ matchvec) : setDesc matchvec string = matchvec := by
  rw [setDesc, if_pos]
  simpa [descUniqueString] using h

theorem setDesc_of_not_mem (h : string ∉ matchvec) :
    setDesc matchvec string = matchvec ++ [string] := by
  rw [setDesc, if_neg]
  simpa [descUniqueString] using h

theorem mem_foldl_setDesc : s ∈ l.foldl setDesc matchvec ↔ s ∈ matchvec ∨ s ∈ l := by
  induction l generalizing matchvec with
  | nil => simp
  | cons string l ih =>
    rw [List.foldl_cons, ih, List.mem_cons, ← or_assoc]
    by_cases h : string ∈ matchvec
    · have hsame : s ∈ matchvec ∨ s = string ↔ s ∈ matchvec :=
        or_iff_left_of_imp fun hs => hs ▸ h
      rw [setDesc_of_mem h, hsame]
    · rw [setDesc_of_not_mem h, List.mem_append, List.mem_singleton]

theorem nodup_foldl_setDesc (h : matchvec.Nodup) : (l.foldl setDesc matchvec).Nodup := by
  induction l generalizing matchvec with
  | nil => exact h
  | cons string l ih =>
    apply ih
    by_cases hmem : string ∈ matchvec
    · rwa [setDesc_of_mem hmem]
    · rw [setDesc_of_not_mem hmem]
      refine List.nodup_append.mpr ⟨h, List.nodup_singleton _, fun x hx y hy hxy => ?_⟩
      exact hmem (List.mem_singleton.mp hy ▸ hxy ▸ hx)

/-- What meets a condition is collected by itself in the same way. -/
theorem filter_foldl_setDesc (p : Str → Bool) :
    (l.foldl setDesc matchvec).filter p = (l.filter p).foldl setDesc (matchvec.filter p) := by
  induction l generalizing matchvec with
  | nil => rfl
  | cons string l ih =>
    rw [List.foldl_cons, ih]
    by_cases hp : p string = true
    · rw [List.filter_cons_of_pos hp, List.foldl_cons]
      congr 1
      by_cases h : string ∈ matchvec
      · rw [setDesc_of_mem h, setDesc_of_mem (List.mem_filter.mpr ⟨h, hp⟩)]
      · have hnot : string ∉ matchvec.filter p := fun hmem => h (List.mem_filter.mp hmem).1
        rw [setDesc_of_not_mem h, setDesc_of_not_mem hnot, List.filter_append,
          List.filter_cons_of_pos hp, List.filter_nil]
    · rw [List.filter_cons_of_neg hp]
      congr 1
      by_cases h : string ∈ matchvec
      · rw [setDesc_of_mem h]
      · rw [setDesc_of_not_mem h, List.filter_append, List.filter_cons_of_neg hp, List.filter_nil,
          List.append_nil]

end

/-! ## The words listed -/

section
variable {src last : Option Str} {index : Nat} {v left : List (Option (CmdElement F))}
  {matchvec vline descs : List Str} {e : CmdElement F} {word dst string : Str}
  {cmdVector : List (CmdElement F)} {j : Nat}

theorem ite_eq_ite_isSome (b : Bool) (m : MatchType) (dst : Str) :
    (if b = true then some dst else none) =
      if (if b = true then some m else none).isSome = true then some dst else none := by
  cases b <;> rfl

/-- A word is listed when what has been typed of it matches as in the executor. -/
theorem cmdEntryFunctionDesc_eq (h : dst ≠ str "X:X::X:X/M") (src : Option Str) :
    cmdEntryFunctionDesc src dst =
      if src.all (fun word => (descMatch .byCompletion word dst).isSome) then some dst
      else none := by
  cases src with
  | none =>
    unfold cmdEntryFunctionDesc
    simp only [Option.all_none, if_true, ite_self]
  | some word =>
    unfold cmdEntryFunctionDesc descMatch
    simp only [Option.all_some]
    by_cases hvararg : cmdVararg dst = true
    · simp only [if_pos hvararg]
      rfl
    by_cases hrange : cmdRange dst = true
    · simp only [if_neg hvararg, if_pos hrange]
      exact ite_eq_ite_isSome _ _ _
    by_cases hv6 : dst = str "X:X::X:X"
    · simp only [if_neg hvararg, if_neg hrange, if_pos hv6]
      exact ite_eq_ite_isSome _ _ _
    by_cases hv4 : dst = str "A.B.C.D"
    · simp only [if_neg hvararg, if_neg hrange, if_neg hv6, if_neg h, if_pos hv4]
      exact ite_eq_ite_isSome _ _ _
    by_cases hmask : dst = str "A.B.C.D/M"
    · simp only [if_neg hvararg, if_neg hrange, if_neg hv6, if_neg h, if_neg hv4, if_pos hmask]
      exact ite_eq_ite_isSome _ _ _
    simp only [if_neg hvararg, if_neg hrange, if_neg hv6, if_neg h, if_neg hv4, if_neg hmask]
    by_cases hvariable : (cmdOption dst || cmdVariable dst) = true
    · simp only [if_pos hvariable]
      rfl
    simp only [if_neg hvariable]
    by_cases hp : word.isPrefixOf dst = true
    · simp only [if_pos hp]
      by_cases heq : word = dst
      · simp only [if_pos heq]
        rfl
      · simp only [if_neg heq]
        rfl
    · simp only [if_neg hp]
      rfl

theorem addDescs_eq (src : Option Str) (matchvec descvec : List Str) :
    addDescs src matchvec descvec =
      (descvec.filterMap (cmdEntryFunctionDesc src)).foldl setDesc matchvec := by
  induction descvec generalizing matchvec with
  | nil => rfl
  | cons cmd descvec ih =>
    rw [addDescs]
    cases hcmd : cmdEntryFunctionDesc src cmd with
    | none =>
      rw [List.filterMap_cons_none hcmd]
      exact ih matchvec
    | some string =>
      rw [List.filterMap_cons_some hcmd]
      exact ih (setDesc matchvec string)

/-- What a command goes on with. -/
def nextWords (src : Option Str) (index : Nat) (e : CmdElement F) : List Str :=
  (e.alternatives index).filterMap (cmdEntryFunctionDesc src) ++
    if src = none ∧ index = e.strvec.length then [descCr] else []

theorem describeMatches_eq (src : Option Str) (index : Nat) (matchvec : List Str)
    (v : List (Option (CmdElement F))) : describeMatches src index matchvec v =
      (v.reduceOption.flatMap (nextWords src index)).foldl setDesc matchvec := by
  induction v generalizing matchvec with
  | nil => rfl
  | cons slot v ih =>
    cases slot with
    | none => rw [describeMatches, ih, List.reduceOption_cons_of_none]
    | some e =>
      rw [List.reduceOption_cons_of_some, List.flatMap_cons, List.foldl_append, ← ih, nextWords,
        CmdElement.alternatives, List.getD_eq_getElem?_getD, describeMatches.eq_3]
      cases hpos : e.strvec[index]? with
      | some descvec =>
        have hne : index ≠ e.strvec.length := by
          have hlt := (List.getElem?_eq_some_iff.mp hpos).1
          omega
        simp [hne, addDescs_eq]
      | none =>
        by_cases hend : src = none ∧ index = e.strvec.length
        · simp [hend]
        · simp [hend]

/-! ## The keywords listed -/

theorem cmdEntryFunctionDesc_of_isKeyword (h : isKeyword dst = true) (src : Option Str) :
    cmdEntryFunctionDesc src dst = cmdEntryFunction src dst := by
  simp only [isKeyword, Bool.not_eq_true', Bool.or_eq_false_iff] at h
  obtain ⟨⟨hvararg, hvariable⟩, hoption⟩ := h
  have hrange : cmdRange dst = false := by
    rw [cmdVariable, Bool.or_eq_false_iff] at hvariable
    exact hvariable.2
  have hv6 : dst ≠ str "X:X::X:X" := by
    rintro rfl
    revert hvariable
    decide
  have hv4 : dst ≠ str "A.B.C.D" := by
    rintro rfl
    revert hvariable
    decide
  have hmask : dst ≠ str "A.B.C.D/M" := by
    rintro rfl
    revert hvariable
    decide
  unfold cmdEntryFunctionDesc cmdEntryFunction
  cases src with
  | none => simp [hvararg, hvariable, hoption, hrange, hv6, hv4, hmask]
  | some word => simp [hvararg, hvariable, hoption, hrange, hv6, hv4, hmask]

/-- A word is listed as it stands in the template. -/
theorem eq_of_cmdEntryFunctionDesc (h : cmdEntryFunctionDesc src dst = some string) :
    string = dst := by
  unfold cmdEntryFunctionDesc at h
  split_ifs at h
  · exact (Option.some.inj h).symm
  · exact (Option.some.inj h).symm
  · exact (Option.some.inj h).symm
  · exact (Option.some.inj h).symm
  · exact (Option.some.inj h).symm
  · exact (Option.some.inj h).symm
  · cases src with
    | none => exact (Option.some.inj h).symm
    | some word =>
      dsimp only at h
      split_ifs at h
      exact (Option.some.inj h).symm

theorem filter_entries (src : Option Str) (descvec : List Str) :
    (descvec.filterMap (cmdEntryFunctionDesc src)).filter isKeyword =
      descvec.filterMap (cmdEntryFunction src) := by
  induction descvec with
  | nil => rfl
  | cons dst descvec ih =>
    cases hkeyword : isKeyword dst with
    | true =>
      have hsame := cmdEntryFunctionDesc_of_isKeyword hkeyword src
      cases hentry : cmdEntryFunction src dst with
      | none => rw [List.filterMap_cons_none (hsame.trans hentry),
          List.filterMap_cons_none hentry, ih]
      | some string =>
        obtain ⟨rfl, -, -⟩ := cmdEntryFunction_eq_some.mp hentry
        rw [List.filterMap_cons_some (hsame.trans hentry), List.filterMap_cons_some hentry,
          List.filter_cons_of_pos hkeyword, ih]
    | false =>
      have hnone : cmdEntryFunction src dst = none := by
        cases hentry : cmdEntryFunction src dst with
        | none => rfl
        | some string =>
          obtain ⟨-, hyes, -⟩ := cmdEntryFunction_eq_some.mp hentry
          rw [hkeyword] at hyes
          cases hyes
      rw [List.filterMap_cons_none hnone]
      cases hdesc : cmdEntryFunctionDesc src dst with
      | none => rw [List.filterMap_cons_none hdesc, ih]
      | some string =>
        have hstring : string = dst := eq_of_cmdEntryFunctionDesc hdesc
        rw [List.filterMap_cons_some hdesc, List.filter_cons_of_neg (by simp [hstring, hkeyword]),
          ih]

theorem addMatches_eq (src : Option Str) (matchvec descvec : List Str) :
    addMatches src matchvec descvec =
      (descvec.filterMap (cmdEntryFunction src)).foldl setDesc matchvec := by
  induction descvec generalizing matchvec with
  | nil => rfl
  | cons cmd descvec ih =>
    rw [addMatches]
    cases hcmd : cmdEntryFunction src cmd with
    | none =>
      rw [List.filterMap_cons_none hcmd]
      exact ih matchvec
    | some string =>
      have hset : (if cmdUniqueString matchvec string then matchvec ++ [string] else matchvec) =
          setDesc matchvec string := by
        by_cases hmem : string ∈ matchvec
        · rw [setDesc_of_mem hmem, if_neg]
          simpa [cmdUniqueString] using hmem
        · rw [setDesc_of_not_mem hmem, if_pos]
          rw [cmdUniqueString, List.all_eq_true]
          intro x hx
          exact bne_iff_ne.mpr fun heq => hmem (heq ▸ hx)
      rw [List.filterMap_cons_some hcmd, List.foldl_cons, ← hset]
      exact ih _

theorem completionMatches_eq (src : Option Str) (index : Nat) (matchvec : List Str)
    (v : List (Option (CmdElement F))) : completionMatches src index matchvec v =
      (v.reduceOption.flatMap fun e =>
        (e.alternatives index).filterMap (cmdEntryFunction src)).foldl setDesc matchvec := by
  induction v generalizing matchvec with
  | nil => rfl
  | cons slot v ih =>
    cases slot with
    | none => rw [completionMatches, ih, List.reduceOption_cons_of_none]
    | some e =>
      rw [List.reduceOption_cons_of_some, List.flatMap_cons, List.foldl_append, ← ih,
        CmdElement.alternatives, List.getD_eq_getElem?_getD, completionMatches.eq_3]
      cases hpos : e.strvec[index]? with
      | some descvec =>
        dsimp only
        rw [addMatches_eq]
        rfl
      | none => rfl

theorem filter_nextWords (src : Option Str) (index : Nat) (e : CmdElement F) :
    (nextWords src index e).filter isKeyword =
      (e.alternatives index).filterMap (cmdEntryFunction src) := by
  have hend : isKeyword descCr = false := by decide
  rw [nextWords, List.filter_append, filter_entries]
  split_ifs
  · rw [List.filter_cons_of_neg (by simp [hend]), List.filter_nil, List.append_nil]
  · rw [List.filter_nil, List.append_nil]

/-- What completion considers are the keywords among the words listed. -/
theorem filter_describeMatches (src : Option Str) (index : Nat)
    (v : List (Option (CmdElement F))) :
    (describeMatches src index [] v).filter isKeyword = completionMatches src index [] v := by
  rw [describeMatches_eq, completionMatches_eq, filter_foldl_setDesc, List.filter_flatMap]
  congr 1
  apply List.flatMap_congr
  intro e _
  exact filter_nextWords src index e

/-- Completion considers nothing of the commands that do not take the word begun. -/
theorem completionMatches_takes (word : Str) (index : Nat) (v : List (Option (CmdElement F))) :
    completionMatches (some word) index []
        (v.map (Option.filter (CmdElement.takes .byCompletion word index))) =
      completionMatches (some word) index [] v := by
  rw [completionMatches_eq, completionMatches_eq, reduceOption_map_filter]
  congr 1
  induction v.reduceOption with
  | nil => rfl
  | cons e l ih =>
    cases htakes : e.takes .byCompletion word index with
    | true => rw [List.filter_cons_of_pos htakes, List.flatMap_cons, List.flatMap_cons, ih]
    | false =>
      have hnone : (e.alternatives index).filterMap (cmdEntryFunction (some word)) = [] := by
        apply List.filterMap_eq_nil_iff.mpr
        intro dst hdst
        cases hentry : cmdEntryFunction (some word) dst with
        | none => rfl
        | some string =>
          obtain ⟨-, hkeyword, -⟩ := cmdEntryFunction_eq_some.mp hentry
          have hmask : dst ≠ str "X:X::X:X/M" := by
            rintro rfl
            revert hkeyword
            decide
          have hrefused : (descMatch .byCompletion word dst).isSome = false := by
            simpa using List.any_eq_false.mp htakes dst hdst
          have hsame := cmdEntryFunctionDesc_of_isKeyword hkeyword (some word)
          rw [cmdEntryFunctionDesc_eq hmask, Option.all_some, hrefused, hentry] at hsame
          cases hsame
      rw [List.filter_cons_of_neg (by simp [htakes]), List.flatMap_cons, hnone, ih]
      rfl

/-! ## The words in front -/

theorem Describable.noVararg (h : Describable e) : NoVararg e :=
  fun descvec hdescvec s hs => ((h descvec hdescvec).2 s hs).1

/-- A word of a position of a describable template. -/
theorem Describable.alternative (h : Describable e) {s : Str} (hs : s ∈ e.alternatives index) :
    cmdVararg s = false ∧ s ≠ str "A.B.C.D/M" ∧ s ≠ str "X:X::X:X/M" ∧ s ≠ descCr := by
  rw [CmdElement.alternatives, List.getD_eq_getElem?_getD] at hs
  cases hpos : e.strvec[index]? with
  | none =>
    rw [hpos] at hs
    cases hs
  | some descvec =>
    rw [hpos] at hs
    exact (h descvec (List.mem_of_getElem? hpos)).2 s hs

theorem bestMatch_ne_vararg (hdesc : ∀ x ∈ v.reduceOption, Describable x) (word : Str)
    (index : Nat) : bestMatch .byCompletion word index v ≠ .varargMatch :=
  bestMatch_ne_varargMatch fun x hx => (hdesc x hx).noVararg

theorem bestMatch_ne_ipv4PrefixMatch (hdesc : ∀ x ∈ v.reduceOption, Describable x) :
    bestMatch .byCompletion word index v ≠ .ipv4PrefixMatch := by
  intro hbest
  have hmem : bestMatch .byCompletion word index v ∈ matchTypes .byCompletion word index v :=
    bestMatch_mem (by rw [hbest]; decide)
  rw [hbest] at hmem
  obtain ⟨x, hx, s, hs, hm⟩ := mem_matchTypes.mp hmem
  obtain ⟨-, hmask, -⟩ := (hdesc x (List.reduceOption_mem_iff.mpr hx)).alternative hs
  unfold descMatch at hm
  simp only [if_neg hmask] at hm
  split_ifs at hm <;> cases hm

theorem describable_left {type : MatchType} (hdesc : ∀ x ∈ v.reduceOption, Describable x)
    (h : isCmdAmbiguous word index type none
      (v.map (Option.filter (CmdElement.takes .byCompletion word index))) = .ok left) :
    ∀ x ∈ left.reduceOption, Describable x := by
  intro x hx
  rw [reduceOption_left h] at hx
  exact hdesc x (mem_leftOf.mp hx).1

/-- The words in front are refused as ambiguous only, by completion also. -/
theorem filterWords_error {code : Int} (hdesc : ∀ x ∈ v.reduceOption, Describable x)
    (h : filterWords .byCompletion index v vline = .error code) :
    code = cmdErrAmbiguous ∧ completeFilter index v vline = none := by
  induction vline generalizing index v with
  | nil => cases h
  | cons word vline ih =>
    have hround := completeFilter.eq_2 index v word vline
    rw [cmdFilter_eq, ← bestMatch_eq] at hround
    rw [filterWords_cons, if_neg (bestMatch_ne_vararg hdesc word index)] at h
    rw [hround]
    dsimp only
    cases hleft : isCmdAmbiguous word index (bestMatch .byCompletion word index v) none
        (v.map (Option.filter (CmdElement.takes .byCompletion word index))) with
    | error ret =>
      have hret := isCmdAmbiguous_error hleft
      rw [if_neg (bestMatch_ne_ipv4PrefixMatch hdesc)] at hret
      rw [hleft, hret] at h
      rw [hret]
      exact ⟨(Except.error.inj h).symm, rfl⟩
    | ok left =>
      rw [hleft] at h
      exact ih (describable_left hdesc hleft) h

/-- The words in front are those that the executor reads before the others. -/
theorem filterWords_append (rest : List Str) (hdesc : ∀ x ∈ v.reduceOption, Describable x)
    (h : filterWords .byCompletion index v vline = .ok (left, j, false)) :
    filterWords .byCompletion index v (vline ++ rest) =
      filterWords .byCompletion (index + vline.length) left rest := by
  induction vline generalizing index v with
  | nil =>
    cases h
    rfl
  | cons word vline ih =>
    have hvararg := bestMatch_ne_vararg hdesc word index
    rw [filterWords_cons, if_neg hvararg] at h
    rw [List.cons_append, filterWords_cons, if_neg hvararg]
    cases hleft : isCmdAmbiguous word index (bestMatch .byCompletion word index v) none
        (v.map (Option.filter (CmdElement.takes .byCompletion word index))) with
    | error ret =>
      rw [hleft] at h
      cases h
    | ok next =>
      rw [hleft] at h
      dsimp only at h ⊢
      rw [ih (describable_left hdesc hleft) h, List.length_cons, Nat.add_assoc, Nat.add_comm 1]

theorem filterWords_append_error (rest : List Str) {code : Int}
    (hdesc : ∀ x ∈ v.reduceOption, Describable x)
    (h : filterWords .byCompletion index v vline = .error code) :
    filterWords .byCompletion index v (vline ++ rest) = .error code := by
  induction vline generalizing index v with
  | nil => cases h
  | cons word vline ih =>
    have hvararg := bestMatch_ne_vararg hdesc word index
    rw [filterWords_cons, if_neg hvararg] at h
    rw [List.cons_append, filterWords_cons, if_neg hvararg]
    cases hleft : isCmdAmbiguous word index (bestMatch .byCompletion word index v) none
        (v.map (Option.filter (CmdElement.takes .byCompletion word index))) with
    | error ret =>
      rw [hleft] at h
      exact h
    | ok next =>
      rw [hleft] at h
      exact ih (describable_left hdesc hleft) h

theorem describable_slots (hdesc : ∀ e ∈ cmdVector, Describable e) :
    ∀ x ∈ (cmdVector.map some).reduceOption, Describable x := by
  rw [reduceOption_map_some]
  exact hdesc

/-- What is left of the commands when the words in front are read. -/
structure LeftAfter (cmdVector : List (CmdElement F)) (vline : List Str)
    (left : List (Option (CmdElement F))) : Prop where
  front : filterWords .byCompletion 0 (cmdVector.map some) vline = .ok (left, vline.length, false)
  mem : ∀ x ∈ left.reduceOption, x ∈ cmdVector
  describable : ∀ x ∈ left.reduceOption, Describable x
  length_le : ∀ x ∈ left.reduceOption, vline.length ≤ x.strvec.length

theorem leftAfter_of_ok {vararg : Bool} (hdesc : ∀ e ∈ cmdVector, Describable e)
    (h : filterWords .byCompletion 0 (cmdVector.map some) vline = .ok (left, j, vararg)) :
    LeftAfter cmdVector vline left := by
  have hvararg : ∀ x ∈ (cmdVector.map some).reduceOption, NoVararg x :=
    fun x hx => (describable_slots hdesc x hx).noVararg
  obtain ⟨rfl, rfl⟩ := filterWords_index hvararg h
  have hmem : ∀ x ∈ left.reduceOption, x ∈ cmdVector := by
    intro x hx
    have hin := List.reduceOption_mem_iff.mpr
      (mem_filterWords h (List.reduceOption_mem_iff.mp hx))
    rwa [reduceOption_map_some] at hin
  refine ⟨by rw [h, Nat.zero_add], hmem, fun x hx => hdesc x (hmem x hx), fun x hx => ?_⟩
  exact length_le_of_left hvararg h hx

theorem LeftAfter.describe_eq (h : LeftAfter cmdVector vline left) (last : Option Str) :
    cmdDescribeCommand cmdVector vline last =
      if describeMatches last vline.length [] (describedSlots last vline.length left) = [] then
        .error cmdErrNoMatch
      else .ok (describeMatches last vline.length [] (describedSlots last vline.length left)) := by
  rw [cmdDescribeCommand, h.front]
  dsimp only
  cases describeMatches last vline.length [] (describedSlots last vline.length left) with
  | nil => rfl
  | cons string matchvec => rfl

/-- The words in front are ambiguous, or they leave commands, for completion also. -/
theorem leftAfter_cases (hdesc : ∀ e ∈ cmdVector, Describable e) (vline : List Str) :
    (filterWords .byCompletion 0 (cmdVector.map some) vline = .error cmdErrAmbiguous ∧
      completeFilter 0 (cmdVector.map some) vline = none) ∨
    ∃ left, LeftAfter cmdVector vline left ∧
      completeFilter 0 (cmdVector.map some) vline = some left := by
  have hslots := describable_slots hdesc
  cases hfront : filterWords .byCompletion 0 (cmdVector.map some) vline with
  | error code =>
    obtain ⟨rfl, hcomplete⟩ := filterWords_error hslots hfront
    exact .inl ⟨rfl, hcomplete⟩
  | ok p =>
    obtain ⟨left, j, vararg⟩ := p
    exact .inr ⟨left, leftAfter_of_ok hdesc hfront,
      completeFilter_eq (fun x hx => (hslots x hx).noVararg) hfront⟩

theorem completionMatches_describedSlots (last : Option Str) (index : Nat)
    (v : List (Option (CmdElement F))) :
    completionMatches last index [] (describedSlots last index v) =
      completionMatches last index [] v := by
  cases last with
  | none => rfl
  | some word =>
    rw [describedSlots, cmdFilter_eq]
    exact completionMatches_takes word index v

/-- The words that completion considers are, in the same order, the keywords among the words that
`?` lists. Where the words in front are ambiguous both give up. -/
theorem completion_described (hdesc : ∀ e ∈ cmdVector, Describable e) (vline : List Str)
    (last : Option Str) :
    (cmdDescribeCommand cmdVector vline last = .error cmdErrAmbiguous ∧
      completionWords cmdVector vline last = none) ∨
    ∃ descs, cmdDescribeCommand cmdVector vline last =
        (if descs = [] then .error cmdErrNoMatch else .ok descs) ∧ descs.Nodup ∧
      completionWords cmdVector vline last = some (descs.filter isKeyword) := by
  rcases leftAfter_cases hdesc vline with ⟨hfront, hcomplete⟩ | ⟨left, hleft, hcomplete⟩
  · refine .inl ⟨?_, ?_⟩
    · rw [cmdDescribeCommand, hfront]
    · rw [completionWords, hcomplete]
      rfl
  · refine .inr ⟨_, hleft.describe_eq last, ?_, ?_⟩
    · rw [describeMatches_eq]
      exact nodup_foldl_setDesc List.nodup_nil
    · rw [filter_describeMatches, completionMatches_describedSlots, completionWords, hcomplete]
      rfl

/-- The words that go on from `no i`. -/
theorem completion_described_no :
    completionWords (cmdNodeVector .config) [str "no"] (some (str "i")) = some [str "ip"] := by
  have hlisted : cmdDescribeCommand (cmdNodeVector .config) [str "no"] (some (str "i")) =
      .ok [str "ip"] := by decide +kernel
  rcases completion_described (describable_of_mem_cmdNodeVector .config) [str "no"]
    (some (str "i")) with ⟨hdesc, -⟩ | ⟨descs, hdesc, -, hwords⟩
  · rw [hlisted] at hdesc
    cases hdesc
  · rw [hlisted] at hdesc
    split_ifs at hdesc
    obtain rfl := Except.ok.inj hdesc
    exact hwords

/-! ## What can be typed -/

theorem descMatch_descCr (word : Str) : descMatch .byCompletion word descCr = none := by
  have hrange : cmdRangeMatch descCr word = false := by
    unfold cmdRangeMatch
    cases strtoulAll word with
    | none => rfl
    | some val => rfl
  unfold descMatch
  rw [if_neg (by decide), if_pos (by decide), hrange]
  rfl

theorem bindArgs_error {strvec : List (List Str)} {varflag : Bool} {argv : List Str} {code : Int}
    (h : bindArgs strvec varflag argv vline = some (.error code)) : code = cmdErrExeedArgcMax := by
  induction vline generalizing strvec varflag argv with
  | nil => cases h
  | cons word vline ih =>
    have hnext : ∀ {strvec varflag argv},
        (if cmdArgcMax ≤ argv.length then some (.error cmdErrExeedArgcMax)
          else bindArgs strvec varflag argv vline) = some (.error code) →
            code = cmdErrExeedArgcMax := by
      intro strvec varflag argv hbind
      split at hbind
      · exact (Except.error.inj (Option.some.inj hbind)).symm
      · exact ih hbind
    unfold bindArgs at h
    dsimp only at h
    split at h
    · exact hnext h
    · split at h
      · cases h
      · split at h
        · exact hnext h
        · exact hnext h
      · exact hnext h

/-- The executor finds no command when none is left. -/
theorem cmdLookup_noMatch_iff (hdesc : ∀ e ∈ cmdVector, Describable e) :
    cmdLookup .byCompletion cmdVector vline = .error cmdErrNoMatch ↔
      ∃ left j vararg, filterWords .byCompletion 0 (cmdVector.map some) vline =
        .ok (left, j, vararg) ∧ left.reduceOption = [] := by
  unfold cmdLookup
  cases hfront : filterWords .byCompletion 0 (cmdVector.map some) vline with
  | error code =>
    obtain ⟨rfl, -⟩ := filterWords_error (describable_slots hdesc) hfront
    simp
  | ok p =>
    obtain ⟨left, j, vararg⟩ := p
    have hiff : (∃ left' j' vararg', (Except.ok (left, j, vararg) : Except Int _) =
        .ok (left', j', vararg') ∧ left'.reduceOption = []) ↔ left.reduceOption = [] := by
      simp
    rw [hiff]
    dsimp only
    split
    · next hnone =>
      split
      · next hempty => exact iff_of_true rfl (List.isEmpty_iff.mp hempty)
      · next hempty => exact iff_of_false (by simp) fun hnil => hempty (by rw [hnil]; rfl)
    · next e hone =>
      have hne : left.reduceOption ≠ [] := by
        intro hnil
        rw [hnil] at hone
        cases hone
      split
      · exact iff_of_false (by simp) hne
      · next code hbind =>
        rw [bindArgs_error hbind]
        exact iff_of_false (by simp) hne
      · exact iff_of_false (by simp) hne
    · next hnone hone =>
      refine iff_of_false (by simp) fun hnil => ?_
      rw [hnil] at hnone
      exact hnone rfl

theorem MatchType.rank_le_foldl_raise (m : MatchType) (l : List MatchType) :
    m.rank ≤ (l.foldl raise m).rank ∧ ∀ n ∈ l, n.rank ≤ (l.foldl raise m).rank := by
  induction l generalizing m with
  | nil => exact ⟨Nat.le_refl _, fun n hn => by cases hn⟩
  | cons k l ih =>
    have hraise : m.rank ≤ (m.raise k).rank ∧ k.rank ≤ (m.raise k).rank := by
      unfold raise
      split <;> omega
    obtain ⟨hfirst, hrest⟩ := ih (m.raise k)
    refine ⟨hraise.1.trans hfirst, fun n hn => ?_⟩
    rcases List.mem_cons.mp hn with rfl | hn
    · exact hraise.2.trans hfirst
    · exact hrest n hn

/-- A word that an alternative takes counts for it, and is better than no match. -/
theorem counts_of_descMatch {m : MatchType} {s : Str} (hvararg : cmdVararg s = false)
    (h : descMatch .byCompletion word s = some m) :
    m ≠ .noMatch ∧ (ambiguousVote word m s).counts = true := by
  unfold descMatch at h
  rw [if_neg (by simp [hvararg])] at h
  split_ifs at h with hrange hmatch hv6 htakes hmask6 hv4 htakes hmask htakes hvariable hprefix hword
  · obtain rfl := Option.some.inj h
    exact ⟨by decide, by simp [ambiguousVote, hmatch, Vote.counts]⟩
  · obtain rfl := Option.some.inj h
    exact ⟨by decide, by simp [ambiguousVote, hv6, Vote.counts]⟩
  · obtain rfl := Option.some.inj h
    exact ⟨by decide, by simp [ambiguousVote, hv4, Vote.counts]⟩
  · obtain rfl := Option.some.inj h
    refine ⟨by decide, ?_⟩
    have hsome : cmdIpv4PrefixMatch word ≠ .noMatch := of_decide_eq_true htakes
    unfold ambiguousVote
    dsimp only
    split
    · next hnone => exact absurd hnone hsome
    · rfl
    · rfl
  · obtain rfl := Option.some.inj h
    exact ⟨by decide, by simp [ambiguousVote, hvariable, Vote.counts]⟩
  · obtain rfl := Option.some.inj h
    exact ⟨by decide, by simp [ambiguousVote, hvariable, hword, Vote.counts]⟩
  · obtain rfl := Option.some.inj h
    exact ⟨by decide, by simp only [ambiguousVote, hvariable, hprefix]; rfl⟩

/-- A word goes on from the commands that are left when one of them takes it. -/
theorem left_eq_nil_iff {next : List (Option (CmdElement F))} {vararg : Bool}
    (hdesc : ∀ x ∈ v.reduceOption, Describable x)
    (h : filterWords .byCompletion index v [word] = .ok (next, j, vararg)) :
    next.reduceOption = [] ↔ ∀ x ∈ v.reduceOption, x.takes .byCompletion word index = false := by
  have hvararg := bestMatch_ne_vararg hdesc word index
  rw [filterWords_cons, if_neg hvararg] at h
  cases hleft : isCmdAmbiguous word index (bestMatch .byCompletion word index v) none
      (v.map (Option.filter (CmdElement.takes .byCompletion word index))) with
  | error ret =>
    rw [hleft] at h
    cases h
  | ok left =>
    rw [hleft] at h
    cases h
    rw [reduceOption_left hleft]
    constructor
    · intro hnil x hx
      by_contra htakes
      rw [Bool.not_eq_false] at htakes
      obtain ⟨s, hs, hsome⟩ := List.any_eq_true.mp htakes
      obtain ⟨m, hm⟩ := Option.isSome_iff_exists.mp hsome
      have hmem : m ∈ matchTypes .byCompletion word index v :=
        mem_matchTypes.mpr ⟨x, List.reduceOption_mem_iff.mp hx, s, hs, hm⟩
      have hm0 := (counts_of_descMatch ((hdesc x hx).alternative hs).1 hm).1
      have hbest : bestMatch .byCompletion word index v ≠ .noMatch := by
        intro hbest
        rw [bestMatch_eq] at hbest
        have hrank := (MatchType.rank_le_foldl_raise .noMatch _).2 m hmem
        rw [hbest] at hrank
        exact hm0 (MatchType.rank_injective (Nat.le_antisymm hrank (Nat.zero_le _)))
      obtain ⟨y, hy, t, ht, hbest⟩ := mem_matchTypes.mp (bestMatch_mem hbest)
      have hy := List.reduceOption_mem_iff.mpr hy
      have hcounts := (counts_of_descMatch ((hdesc y hy).alternative ht).1 hbest).2
      have hyleft : y ∈ leftOf .byCompletion word index (bestMatch .byCompletion word index v) v :=
        mem_leftOf.mpr ⟨hy, List.any_eq_true.mpr ⟨t, ht, hcounts⟩,
          List.any_eq_true.mpr ⟨t, ht, by rw [hbest]; rfl⟩⟩
      rw [hnil] at hyleft
      cases hyleft
    · intro hnone
      apply List.eq_nil_iff_forall_not_mem.mpr
      intro x hx
      obtain ⟨hmem, -, htakes⟩ := mem_leftOf.mp hx
      rw [hnone x hmem] at htakes
      cases htakes

/-- What is listed behind a blank are the alternatives of the commands that are left, and the end
of the line where one of them is over. -/
theorem mem_describeMatches (hdesc : ∀ x ∈ v.reduceOption, Describable x) :
    string ∈ describeMatches none index [] v ↔ ∃ x ∈ v.reduceOption,
      string ∈ x.alternatives index ∨ index = x.strvec.length ∧ string = descCr := by
  have hnext : ∀ x ∈ v.reduceOption, (string ∈ nextWords none index x ↔
      string ∈ x.alternatives index ∨ index = x.strvec.length ∧ string = descCr) := by
    intro x hx
    have hall : (x.alternatives index).filterMap (cmdEntryFunctionDesc none) =
        x.alternatives index := by
      rw [List.filterMap_congr (g := some), List.filterMap_some]
      intro s hs
      rw [cmdEntryFunctionDesc_eq ((hdesc x hx).alternative hs).2.2.1]
      rfl
    rw [nextWords, hall, List.mem_append]
    by_cases hend : index = x.strvec.length
    · simp [hend]
    · simp [hend]
  rw [describeMatches_eq, mem_foldl_setDesc, or_iff_right List.not_mem_nil, List.mem_flatMap]
  constructor
  · intro h
    obtain ⟨x, hx, hstring⟩ := h
    exact ⟨x, hx, (hnext x hx).mp hstring⟩
  · intro h
    obtain ⟨x, hx, hstring⟩ := h
    exact ⟨x, hx, (hnext x hx).mpr hstring⟩

theorem describeMatches_eq_nil {src : Option Str} : describeMatches src index [] v = [] ↔
    ∀ x ∈ v.reduceOption, nextWords src index x = [] := by
  rw [describeMatches_eq, List.eq_nil_iff_forall_not_mem]
  simp only [mem_foldl_setDesc, List.not_mem_nil, false_or]
  rw [← List.eq_nil_iff_forall_not_mem, List.flatMap_eq_nil_iff]

/-- Behind a word that has been begun something is listed when a command takes the word. -/
theorem describeMatches_word_eq_nil (hdesc : ∀ x ∈ v.reduceOption, Describable x) :
    describeMatches (some word) index [] (describedSlots (some word) index v) = [] ↔
      ∀ x ∈ v.reduceOption, x.takes .byCompletion word index = false := by
  have hslots : (describedSlots (some word) index v).reduceOption =
      v.reduceOption.filter (CmdElement.takes .byCompletion word index) := by
    rw [describedSlots, cmdFilter_eq]
    exact reduceOption_map_filter _ v
  rw [describeMatches_eq_nil, hslots]
  constructor
  · intro hnil x hx
    by_contra htakes
    rw [Bool.not_eq_false] at htakes
    obtain ⟨s, hs, hsome⟩ := List.any_eq_true.mp htakes
    have hlisted : cmdEntryFunctionDesc (some word) s = some s := by
      rw [cmdEntryFunctionDesc_eq ((hdesc x hx).alternative hs).2.2.1, Option.all_some, hsome]
      rfl
    have hmem : s ∈ nextWords (some word) index x :=
      List.mem_append_left _ (List.mem_filterMap.mpr ⟨s, hs, hlisted⟩)
    rw [hnil x (List.mem_filter.mpr ⟨hx, htakes⟩)] at hmem
    cases hmem
  · intro hnone x hx
    obtain ⟨hmem, htakes⟩ := List.mem_filter.mp hx
    rw [hnone x hmem] at htakes
    cases htakes

/-- Behind a blank something is listed when a command is left. -/
theorem describeMatches_blank_eq_nil (hdesc : ∀ x ∈ v.reduceOption, Describable x)
    (hle : ∀ x ∈ v.reduceOption, index ≤ x.strvec.length) :
    describeMatches none index [] v = [] ↔ v.reduceOption = [] := by
  constructor
  · intro hnil
    apply List.eq_nil_iff_forall_not_mem.mpr
    intro x hx
    have hsome : ∃ s, s ∈ describeMatches none index [] v := by
      rcases Nat.lt_or_ge index x.strvec.length with hlt | hge
      · obtain ⟨s, rest, hcons⟩ := List.exists_cons_of_ne_nil
          (hdesc x hx x.strvec[index] (List.getElem_mem hlt)).1
        have hs : s ∈ x.alternatives index := by
          rw [CmdElement.alternatives, List.getD_eq_getElem _ _ hlt, hcons]
          exact List.mem_cons_self
        exact ⟨s, (mem_describeMatches hdesc).mpr ⟨x, hx, .inl hs⟩⟩
      · exact ⟨descCr, (mem_describeMatches hdesc).mpr
          ⟨x, hx, .inr ⟨Nat.le_antisymm (hle x hx) hge, rfl⟩⟩⟩
    obtain ⟨s, hs⟩ := hsome
    rw [hnil] at hs
    cases hs
  · intro hnil
    rw [describeMatches_eq, hnil]
    rfl

theorem cmdCmdsize_le (strvec : List (List Str)) : cmdCmdsize strvec ≤ strvec.length := by
  induction strvec with
  | nil => exact Nat.le_refl 0
  | cons descvec strvec ih =>
    have hstep := Nat.succ_le_succ ih
    cases descvec with
    | nil => exact hstep
    | cons cmd descvec =>
      cases descvec with
      | nil =>
        rw [cmdCmdsize]
        split
        · exact Nat.zero_le _
        · exact hstep
      | cons cmd' descvec => exact hstep

theorem LeftAfter.lookup_noMatch (h : LeftAfter cmdVector vline left)
    (hdesc : ∀ e ∈ cmdVector, Describable e) :
    cmdLookup .byCompletion cmdVector vline = .error cmdErrNoMatch ↔ left.reduceOption = [] := by
  rw [cmdLookup_noMatch_iff hdesc, h.front]
  simp

/-- The next word is refused when no command that is left takes it. -/
theorem LeftAfter.lookup_word_noMatch (h : LeftAfter cmdVector vline left)
    (hdesc : ∀ e ∈ cmdVector, Describable e) (word : Str) :
    cmdLookup .byCompletion cmdVector (vline ++ [word]) = .error cmdErrNoMatch ↔
      ∀ x ∈ left.reduceOption, x.takes .byCompletion word vline.length = false := by
  have happend := filterWords_append [word] (describable_slots hdesc) h.front
  rw [Nat.zero_add] at happend
  rw [cmdLookup_noMatch_iff hdesc, happend]
  constructor
  · intro hlookup
    obtain ⟨next, j, vararg, hnext, hnil⟩ := hlookup
    exact (left_eq_nil_iff h.describable hnext).mp hnil
  · intro hnone
    have hvararg := bestMatch_ne_vararg h.describable word vline.length
    have hempty : leftOf .byCompletion word vline.length
        (bestMatch .byCompletion word vline.length left) left = [] := by
      apply List.eq_nil_iff_forall_not_mem.mpr
      intro x hx
      obtain ⟨hmem, -, htakes⟩ := mem_leftOf.mp hx
      rw [hnone x hmem] at htakes
      cases htakes
    obtain ⟨next, hnext⟩ := isOk_iff_clear_left.mpr (show Clear word
      (bestMatch .byCompletion word vline.length left) none
        ((leftOf .byCompletion word vline.length
          (bestMatch .byCompletion word vline.length left) left).flatMap
            fun e => e.alternatives vline.length) by
      rw [hempty]
      exact ⟨[], by simp, by simp⟩)
    have hround : filterWords .byCompletion vline.length left [word] =
        .ok (next, vline.length + 1, false) := by
      rw [filterWords_cons, if_neg hvararg, hnext]
      rfl
    exact ⟨next, _, _, hround, (left_eq_nil_iff h.describable hround).mpr hnone⟩

theorem LeftAfter.describe_noMatch (h : LeftAfter cmdVector vline left) (last : Option Str) :
    cmdDescribeCommand cmdVector vline last = .error cmdErrNoMatch ↔
      describeMatches last vline.length [] (describedSlots last vline.length left) = [] := by
  rw [h.describe_eq]
  split_ifs with hnil
  · exact iff_of_true rfl hnil
  · exact iff_of_false (by simp) hnil

theorem LeftAfter.describe_ok (h : LeftAfter cmdVector vline left)
    (hdescs : cmdDescribeCommand cmdVector vline none = .ok descs) :
    descs = describeMatches none vline.length [] left := by
  rw [h.describe_eq] at hdescs
  split_ifs at hdescs
  exact (Except.ok.inj hdescs).symm

/-- The next word is refused when no word listed takes it. -/
theorem LeftAfter.refused_iff (h : LeftAfter cmdVector vline left) (word : Str) :
    (∀ x ∈ left.reduceOption, x.takes .byCompletion word vline.length = false) ↔
      ∀ s ∈ describeMatches none vline.length [] left, descMatch .byCompletion word s = none := by
  constructor
  · intro hnone s hs
    obtain ⟨x, hx, hs | ⟨-, rfl⟩⟩ := (mem_describeMatches h.describable).mp hs
    · have hrefused := List.any_eq_false.mp (hnone x hx) s hs
      simpa using hrefused
    · exact descMatch_descCr word
  · intro hnone x hx
    apply List.any_eq_false.mpr
    intro s hs
    rw [hnone s ((mem_describeMatches h.describable).mpr ⟨x, hx, .inl hs⟩)]
    simp

/-- The end of the line is listed when a template is over. -/
theorem LeftAfter.descCr_mem (h : LeftAfter cmdVector vline left) :
    descCr ∈ describeMatches none vline.length [] left ↔
      ∃ x ∈ left.reduceOption, vline.length = x.strvec.length := by
  rw [mem_describeMatches h.describable]
  constructor
  · intro hmem
    obtain ⟨x, hx, hs | ⟨hend, -⟩⟩ := hmem
    · exact absurd rfl ((h.describable x hx).alternative hs).2.2.2
    · exact ⟨x, hx, hend⟩
  · intro hmem
    obtain ⟨x, hx, hend⟩ := hmem
    exact ⟨x, hx, .inr ⟨hend, rfl⟩⟩

/-- A line whose template is over is complete. -/
theorem LeftAfter.lookup_ne_incomplete (h : LeftAfter cmdVector vline left)
    (hx : e ∈ left.reduceOption) (hsize : e.cmdsize ≤ vline.length) :
    cmdLookup .byCompletion cmdVector vline ≠ .error cmdErrIncomplete := by
  have hmem : e ∈ left.reduceOption.filter
      fun e => false || decide (e.cmdsize ≤ vline.length) := by
    rw [List.mem_filter]
    exact ⟨hx, by simpa using hsize⟩
  intro hincomplete
  rw [cmdLookup, h.front] at hincomplete
  dsimp only at hincomplete
  split at hincomplete
  · next hnil =>
    rw [hnil] at hmem
    cases hmem
  · split at hincomplete
    · cases hincomplete
    · next code hbind =>
      rw [bindArgs_error hbind] at hincomplete
      cases hincomplete
    · cases hincomplete
  · cases hincomplete

/-- What `?` lists is what can be typed. It finds no command just when the executor finds none, and
the next word is refused just when no word listed takes it. The end of the line is listed for
complete lines only, and for all of those that do not leave out an optional word. -/
theorem described_typed (hdesc : ∀ e ∈ cmdVector, Describable e)
    (hinstalled : ∀ e ∈ cmdVector, IsInstalled e) (vline : List Str) :
    (cmdDescribeCommand cmdVector vline none = .error cmdErrNoMatch ↔
      cmdLookup .byCompletion cmdVector vline = .error cmdErrNoMatch) ∧
    (∀ word, cmdDescribeCommand cmdVector vline (some word) = .error cmdErrNoMatch ↔
      cmdLookup .byCompletion cmdVector (vline ++ [word]) = .error cmdErrNoMatch) ∧
    (∀ last rest, cmdDescribeCommand cmdVector vline last = .error cmdErrAmbiguous →
      cmdLookup .byCompletion cmdVector (vline ++ rest) = .error cmdErrAmbiguous) ∧
    ∀ descs, cmdDescribeCommand cmdVector vline none = .ok descs →
      (∀ word, cmdLookup .byCompletion cmdVector (vline ++ [word]) = .error cmdErrNoMatch ↔
        ∀ s ∈ descs, descMatch .byCompletion word s = none) ∧
      (descCr ∈ descs → cmdLookup .byCompletion cmdVector vline ≠ .error cmdErrIncomplete) ∧
      ∀ e argv, cmdLookup .byCompletion cmdVector vline = .run e argv → NoOption e →
        descCr ∈ descs := by
  rcases leftAfter_cases hdesc vline with ⟨hfront, -⟩ | ⟨left, hleft, -⟩
  · have hlookup : ∀ rest, cmdLookup .byCompletion cmdVector (vline ++ rest) =
        .error cmdErrAmbiguous := by
      intro rest
      rw [cmdLookup, filterWords_append_error rest (describable_slots hdesc) hfront]
    have hdescribe : ∀ last, cmdDescribeCommand cmdVector vline last =
        .error cmdErrAmbiguous := by
      intro last
      rw [cmdDescribeCommand, hfront]
    have hself := hlookup []
    rw [List.append_nil] at hself
    refine ⟨?_, fun word => ?_, fun last rest _ => hlookup rest, fun descs hdescs => ?_⟩
    · rw [hdescribe, hself]
      simp
    · rw [hdescribe, hlookup]
      simp
    · rw [hdescribe] at hdescs
      cases hdescs
  · refine ⟨?_, fun word => ?_, fun last rest hambiguous => ?_, fun descs hdescs => ?_⟩
    · rw [hleft.describe_noMatch, hleft.lookup_noMatch hdesc]
      exact describeMatches_blank_eq_nil hleft.describable hleft.length_le
    · rw [hleft.describe_noMatch, hleft.lookup_word_noMatch hdesc]
      exact describeMatches_word_eq_nil hleft.describable
    · rw [hleft.describe_eq] at hambiguous
      split_ifs at hambiguous
      cases hambiguous
    · obtain rfl := hleft.describe_ok hdescs
      refine ⟨fun word => ?_, fun hcr => ?_, fun e argv hrun hoption => ?_⟩
      · rw [hleft.lookup_word_noMatch hdesc, hleft.refused_iff]
      · obtain ⟨x, hx, hend⟩ := hleft.descCr_mem.mp hcr
        apply hleft.lookup_ne_incomplete hx
        rw [(hinstalled x (hleft.mem x hx)).cmdsize_eq, hend]
        exact cmdCmdsize_le x.strvec
      · obtain ⟨left', j', vararg', hfront', hone⟩ := cmdLookup_left hrun
        rw [hleft.front] at hfront'
        obtain ⟨rfl, rfl, rfl⟩ : left = left' ∧ vline.length = j' ∧ false = vararg' := by
          simpa using hfront'
        obtain ⟨hx, -⟩ := mem_of_filter_eq_singleton hone
        have hsize := (hinstalled e (hleft.mem e hx)).cmdsize_eq
        rw [cmdCmdsize_of_no_option hoption] at hsize
        have hrange := length_of_run (fun e he => (hdesc e he).noVararg) hrun
        exact hleft.descCr_mem.mpr ⟨e, hx, by omega⟩

/-- Behind `ping 1.1.1.1` the line may end, or a count follows. -/
theorem described_typed_ping :
    cmdLookup .byCompletion (cmdNodeVector .view) [str "ping", str "1.1.1.1"] ≠
        .error cmdErrIncomplete ∧
      ∀ word, cmdLookup .byCompletion (cmdNodeVector .view)
          ([str "ping", str "1.1.1.1"] ++ [word]) = .error cmdErrNoMatch ↔
        ∀ s ∈ [descCr, str "NUM"], descMatch .byCompletion word s = none := by
  have hlisted : cmdDescribeCommand (cmdNodeVector .view) [str "ping", str "1.1.1.1"] none =
      .ok [descCr, str "NUM"] := by decide +kernel
  obtain ⟨hnext, hend, -⟩ := (described_typed (describable_of_mem_cmdNodeVector .view)
    (fun _ he => isInstalled_of_mem_cmdNodeVector he) [str "ping", str "1.1.1.1"]).2.2.2 _ hlisted
  exact ⟨hend List.mem_cons_self, hnext⟩

end

end QrWireguard.Vtysh
