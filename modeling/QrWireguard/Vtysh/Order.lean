import QrWireguard.Vtysh.Lenient

/-!
# The order of a command vector

A lookup does not depend on the order of the slots, on empty slots between them, or on the order
of the words inside a position. Two vectors correspond when their commands can be paired up; one
round of the loop over the words keeps the pairing.
-/

namespace QrWireguard.Vtysh

variable {F : Type}

/-! ## Vectors in another order -/

/-- The same command, with the words inside each position in another order. -/
structure Rearranged (e e' : CmdElement F) : Prop where
  string : e.string = e'.string
  func : e.func = e'.func
  cmdsize : e.cmdsize = e'.cmdsize
  strvec : List.Forall₂ List.Perm e.strvec e'.strvec

/-- The commands of the two vectors can be paired up. Where the slots are, and which are empty,
does not matter. -/
def Reordered (v v' : List (Option (CmdElement F))) : Prop :=
  ∃ pairs : List (CmdElement F × CmdElement F), (∀ p ∈ pairs, Rearranged p.1 p.2) ∧
    (pairs.map Prod.fst).Perm v.reduceOption ∧ (pairs.map Prod.snd).Perm v'.reduceOption

/-- The same status, or the same command with the same arguments. -/
inductive SameLookup : Lookup F → Lookup F → Prop
  | error (code : Int) : SameLookup (.error code) (.error code)
  | run {e e' : CmdElement F} (h : Rearranged e e') (argv : List Str) :
      SameLookup (.run e argv) (.run e' argv)
  | undefined : SameLookup .undefined .undefined

/-- `cmdLookup` on a vector that may have empty slots. -/
def cmdLookupSlots (filter : Filter) (cmdVector : List (Option (CmdElement F)))
    (vline : List Str) : Lookup F :=
  match filterWords filter 0 cmdVector vline with
  | .error code => .error code
  | .ok (v, index, vararg) =>
    let left := v.reduceOption
    match left.filter (fun e => vararg || decide (e.cmdsize ≤ index)) with
    | [] => if left.isEmpty then .error cmdErrNoMatch else .error cmdErrIncomplete
    | [e] =>
      match bindArgs e.strvec false [] vline with
      | none => .undefined
      | some (.error code) => .error code
      | some (.ok argv) => .run e argv
    | _ => .error cmdErrAmbiguous

theorem cmdLookup_eq_slots (filter : Filter) (cmdVector : List (CmdElement F))
    (vline : List Str) :
    cmdLookup filter cmdVector vline = cmdLookupSlots filter (cmdVector.map some) vline := rfl

section
variable {filter : Filter} {word : Str} {index : Nat} {type : MatchType} {e e' : CmdElement F}
  {v v' : List (Option (CmdElement F))}

/-! ## One position -/

namespace Rearranged

theorem alternatives (h : Rearranged e e') (index : Nat) :
    (e.alternatives index).Perm (e'.alternatives index) := by
  have hall : ∀ {l l' : List (List Str)}, List.Forall₂ List.Perm l l' →
      ∀ i, (l.getD i []).Perm (l'.getD i []) := by
    intro l l' hl
    induction hl with
    | nil =>
      intro i
      exact List.Perm.refl _
    | cons hd _ ih =>
      intro i
      cases i with
      | zero => exact hd
      | succ i => exact ih i
  exact hall h.strvec index

theorem takes (h : Rearranged e e') (filter : Filter) (word : Str) (index : Nat) :
    e.takes filter word index = e'.takes filter word index :=
  any_congr_of_subset (h.alternatives index).subset (h.alternatives index).symm.subset

theorem counts (h : Rearranged e e') (word : Str) (index : Nat) (type : MatchType) :
    e.counts word index type = e'.counts word index type :=
  any_congr_of_subset (h.alternatives index).subset (h.alternatives index).symm.subset

/-- The arguments do not depend on the order inside the positions either. -/
theorem bindArgs (h : Rearranged e e') (vline : List Str) :
    bindArgs e.strvec false [] vline = bindArgs e'.strvec false [] vline := by
  have hall : ∀ {l l' : List (List Str)}, List.Forall₂ List.Perm l l' →
      ∀ varflag argv, Vtysh.bindArgs l varflag argv vline = Vtysh.bindArgs l' varflag argv vline := by
    induction vline with
    | nil =>
      intro l l' _ varflag argv
      rfl
    | cons word vline ih =>
      intro l l' hl varflag argv
      cases hl with
      | nil => rfl
      | @cons descvec descvec' strvec strvec' hd hrest =>
        -- the next round does not tell the rest apart
        have hnext : ∀ varflag argv,
            Vtysh.bindArgs strvec varflag argv vline = Vtysh.bindArgs strvec' varflag argv vline :=
          ih hrest
        have hlen := hd.length_eq
        match descvec, descvec', hd, hlen with
        | [], [], _, _ => simp only [Vtysh.bindArgs, List.tail_cons, hnext]
        | [s], [s'], hd, _ =>
          obtain rfl : s = s' := by simpa using hd
          simp only [Vtysh.bindArgs, List.tail_cons, hnext]
        | _ :: _ :: _, _ :: _ :: _, _, _ => simp only [Vtysh.bindArgs, List.tail_cons, hnext]
  exact hall h.strvec false []

end Rearranged

theorem MatchType.raise_right_comm (a b c : MatchType) :
    (a.raise b).raise c = (a.raise c).raise b := by
  cases a <;> cases b <;> cases c <;> rfl

instance : RightCommutative MatchType.raise := ⟨MatchType.raise_right_comm⟩

namespace Reordered

theorem alternatives (h : Reordered v v') (index : Nat) :
    (v.reduceOption.flatMap fun e => e.alternatives index).Perm
      (v'.reduceOption.flatMap fun e => e.alternatives index) := by
  obtain ⟨pairs, hpairs, hleft, hright⟩ := h
  have hmid : ((pairs.map Prod.fst).flatMap fun e => e.alternatives index).Perm
      ((pairs.map Prod.snd).flatMap fun e => e.alternatives index) := by
    rw [List.flatMap_map, List.flatMap_map]
    exact List.Perm.flatMap_left pairs fun p hp => (hpairs p hp).alternatives index
  exact ((hleft.flatMap_right _).symm.trans hmid).trans (hright.flatMap_right _)

/-- The best match type is a maximum over all alternatives. -/
theorem bestMatch (h : Reordered v v') (filter : Filter) (word : Str) (index : Nat) :
    Vtysh.bestMatch filter word index v = Vtysh.bestMatch filter word index v' := by
  rw [bestMatch_eq, bestMatch_eq]
  exact ((h.alternatives index).filterMap _).foldl_eq _

/-- Emptying slots by a test that does not see the order keeps the pairing. -/
theorem emptied {p : CmdElement F → Bool} (h : Reordered v v')
    (hp : ∀ {e e' : CmdElement F}, Rearranged e e' → p e = p e') :
    Reordered (v.map (Option.filter p)) (v'.map (Option.filter p)) := by
  obtain ⟨pairs, hpairs, hleft, hright⟩ := h
  refine ⟨pairs.filter fun q => p q.1, fun q hq => hpairs q (List.mem_of_mem_filter hq), ?_, ?_⟩
  · rw [reduceOption_map_filter]
    have hkept := hleft.filter p
    rwa [List.filter_map] at hkept
  · have hsnd : (pairs.filter fun q => p q.1) = pairs.filter fun q => p q.2 :=
      List.filter_congr fun q hq => hp (hpairs q hq)
    rw [hsnd, reduceOption_map_filter]
    have hkept := hright.filter p
    rwa [List.filter_map] at hkept

/-- The commands of the two vectors by their number. -/
theorem commands (h : Reordered v v') :
    (v.reduceOption = [] ∧ v'.reduceOption = []) ∨
    (∃ e e', Rearranged e e' ∧ v.reduceOption = [e] ∧ v'.reduceOption = [e']) ∨
    ∃ a b l a' b' l', v.reduceOption = a :: b :: l ∧ v'.reduceOption = a' :: b' :: l' := by
  obtain ⟨pairs, hpairs, hleft, hright⟩ := h
  match pairs, hpairs with
  | [], _ => exact .inl ⟨hleft.symm.eq_nil, hright.symm.eq_nil⟩
  | [p], hpairs =>
    exact .inr (.inl ⟨p.1, p.2, hpairs p (List.mem_singleton_self p), hleft.symm.eq_singleton,
      hright.symm.eq_singleton⟩)
  | _ :: _ :: _, _ =>
    refine .inr (.inr ?_)
    have hlen := hleft.length_eq
    have hlen' := hright.length_eq
    match v.reduceOption, v'.reduceOption, hlen, hlen' with
    | a :: b :: l, a' :: b' :: l', _, _ => exact ⟨a, b, l, a', b', l', rfl, rfl⟩

end Reordered

/-! ## The ambiguity check -/

/-- What the check returns early with depends on the match type only: it is 2 for a beginning of
an address with a mask, and 1 for two names. -/
theorem ambiguousDescvec_error {matched : Option Str} {counted : Bool} {descvec : List Str}
    {ret : Nat} (h : ambiguousDescvec word type matched counted descvec = .error ret) :
    ret = if type = .ipv4PrefixMatch then 2 else 1 := by
  induction descvec generalizing matched counted with
  | nil => cases h
  | cons s descvec ih =>
    unfold ambiguousDescvec at h
    cases hv : ambiguousVote word type s with
    | skip =>
      rw [hv] at h
      exact ih h
    | count =>
      rw [hv] at h
      exact ih h
    | name =>
      rw [hv] at h
      dsimp only at h
      split at h
      · have htype : type ≠ .ipv4PrefixMatch := by
          rintro rfl
          unfold ambiguousVote at hv
          dsimp only at hv
          split at hv <;> cases hv
        rw [if_neg htype]
        exact (Except.error.inj h).symm
      · exact ih h
    | incomplete =>
      rw [hv] at h
      have htype : type = .ipv4PrefixMatch := by
        unfold ambiguousVote at hv
        cases type with
        | ipv4PrefixMatch => rfl
        | noMatch | varargMatch | ipv6PrefixMatch => cases hv
        | extendMatch | ipv4Match | ipv6Match | rangeMatch | partlyMatch | exactMatch =>
          dsimp only at hv
          split at hv <;> cases hv
      rw [if_pos htype]
      exact (Except.error.inj h).symm

theorem isCmdAmbiguous_error {matched : Option Str} {ret : Nat}
    (h : isCmdAmbiguous word index type matched v = .error ret) :
    ret = if type = .ipv4PrefixMatch then 2 else 1 := by
  have hmap : ∀ {x : Except Nat (List (Option (CmdElement F)))} {slot : Option (CmdElement F)},
      x.map (slot :: ·) = .error ret → x = .error ret := by
    intro x slot hx
    cases x with
    | error err => exact hx
    | ok a => cases hx
  induction v generalizing matched with
  | nil => cases h
  | cons slot v ih =>
    cases slot with
    | none => exact ih (hmap h)
    | some d =>
      rw [isCmdAmbiguous] at h
      split at h
      · next hd =>
        obtain rfl := Except.error.inj h
        exact ambiguousDescvec_error hd
      · exact ih (hmap h)

/-- The check gives the same answer in both orders, and leaves the same commands. -/
theorem Reordered.isCmdAmbiguous (h : Reordered v v') (word : Str) (index : Nat)
    (type : MatchType) :
    (∃ ret, Vtysh.isCmdAmbiguous word index type none v = .error ret ∧
      Vtysh.isCmdAmbiguous word index type none v' = .error ret) ∨
    ∃ left left', Vtysh.isCmdAmbiguous word index type none v = .ok left ∧
      Vtysh.isCmdAmbiguous word index type none v' = .ok left' ∧ Reordered left left' := by
  have hclear : (∃ left, Vtysh.isCmdAmbiguous word index type none v = .ok left) ↔
      ∃ left, Vtysh.isCmdAmbiguous word index type none v' = .ok left := by
    rw [isCmdAmbiguous_isOk, isCmdAmbiguous_isOk]
    have hperm := h.alternatives index
    constructor
    · intro hc
      exact hc.mono hperm.symm.subset
    · intro hc
      exact hc.mono hperm.subset
  cases hv : Vtysh.isCmdAmbiguous word index type none v with
  | error ret =>
    cases hv' : Vtysh.isCmdAmbiguous word index type none v' with
    | error ret' =>
      refine .inl ⟨ret, rfl, ?_⟩
      rw [isCmdAmbiguous_error hv, isCmdAmbiguous_error hv']
    | ok left' =>
      obtain ⟨left, hleft⟩ := hclear.mpr ⟨left', hv'⟩
      rw [hv] at hleft
      cases hleft
  | ok left =>
    obtain ⟨left', hleft'⟩ := hclear.mp ⟨left, hv⟩
    refine .inr ⟨left, left', rfl, hleft', ?_⟩
    rw [isCmdAmbiguous_ok hv, isCmdAmbiguous_ok hleft']
    exact h.emptied fun he => he.counts word index type

/-! ## The loop over the words -/

/-- The loop ends in the same way in both orders, and leaves the same commands. -/
theorem Reordered.filterWords (h : Reordered v v') (filter : Filter) (vline : List Str) :
    ∀ index, (∃ code, Vtysh.filterWords filter index v vline = .error code ∧
      Vtysh.filterWords filter index v' vline = .error code) ∨
    ∃ left left' i vararg, Vtysh.filterWords filter index v vline = .ok (left, i, vararg) ∧
      Vtysh.filterWords filter index v' vline = .ok (left', i, vararg) ∧ Reordered left left' := by
  induction vline generalizing v v' with
  | nil =>
    intro index
    exact .inr ⟨v, v', index, false, rfl, rfl, h⟩
  | cons word vline ih =>
    intro index
    have htaken := h.emptied fun he => he.takes filter word index
    rw [filterWords_cons, filterWords_cons, ← h.bestMatch]
    by_cases hbest : Vtysh.bestMatch filter word index v = .varargMatch
    · rw [if_pos hbest, if_pos hbest]
      exact .inr ⟨_, _, index, true, rfl, rfl, htaken⟩
    · rw [if_neg hbest, if_neg hbest]
      obtain ⟨ret, hv, hv'⟩ | ⟨left, left', hv, hv', hleft⟩ :=
        htaken.isCmdAmbiguous word index (Vtysh.bestMatch filter word index v)
      · rw [hv, hv']
        exact .inl ⟨_, rfl, rfl⟩
      · rw [hv, hv']
        exact ih hleft (index + 1)

/-- A lookup does not depend on the order of the vector. -/
theorem Reordered.cmdLookupSlots (h : Reordered v v') (filter : Filter) (vline : List Str) :
    SameLookup (Vtysh.cmdLookupSlots filter v vline) (Vtysh.cmdLookupSlots filter v' vline) := by
  unfold Vtysh.cmdLookupSlots
  obtain ⟨code, hv, hv'⟩ | ⟨left, left', i, vararg, hv, hv', hleft⟩ := h.filterWords filter vline 0
  · rw [hv, hv']
    exact .error code
  · rw [hv, hv']
    dsimp only
    have hempty : left.reduceOption.isEmpty = left'.reduceOption.isEmpty := by
      obtain ⟨h, h'⟩ | ⟨e, e', -, h, h'⟩ | ⟨a, b, l, a', b', l', h, h'⟩ := hleft.commands <;>
        rw [h, h'] <;> rfl
    have hcomplete := (hleft.emptied (p := fun e => vararg || decide (e.cmdsize ≤ i))
      fun he => by rw [he.cmdsize]).commands
    rw [reduceOption_map_filter, reduceOption_map_filter] at hcomplete
    obtain ⟨h, h'⟩ | ⟨e, e', he, h, h'⟩ | ⟨a, b, l, a', b', l', h, h'⟩ := hcomplete
    · rw [h, h', hempty]
      dsimp only
      split
      · exact .error _
      · exact .error _
    · rw [h, h']
      dsimp only
      rw [← he.bindArgs vline]
      split
      · exact .undefined
      · exact .error _
      · exact .run he _
    · rw [h, h']
      exact .error _

end

/-! ## Sorting and installing -/

theorem Rearranged.refl (e : CmdElement F) : Rearranged e e where
  string := rfl
  func := rfl
  cmdsize := rfl
  strvec := List.forall₂_same.mpr fun descvec _ => List.Perm.refl descvec

/-- A permutation, and then another order inside the positions. -/
theorem reordered_of_perm {l l' : List (CmdElement F)} {v v' : List (Option (CmdElement F))}
    (hv : v.reduceOption.Perm l) (hl : List.Forall₂ Rearranged l l')
    (hv' : l'.Perm v'.reduceOption) : Reordered v v' := by
  refine ⟨l.zip l', fun p hp => (List.forall₂_iff_zip.mp hl).2 hp, ?_, ?_⟩
  · rw [List.map_fst_zip hl.length_eq.le]
    exact hv.symm
  · rw [List.map_snd_zip hl.length_eq.ge]
    exact hv'

theorem reduceOption_map_some (l : List (CmdElement F)) : (l.map some).reduceOption = l := by
  simp [List.reduceOption]

theorem sortLast_perm (strvec : List (List Str)) :
    List.Forall₂ List.Perm strvec (sortLast strvec) := by
  unfold sortLast
  cases hlast : strvec.getLast? with
  | none =>
    rw [List.getLast?_eq_none_iff.mp hlast]
    exact .nil
  | some last =>
    obtain ⟨init, rfl⟩ := List.getLast?_eq_some_iff.mp hlast
    rw [List.dropLast_concat]
    have hinit : List.Forall₂ List.Perm init init :=
      List.forall₂_same.mpr fun descvec _ => List.Perm.refl descvec
    exact List.rel_append hinit (.cons (List.perm_insertionSort _ _).symm .nil)

/-- Sorting a node permutes its commands and the words of their last positions. -/
theorem reordered_cmdSortNode (cmdVector : List (CmdElement F)) :
    Reordered (cmdVector.map some) ((cmdSortNode cmdVector).map some) := by
  have hsorted : List.Forall₂ Rearranged
      (cmdVector.insertionSort fun a b => a.string ≤ b.string) (cmdSortNode cmdVector) := by
    refine List.forall₂_map_right_iff.mpr (List.forall₂_same.mpr fun e _ => ?_)
    exact ⟨rfl, rfl, rfl, sortLast_perm e.strvec⟩
  refine reordered_of_perm ?_ hsorted ?_
  · rw [reduceOption_map_some]
    exact (List.perm_insertionSort _ _).symm
  · rw [reduceOption_map_some]

/-- Sorted nodes with the same commands are permutations of each other. -/
theorem cmdSortNode_perm {l l' : List (CmdElement F)} (h : l.Perm l') :
    (cmdSortNode l).Perm (cmdSortNode l') := by
  have hsorted := ((List.perm_insertionSort (fun a b => a.string ≤ b.string) l).trans h).trans
    (List.perm_insertionSort (fun a b => a.string ≤ b.string) l').symm
  exact hsorted.map _

theorem Reordered.symm {v v' : List (Option (CmdElement F))} (h : Reordered v v') :
    Reordered v' v := by
  obtain ⟨pairs, hpairs, hleft, hright⟩ := h
  refine ⟨pairs.map Prod.swap, ?_, ?_, ?_⟩
  · intro p hp
    obtain ⟨q, hq, rfl⟩ := List.mem_map.mp hp
    have hpair := hpairs q hq
    exact ⟨hpair.string.symm, hpair.func.symm, hpair.cmdsize.symm,
      List.Forall₂.flip (hpair.strvec.imp fun _ _ hperm => hperm.symm)⟩
  · rw [List.map_map]
    exact hright
  · rw [List.map_map]
    exact hleft

/-- What a line stands for does not depend on the order of the commands of a node, of the words
inside their positions or of empty slots between them. So neither `cmd_sort_node` nor the order in
which the commands are installed matters. -/
theorem sameLookup_of_reordered (F : Type) (filter : Filter) (vline : List Str) :
    (∀ v v' : List (Option (CmdElement F)), Reordered v v' →
      SameLookup (cmdLookupSlots filter v vline) (cmdLookupSlots filter v' vline)) ∧
    (∀ cmdVector : List (CmdElement F),
      SameLookup (cmdLookup filter (cmdSortNode cmdVector) vline)
        (cmdLookup filter cmdVector vline)) ∧
    ∀ (node : Node) (defuns : List Defun), defuns.Perm (cmdParseInit node) →
      SameLookup
        (cmdLookup filter
          (cmdSortNode (defuns.filterMap fun d => cmdInstallElement d.string d.func)) vline)
        (cmdLookup filter (cmdNodeVector node) vline) := by
  refine ⟨fun v v' h => h.cmdLookupSlots filter vline, fun cmdVector =>
    (reordered_cmdSortNode cmdVector).symm.cmdLookupSlots filter vline,
    fun node defuns hperm => ?_⟩
  have hsame : List.Forall₂ Rearranged (cmdNodeVector node) (cmdNodeVector node) :=
    List.forall₂_same.mpr fun e _ => .refl e
  refine (reordered_of_perm ?_ hsame ?_).cmdLookupSlots filter vline
  · rw [reduceOption_map_some]
    exact cmdSortNode_perm (hperm.filterMap _)
  · rw [reduceOption_map_some]

/-- Two commands, in both orders. -/
theorem sameLookup_of_reordered_show :
    SameLookup (F := Nat)
      (cmdLookupSlots .byCompletion
        [some ⟨str "show (wg|ip)", 0, [[str "show"], [str "wg", str "ip"]], 2⟩,
          some ⟨str "list", 1, [[str "list"]], 1⟩] [str "sh", str "wg"])
      (cmdLookupSlots .byCompletion
        [none, some ⟨str "list", 1, [[str "list"]], 1⟩,
          some ⟨str "show (wg|ip)", 0, [[str "show"], [str "ip", str "wg"]], 2⟩]
        [str "sh", str "wg"]) :=
  (sameLookup_of_reordered Nat .byCompletion [str "sh", str "wg"]).1 _ _
    ⟨[(⟨str "show (wg|ip)", 0, [[str "show"], [str "wg", str "ip"]], 2⟩,
        ⟨str "show (wg|ip)", 0, [[str "show"], [str "ip", str "wg"]], 2⟩),
      (⟨str "list", 1, [[str "list"]], 1⟩, ⟨str "list", 1, [[str "list"]], 1⟩)],
      by
        intro p hp
        simp only [List.mem_cons, List.not_mem_nil, or_false] at hp
        rcases hp with rfl | rfl
        · exact ⟨rfl, rfl, rfl, .cons (.refl _) (.cons (.swap _ _ _) .nil)⟩
        · exact .refl _,
      .refl _, .swap _ _ _⟩

end QrWireguard.Vtysh
