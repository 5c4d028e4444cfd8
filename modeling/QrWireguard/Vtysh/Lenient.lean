import QrWireguard.Vtysh.Slots

/-!
# The lenient matcher against the strict one

`cmd_execute_command` takes every word that `cmd_execute_command_strict` takes, and takes it in
the same way. It also takes beginnings of keywords and of addresses, and a keyword begun counts
more than any variable, so that another command may come in front. The two dispatch a line alike
when at no position another command does.
-/

namespace QrWireguard.Vtysh

variable {F : Type}

/-! ## One position -/

/-- Does a command that takes the word stay in the running? At a variable argument all do. -/
def Counted (word : Str) (index : Nat) (type : MatchType) (x : CmdElement F) : Prop :=
  type = .varargMatch ∨ x.counts word index type = true

/-- No command gets in the way of `e` at a position, where the strict and the lenient matcher have
left these slots. Either the best match type is the same for both, and nothing counts that takes
the word only leniently, or a higher one is reached, but only by commands with the alternatives
of `e`, and these leave no doubt about the word. -/
@[mk_iff] inductive Unrivalled (e : CmdElement F) (word : Str) (index : Nat)
    (strict lenient : List (Option (CmdElement F))) : Prop
  | same
      (hbest : bestMatch .byCompletion word index lenient = bestMatch .byString word index strict)
      (honly : ∀ x ∈ lenient.reduceOption, x.takes .byCompletion word index = true →
        x.takes .byString word index = false →
        ¬ Counted word index (bestMatch .byString word index strict) x)
  | own
      (hhigher : (bestMatch .byString word index strict).rank <
        (bestMatch .byCompletion word index lenient).rank)
      (hvararg : bestMatch .byString word index strict ≠ .varargMatch)
      (hothers : ∀ x ∈ lenient.reduceOption,
        x.counts word index (bestMatch .byCompletion word index lenient) = true →
        x.alternatives index ⊆ e.alternatives index ∧ e.alternatives index ⊆ x.alternatives index)
      (hclear : isCmdAmbiguous word index (bestMatch .byCompletion word index lenient) none
        [some e] = .ok [some e])

/-- The lenient matcher has `e` left, and nothing that the strict one has not. -/
structure Keeps (e : CmdElement F) (strict lenient : List (Option (CmdElement F))) : Prop where
  mem : e ∈ lenient.reduceOption
  sublist : lenient.reduceOption.Sublist strict.reduceOption

section
variable {word s : Str} {index : Nat} {type m : MatchType} {e x : CmdElement F}
  {v v' strict strict' lenient : List (Option (CmdElement F))}

theorem imp_ite {α : Type} {c : Prop} [Decidable c] {a b a' b' r : α} (ha : a = r → a' = r)
    (hb : b = r → b' = r) (h : (if c then a else b) = r) : (if c then a' else b') = r := by
  split
  · next hc => exact ha (by rwa [if_pos hc] at h)
  · next hc => exact hb (by rwa [if_neg hc] at h)

/-- What is taken strictly is taken leniently in the same way. -/
theorem descMatch_lenient (h : descMatch .byString word s = some m) :
    descMatch .byCompletion word s = some m := by
  have htakes : ∀ n n' : MatchType,
      (if Filter.takes .byString n then some n' else none) = some m →
        (if Filter.takes .byCompletion n then some n' else none) = some m := by
    intro n n' htaken
    split at htaken
    · next hexact =>
      have hn : n = .exactMatch := by simpa [Filter.takes] using hexact
      rw [hn]
      exact htaken
    · cases htaken
  rw [descMatch.eq_def] at h ⊢
  refine imp_ite id (imp_ite id (imp_ite (htakes _ _) (imp_ite id (imp_ite (htakes _ _)
    (imp_ite (htakes _ _) (imp_ite id fun hword => ?_)))))) h
  dsimp only at hword ⊢
  split at hword
  · next heq => simpa [heq] using hword
  · cases hword

theorem takes_lenient (h : x.takes .byString word index = true) :
    x.takes .byCompletion word index = true := by
  obtain ⟨s, hs, htaken⟩ := List.any_eq_true.mp h
  obtain ⟨m, hm⟩ := Option.isSome_iff_exists.mp htaken
  exact List.any_eq_true.mpr ⟨s, hs, by rw [descMatch_lenient hm]; rfl⟩

theorem any_congr_of_subset {α : Type} {p : α → Bool} {l l' : List α} (h : l ⊆ l') (h' : l' ⊆ l) :
    l.any p = l'.any p := by
  rw [Bool.eq_iff_iff, List.any_eq_true, List.any_eq_true]
  exact ⟨fun ⟨a, ha, hp⟩ => ⟨a, h ha, hp⟩, fun ⟨a, ha, hp⟩ => ⟨a, h' ha, hp⟩⟩

theorem filter_sublist_filter {α : Type} {p q : α → Bool} {l l' : List α} (hsub : l.Sublist l')
    (hpq : ∀ x ∈ l, p x = true → q x = true) : (l.filter p).Sublist (l'.filter q) := by
  have hself : (l.filter p).filter q = l.filter p :=
    List.filter_eq_self.mpr fun x hx => hpq x (List.mem_filter.mp hx).1 (List.mem_filter.mp hx).2
  rw [← hself]
  exact (List.filter_sublist.trans hsub).filter q

theorem counts_of_alone (h : isCmdAmbiguous word index type none [some e] = .ok [some e]) :
    e.counts word index type = true := by
  have hleft := isCmdAmbiguous_ok h
  simpa [Option.filter_some] using hleft

/-- Where the lenient check leaves nothing but what the strict one leaves, and `e`, it goes on
keeping `e`. -/
theorem Keeps.left {type' : MatchType} (h : Keeps e strict lenient)
    (hstrict : isCmdAmbiguous word index type none
      (strict.map (Option.filter (CmdElement.takes .byString word index))) = .ok strict')
    (he : e ∈ leftOf .byCompletion word index type' lenient)
    (hclear : Clear word type' none
      ((leftOf .byCompletion word index type' lenient).flatMap fun x => x.alternatives index))
    (hsub : ∀ x ∈ leftOf .byCompletion word index type' lenient,
      x.counts word index type = true ∧ x.takes .byString word index = true) :
    ∃ lenient', isCmdAmbiguous word index type' none
        (lenient.map (Option.filter (CmdElement.takes .byCompletion word index))) = .ok lenient' ∧
      Keeps e strict' lenient' := by
  obtain ⟨lenient', hlenient⟩ := isOk_iff_clear_left.mpr hclear
  refine ⟨lenient', hlenient, ?_, ?_⟩
  · rwa [reduceOption_left hlenient]
  · rw [reduceOption_left hlenient, reduceOption_left hstrict]
    refine filter_sublist_filter h.sublist fun x hx hp => ?_
    rw [Bool.and_eq_true] at hp ⊢
    exact hsub x (mem_leftOf.mpr ⟨hx, hp⟩)

/-- One position, where the strict matcher leaves `e`. -/
theorem Keeps.step (h : Keeps e strict lenient) (hrival : Unrivalled e word index strict lenient)
    (hvararg : bestMatch .byString word index strict ≠ .varargMatch)
    (hstrict : isCmdAmbiguous word index (bestMatch .byString word index strict) none
      (strict.map (Option.filter (CmdElement.takes .byString word index))) = .ok strict')
    (he : e ∈ strict'.reduceOption) :
    bestMatch .byCompletion word index lenient ≠ .varargMatch ∧ ∃ lenient',
      isCmdAmbiguous word index (bestMatch .byCompletion word index lenient) none
        (lenient.map (Option.filter (CmdElement.takes .byCompletion word index))) = .ok lenient' ∧
      Keeps e strict' lenient' := by
  rw [reduceOption_left hstrict, mem_leftOf] at he
  obtain ⟨-, hecounts, hetakes⟩ := he
  cases hrival with
  | same hbest honly =>
    rw [hbest]
    have hsub : ∀ x ∈ leftOf .byCompletion word index
        (bestMatch .byString word index strict) lenient,
        x.counts word index (bestMatch .byString word index strict) = true ∧
          x.takes .byString word index = true := by
      intro x hx
      obtain ⟨hmem, hcounts, htakes⟩ := mem_leftOf.mp hx
      refine ⟨hcounts, by_contra fun hnot => ?_⟩
      exact honly x hmem htakes (by simpa using hnot) (.inr hcounts)
    refine ⟨hvararg, h.left hstrict ?_ ?_ hsub⟩
    · exact mem_leftOf.mpr ⟨h.mem, hecounts, takes_lenient hetakes⟩
    · refine (isOk_iff_clear_left.mp ⟨_, hstrict⟩).mono fun s hs => ?_
      obtain ⟨x, hx, hs⟩ := List.mem_flatMap.mp hs
      have hmem := h.sublist.subset (mem_leftOf.mp hx).1
      exact List.mem_flatMap.mpr ⟨x, mem_leftOf.mpr ⟨hmem, hsub x hx⟩, hs⟩
  | own hhigher hno hothers hclear =>
    have hcounts := counts_of_alone hclear
    have hnotVararg : bestMatch .byCompletion word index lenient ≠ .varargMatch := by
      intro heq
      rw [heq] at hcounts
      simp [CmdElement.counts, ambiguousVote, Vote.counts] at hcounts
    refine ⟨hnotVararg, h.left hstrict ?_ ?_ fun x hx => ?_⟩
    · exact mem_leftOf.mpr ⟨h.mem, hcounts, takes_lenient hetakes⟩
    · refine (isCmdAmbiguous_isOk.mp ⟨_, hclear⟩).mono fun s hs => ?_
      obtain ⟨x, hx, hs⟩ := List.mem_flatMap.mp hs
      obtain ⟨hmem, hxcounts, -⟩ := mem_leftOf.mp hx
      simpa using (hothers x hmem hxcounts).1 hs
    · obtain ⟨hmem, hxcounts, -⟩ := mem_leftOf.mp hx
      obtain ⟨hsub, hsub'⟩ := hothers x hmem hxcounts
      constructor
      · rw [← hecounts]
        exact any_congr_of_subset hsub hsub'
      · rw [← hetakes]
        exact any_congr_of_subset hsub hsub'

/-- A position with a variable argument, where all that take the word are left. -/
theorem Keeps.stepVararg (h : Keeps e strict lenient)
    (hrival : Unrivalled e word index strict lenient)
    (hvararg : bestMatch .byString word index strict = .varargMatch)
    (he : e ∈ strict.reduceOption.filter (CmdElement.takes .byString word index)) :
    bestMatch .byCompletion word index lenient = .varargMatch ∧
      Keeps e (strict.map (Option.filter (CmdElement.takes .byString word index)))
        (lenient.map (Option.filter (CmdElement.takes .byCompletion word index))) := by
  cases hrival with
  | same hbest honly =>
    refine ⟨hbest.trans hvararg, ?_, ?_⟩
    · rw [reduceOption_map_filter, List.mem_filter]
      exact ⟨h.mem, takes_lenient (List.mem_filter.mp he).2⟩
    · rw [reduceOption_map_filter, reduceOption_map_filter]
      refine filter_sublist_filter h.sublist fun x hx htakes => by_contra fun hnot => ?_
      exact honly x hx htakes (by simpa using hnot) (.inl hvararg)
  | own hhigher hno hothers hclear => exact absurd hvararg hno

end

/-! ## Whole lines -/

/-- The slots left by the first `i` words of a line, none of which was a variable argument. -/
def leftAfter (filter : Filter) (v : List (CmdElement F)) (vline : List Str) (i : Nat) :
    Option (List (Option (CmdElement F))) :=
  match filterWords filter 0 (v.map some) (vline.take i) with
  | .ok (left, _, false) => some left
  | _ => none

/-- At no position that both matchers reach does a command get in the way of `e`. -/
def Unshadowed (e : CmdElement F) (v : List (CmdElement F)) (vline : List Str) : Prop :=
  ∀ i < vline.length, ∀ strict ∈ leftAfter .byString v vline i,
    ∀ lenient ∈ leftAfter .byCompletion v vline i,
      Unrivalled e (vline.getD i []) i strict lenient

section
variable {index j : Nat} {vararg : Bool} {e : CmdElement F} {vline argv : List Str}
  {v : List (CmdElement F)} {strict strict' lenient : List (Option (CmdElement F))}

/-- The loop over the words: what the strict matcher has left at the end, the lenient one keeps
`e` of. -/
theorem Keeps.run (h : Keeps e strict lenient)
    (hrival : ∀ i < vline.length, ∀ left j left' j',
      filterWords .byString index strict (vline.take i) = .ok (left, j, false) →
      filterWords .byCompletion index lenient (vline.take i) = .ok (left', j', false) →
      Unrivalled e (vline.getD i []) (index + i) left left')
    (hrun : filterWords .byString index strict vline = .ok (strict', j, vararg))
    (he : e ∈ strict'.reduceOption) :
    ∃ lenient', filterWords .byCompletion index lenient vline = .ok (lenient', j, vararg) ∧
      Keeps e strict' lenient' := by
  induction vline generalizing index strict lenient with
  | nil =>
    cases hrun
    exact ⟨lenient, rfl, h⟩
  | cons word vline ih =>
    have hhead : Unrivalled e word index strict lenient :=
      hrival 0 (by simp) strict index lenient index rfl rfl
    rw [filterWords_cons] at hrun
    by_cases hvararg : bestMatch .byString word index strict = .varargMatch
    · rw [if_pos hvararg] at hrun
      cases hrun
      rw [reduceOption_map_filter] at he
      obtain ⟨hbest, hkeeps⟩ := h.stepVararg hhead hvararg he
      refine ⟨_, ?_, hkeeps⟩
      rw [filterWords_cons, if_pos hbest]
    · rw [if_neg hvararg] at hrun
      split at hrun
      · cases hrun
      · next left hleft =>
        have heleft : e ∈ left.reduceOption :=
          List.reduceOption_mem_iff.mpr (mem_filterWords hrun (List.reduceOption_mem_iff.mp he))
        obtain ⟨hnotVararg, left', hleft', hkeeps⟩ := h.step hhead hvararg hleft heleft
        have hrest : ∀ i < vline.length, ∀ S j S' j',
            filterWords .byString (index + 1) left (vline.take i) = .ok (S, j, false) →
            filterWords .byCompletion (index + 1) left' (vline.take i) = .ok (S', j', false) →
            Unrivalled e (vline.getD i []) (index + 1 + i) S S' := by
          intro i hi S j S' j' hS hS'
          have hpos := hrival (i + 1) (by simpa using hi) S j S' j'
          rw [List.take_succ_cons, filterWords_cons, filterWords_cons, if_neg hvararg,
            if_neg hnotVararg, hleft, hleft', List.getD_cons_succ, Nat.add_comm i 1,
            ← Nat.add_assoc] at hpos
          exact hpos hS hS'
        obtain ⟨lenient', hlenient, hkeeps'⟩ := ih hkeeps hrest hrun
        refine ⟨lenient', ?_, hkeeps'⟩
        rw [filterWords_cons, if_neg hnotVararg, hleft']
        exact hlenient

theorem keeps_refl (h : e ∈ v) : Keeps e (v.map some) (v.map some) := by
  refine ⟨?_, List.Sublist.refl _⟩
  rw [List.reduceOption_mem_iff]
  exact List.mem_map.mpr ⟨e, h, rfl⟩

/-- The commands that are left and complete are those of the strict matcher. -/
theorem Keeps.filter_eq {p : CmdElement F → Bool} (h : Keeps e strict lenient)
    (honly : strict.reduceOption.filter p = [e]) : lenient.reduceOption.filter p = [e] := by
  have hp : p e = true := (mem_of_filter_eq_singleton honly).2
  have hsub : (lenient.reduceOption.filter p).Sublist [e] := honly ▸ h.sublist.filter p
  refine hsub.eq_of_length_le ?_
  exact List.length_pos_of_mem (List.mem_filter.mpr ⟨h.mem, hp⟩)

/-- The lenient matcher dispatches a line as the strict one does when nothing gets in the way of
the command. -/
theorem cmdLookup_lenient (hrun : cmdLookup .byString v vline = .run e argv)
    (hunshadowed : Unshadowed e v vline) : cmdLookup .byCompletion v vline = .run e argv := by
  obtain ⟨left, index, vararg, hleft, honly⟩ := cmdLookup_left hrun
  have he : e ∈ left.reduceOption := (mem_of_filter_eq_singleton honly).1
  have hrival : ∀ i < vline.length, ∀ S j S' j',
      filterWords .byString 0 (v.map some) (vline.take i) = .ok (S, j, false) →
      filterWords .byCompletion 0 (v.map some) (vline.take i) = .ok (S', j', false) →
      Unrivalled e (vline.getD i []) (0 + i) S S' := by
    intro i hi S j S' j' hS hS'
    rw [Nat.zero_add]
    exact hunshadowed i hi S (by rw [leftAfter, hS]; rfl) S' (by rw [leftAfter, hS']; rfl)
  obtain ⟨left', hleft', hkeeps⟩ := (keeps_refl (cmdLookup_mem hrun)).run hrival hleft he
  unfold cmdLookup
  rw [hleft']
  dsimp only
  rw [hkeeps.filter_eq honly]
  dsimp only
  rw [cmdLookup_run hrun]

end

section
variable [DecidableEq F] (e : CmdElement F)

instance (word : Str) (index : Nat) (type : MatchType) (x : CmdElement F) :
    Decidable (Counted word index type x) := by
  unfold Counted
  infer_instance

instance (word : Str) (index : Nat) (strict lenient : List (Option (CmdElement F))) :
    Decidable (Unrivalled e word index strict lenient) :=
  decidable_of_iff _ (unrivalled_iff e word index strict lenient).symm

instance (v : List (CmdElement F)) (vline : List Str) : Decidable (Unshadowed e v vline) := by
  unfold Unshadowed
  infer_instance

end

/-- The word `n` begins a keyword of the position it stands at, but of no other command. -/
theorem cmdLookup_lenient_endpoint :
    cmdLookup .byCompletion (cmdNodeVector .config)
        [str "wg", str "peer", str "K", str "allowed-ips", str "X", str "endpoint", str "n"] =
      .run ⟨str "wg peer PUBLICKEY allowed-ips WORD endpoint (none|FQDN:PORT|A.B.C.D:PORT)",
        .wgPeerEndpoint, [[str "wg"], [str "peer"], [str "PUBLICKEY"], [str "allowed-ips"],
          [str "WORD"], [str "endpoint"], [str "A.B.C.D:PORT", str "FQDN:PORT", str "none"]], 7⟩
        [str "K", str "X", str "n"] :=
  cmdLookup_lenient (by decide +kernel) (by decide +kernel)

/-- The rule number `a` of a port mapping is for the lenient matcher the beginning of the keyword
`apply` of another command. -/
theorem not_cmdLookup_lenient : ¬ ∀ (node : Node) (vline argv : List Str) (e : CmdElement CmdFunc),
    cmdLookup .byString (cmdNodeVector node) vline = .run e argv →
    cmdLookup .byCompletion (cmdNodeVector node) vline = .run e argv := by
  intro h
  have hlenient := h .config
    [str "sfirewall", str "nat", str "portmap", str "a", str "wan", str "1.2.3.4", str "tcp",
      str "80", str "80"]
    [str "a", str "wan", str "1.2.3.4", str "tcp", str "80", str "80"]
    ⟨str "sfirewall nat portmap NUM (vpn|wan) A.B.C.D (tcp|udp|all) PORT PORT",
      .sfirewallNatPortmap, [[str "sfirewall"], [str "nat"], [str "portmap"], [str "NUM"],
        [str "vpn", str "wan"], [str "A.B.C.D"], [str "tcp", str "udp", str "all"], [str "PORT"],
        [str "PORT"]], 9⟩ (by decide +kernel)
  revert hlenient
  decide +kernel

end QrWireguard.Vtysh
