import QrWireguard.Vtysh.Dispatch
import QrWireguard.Vtysh.Strict

/-!
# One position of a command vector

What the filters and the ambiguity check do at one position, for either filter: which slots they
leave, and what the best match type is.
-/

namespace QrWireguard.Vtysh

variable {F : Type}

/-! ## The best match type -/

namespace MatchType

theorem foldl_raise_mem (m : MatchType) (l : List MatchType) :
    l.foldl raise m = m ∨ l.foldl raise m ∈ l := by
  induction l generalizing m with
  | nil => exact .inl rfl
  | cons n l ih =>
    rcases ih (m.raise n) with h | h
    · have hraise : m.raise n = m ∨ m.raise n = n := by
        unfold raise
        split <;> simp
      rw [List.foldl_cons, h]
      exact hraise.imp id fun heq => by rw [heq]; exact List.mem_cons_self
    · exact .inr (List.mem_cons_of_mem _ h)

end MatchType

/-- The alternatives of a position; there are none behind the end of the template. -/
def CmdElement.alternatives (e : CmdElement F) (index : Nat) : List Str := e.strvec.getD index []

/-- Does an alternative of the position take the word? -/
def CmdElement.takes (filter : Filter) (word : Str) (index : Nat) (e : CmdElement F) : Bool :=
  (e.alternatives index).any fun s => (descMatch filter word s).isSome

/-- The ways in which the slots take the word. -/
def matchTypes (filter : Filter) (word : Str) (index : Nat) (v : List (Option (CmdElement F))) :
    List MatchType :=
  (v.reduceOption.flatMap fun e => e.alternatives index).filterMap (descMatch filter word)

/-- The match type the filter finds. -/
def bestMatch (filter : Filter) (word : Str) (index : Nat) (v : List (Option (CmdElement F))) :
    MatchType :=
  (cmdFilter filter word index .noMatch v).1

section
variable {filter : Filter} {word : Str} {index : Nat} {type m n : MatchType} {e : CmdElement F}
  {v v' : List (Option (CmdElement F))}

theorem mem_matchTypes : m ∈ matchTypes filter word index v ↔
    ∃ e, some e ∈ v ∧ ∃ s ∈ e.alternatives index, descMatch filter word s = some m := by
  simp only [matchTypes, List.mem_filterMap, List.mem_flatMap, List.reduceOption_mem_iff]
  constructor
  · rintro ⟨s, ⟨e, he, hs⟩, hm⟩
    exact ⟨e, he, s, hs, hm⟩
  · rintro ⟨e, he, s, hs, hm⟩
    exact ⟨s, ⟨e, he, hs⟩, hm⟩

theorem descvecMatch_fst_eq (filter : Filter) (word : Str) (m : MatchType) (descvec : List Str) :
    (descvecMatch filter word m descvec).1 =
      (descvec.filterMap (descMatch filter word)).foldl MatchType.raise m := by
  induction descvec generalizing m with
  | nil => rfl
  | cons s descvec ih =>
    unfold descvecMatch
    cases hs : descMatch filter word s with
    | none => simp [hs, ih]
    | some n => simp [hs, ih]

/-- A command without this position is treated as one without an alternative there. -/
theorem cmdFilter_some (filter : Filter) (word : Str) (index : Nat) (m : MatchType)
    (e : CmdElement F) (v : List (Option (CmdElement F))) :
    cmdFilter filter word index m (some e :: v) =
      ((cmdFilter filter word index (descvecMatch filter word m (e.alternatives index)).1 v).1,
        Option.filter (CmdElement.takes filter word index) (some e) ::
          (cmdFilter filter word index
            (descvecMatch filter word m (e.alternatives index)).1 v).2) := by
  have htakes : e.takes filter word index =
      (descvecMatch filter word m (e.alternatives index)).2 := (descvecMatch_snd _ _ _ _).symm
  rw [Option.filter_some, htakes, cmdFilter, CmdElement.alternatives, List.getD_eq_getElem?_getD]
  cases e.strvec[index]? with
  | none => simp [descvecMatch]
  | some descvec => rfl

/-- The filter leaves the slots whose commands take the word, and raises the match type by all
the ways in which they do. -/
theorem cmdFilter_eq (m : MatchType) (v : List (Option (CmdElement F))) :
    cmdFilter filter word index m v = ((matchTypes filter word index v).foldl MatchType.raise m,
      v.map (Option.filter (CmdElement.takes filter word index))) := by
  induction v generalizing m with
  | nil => rfl
  | cons slot v ih =>
    cases slot with
    | none =>
      rw [cmdFilter, ih]
      simp [matchTypes]
    | some e =>
      rw [cmdFilter_some, ih, descvecMatch_fst_eq]
      simp [matchTypes, List.filterMap_append]

theorem bestMatch_eq (filter : Filter) (word : Str) (index : Nat)
    (v : List (Option (CmdElement F))) :
    bestMatch filter word index v =
      (matchTypes filter word index v).foldl MatchType.raise .noMatch := by
  rw [bestMatch, cmdFilter_eq]

theorem bestMatch_mem (h : bestMatch filter word index v ≠ .noMatch) :
    bestMatch filter word index v ∈ matchTypes filter word index v := by
  rw [bestMatch_eq] at h ⊢
  exact (MatchType.foldl_raise_mem _ _).resolve_left h

/-! ## The ambiguity check -/

/-- Does the check count the alternative? -/
def Vote.counts : Vote → Bool
  | .skip => false
  | _ => true

theorem Vote.eq_skip {vote : Vote} (h : vote.counts = false) : vote = .skip := by
  cases vote with
  | skip => rfl
  | count | name | incomplete => cases h

/-- Does an alternative of the position count for this match type? -/
def CmdElement.counts (word : Str) (index : Nat) (type : MatchType) (e : CmdElement F) : Bool :=
  (e.alternatives index).any fun s => (ambiguousVote word type s).counts

theorem ambiguousDescvec_ok {matched matched' : Option Str} {counted counted' : Bool}
    {descvec : List Str}
    (h : ambiguousDescvec word type matched counted descvec = .ok (matched', counted')) :
    counted' = (counted || descvec.any fun s => (ambiguousVote word type s).counts) := by
  induction descvec generalizing matched counted with
  | nil =>
    cases h
    simp
  | cons s descvec ih =>
    unfold ambiguousDescvec at h
    cases hv : ambiguousVote word type s with
    | skip =>
      rw [hv] at h
      rw [ih h]
      simp [hv, Vote.counts]
    | count =>
      rw [hv] at h
      rw [ih h]
      simp [hv, Vote.counts]
    | name =>
      rw [hv] at h
      dsimp only at h
      split at h
      · cases h
      · rw [ih h]
        simp [hv, Vote.counts]
    | incomplete =>
      rw [hv] at h
      cases h

/-- No alternative is an incomplete address, and those that count under their name have one. -/
def Clear (word : Str) (type : MatchType) (matched : Option Str) (alternatives : List Str) : Prop :=
  ∃ name, (∀ m ∈ matched, m = name) ∧ ∀ s ∈ alternatives,
    ambiguousVote word type s ≠ .incomplete ∧ (ambiguousVote word type s = .name → s = name)

theorem Clear.mono {matched : Option Str} {alternatives alternatives' : List Str}
    (h : Clear word type matched alternatives) (hsub : alternatives' ⊆ alternatives) :
    Clear word type matched alternatives' := by
  obtain ⟨name, hmatched, hall⟩ := h
  exact ⟨name, hmatched, fun s hs => hall s (hsub hs)⟩

/-- The check of a position goes through, and what it has matched then leaves the rest clear. -/
theorem clear_append {matched : Option Str} {descvec rest : List Str} (counted : Bool) :
    Clear word type matched (descvec ++ rest) ↔
      ∃ matched' counted', ambiguousDescvec word type matched counted descvec =
        .ok (matched', counted') ∧ Clear word type matched' rest := by
  induction descvec generalizing matched counted with
  | nil => simp [ambiguousDescvec]
  | cons s descvec ih =>
    unfold ambiguousDescvec
    cases hv : ambiguousVote word type s with
    | skip =>
      simp only [← ih]
      simp [Clear, hv]
    | count =>
      simp only [← ih]
      simp [Clear, hv]
    | name =>
      by_cases hm : matched.any (· ≠ s) = true
      · simp only [hm, if_true]
        refine iff_of_false ?_ (by simp)
        rintro ⟨name, hmatched, hall⟩
        obtain ⟨m, hm, hne⟩ := (Option.any_eq_true _ _).mp hm
        have hs := (hall s (by simp)).2 hv
        rw [← hmatched m hm] at hs
        simp [hs] at hne
      · simp only [hm, Bool.false_eq_true, if_false, ← ih]
        have hmatched : ∀ m ∈ matched, m = s := by
          intro m hmem
          by_contra hne
          exact hm ((Option.any_eq_true _ _).mpr ⟨m, hmem, by simpa using hne⟩)
        constructor
        · rintro ⟨name, -, hall⟩
          obtain rfl := (hall s (by simp)).2 hv
          exact ⟨s, by simp, fun s' hs' => hall s' (by simp_all)⟩
        · rintro ⟨name, hname, hall⟩
          obtain rfl : s = name := by simpa using hname
          refine ⟨s, hmatched, fun s' hs' => ?_⟩
          rcases List.mem_cons.mp hs' with rfl | hs'
          · simp [hv]
          · exact hall s' hs'
    | incomplete =>
      refine iff_of_false ?_ (by simp)
      rintro ⟨name, -, hall⟩
      exact (hall s (by simp)).1 hv

theorem isCmdAmbiguous_isOk {matched : Option Str} :
    (∃ v', isCmdAmbiguous word index type matched v = .ok v') ↔
      Clear word type matched (v.reduceOption.flatMap fun e => e.alternatives index) := by
  induction v generalizing matched with
  | nil =>
    refine iff_of_true ⟨[], rfl⟩ ⟨matched.getD [], ?_, by simp⟩
    rintro m rfl
    rfl
  | cons slot v ih =>
    have hmap : ∀ {x : Except Nat (List (Option (CmdElement F)))} {slot : Option (CmdElement F)},
        (∃ v', x.map (slot :: ·) = .ok v') ↔ ∃ v', x = .ok v' := by
      intro x slot
      cases x <;> simp [Except.map]
    cases slot with
    | none => rw [isCmdAmbiguous, hmap, ih, List.reduceOption_cons_of_none]
    | some d =>
      rw [List.reduceOption_cons_of_some, List.flatMap_cons, clear_append false, isCmdAmbiguous]
      change _ ↔ ∃ matched' counted',
        ambiguousDescvec word type matched false (d.strvec.getD index []) = _ ∧ _
      cases ambiguousDescvec word type matched false (d.strvec.getD index []) with
      | error ret => simp
      | ok p =>
        obtain ⟨matched', counted'⟩ := p
        simp only [hmap, ih]
        constructor
        · exact fun h => ⟨matched', counted', rfl, h⟩
        · rintro ⟨_, _, heq, h⟩
          cases heq
          exact h

/-- When the check goes through it leaves the slots that have an alternative of the type. -/
theorem isCmdAmbiguous_ok {matched : Option Str}
    (h : isCmdAmbiguous word index type matched v = .ok v') :
    v' = v.map (Option.filter (CmdElement.counts word index type)) := by
  induction v generalizing matched v' with
  | nil =>
    cases h
    rfl
  | cons slot v ih =>
    cases slot with
    | none =>
      simp only [isCmdAmbiguous] at h
      obtain ⟨v₁, hv₁, rfl⟩ := except_map_eq_ok h
      rw [ih hv₁]
      rfl
    | some d =>
      simp only [isCmdAmbiguous] at h
      split at h
      · cases h
      · next matched' counted' hd =>
        obtain ⟨v₁, hv₁, rfl⟩ := except_map_eq_ok h
        have hcounted : counted' = d.counts word index type := by
          rw [ambiguousDescvec_ok hd, Bool.false_or]
          rfl
        rw [ih hv₁, hcounted, List.map_cons, Option.filter_some]

theorem reduceOption_map_filter (p : CmdElement F → Bool) (v : List (Option (CmdElement F))) :
    (v.map (Option.filter p)).reduceOption = v.reduceOption.filter p := by
  induction v with
  | nil => rfl
  | cons slot v ih =>
    cases slot with
    | none => simpa using ih
    | some x => by_cases hp : p x = true <;> simp [Option.filter_some, hp, ih]

/-- The commands that a filter and the check leave of a vector. -/
def leftOf (filter : Filter) (word : Str) (index : Nat) (type : MatchType)
    (v : List (Option (CmdElement F))) : List (CmdElement F) :=
  v.reduceOption.filter fun x => x.counts word index type && x.takes filter word index

theorem mem_leftOf : e ∈ leftOf filter word index type v ↔
    e ∈ v.reduceOption ∧ e.counts word index type = true ∧ e.takes filter word index = true := by
  rw [leftOf, List.mem_filter, Bool.and_eq_true]

theorem reduceOption_left (h : isCmdAmbiguous word index type none
    (v.map (Option.filter (CmdElement.takes filter word index))) = .ok v') :
    v'.reduceOption = leftOf filter word index type v := by
  rw [isCmdAmbiguous_ok h, reduceOption_map_filter, reduceOption_map_filter, List.filter_filter,
    leftOf]

/-- What does not count does not disturb the check. -/
theorem isOk_iff_clear_left :
    (∃ v', isCmdAmbiguous word index type none
      (v.map (Option.filter (CmdElement.takes filter word index))) = .ok v') ↔
      Clear word type none
        ((leftOf filter word index type v).flatMap fun e => e.alternatives index) := by
  rw [isCmdAmbiguous_isOk, reduceOption_map_filter]
  constructor
  · refine fun h => h.mono fun s hs => ?_
    obtain ⟨x, hx, hs⟩ := List.mem_flatMap.mp hs
    obtain ⟨hmem, -, htakes⟩ := mem_leftOf.mp hx
    exact List.mem_flatMap.mpr ⟨x, List.mem_filter.mpr ⟨hmem, htakes⟩, hs⟩
  · rintro ⟨name, hmatched, hname⟩
    refine ⟨name, hmatched, fun s hs => ?_⟩
    obtain ⟨x, hx, hs⟩ := List.mem_flatMap.mp hs
    obtain ⟨hmem, htakes⟩ := List.mem_filter.mp hx
    cases hcounts : x.counts word index type with
    | true => exact hname s (List.mem_flatMap.mpr ⟨x, mem_leftOf.mpr ⟨hmem, hcounts, htakes⟩, hs⟩)
    | false =>
      have hskip := Vote.eq_skip (by simpa using List.any_eq_false.mp hcounts s hs)
      rw [hskip]
      exact ⟨nofun, nofun⟩

/-! ## One round of the loop over the words -/

theorem filterWords_cons (filter : Filter) (index : Nat) (v : List (Option (CmdElement F)))
    (word : Str) (vline : List Str) :
    filterWords filter index v (word :: vline) =
      if bestMatch filter word index v = .varargMatch then
        .ok (v.map (Option.filter (CmdElement.takes filter word index)), index, true)
      else match isCmdAmbiguous word index (bestMatch filter word index v) none
          (v.map (Option.filter (CmdElement.takes filter word index))) with
        | .error ret => .error (if ret = 1 then cmdErrAmbiguous else cmdErrNoMatch)
        | .ok v => filterWords filter (index + 1) v vline := by
  have hround := filterWords.eq_2 filter index v word vline
  rw [cmdFilter_eq] at hround
  rw [bestMatch, cmdFilter_eq]
  exact hround

theorem mem_of_filter_eq_singleton {α : Type} {p : α → Bool} {l : List α} {a : α}
    (h : l.filter p = [a]) : a ∈ l ∧ p a = true :=
  List.mem_filter.mp (h ▸ List.mem_singleton_self a)

/-- The command a line stands for is the only complete one left. -/
theorem cmdLookup_left {cmdVector : List (CmdElement F)} {vline argv : List Str}
    (h : cmdLookup filter cmdVector vline = .run e argv) :
    ∃ left index vararg,
      filterWords filter 0 (cmdVector.map some) vline = .ok (left, index, vararg) ∧
      left.reduceOption.filter (fun e => vararg || decide (e.cmdsize ≤ index)) = [e] := by
  unfold cmdLookup at h
  split at h
  · cases h
  · next left index vararg hleft =>
    dsimp only at h
    split at h
    · split at h <;> cases h
    · next d hd =>
      split at h
      · cases h
      · cases h
      · obtain ⟨rfl, -⟩ := Lookup.run.inj h
        exact ⟨left, index, vararg, hleft, hd⟩
    · cases h

end

end QrWireguard.Vtysh
