import Mathlib.Data.List.Forall2
import Mathlib.Data.List.ReduceOption
import QrWireguard.Vtysh.Command

/-!
# The strict matcher

When the matcher that reads files, `cmd_execute_command_strict`, finds a command. The words of
a line lead to an element when each word is taken at its position of the element's template,
and every other template departs from it: at the first position where the two have other
alternatives, the other one refuses the word.
-/

namespace QrWireguard.Vtysh

variable {F : Type}

/-! ## One word -/

/-- The alternatives of a position take a word, best with this match type. -/
structure TakesAs (word : Str) (type : MatchType) (descvec : List Str) : Prop where
  kind : type = .exactMatch ∨ type = .ipv4Match ∨ type = .extendMatch
  best : ∀ s ∈ descvec, ∀ m, descMatch .byString word s = some m → m.rank ≤ type.rank
  taken : ∃ s ∈ descvec, descMatch .byString word s = some type

/-- The alternatives of a position take a word. -/
def Takes (word : Str) (descvec : List Str) : Prop := ∃ type, TakesAs word type descvec

/-- No alternative of a position takes a word. -/
def Refuses (word : Str) (descvec : List Str) : Prop :=
  ∀ s ∈ descvec, descMatch .byString word s = none

instance (word : Str) (descvec : List Str) : Decidable (Refuses word descvec) :=
  inferInstanceAs (Decidable (∀ s ∈ descvec, descMatch .byString word s = none))

/-- An alternative takes a word, whatever the match type. -/
def takesWord (word : Str) (descvec : List Str) : Bool :=
  descvec.any fun s => (descMatch .byString word s).isSome

theorem MatchType.rank_injective {m n : MatchType} (h : m.rank = n.rank) : m = n := by
  revert h
  cases m <;> cases n <;> decide

/-- The order of the alternatives does not matter. -/
theorem TakesAs.congr {word : Str} {type : MatchType} {descvec descvec' : List Str}
    (h : TakesAs word type descvec) (hsub : descvec ⊆ descvec') (hsub' : descvec' ⊆ descvec) :
    TakesAs word type descvec' where
  kind := h.kind
  best s hs := h.best s (hsub' hs)
  taken := by
    obtain ⟨s, hs, hm⟩ := h.taken
    exact ⟨s, hsub hs, hm⟩

theorem TakesAs.takesWord_eq_true {word : Str} {type : MatchType} {descvec : List Str}
    (h : TakesAs word type descvec) : takesWord word descvec = true := by
  obtain ⟨s, hs, hm⟩ := h.taken
  exact List.any_eq_true.mpr ⟨s, hs, by rw [hm]; rfl⟩

theorem Refuses.takesWord_eq_false {word : Str} {descvec : List Str} (h : Refuses word descvec) :
    takesWord word descvec = false := by
  refine List.any_eq_false.mpr fun s hs => ?_
  rw [h s hs]
  decide

theorem descvecMatch_snd (filter : Filter) (word : Str) (type : MatchType) (descvec : List Str) :
    (descvecMatch filter word type descvec).2 =
      descvec.any fun s => (descMatch filter word s).isSome := by
  induction descvec generalizing type with
  | nil => rfl
  | cons s descvec ih =>
    unfold descvecMatch
    cases hm : descMatch filter word s with
    | none => simpa [hm] using ih type
    | some m => simp [hm]

theorem Refuses.descvecMatch_fst {word : Str} {descvec : List Str} (h : Refuses word descvec)
    (type : MatchType) : (descvecMatch .byString word type descvec).1 = type := by
  induction descvec with
  | nil => rfl
  | cons s descvec ih =>
    unfold descvecMatch
    rw [h s (by simp)]
    exact ih fun s' hs' => h s' (by simp [hs'])

theorem MatchType.raise_of_rank_le {m t : MatchType} (h : m.rank ≤ t.rank) : m.raise t = t := by
  unfold MatchType.raise
  split
  · rfl
  · next hlt => exact MatchType.rank_injective (by omega)

theorem MatchType.rank_raise_le {m n t : MatchType} (hm : m.rank ≤ t.rank) (hn : n.rank ≤ t.rank) :
    (m.raise n).rank ≤ t.rank := by
  unfold MatchType.raise
  split <;> assumption

/-- The match type is raised to the best one. -/
theorem descvecMatch_fst {word : Str} {type m : MatchType} {descvec : List Str}
    (hm : m.rank ≤ type.rank)
    (hbest : ∀ s ∈ descvec, ∀ n, descMatch .byString word s = some n → n.rank ≤ type.rank)
    (htaken : m = type ∨ ∃ s ∈ descvec, descMatch .byString word s = some type) :
    (descvecMatch .byString word m descvec).1 = type := by
  induction descvec generalizing m with
  | nil => simpa [descvecMatch] using htaken
  | cons s descvec ih =>
    have hbest' : ∀ s' ∈ descvec, ∀ n, descMatch .byString word s' = some n →
        n.rank ≤ type.rank := fun s' hs' => hbest s' (by simp [hs'])
    unfold descvecMatch
    cases hs : descMatch .byString word s with
    | none =>
      refine ih hm hbest' ?_
      rcases htaken with rfl | ⟨s', hs', hm'⟩
      · exact .inl rfl
      · rcases List.mem_cons.mp hs' with rfl | hs'
        · rw [hs] at hm'; cases hm'
        · exact .inr ⟨s', hs', hm'⟩
    | some n =>
      have hn : n.rank ≤ type.rank := hbest s (by simp) n hs
      refine ih (MatchType.rank_raise_le hm hn) hbest' ?_
      rcases htaken with rfl | ⟨s', hs', hm'⟩
      · refine .inl ?_
        unfold MatchType.raise
        rw [if_neg (by omega)]
      · rcases List.mem_cons.mp hs' with rfl | hs'
        · obtain rfl : n = type := Option.some.inj (hs.symm.trans hm')
          exact .inl (MatchType.raise_of_rank_le hm)
        · exact .inr ⟨s', hs', hm'⟩

/-- The strict matcher counts the alternatives with the best match type. -/
theorem ambiguousVote_of_descMatch {word s : Str} {type : MatchType}
    (hkind : type = .exactMatch ∨ type = .ipv4Match ∨ type = .extendMatch)
    (h : descMatch .byString word s = some type) : ambiguousVote word type s = .count := by
  unfold descMatch at h
  split at h
  · rcases hkind with rfl | rfl | rfl <;> simp at h
  · split at h
    · split at h <;> rcases hkind with rfl | rfl | rfl <;> simp at h
    · split at h
      · split at h <;> rcases hkind with rfl | rfl | rfl <;> simp at h
      · split at h
        · cases h
        · split at h
          · next hs =>
            split at h
            · obtain rfl : MatchType.ipv4Match = type := Option.some.inj h
              simp [ambiguousVote, hs]
            · cases h
          · split at h
            · split at h <;> rcases hkind with rfl | rfl | rfl <;> simp at h
            · split at h
              · next hv =>
                obtain rfl : MatchType.extendMatch = type := Option.some.inj h
                simp only [ambiguousVote, hv, if_true]
              · next hv =>
                simp only at h
                split at h
                · next hw =>
                  obtain rfl : MatchType.exactMatch = type := Option.some.inj h
                  simp only [ambiguousVote, hv, hw]
                  simp
                · cases h

/-- The ambiguity check never stops early on such a match type. -/
theorem ambiguousVote_skip_or_count (word s : Str) {type : MatchType}
    (hkind : type = .exactMatch ∨ type = .ipv4Match ∨ type = .extendMatch) :
    ambiguousVote word type s = .skip ∨ ambiguousVote word type s = .count := by
  rcases hkind with rfl | rfl | rfl <;> simp only [ambiguousVote] <;> split <;> simp

theorem ambiguousDescvec_counted {word : Str} {type : MatchType} {descvec : List Str}
    {matched : Option Str} {counted : Bool}
    (hkind : type = .exactMatch ∨ type = .ipv4Match ∨ type = .extendMatch)
    (h : counted = true ∨ ∃ s ∈ descvec, ambiguousVote word type s = .count) :
    ambiguousDescvec word type matched counted descvec = .ok (matched, true) := by
  induction descvec generalizing counted with
  | nil => simpa [ambiguousDescvec] using h
  | cons s descvec ih =>
    unfold ambiguousDescvec
    rcases ambiguousVote_skip_or_count word s hkind with hv | hv
    · rw [hv]
      refine ih ?_
      rcases h with h | ⟨s', hs', hc⟩
      · exact .inl h
      · rcases List.mem_cons.mp hs' with rfl | hs'
        · rw [hv] at hc; cases hc
        · exact .inr ⟨s', hs', hc⟩
    · rw [hv]
      exact ih (.inl rfl)

/-! ## One position of all elements -/

section Slots
variable {word : Str} {type : MatchType} {index : Nat}

/-- At a position where every element takes the word in the same way or not at all, the filter
leaves the elements that take it. -/
theorem cmdFilter_strict {m : MatchType} {v : List (Option (CmdElement F))}
    (hm : m.rank ≤ type.rank)
    (hall : ∀ d ∈ v.reduceOption, ∀ descvec, d.strvec[index]? = some descvec →
      TakesAs word type descvec ∨ Refuses word descvec)
    (htaken : m = type ∨ ∃ d ∈ v.reduceOption, ∃ descvec, d.strvec[index]? = some descvec ∧
      TakesAs word type descvec) :
    (cmdFilter .byString word index m v).1 = type ∧
      (cmdFilter .byString word index m v).2.reduceOption =
        v.reduceOption.filter fun d => (d.strvec[index]?).any (takesWord word) := by
  induction v generalizing m with
  | nil => exact ⟨by simpa [cmdFilter] using htaken, rfl⟩
  | cons slot v ih =>
    cases slot with
    | none => simpa [cmdFilter] using ih hm hall htaken
    | some d =>
      simp only [List.reduceOption_cons_of_some, List.mem_cons, forall_eq_or_imp,
        exists_eq_or_imp] at hall htaken
      obtain ⟨hd, hall⟩ := hall
      unfold cmdFilter
      cases hpos : d.strvec[index]? with
      | none =>
        obtain ⟨h₁, h₂⟩ := ih hm hall (by simpa [hpos] using htaken)
        exact ⟨h₁, by simpa [hpos] using h₂⟩
      | some descvec =>
        simp only
        rw [descvecMatch_snd]
        rcases hd descvec hpos with hd | hd
        · have hraise : (descvecMatch .byString word m descvec).1 = type :=
            descvecMatch_fst hm hd.best (.inr hd.taken)
          obtain ⟨h₁, h₂⟩ := ih (le_of_eq (congrArg MatchType.rank hraise)) hall (.inl hraise)
          have ht := hd.takesWord_eq_true
          refine ⟨h₁, ?_⟩
          rw [takesWord] at ht
          simp [ht, hpos, h₂, takesWord]
        · have ht := hd.takesWord_eq_false
          rw [hd.descvecMatch_fst]
          obtain ⟨h₁, h₂⟩ := ih hm hall (by
            rcases htaken with h | ⟨descvec', hpos', h⟩ | h
            · exact .inl h
            · obtain rfl : descvec = descvec' := Option.some.inj (hpos.symm.trans hpos')
              exact absurd h.takesWord_eq_true (by simp [ht])
            · exact .inr h)
          refine ⟨h₁, ?_⟩
          rw [takesWord] at ht
          simp [ht, hpos, h₂, takesWord]

/-- Elements that all take the word pass the ambiguity check. -/
theorem isCmdAmbiguous_strict {v : List (Option (CmdElement F))}
    (h : ∀ d ∈ v.reduceOption, TakesAs word type (d.strvec.getD index [])) :
    isCmdAmbiguous word index type none v = .ok v := by
  induction v with
  | nil => rfl
  | cons slot v ih =>
    cases slot with
    | none =>
      unfold isCmdAmbiguous
      rw [ih (by simpa using h)]
      rfl
    | some d =>
      simp only [List.reduceOption_cons_of_some, List.mem_cons, forall_eq_or_imp] at h
      obtain ⟨s, hs, hm⟩ := h.1.taken
      unfold isCmdAmbiguous
      rw [ambiguousDescvec_counted h.1.kind
        (.inr ⟨s, hs, ambiguousVote_of_descMatch h.1.kind hm⟩)]
      simp only [if_true]
      rw [ih h.2]
      rfl

end Slots

/-! ## All positions -/

/-- The first position where the second template has other alternatives, and these. -/
def departure : List (List Str) → List (List Str) → Option (Nat × List Str)
  | descvec :: strvec, descvec' :: strvec' =>
    if descvec ⊆ descvec' ∧ descvec' ⊆ descvec then
      (departure strvec strvec').map fun p => (p.1 + 1, p.2)
    else some (0, descvec')
  | _, _ => none

/-- Every word is taken at its position. -/
def follows : List Str → List (List Str) → Bool
  | [], _ => true
  | word :: vline, descvec :: strvec => takesWord word descvec && follows vline strvec
  | _ :: _, [] => false

/-- Where the template departs, it refuses the word. -/
def Departs (vline : List Str) (strvec strvec' : List (List Str)) : Prop :=
  ∀ p, departure strvec strvec' = some p → Refuses (vline.getD p.1 []) p.2

section Departs
variable {word : Str} {vline : List Str} {descvec descvec' : List Str}
  {strvec strvec' : List (List Str)}

theorem Departs.tail (h : Departs (word :: vline) (descvec :: strvec) (descvec' :: strvec'))
    (hsame : descvec ⊆ descvec' ∧ descvec' ⊆ descvec) : Departs vline strvec strvec' := by
  intro p hp
  refine h (p.1 + 1, p.2) ?_
  unfold departure
  rw [if_pos hsame, hp]
  rfl

theorem Departs.refuses (h : Departs (word :: vline) (descvec :: strvec) (descvec' :: strvec'))
    (hne : ¬ (descvec ⊆ descvec' ∧ descvec' ⊆ descvec)) : Refuses word descvec' :=
  h (0, descvec') (by unfold departure; rw [if_neg hne])

/-- A template that departs loses the line; one that does not keeps it while it lasts. -/
theorem follows_iff (htakes : List.Forall₂ Takes vline strvec) (h : Departs vline strvec strvec') :
    follows vline strvec' = true ↔
      departure strvec strvec' = none ∧ vline.length ≤ strvec'.length := by
  induction htakes generalizing strvec' with
  | nil => simp [follows, departure]
  | @cons word descvec vline strvec htake htakes ih =>
    cases strvec' with
    | nil => simp [follows]
    | cons descvec' strvec' =>
      unfold follows departure
      by_cases hsame : descvec ⊆ descvec' ∧ descvec' ⊆ descvec
      · obtain ⟨type, ht⟩ := htake
        have htaken := (ht.congr hsame.1 hsame.2).takesWord_eq_true
        rw [if_pos hsame, htaken, Bool.true_and, ih (h.tail hsame)]
        simp
      · have hrefuses := (h.refuses hsame).takesWord_eq_false
        rw [if_neg hsame, hrefuses]
        simp

end Departs

/-- The loop over the words leaves the elements that take all of them, if they take each word
in one way. -/
theorem filterWords_strict {vline : List Str} {strvec : List (List Str)} {index : Nat}
    {v : List (Option (CmdElement F))} (htakes : List.Forall₂ Takes vline strvec)
    (hdep : ∀ d ∈ v.reduceOption, Departs vline strvec (d.strvec.drop index))
    (hself : ∃ e ∈ v.reduceOption, e.strvec.drop index = strvec) :
    ∃ v', filterWords .byString index v vline = .ok (v', index + vline.length, false) ∧
      v'.reduceOption = v.reduceOption.filter fun d => follows vline (d.strvec.drop index) := by
  induction htakes generalizing index v with
  | nil => exact ⟨v, rfl, by simp [follows]⟩
  | @cons word descvec vline strvec htake htakes ih =>
    obtain ⟨type, ht⟩ := htake
    obtain ⟨e, he, heq⟩ := hself
    -- an element has at this position the same alternatives, or others that refuse the word
    have hpos : ∀ (d : CmdElement F) descvec', d.strvec[index]? = some descvec' →
        d.strvec.drop index = descvec' :: d.strvec.drop (index + 1) := by
      intro d descvec' hd
      obtain ⟨hlt, rfl⟩ := List.getElem?_eq_some_iff.mp hd
      exact List.drop_eq_getElem_cons hlt
    have hall : ∀ d ∈ v.reduceOption, ∀ descvec', d.strvec[index]? = some descvec' →
        TakesAs word type descvec' ∨ Refuses word descvec' := by
      intro d hd descvec' hd'
      have hdd := hdep d hd
      rw [hpos d descvec' hd'] at hdd
      by_cases hsame : descvec ⊆ descvec' ∧ descvec' ⊆ descvec
      · exact .inl (ht.congr hsame.1 hsame.2)
      · exact .inr (hdd.refuses hsame)
    have hepos : e.strvec[index]? = some descvec := by
      have h0 : (e.strvec.drop index)[0]? = some descvec := by rw [heq]; rfl
      simpa using h0
    have hekeep : e.strvec.drop (index + 1) = strvec := by
      have htail := hpos e descvec hepos
      rw [heq] at htail
      exact (List.cons.inj htail).2.symm
    have hrank : MatchType.noMatch.rank ≤ type.rank := Nat.zero_le _
    obtain ⟨htype, hleft⟩ := cmdFilter_strict hrank hall (.inr ⟨e, he, descvec, hepos, ht⟩)
    -- what is left takes the word
    have hmem : ∀ d, d ∈ (cmdFilter .byString word index .noMatch v).2.reduceOption ↔
        d ∈ v.reduceOption ∧ (d.strvec[index]?).any (takesWord word) = true := by
      intro d
      rw [hleft, List.mem_filter]
    have hkept : ∀ d ∈ (cmdFilter .byString word index .noMatch v).2.reduceOption,
        ∃ descvec', d.strvec[index]? = some descvec' ∧ TakesAs word type descvec' := by
      intro d hd
      obtain ⟨hd, hany⟩ := (hmem d).mp hd
      obtain ⟨descvec', hd', htaken⟩ := (Option.any_eq_true _ _).mp hany
      refine ⟨descvec', hd', (hall d hd descvec' hd').resolve_right fun hr => ?_⟩
      rw [hr.takesWord_eq_false] at htaken
      cases htaken
    have hamb : isCmdAmbiguous word index type none
        (cmdFilter .byString word index .noMatch v).2 = .ok _ :=
      isCmdAmbiguous_strict fun d hd => by
        obtain ⟨descvec', hd', htd⟩ := hkept d hd
        rw [List.getD_eq_getElem?_getD, hd']
        exact htd
    have hnotVararg : type ≠ .varargMatch := by rcases ht.kind with rfl | rfl | rfl <;> decide
    have hdep' : ∀ d ∈ (cmdFilter .byString word index .noMatch v).2.reduceOption,
        Departs vline strvec (d.strvec.drop (index + 1)) := by
      intro d hd
      obtain ⟨hd₀, -⟩ := (hmem d).mp hd
      obtain ⟨descvec', hd', htd⟩ := hkept d hd
      have hdd := hdep d hd₀
      rw [hpos d descvec' hd'] at hdd
      refine hdd.tail (by_contra fun hne => ?_)
      have hnot := (hdd.refuses hne).takesWord_eq_false
      rw [htd.takesWord_eq_true] at hnot
      cases hnot
    obtain ⟨v', hrun, hv'⟩ := ih hdep'
      ⟨e, (hmem e).mpr ⟨he, by rw [hepos]; exact ht.takesWord_eq_true⟩, hekeep⟩
    refine ⟨v', ?_, ?_⟩
    · unfold filterWords
      simp only [htype, hnotVararg, if_false, hamb]
      rw [hrun, List.length_cons, Nat.add_assoc, Nat.add_comm 1]
    · rw [hv', hleft, List.filter_filter]
      refine List.filter_congr fun d _ => ?_
      cases hd : d.strvec[index]? with
      | none =>
        have hnil : d.strvec.drop index = [] := by simpa using hd
        rw [hnil]
        simp [follows]
      | some descvec' =>
        rw [hpos d descvec' hd]
        simp [follows, Bool.and_comm]

/-- A line is strictly resolved to an element whose positions take its words, when every other
template departs from it and no shorter one is left. -/
theorem cmdLookup_strict {v : List (CmdElement F)} {e : CmdElement F} {vline argv : List Str}
    (htakes : List.Forall₂ Takes vline e.strvec)
    (hdep : ∀ d ∈ v, Departs vline e.strvec d.strvec)
    (honly : (v.filter fun d => (departure e.strvec d.strvec).isNone &&
      decide (e.strvec.length ≤ d.strvec.length) && decide (d.cmdsize ≤ e.strvec.length)) = [e])
    (hargv : bindArgs e.strvec false [] vline = some (.ok argv)) :
    cmdLookup .byString v vline = .run e argv := by
  have hmem : e ∈ v := by
    have he : e ∈ [e] := List.mem_singleton_self e
    rw [← honly] at he
    exact List.mem_of_mem_filter he
  have hslots : (v.map some).reduceOption = v := by
    rw [List.reduceOption]
    simp
  obtain ⟨v', hrun, hv'⟩ : ∃ v', filterWords .byString 0 (v.map some) vline =
      .ok (v', 0 + vline.length, false) ∧ v'.reduceOption = (v.map some).reduceOption.filter
        fun d => follows vline (d.strvec.drop 0) :=
    filterWords_strict htakes (by rw [hslots]; simpa using hdep) ⟨e, by rwa [hslots], rfl⟩
  have hlen : vline.length = e.strvec.length := htakes.length_eq
  have hleft : v'.reduceOption.filter (fun d => false || decide (d.cmdsize ≤ 0 + vline.length)) =
      [e] := by
    rw [hv', hslots, List.filter_filter, ← honly]
    refine List.filter_congr fun d hd => ?_
    have hiff := follows_iff htakes (hdep d hd)
    rw [Bool.eq_iff_iff]
    simp only [List.drop_zero, Bool.false_or, Bool.and_eq_true, decide_eq_true_eq, hiff,
      Option.isNone_iff_eq_none, hlen, Nat.zero_add]
    tauto
  unfold cmdLookup
  rw [hrun]
  simp only
  rw [hleft]
  simp only
  rw [hargv]

end QrWireguard.Vtysh
