import QrWireguard.Misc.Split
import QrWireguard.Vtysh.FilterGrammar

/-!
# The order of the rules

The rules of a kind stand together in the configuration, in `strcmp` order. It is the order of their
numbers when the numbers, read as texts, come in the same order.
-/

namespace QrWireguard.Vtysh
open Cli Proc

/-! ## The store stays sorted -/

theorem sorted_runEdits {config config' : List Str} {es : List Edit}
    (hs : config.Pairwise (· ≤ ·)) (h : runEdits config es = some config') :
    config'.Pairwise (· ≤ ·) := by
  induction es generalizing config with
  | nil =>
    cases h
    exact hs
  | cons edit es ih =>
    obtain ⟨mid, hedit, hrest⟩ := Option.bind_eq_some_iff.mp h
    refine ih ?_ hrest
    cases edit with
    | del line =>
      cases hedit
      exact hs.sublist List.eraseP_sublist
    | delLeft line =>
      cases hedit
      exact hs.sublist List.eraseP_sublist
    | add line args =>
      obtain ⟨info, -, rfl | ⟨-, rfl⟩⟩ := configAddLine_eq_some hedit
      · exact sorted_insertAfter hs
      · exact hs

/-- In every state a run reaches the lines stand in order. -/
theorem ShellReach.sorted {e : Env} {w : World} (h : ShellReach e (fun _ => True) w) :
    w.configTop.Pairwise (· ≤ ·) := by
  have hempty : ∀ w, EmptyStore w → w.configTop.Pairwise (· ≤ ·) := by
    intro w hw
    rw [hw]
    exact .nil
  refine h.invariant (I := fun w => w.configTop.Pairwise (· ≤ ·)) hempty
    fun w i t hw _ hst => ShellStep.config hst hw fun node func argv config config' _ hs he => ?_
  rcases he with he | ⟨-, he | he⟩
  · rwa [he]
  · exact sorted_runEdits hs he
  · exact sorted_runEdits hs he

/-! ## Lines and their numbers -/

/-- The argument `NUM`. -/
def ruleNumber (argv : List Str) : Str := argv.headD []

/-- A line of the kind with this number. -/
def Numbered (k : RuleKind) (num line : Str) : Prop :=
  ∃ rest, line = k.keyword ++ num ++ ' ' :: rest

/-- The line a rule is stored as. -/
def printedLine (k : RuleKind) (argv : List Str) : Str :=
  ((k.rule argv).bind fun r => vasprintf r.line []).getD []

section
variable {k : RuleKind} {argv : List Str} {r : Rule} {num num' line : Str}

theorem Numbered.isPrefix (h : Numbered k num line) : k.keyword <+: line := by
  obtain ⟨rest, rfl⟩ := h
  rw [List.append_assoc]
  exact List.prefix_append _ _

theorem Numbered.eq (h : Numbered k num line) (h' : Numbered k num' line) (hnum : IsNumber num)
    (hnum' : IsNumber num') : num = num' := by
  obtain ⟨rest, rfl⟩ := h
  obtain ⟨rest', heq⟩ := h'
  rw [List.append_assoc, List.append_assoc] at heq
  have htail := List.append_cancel_left heq
  exact (append_boundary_inj (hnum.not_mem rfl) (hnum'.not_mem rfl)
    (.inr rfl) (.inr rfl) htail).1

/-- A line goes on with a blank after the number, and a blank sorts in front of the digits. -/
theorem lt_of_number_lt {rest rest' : Str} (hnum : ∀ c ∈ num, isdigit c = true)
    (hnum' : ∀ c ∈ num', isdigit c = true) (h : num < num') :
    num ++ ' ' :: rest < num' ++ ' ' :: rest' := by
  induction num generalizing num' with
  | nil =>
    cases num' with
    | nil => exact absurd h (lt_irrefl _)
    | cons c num' =>
      have hc : ' ' < c := by
        have hdigit := hnum' c List.mem_cons_self
        simp only [isdigit, Bool.and_eq_true, decide_eq_true_eq] at hdigit
        exact lt_of_lt_of_le (by decide) hdigit.1
      exact List.cons_lt_cons_iff.mpr (.inl hc)
  | cons c num ih =>
    cases num' with
    | nil => exact absurd h (List.not_lt_nil _)
    | cons c' num' =>
      refine List.cons_lt_cons_iff.mpr ?_
      rcases List.cons_lt_cons_iff.mp h with hlt | ⟨rfl, hlt⟩
      · exact .inl hlt
      · exact .inr ⟨rfl, ih (fun d hd => hnum d (List.mem_cons_of_mem _ hd))
          (fun d hd => hnum' d (List.mem_cons_of_mem _ hd)) hlt⟩

/-- Lines with different numbers stand in the order of the numbers as texts. -/
theorem Numbered.lt_iff {line' : Str} (h : Numbered k num line) (h' : Numbered k num' line')
    (hnum : IsNumber num) (hnum' : IsNumber num') (hne : num ≠ num') :
    line < line' ↔ num < num' := by
  have hlt : ∀ {a b : Str} {l l' : Str}, Numbered k a l → Numbered k b l' → IsNumber a →
      IsNumber b → a < b → l < l' := by
    rintro a b l l' ⟨rest, rfl⟩ ⟨rest', rfl⟩ ha hb hab
    rw [List.append_assoc, List.append_assoc]
    exact List.append_left_lt (lt_of_number_lt ha.2 hb.2 hab)
  constructor
  · intro hline
    rcases lt_trichotomy num num' with hnumlt | heq | hnumlt
    · exact hnumlt
    · exact absurd heq hne
    · exact absurd hline (lt_asymm (hlt h' h hnum' hnum hnumlt))
  · exact hlt h h' hnum hnum'

/-- The lines of a rule have its number: its own, and its twin's. -/
theorem Rule.numbered (hr : k.rule argv = some r) :
    ∀ line ∈ r.line :: r.twins, Numbered k (ruleNumber argv) line := by
  cases k with
  | filter =>
    obtain ⟨a, ha, rfl⟩ := Option.map_eq_some_iff.mp hr
    obtain rfl := FilterArgs.toArgv_of_ofArgv ha
    have htwin : a.twin.num = a.num := by
      unfold FilterArgs.twin
      split <;> rfl
    have hline : ∀ b : FilterArgs, Numbered .filter b.num b.line := by
      intro b
      exact ⟨unwords ' ' b.toArgv.tail, by rw [List.append_assoc]; rfl⟩
    intro line hmem
    simp only [List.mem_cons, List.not_mem_nil, or_false] at hmem
    rcases hmem with rfl | rfl
    · exact hline a
    · have htwinline := hline a.twin
      rwa [htwin] at htwinline
  | portmap =>
    unfold RuleKind.rule at hr
    dsimp only at hr
    split at hr
    · next num ifname dest proto port1 port2 =>
      cases hr
      intro line hmem
      obtain rfl := List.mem_singleton.mp hmem
      exact ⟨unwords ' ' [ifname, dest, proto, port1, port2], by rw [List.append_assoc]; rfl⟩
    · cases hr

/-- So has the line it is stored as. -/
theorem Rule.numbered_printed (hr : k.rule argv = some r) (hnum : IsNumber (ruleNumber argv))
    {info : Str} (hinfo : vasprintf r.line [] = some info) :
    Numbered k (ruleNumber argv) info := by
  obtain ⟨rest, hline⟩ := Rule.numbered hr r.line List.mem_cons_self
  have hplain : '%' ∉ k.keyword ++ ruleNumber argv ++ [' '] := by
    simp only [List.mem_append, List.mem_singleton]
    rintro ((hmem | hmem) | hmem)
    · revert hmem
      cases k <;> decide
    · exact hnum.not_mem rfl hmem
    · cases hmem
  have hsplit : r.line = k.keyword ++ ruleNumber argv ++ [' '] ++ rest := by
    rw [hline]
    simp
  rw [hsplit, vasprintf_append hplain] at hinfo
  obtain ⟨out, -, rfl⟩ := Option.map_eq_some_iff.mp hinfo
  exact ⟨out, by simp⟩

theorem printedLine_eq (hr : k.rule argv = some r) {info : Str}
    (hinfo : vasprintf r.line [] = some info) : printedLine k argv = info := by
  simp [printedLine, hr, hinfo]

end

/-! ## Entering rules -/

/-- The rules are set one after the other. -/
def setRules (k : RuleKind) (v : VtyRef) : List (List Str) → Cli Unit
  | [] => pure ()
  | argv :: rules => do
    let _ ← call k.set v argv
    setRules k v rules

/-- The rules are entered by lines, and accepted; their numbers are different decimal numbers. -/
structure RuleSet (k : RuleKind) (rules : List (List Str)) : Prop where
  entered : ∀ argv ∈ rules, ∃ i : Input, ∃ node, i.StandsFor node k.set argv
  accepted : ∀ argv ∈ rules, ∀ e w v, Accepts (call k.set v argv) e w
  numbers : ∀ argv ∈ rules, IsNumber (ruleNumber argv)
  distinct : rules.Pairwise fun a b => decimal (ruleNumber a) ≠ decimal (ruleNumber b)

section
variable {e : Env} {w : World} {v : VtyRef} {k : RuleKind} {argv : List Str} {r : Rule}
  {rules order : List (List Str)}

theorem RuleSet.perm (h : RuleSet k rules) (hp : order.Perm rules) : RuleSet k order where
  entered argv hmem := h.entered argv (hp.subset hmem)
  accepted argv hmem := h.accepted argv (hp.subset hmem)
  numbers argv hmem := h.numbers argv (hp.subset hmem)
  distinct := (hp.pairwise_iff fun {_ _} hne => hne.symm).mpr h.distinct

/-- Setting rules whose numbers no line has yet adds their lines. -/
theorem runs_setRules (h : RuleSet k order) (hs : w.configTop.Pairwise (· ≤ ·))
    (hnew : ∀ argv ∈ order, ∀ line ∈ w.configTop, ¬ Numbered k (ruleNumber argv) line) :
    Runs (setRules k v order) e w fun _ t => t.configTop.Pairwise (· ≤ ·) ∧
      t.configTop.Perm (order.map (printedLine k) ++ w.configTop) := by
  induction order generalizing w with
  | nil => exact ⟨hs, List.Perm.refl _⟩
  | cons argv order ih =>
    obtain ⟨r, info, hr, hfits, hinfo⟩ :=
      accepts_set.mp (h.accepted argv List.mem_cons_self e w v)
    have hnum := h.numbers argv List.mem_cons_self
    have hrest : RuleSet k order :=
      ⟨fun a ha => h.entered a (List.mem_cons_of_mem _ ha),
        fun a ha => h.accepted a (List.mem_cons_of_mem _ ha),
        fun a ha => h.numbers a (List.mem_cons_of_mem _ ha),
        (List.pairwise_cons.mp h.distinct).2⟩
    have hremoved : r.removed w.configTop = w.configTop := by
      refine Rule.removed_of_not_mem fun line hline hmem => ?_
      exact hnew argv List.mem_cons_self line hmem (Rule.numbered hr line hline)
    have hset : Runs (call k.set v argv) e w fun ret t =>
        ret = cmdSuccess ∧ t.configTop = listnodeAddSort info w.configTop := by
      rw [runs_set fun ret t ht => ht.1]
      exact ⟨r, info, hr, hfits, hinfo, rfl, by rw [World.setConfig_configTop, hremoved]⟩
    rw [setRules, runs_bind]
    refine hset.mono fun ret t ht => ?_
    obtain ⟨-, hconfig⟩ := ht
    have hnew' : ∀ a ∈ order, ∀ line ∈ t.configTop, ¬ Numbered k (ruleNumber a) line := by
      intro a ha line hline hnumbered
      rw [hconfig, mem_insertAfter] at hline
      rcases hline with rfl | hline
      · have heq := hnumbered.eq (Rule.numbered_printed hr hnum hinfo)
          (h.numbers a (List.mem_cons_of_mem _ ha)) hnum
        refine (List.pairwise_cons.mp h.distinct).1 a ha ?_
        rw [heq]
      · exact hnew a (List.mem_cons_of_mem _ ha) line hline hnumbered
    have hsorted : t.configTop.Pairwise (· ≤ ·) := by
      rw [hconfig]
      exact sorted_insertAfter hs
    refine (ih hrest hsorted hnew').mono fun _ u hu => ⟨hu.1, hu.2.trans ?_⟩
    rw [hconfig, List.map_cons, printedLine_eq hr hinfo, List.cons_append]
    exact ((perm_insertAfter info w.configTop).append_left _).trans List.perm_middle

/-! ## The order of the dump -/

/-- The lines of a list, as `config_dump` writes them. -/
def dumpLines (lines : List Str) : Str := lines.flatMap fun line => line ++ str "\n"

/-- In whatever order the rules are entered, into a store without rules of their kind, `config_dump`
writes their lines together and in the order of their numbers. -/
def KeepsOrder (k : RuleKind) (rules : List (List Str)) : Prop :=
  ∀ (e : Env) (w : World) (v : VtyRef) (order : List (List Str)),
    ShellReach e (fun _ => True) w → (∀ line ∈ w.configTop, ¬ k.keyword <+: line) →
    order.Perm rules → Runs (setRules k v order) e w fun _ t =>
      ∃ (before after : List Str) (sorted : List (List Str)), sorted.Perm rules ∧
      sorted.Pairwise (fun a b => decimal (ruleNumber a) < decimal (ruleNumber b)) ∧
      (∀ line ∈ before ++ after, ¬ k.keyword <+: line) ∧
      ∀ timestr : Timestr, configDump t.configTop (some timestr) =
        str "#Writed on " ++ timestr.text ++ str "\n" ++
          dumpLines (before ++ sorted.map (printedLine k) ++ after) ++ str "!\n"

/-- The numbers come in the same order as texts. -/
def DictionaryOrder (rules : List (List Str)) : Prop :=
  ∀ a ∈ rules, ∀ b ∈ rules, decimal (ruleNumber a) < decimal (ruleNumber b) →
    ruleNumber a < ruleNumber b

theorem RuleSet.numbered (h : RuleSet k rules) (hmem : argv ∈ rules) :
    Numbered k (ruleNumber argv) (printedLine k argv) := by
  obtain ⟨r, info, hr, -, hinfo⟩ :=
    accepts_set.mp (h.accepted argv hmem obligingEnv emptyShell .vty)
  rw [printedLine_eq hr hinfo]
  exact Rule.numbered_printed hr (h.numbers argv hmem) hinfo

/-- Lines of the set stand in the order of their numbers as texts. -/
theorem RuleSet.line_lt_iff (h : RuleSet k rules) {a b : List Str} (ha : a ∈ rules)
    (hb : b ∈ rules) (hne : decimal (ruleNumber a) ≠ decimal (ruleNumber b)) :
    printedLine k a < printedLine k b ↔ ruleNumber a < ruleNumber b := by
  refine (h.numbered ha).lt_iff (h.numbered hb) (h.numbers a ha) (h.numbers b hb) ?_
  exact fun heq => hne (congrArg decimal heq)

/-- The rules in the order of their numbers. -/
theorem RuleSet.exists_sorted (h : RuleSet k rules) : ∃ sorted : List (List Str),
    sorted.Perm rules ∧
    sorted.Pairwise (fun a b => decimal (ruleNumber a) < decimal (ruleNumber b)) := by
  have hperm := List.perm_insertionSort
    (fun a b : List Str => decimal (ruleNumber a) ≤ decimal (ruleNumber b)) rules
  refine ⟨_, hperm, ?_⟩
  have hle := List.pairwise_insertionSort
    (fun a b : List Str => decimal (ruleNumber a) ≤ decimal (ruleNumber b)) rules
  exact (hle.and (h.perm hperm).distinct).imp fun hab => lt_of_le_of_ne hab.1 hab.2

theorem keepsOrder_of_dictionaryOrder (h : RuleSet k rules) (hdict : DictionaryOrder rules) :
    KeepsOrder k rules := by
  intro e w v order hreach hnone hperm
  have horder := h.perm hperm
  have hnew : ∀ argv ∈ order, ∀ line ∈ w.configTop, ¬ Numbered k (ruleNumber argv) line :=
    fun argv _ line hline hnumbered => hnone line hline hnumbered.isPrefix
  refine (runs_setRules horder hreach.sorted hnew).mono fun _ t ht => ?_
  obtain ⟨hlines, hall⟩ := ht
  obtain ⟨before, after, hsplit, hbefore, hafter⟩ :=
    exists_block hlines (k.keyword.isPrefixOf ·) fun a b c hab hbc ha hc => by
      rw [List.isPrefixOf_iff_prefix] at ha hc ⊢
      exact isPrefix_of_between hab hbc ha hc
  obtain ⟨sorted, hsorted, hnumbers⟩ := h.exists_sorted
  have hmem : ∀ a ∈ sorted, a ∈ rules := fun a ha => hsorted.subset ha
  -- the block holds the lines of the rules, and both are sorted
  have hblock : (t.configTop.filter (k.keyword.isPrefixOf ·)).Perm
      (sorted.map (printedLine k)) := by
    have hfilter := hall.filter (k.keyword.isPrefixOf ·)
    have hrules : ((order.map (printedLine k)).filter (k.keyword.isPrefixOf ·)) =
        order.map (printedLine k) := by
      refine List.filter_eq_self.mpr fun line hline => ?_
      obtain ⟨a, ha, rfl⟩ := List.mem_map.mp hline
      exact List.isPrefixOf_iff_prefix.mpr (horder.numbered ha).isPrefix
    have hothers : w.configTop.filter (k.keyword.isPrefixOf ·) = [] := by
      refine List.filter_eq_nil_iff.mpr fun line hline hp => ?_
      exact hnone line hline (List.isPrefixOf_iff_prefix.mp hp)
    rw [List.filter_append, hrules, hothers, List.append_nil] at hfilter
    exact hfilter.trans ((hperm.trans hsorted.symm).map _)
  have hdictsorted : (sorted.map (printedLine k)).Pairwise (· ≤ ·) := by
    rw [List.pairwise_map]
    refine hnumbers.imp_of_mem fun {a b} ha hb hab => ?_
    have hlt := hdict a (hmem a ha) b (hmem b hb) hab
    exact ((h.line_lt_iff (hmem a ha) (hmem b hb) hab.ne).mpr hlt).le
  have heq := hblock.eq_of_pairwise' (hlines.sublist List.filter_sublist) hdictsorted
  refine ⟨before, after, sorted, hsorted, hnumbers, ?_, fun timestr => ?_⟩
  · intro line hline
    rw [← List.isPrefixOf_iff_prefix]
    rcases List.mem_append.mp hline with hline | hline
    · simp [hbefore line hline]
    · simp [hafter line hline]
  · rw [← heq, ← hsplit]
    rfl

/-- The arguments of a rule that is entered are tokens, so its line has no end inside. -/
theorem RuleSet.newline_not_mem (h : RuleSet k rules) (hmem : argv ∈ rules) :
    '\n' ∉ printedLine k argv := by
  obtain ⟨r, info, hr, -, hinfo⟩ :=
    accepts_set.mp (h.accepted argv hmem obligingEnv emptyShell .vty)
  obtain ⟨i, node, hstands⟩ := h.entered argv hmem
  rw [printedLine_eq hr hinfo]
  intro hnl
  have hline := vasprintf_subset hinfo hnl
  rw [Rule.line_eq hr, List.mem_append] at hline
  rcases hline with hline | hline
  · revert hline
    cases k <;> decide
  · rcases mem_unwords hline with hblank | ⟨arg, harg, hnl⟩
    · cases hblank
    · exact (hstands.args arg harg).1.not_mem rfl hnl

theorem length_dumpLines (lines : List Str) :
    (dumpLines lines).length = (lines.map fun line => line.length + 1).sum := by
  simp [dumpLines, List.length_flatMap, str]

theorem dumpLines_append (lines lines' : List Str) :
    dumpLines (lines ++ lines') = dumpLines lines ++ dumpLines lines' :=
  List.flatMap_append

/-- A dump with the lines of a list between others, and no more text than those, has no others. -/
theorem eq_of_dumpLines_eq {config before mid after : List Str} (hperm : config.Perm mid)
    (hlines : ∀ line ∈ mid, '\n' ∉ line)
    (h : dumpLines config = dumpLines (before ++ mid ++ after)) : config = mid := by
  have hlength := congrArg List.length h
  rw [dumpLines_append, dumpLines_append, List.length_append, List.length_append,
    length_dumpLines config, length_dumpLines mid, (hperm.map _).sum_eq] at hlength
  have hnil : ∀ lines : List Str, (dumpLines lines).length = 0 → lines = [] := by
    intro lines hzero
    cases lines with
    | nil => rfl
    | cons line lines =>
      rw [length_dumpLines, List.map_cons, List.sum_cons] at hzero
      omega
  obtain rfl := hnil before (by omega)
  obtain rfl := hnil after (by omega)
  rw [List.nil_append, List.append_nil] at h
  exact unlines_inj (fun line hline => hlines line (hperm.subset hline)) hlines h

/-- From the empty store already: the order is kept only if the numbers come in the same order as
texts. -/
theorem dictionaryOrder_of_keepsOrder (h : RuleSet k rules) (hkeeps : KeepsOrder k rules) :
    DictionaryOrder rules := by
  have hreach : ShellReach obligingEnv (fun _ => True) emptyShell := .init rfl
  have hrun := hkeeps obligingEnv emptyShell .vty rules hreach nofun (List.Perm.refl _)
  have hlines := runs_setRules (e := obligingEnv) (v := .vty) h hreach.sorted nofun
  obtain ⟨_, t, hdone, before, after, sorted, hsorted, hnumbers, -, hdump⟩ := runs_iff.mp hrun
  obtain ⟨hpairwise, hperm⟩ := hlines.sat.of_done hdone
  have hmem : ∀ a ∈ sorted, a ∈ rules := fun a ha => hsorted.subset ha
  have hconfig : t.configTop = sorted.map (printedLine k) := by
    have htext := hdump ⟨[], by decide, by decide⟩
    have hcancel := List.append_cancel_left (List.append_cancel_right htext)
    refine eq_of_dumpLines_eq ?_ ?_ hcancel
    · have hnone : emptyShell.configTop = [] := rfl
      rw [hnone, List.append_nil] at hperm
      exact hperm.trans (hsorted.symm.map _)
    · intro line hline
      obtain ⟨a, ha, rfl⟩ := List.mem_map.mp hline
      exact h.newline_not_mem (hmem a ha)
  rw [hconfig, List.pairwise_map] at hpairwise
  intro a ha b hb hab
  have hle : printedLine k a ≤ printedLine k b := by
    have hforward : sorted.Pairwise fun x y =>
        decimal (ruleNumber x) < decimal (ruleNumber y) → printedLine k x ≤ printedLine k y := by
      refine hpairwise.imp ?_
      intro x y hxy _
      exact hxy
    have hbackward : sorted.Pairwise fun x y =>
        decimal (ruleNumber y) < decimal (ruleNumber x) → printedLine k y ≤ printedLine k x := by
      refine hnumbers.imp ?_
      intro x y hxy hyx
      exact absurd hxy hyx.not_gt
    have hall := hforward.forall_of_forall_of_flip (fun _ _ hlt => absurd hlt (lt_irrefl _))
      hbackward
    exact hall (hsorted.symm.subset ha) (hsorted.symm.subset hb) hab
  by_contra hnot
  have hne : ruleNumber b ≠ ruleNumber a := fun heq => hab.ne (congrArg decimal heq.symm)
  have hlt : ruleNumber b < ruleNumber a := lt_of_le_of_ne (not_lt.mp hnot) hne
  exact absurd hle (not_le.mpr ((h.line_lt_iff hb ha hab.ne').mpr hlt))

end

/-- The rules of a set are dumped in the order of their numbers, however they are entered, exactly
when their numbers come in the same order as texts. -/
theorem keepsOrder_iff (k : RuleKind) (rules : List (List Str)) (h : RuleSet k rules) :
    KeepsOrder k rules ↔ DictionaryOrder rules :=
  ⟨dictionaryOrder_of_keepsOrder h, keepsOrder_of_dictionaryOrder h⟩

/-- A rule that is entered by its own line, passes its checks and is printed as it stands. -/
def PlainRule (a : FilterArgs) : Prop :=
  cmdMakeStrvec (cstr a.line) = some (str "sfirewall" :: str "filter" :: a.toArgv) ∧
    cmdLookup .byCompletion (cmdNodeVector .config)
      (str "sfirewall" :: str "filter" :: a.toArgv) = .run filterElement a.toArgv ∧
    a.checks.all ArgCheck.passes = true ∧ a.line.length < 1024 ∧ '%' ∉ a.line

instance (a : FilterArgs) : Decidable (PlainRule a) :=
  inferInstanceAs (Decidable (_ ∧ _ ∧ _ ∧ _ ∧ _))

section
variable {a : FilterArgs}

theorem PlainRule.entered (h : PlainRule a) :
    ∃ i : Input, ∃ node, i.StandsFor node .sfirewallFilterRules a.toArgv := by
  obtain ⟨hwords, hlookup, -⟩ := h
  exact ⟨.typed a.line, .config, _, filterElement, hwords, hlookup, rfl⟩

theorem PlainRule.accepted (h : PlainRule a) (e : Env) (w : World) (v : VtyRef) :
    Accepts (call RuleKind.filter.set v a.toArgv) e w := by
  obtain ⟨-, -, hpass, hlen, hplain⟩ := h
  exact accepts_set.mpr ⟨_, a.line, rfl, ⟨hpass, hlen⟩, vasprintf_self_iff.mpr hplain⟩

end

/-- A rule that differs from others in its number only. -/
def numberedRule (num : Str) : FilterArgs where
  num := num
  zone := str "lan2wan"
  direction := str "fw"
  position := str "append"
  action := str "deny"
  proto := str "tcp"
  src := str "10.0.0.1/32"
  sport := str "any"
  dst := str "0.0.0.0/0"
  dport := str "any"
  day := str "any"
  fromtime := str "any"
  totime := str "any"

/-- Its arguments. -/
def plainRule (num : Str) : List Str := (numberedRule num).toArgv

theorem ruleSet_plainRules {nums : List Str} (h : ∀ num ∈ nums, PlainRule (numberedRule num))
    (hnumbers : ∀ num ∈ nums, IsNumber num)
    (hdistinct : nums.Pairwise fun a b => decimal a ≠ decimal b) :
    RuleSet .filter (nums.map plainRule) where
  entered argv hmem := by
    obtain ⟨num, hnum, rfl⟩ := List.mem_map.mp hmem
    exact (h num hnum).entered
  accepted argv hmem e w v := by
    obtain ⟨num, hnum, rfl⟩ := List.mem_map.mp hmem
    exact (h num hnum).accepted e w v
  numbers argv hmem := by
    obtain ⟨num, hnum, rfl⟩ := List.mem_map.mp hmem
    exact hnumbers num hnum
  distinct := by
    rw [List.pairwise_map]
    exact hdistinct

theorem keepsOrder_iff_1_2 :
    KeepsOrder .filter ([str "1", str "2"].map plainRule) ↔
      DictionaryOrder ([str "1", str "2"].map plainRule) :=
  keepsOrder_iff .filter ([str "1", str "2"].map plainRule)
    (ruleSet_plainRules (by decide +kernel) (by decide) (by decide))

/-- Rule 10 is written in front of rule 9. -/
theorem not_keepsOrder_9_10 :
    ¬ ∀ (k : RuleKind) (rules : List (List Str)), RuleSet k rules → KeepsOrder k rules := by
  intro h
  have hset : RuleSet .filter ([str "9", str "10"].map plainRule) :=
    ruleSet_plainRules (by decide +kernel) (by decide) (by decide)
  have hdict := dictionaryOrder_of_keepsOrder hset (h _ _ hset)
  have hlt := hdict (plainRule (str "9")) (by decide) (plainRule (str "10")) (by decide) (by decide)
  revert hlt
  decide

end QrWireguard.Vtysh
