import QrWireguard.Vtysh.FilterStanza

/-!
# Applying the filter rules

The run of `sfirewall_filter_rules_apply` over a file of stored rules: when every field fits its
buffer, the rule file is a line break and the stanzas of the rules in their order. Nothing else is
said of a rule than its stanza, so what is not in the options is lost.
-/

namespace QrWireguard.Vtysh
open Cli Proc

/-! ## One line -/

section
variable {e : Env} {w : World} {a : FilterArgs} {argv : List Str} {count i : Nat}

/-- The copies of the words fit, and the words are there. -/
theorem runs_ruleParams {size : Nat} {text : Str} {Q : Option (List Str) → World → Prop} :
    Runs (ruleParams count size text) e w Q ↔
      (∀ s ∈ (strtok ' ' text).take count, s.length < size) ∧
        Q (if ((strtok ' ' text).take count).length < count then none
          else some ((strtok ' ' text).take count)) w := by
  let copy : Str → Cli Unit := fun s => do
    let _ ← sprintf size s
  have hcopies : ∀ (params : List Str) (Q : Unit → World → Prop),
      Runs (params.forM copy) e w Q ↔ (∀ s ∈ params, s.length < size) ∧ Q () w := by
    intro params Q
    induction params with
    | nil => simp [Runs, pure]
    | cons s params ih =>
      change Runs (copy s >>= fun _ => params.forM copy) e w Q ↔ _
      rw [runs_bind, runs_bind, runs_sprintf, List.forall_mem_cons, and_assoc]
      exact and_congr_right fun _ => ih
  unfold ruleParams
  rw [runs_bind, hcopies]
  rfl

theorem isWord_blank_of_isToken {s : Str} (h : IsToken s) : IsWord (· == ' ') s := by
  refine h.of_imp fun c hc => ?_
  rw [beq_iff_eq.mp hc]
  rfl

/-- The words of a stored rule are its fields. -/
theorem StoredAs.words (h : StoredAs argv a) :
    strtok ' ' (unwords ' ' a.toArgv) = a.toArgv :=
  words_unwords rfl fun field hfield => isWord_blank_of_isToken (h.token field hfield).1

theorem StoredAs.plain_line (h : StoredAs argv a) : '\x00' ∉ a.line ∧ '\n' ∉ a.line := by
  have hchar : ∀ c : Char, c ≠ ' ' → c ∉ str "sfirewall filter " →
      (∀ field ∈ a.toArgv, c ∉ field) → c ∉ a.line := by
    intro c hblank hkeyword hfields hmem
    rcases List.mem_append.mp hmem with hmem | hmem
    · exact hkeyword hmem
    · rcases mem_unwords hmem with heq | ⟨field, hfield, hc⟩
      · exact hblank heq
      · exact hfields field hfield hc
  constructor
  · exact hchar _ (by decide) (by decide) fun field hfield => (h.token field hfield).2
  · exact hchar _ (by decide) (by decide) fun field hfield => (h.token field hfield).1.not_mem rfl

/-- The loop at a line that was read whole. -/
theorem runs_filterApplyLoop_line (h : StoredAs argv a) {lines : List Str}
    {Q : Unit → World → Prop} :
    Runs (filterApplyLoop i count ((a.line ++ ['\n']) :: lines)) e w Q ↔
      a.Short ∧ Runs (filterApplyLoop (nextActionIndex i a.action) (count + 1) lines) e
        (w.emit (.write RuleKind.filter.ruleFile (a.stanza count))) Q := by
  have hcstr : cstr (a.line ++ ['\n']) = a.line ++ ['\n'] := by
    apply cstr_of_not_mem
    simp [h.plain_line.1]
  have hne : a.line ++ ['\n'] ≠ [] := by simp
  have hprefix : (str "sfirewall filter").isPrefixOf a.line = true := rfl
  have hdrop : a.line.drop 17 = unwords ' ' a.toArgv := rfl
  have hparams : (strtok ' ' (a.line.drop 17)).take 13 = a.toArgv := by
    rw [hdrop, h.words]
    rfl
  have hcount : ¬ a.toArgv.length < 13 := by
    simp [FilterArgs.toArgv]
  have hargs : FilterArgs.ofArgv a.toArgv = some a := rfl
  rw [filterApplyLoop]
  simp only [hcstr, hne, if_false, List.dropLast_concat, hprefix, if_true]
  rw [runs_bind, runs_ruleParams, hparams, if_neg hcount, Option.bind_some, hargs]
  simp only [runs_bind, filterStanza_eq h.keywords.1 h.keywords.2]
  rfl

/-- The fields in front of the last one. -/
def FilterArgs.initFields (a : FilterArgs) : List Str := a.toArgv.dropLast

theorem line_eq_init (a : FilterArgs) :
    a.line = str "sfirewall filter " ++ (unwords ' ' a.initFields ++ ' ' :: a.totime) := by
  have hargs : a.toArgv = a.num :: a.initFields.tail ++ [a.totime] := rfl
  have hinit : a.initFields = a.num :: a.initFields.tail := rfl
  rw [FilterArgs.line, hargs, unwords_cons_append, ← hinit]
  simp [tailWords]

/-- Short fields make a short line. -/
theorem length_line_le (hinit : ∀ field ∈ a.initFields, field.length < 64) :
    a.line.length ≤ 17 + 12 * 64 + 1 + a.totime.length := by
  have hwords : (unwords ' ' a.initFields).length ≤ 12 * 64 := length_unwords_le hinit
  have hkeyword : (str "sfirewall filter ").length = 17 := rfl
  rw [line_eq_init, List.length_append, List.length_append, List.length_cons]
  omega

theorem FilterArgs.Short.length_line (h : a.Short) : a.line.length < 1023 := by
  have hline := length_line_le fun field hfield => h field (List.dropLast_subset _ hfield)
  have htotime := h a.totime (by simp [FilterArgs.toArgv])
  omega

/-- A line that fills the buffer loses its last byte, and one of its fields does not fit. -/
theorem not_runs_filterApplyLoop_full (h : StoredAs argv a) (hfull : a.line.length = 1023)
    {lines : List Str} {Q : Unit → World → Prop} :
    ¬ Runs (filterApplyLoop i count (a.line :: lines)) e w Q := by
  intro hrun
  have htotime := isWord_blank_of_isToken (h.token a.totime (by simp [FilterArgs.toArgv])).1
  have hcstr : cstr a.line = a.line := cstr_of_not_mem h.plain_line.1
  have hne : a.line ≠ [] := by
    intro hnil
    rw [hnil] at hfull
    cases hfull
  have hlast : a.line.dropLast =
      str "sfirewall filter " ++ (unwords ' ' a.initFields ++ ' ' :: a.totime.dropLast) := by
    rw [line_eq_init, List.dropLast_append_of_ne_nil (by simp),
      List.dropLast_append_of_ne_nil (by simp), List.dropLast_cons_of_ne_nil htotime.1]
  have hprefix : (str "sfirewall filter").isPrefixOf a.line.dropLast = true := by
    rw [hlast]
    rfl
  have hdrop : a.line.dropLast.drop 17 =
      unwords ' ' a.initFields ++ ' ' :: a.totime.dropLast := by
    rw [hlast]
    rfl
  have hfields : ∀ field ∈ a.initFields, IsWord (· == ' ') field := fun field hfield =>
    isWord_blank_of_isToken (h.token field (List.dropLast_subset _ hfield)).1
  have hwords : strtok ' ' (a.line.dropLast.drop 17) =
      a.initFields ++ strtok ' ' a.totime.dropLast := by
    rw [hdrop]
    exact words_unwords_append rfl (List.cons_ne_nil _ _) hfields _
  rw [filterApplyLoop] at hrun
  simp only [hcstr, hne, if_false, hprefix, if_true] at hrun
  rw [runs_bind, runs_ruleParams, hwords] at hrun
  have hshort := hrun.1
  have hlen : a.initFields.length = 12 := rfl
  -- the rest of the last field is one word, or nothing
  have hrest : strtok ' ' a.totime.dropLast = [a.totime.dropLast] ∨ a.totime.dropLast = [] := by
    by_cases hnil : a.totime.dropLast = []
    · exact .inr hnil
    · exact .inl (words_self ⟨hnil, fun c hc => htotime.2 c (List.dropLast_subset _ hc)⟩)
  have hlong : a.totime.dropLast.length < 64 ∧ ∀ field ∈ a.initFields, field.length < 64 := by
    rcases hrest with hrest | hrest
    · rw [hrest, List.take_of_length_le (by simp [hlen])] at hshort
      exact ⟨hshort _ (by simp), fun field hfield => hshort field (by simp [hfield])⟩
    · rw [hrest, List.take_of_length_le (by simp [hlen, strtok])] at hshort
      refine ⟨?_, fun field hfield => hshort field (by simp [hfield])⟩
      rw [hrest]
      decide
  have hline := length_line_le hlong.2
  have htotal := hlong.1
  rw [List.length_dropLast] at htotal
  omega

/-! ## A file of rules -/

/-- The text written for a list of rules, the first of them behind `count` others. -/
def stanzas (count : Nat) (rules : List FilterArgs) : Str :=
  (rules.zipIdx count).flatMap fun p => p.1.stanza p.2

/-- The state after the stanzas are written. -/
def writeStanzas : Nat → List FilterArgs → World → World
  | _, [], w => w
  | count, a :: rules, w =>
    writeStanzas (count + 1) rules (w.emit (.write RuleKind.filter.ruleFile (a.stanza count)))

/-- Each rule is one the store can hold. -/
def AllStored (rules : List FilterArgs) : Prop := ∀ a ∈ rules, ∃ argv, StoredAs argv a

variable {rules : List FilterArgs}

theorem fgets_dumpLines (h : AllStored rules) :
    fgets 1024 (dumpLines (rules.map FilterArgs.line)) =
      (rules.map FilterArgs.line).flatMap (fgetsPieces 1023) := by
  have hfit : ∀ line ∈ rules.map FilterArgs.line, '\n' ∉ line ∧ line.length ≤ 1023 := by
    intro line hline
    obtain ⟨a, ha, rfl⟩ := List.mem_map.mp hline
    obtain ⟨argv, hstored⟩ := h a ha
    exact ⟨hstored.plain_line.2, Nat.le_of_lt_succ hstored.length_line⟩
  have hlines : fgetsLoop 1023 [] 1023 (dumpLines (rules.map FilterArgs.line) ++ []) =
      (rules.map FilterArgs.line).flatMap (fgetsPieces 1023) ++ [] :=
    fgetsLoop_lines (by decide) hfit
  rw [List.append_nil, List.append_nil] at hlines
  exact hlines

/-- The loop comes to its end exactly when all fields fit, and then it has written the stanzas. -/
theorem runs_filterApplyLoop (h : AllStored rules) {Q : Unit → World → Prop} :
    Runs (filterApplyLoop i count ((rules.map FilterArgs.line).flatMap (fgetsPieces 1023))) e w Q ↔
      (∀ a ∈ rules, a.Short) ∧ Q () (writeStanzas count rules w) := by
  induction rules generalizing i count w with
  | nil =>
    simp [filterApplyLoop, writeStanzas]
  | cons a rules ih =>
    obtain ⟨argv, hstored⟩ := h a List.mem_cons_self
    have hrest : AllStored rules := fun b hb => h b (List.mem_cons_of_mem _ hb)
    rw [List.map_cons, List.flatMap_cons, List.forall_mem_cons, fgetsPieces]
    by_cases hlen : a.line.length < 1023
    · rw [if_pos hlen, List.singleton_append, runs_filterApplyLoop_line hstored, ih hrest,
        and_assoc]
      rfl
    · rw [if_neg hlen, List.cons_append]
      have hfull : a.line.length = 1023 := by
        have hle := hstored.length_line
        omega
      refine iff_of_false (not_runs_filterApplyLoop_full hstored hfull) fun hshort => ?_
      exact hlen hshort.1.1.length_line

end

/-! ## The rule file -/

section
variable {fs : FileSystem} {e : Env} {init : Files} {w : World} {rules : List FilterArgs}

/-- What the first of two programs establishes and the second keeps. -/
theorem runs_seq {α β : Type} {p : Cli α} {f : α → Cli β} {I : World → Prop}
    (hp : Runs p e w fun _ t => I t) (hf : ∀ a t, I t → Runs (f a) e t fun _ u => I u) :
    Runs (p >>= f) e w fun _ u => I u := by
  rw [runs_bind]
  exact hp.mono fun a t ht => hf a t ht

/-- `apply_firewall_rules` leaves a file alone that exists and that no program changes. -/
theorem runs_applyFirewallRules {path text : Str}
    (hsystem : ∀ command files, files path ≠ none → fs.system command files path = files path)
    (hfile : fs.files e init w.trace path = some text) :
    Runs applyFirewallRules e w fun _ t => fs.files e init t.trace path = some text := by
  let I : World → Prop := fun t => fs.files e init t.trace path = some text
  have hstat : ∀ (p : Str) (t : World), I t → Runs (stat p) e t fun _ u => I u :=
    fun _ _ ht => ht
  have hsys : ∀ (command : Str) (t : World), I t → Runs (system command) e t fun _ u => I u := by
    intro command t ht
    have hsome : fs.files e init t.trace path ≠ none := by
      rw [ht]
      nofun
    exact (hsystem command _ hsome).trans ht
  have htouch : ∀ (p : Str) (t : World), I t → Runs (touchMissing p) e t fun _ u => I u := by
    intro p t ht
    refine runs_seq (hstat _ _ ht) fun found u hu => ?_
    rw [runs_ite]
    exact ⟨fun _ => runs_seq (hsys _ _ hu) fun _ _ h => h, fun _ => hu⟩
  refine runs_seq (hstat _ _ hfile) fun found t ht => ?_
  rw [runs_ite]
  refine ⟨fun _ => runs_seq (hsys _ _ ht) fun _ t ht => ?_, fun _ => ?_⟩
  all_goals
    refine runs_seq (htouch _ _ ht) fun _ t ht => runs_seq (htouch _ _ ht) fun _ t ht => ?_
    refine runs_seq (htouch _ _ ht) fun _ t ht => runs_seq (hsys _ _ ht) fun _ t ht => ?_
    refine runs_seq (hsys _ _ ht) fun _ t ht => runs_seq (hsys _ _ ht) fun _ t ht => ?_
    refine runs_seq (hsys _ _ ht) fun _ t ht => runs_seq (hsys _ _ ht) fun _ t ht => ?_
    exact runs_seq (hsys _ _ ht) fun _ t ht => ht

theorem files_writeStanzas (hflushed : ∀ older, fs.flushed older = true) (count : Nat)
    (rules : List FilterArgs) (w : World) :
    fs.files e init (writeStanzas count rules w).trace RuleKind.filter.ruleFile =
      (fs.files e init w.trace RuleKind.filter.ruleFile).map (· ++ stanzas count rules) := by
  induction rules generalizing count w with
  | nil => simp [writeStanzas, stanzas]
  | cons a rules ih =>
    rw [writeStanzas, ih, World.emit_trace, FileSystem.files, FileSystem.step, if_pos (hflushed _),
      Function.update_self, Option.map_map]
    refine Option.map_congr fun text _ => ?_
    simp [stanzas]

/-- Applied to a file of these rules, one in a line, the command succeeds and leaves this text in the
rule file, when written text arrives and no program changes the rule file that is there. -/
def Emits (rules : List FilterArgs) (text : Str) : Prop :=
  ∀ (fs : FileSystem) (e : Env) (init : Files) (w : World) (v : VtyRef) (argv : List Str),
    (∀ older, fs.flushed older = true) →
    (∀ command files, files RuleKind.filter.ruleFile ≠ none →
      fs.system command files RuleKind.filter.ruleFile = files RuleKind.filter.ruleFile) →
    e.openWrite w.trace RuleKind.filter.ruleFile = true →
    e.openRead (openingEvents .filter w.trace) RuleKind.filter.inputFile =
      some (dumpLines (rules.map FilterArgs.line)) →
    Runs (call RuleKind.filter.apply v argv) e w fun ret t =>
      ret = cmdSuccess ∧ fs.files e init t.trace RuleKind.filter.ruleFile = some text

/-- The stanzas are emitted exactly when every field fits its buffer. -/
theorem emits_iff (h : AllStored rules) :
    Emits rules (str "\n" ++ stanzas 0 rules) ↔ ∀ a ∈ rules, a.Short := by
  constructor
  · intro hemits
    have hrun := hemits { stillFiles with flushed := fun _ => true }
      { obligingEnv with openRead := fun _ _ => some (dumpLines (rules.map FilterArgs.line)) }
      (fun _ => none) emptyShell .vty [] (fun _ => rfl) (fun _ _ _ => rfl) rfl rfl
    rw [runs_apply_read rfl rfl] at hrun
    change Runs (filterApplyLoop 0 0 _) _ _ _ at hrun
    rw [fgets_dumpLines h, runs_filterApplyLoop h] at hrun
    exact hrun.1
  · intro hshort fs e init w v argv hflushed hsystem hwrite hread
    rw [runs_apply_read hwrite hread]
    change Runs (filterApplyLoop 0 0 _) _ _ _
    rw [fgets_dumpLines h, runs_filterApplyLoop h]
    refine ⟨hshort, (runs_applyFirewallRules hsystem ?_).mono fun _ t ht => ⟨rfl, ht⟩⟩
    rw [files_writeStanzas hflushed]
    simp [FileSystem.files, FileSystem.step, hwrite, hflushed]

end

/-! ## What gets lost -/

/-- Nothing is lost of a list of rules: one stanza is emitted for each in their order, every option
has a value of its form, and rules with the same stanza are the same. -/
structure LosesNothing (rules : List FilterArgs) : Prop where
  emits : Emits rules (str "\n" ++ stanzas 0 rules)
  form : ∀ p ∈ rules.zipIdx, ∀ entry ∈ entries OptionKey.all (p.1.value p.2),
    entry.1.Form entry.2
  determines : ∀ a ∈ rules, ∀ b ∈ rules, ∀ count, a.stanza count = b.stanza count → a.SameRule b

/-- Nothing is lost exactly when the fields fit their buffers, have the forms of their options, and
no two rules agree in all that goes into options and differ in the direction or the end time. -/
theorem losesNothing_iff (rules : List FilterArgs) (h : AllStored rules) :
    LosesNothing rules ↔ (∀ a ∈ rules, a.Short ∧ a.Expressible) ∧
      ∀ a ∈ rules, ∀ b ∈ rules, a.SameOptions b →
        a.direction = b.direction ∧ a.totime = b.totime := by
  constructor
  · rintro ⟨hemits, hform, hdetermines⟩
    refine ⟨fun a ha => ⟨(emits_iff h).mp hemits a ha, ?_⟩, fun a ha b hb hsame => ?_⟩
    · obtain ⟨argv, hstored⟩ := h a ha
      obtain ⟨n, hn, rfl⟩ := List.getElem_of_mem ha
      refine (form_options_iff hstored).mp (hform (rules[n], n) ?_)
      exact List.mk_mem_zipIdx_iff_getElem?.mpr (List.getElem?_eq_getElem hn)
    · obtain ⟨argv, hstored⟩ := h a ha
      obtain ⟨argv', hstored'⟩ := h b hb
      have hrule := hdetermines a ha b hb 0 ((stanza_eq_iff hstored hstored').mpr hsame)
      exact ⟨hrule.direction, hrule.totime⟩
  · rintro ⟨hfields, hpairs⟩
    refine ⟨(emits_iff h).mpr fun a ha => (hfields a ha).1, fun p hp => ?_, ?_⟩
    · have hmem : p.1 ∈ rules := List.fst_mem_of_mem_zipIdx hp
      obtain ⟨argv, hstored⟩ := h p.1 hmem
      exact (form_options_iff hstored).mpr (hfields p.1 hmem).2
    · intro a ha b hb count hstanza
      obtain ⟨argv, hstored⟩ := h a ha
      obtain ⟨argv', hstored'⟩ := h b hb
      have hsame := (stanza_eq_iff hstored hstored').mp hstanza
      obtain ⟨hdirection, htotime⟩ := hpairs a ha b hb hsame
      exact ⟨hsame.zone, hdirection, hsame.action, hsame.proto, hsame.src, hsame.sport, hsame.dst,
        hsame.dport, hsame.day, hsame.fromtime, htotime⟩

theorem PlainRule.storedAs {a : FilterArgs} (h : PlainRule a) : StoredAs a.toArgv a := by
  refine ⟨h.entered, h.accepted, List.forall₂_same.mpr fun field hfield => ?_⟩
  obtain ⟨-, -, -, -, hplain⟩ := h
  refine vasprintf_self_iff.mpr fun hmem => hplain ?_
  exact List.mem_append.mpr (.inr (mem_unwords_of_mem hfield hmem))

/-- A rule for packets that come in. -/
def inRule : FilterArgs where
  num := str "1"
  zone := str "lan2wan"
  direction := str "in"
  position := str "append"
  action := str "deny"
  proto := str "tcp"
  src := str "10.0.0.1/32"
  sport := str "any"
  dst := str "0.0.0.0/0"
  dport := str "80"
  day := str "mon|tue"
  fromtime := str "09:00"
  totime := str "21:00"

/-- The same rule for packets that go out. -/
def outRule : FilterArgs := { inRule with direction := str "out" }

theorem losesNothing_iff_inRule :
    LosesNothing [inRule] ↔ (∀ a ∈ [inRule], a.Short ∧ a.Expressible) ∧
      ∀ a ∈ [inRule], ∀ b ∈ [inRule], a.SameOptions b →
        a.direction = b.direction ∧ a.totime = b.totime := by
  have hplain : PlainRule inRule := by decide +kernel
  refine losesNothing_iff [inRule] fun a ha => ?_
  rw [List.mem_singleton.mp ha]
  exact ⟨_, hplain.storedAs⟩

/-- The two rules have the same stanza. -/
theorem not_losesNothing : ¬ ∀ rules : List FilterArgs, AllStored rules → LosesNothing rules := by
  intro h
  have hplain : ∀ a ∈ [inRule, outRule], PlainRule a := by decide +kernel
  have hloses := h [inRule, outRule] fun a ha => ⟨_, (hplain a ha).storedAs⟩
  have hsame := hloses.determines inRule (.head _) outRule (.tail _ (.head _)) 0 rfl
  have hdirection := hsame.direction
  revert hdirection
  decide

end QrWireguard.Vtysh
