import Mathlib.Data.List.ReduceOption
import QrWireguard.Misc.Run
import QrWireguard.Vtysh.Keys

/-!
# From a line to a handler

Where the arguments of a handler come from, what an executed line may do, and the runs of the
shell: lines typed at the terminal and lines read from a file, in any order.
-/

namespace QrWireguard.Vtysh
open Cli Proc

theorem except_map_eq_ok {ε α β : Type} {f : α → β} {x : Except ε α} {b : β}
    (h : x.map f = .ok b) : ∃ a, x = .ok a ∧ f a = b := by
  cases x with
  | error err => cases h
  | ok a => exact ⟨a, rfl, Except.ok.inj h⟩

/-! ## Arguments are words of the line -/

theorem mem_unquote {s : Str} {c : Char} (h : c ∈ unquote s) : c ∈ s ∨ c = ' ' ∨ c = '-' := by
  unfold unquote at h
  split at h
  · exact .inl h
  · next q quoted hq =>
    split at h
    · exact .inl h
    · next q' rest hrest =>
      have hquoted : ∀ x ∈ quoted, x ∈ s := fun x hx =>
        (List.dropWhile_sublist _).subset (hq ▸ List.mem_cons_of_mem _ hx)
      simp only [List.mem_append, List.mem_cons, List.mem_map, or_assoc] at h
      rcases h with h | rfl | ⟨d, hd, rfl⟩ | rfl | h
      · exact .inl ((List.takeWhile_sublist _).subset h)
      · exact .inr (.inl rfl)
      · split
        · exact .inr (.inr rfl)
        · exact .inl (hquoted d ((List.takeWhile_sublist _).subset hd))
      · exact .inr (.inl rfl)
      · refine .inl (hquoted c ((List.dropWhile_sublist (fun x => x != '"')).subset ?_))
        rw [hrest]
        exact List.mem_cons_of_mem _ h

/-- The words of a line are made of its bytes, and of dashes for quoted blanks. -/
theorem cmdMakeStrvec_words {s : Str} {vline : List Str} (h : cmdMakeStrvec s = some vline) :
    ∀ w ∈ vline, IsToken w ∧ ∀ c ∈ w, c ∈ s ∨ c = '-' := by
  unfold cmdMakeStrvec at h
  split at h
  · simp at h
  · next c cs hcs =>
    split at h
    · simp at h
    · intro w hw
      rw [← Option.some.inj h] at hw
      obtain ⟨htok, hmem⟩ := isWord_of_mem_words hw
      refine ⟨htok, fun d hd => ?_⟩
      have hd' := mem_unquote ((List.dropWhile_sublist _).subset (hcs ▸ hmem d hd))
      rcases hd' with hd' | rfl | hd'
      · exact .inl hd'
      · exact absurd (htok.2 _ hd) (by decide)
      · exact .inr hd'

theorem bindArgs_mem {strvec : List (List Str)} {varflag : Bool} {argv vline argv' : List Str}
    (h : bindArgs strvec varflag argv vline = some (.ok argv')) :
    ∀ w ∈ argv', w ∈ argv ∨ w ∈ vline := by
  induction vline generalizing strvec varflag argv with
  | nil =>
    simp only [bindArgs, Option.some.injEq, Except.ok.injEq] at h
    subst h
    exact fun w hw => .inl hw
  | cons word vline ih =>
    -- the next round starts with the arguments so far, and perhaps this word
    have hnext : ∀ {strvec varflag argv₂}, (∀ w ∈ argv₂, w ∈ argv ∨ w = word) →
        (if cmdArgcMax ≤ argv₂.length then some (.error cmdErrExeedArgcMax)
          else bindArgs strvec varflag argv₂ vline) = some (.ok argv') →
        ∀ w ∈ argv', w ∈ argv ∨ w ∈ word :: vline := by
      intro strvec varflag argv₂ hsub hrun w hw
      split at hrun
      · simp at hrun
      · rcases ih hrun w hw with hw | hw
        · rcases hsub w hw with hw | rfl
          · exact .inl hw
          · exact .inr (by simp)
        · exact .inr (by simp [hw])
    have hword : ∀ w ∈ argv ++ [word], w ∈ argv ∨ w = word := by simp
    have hsame : ∀ w ∈ argv, w ∈ argv ∨ w = word := fun w hw => .inl hw
    unfold bindArgs at h
    simp only at h
    split at h
    · exact hnext hword h
    · split at h
      · simp at h
      · split at h
        · exact hnext hword h
        · exact hnext hsame h
      · exact hnext hword h

/-- The command and the arguments a line stands for. -/
theorem cmdLookup_run {F : Type} {filter : Filter} {cmdVector : List (CmdElement F)}
    {vline argv : List Str} {e : CmdElement F}
    (h : cmdLookup filter cmdVector vline = .run e argv) :
    bindArgs e.strvec false [] vline = some (.ok argv) := by
  unfold cmdLookup at h
  split at h
  · simp at h
  · dsimp only at h
    split at h
    · split at h <;> simp at h
    · split at h
      · simp at h
      · simp at h
      · next hb =>
        injection h with he ha
        rw [← he, ← ha]
        exact hb
    · simp at h

theorem cmdLookup_argv {F : Type} {filter : Filter} {cmdVector : List (CmdElement F)}
    {vline argv : List Str} {e : CmdElement F}
    (h : cmdLookup filter cmdVector vline = .run e argv) : ∀ w ∈ argv, w ∈ vline :=
  fun w hw => (bindArgs_mem (cmdLookup_run h) w hw).resolve_left (by simp)

section Slots
variable {F : Type} {filter : Filter} {command : Str} {index : Nat} {e : CmdElement F}

/-- The filters only empty slots. -/
theorem mem_cmdFilter {matchType : MatchType} {v : List (Option (CmdElement F))}
    (h : some e ∈ (cmdFilter filter command index matchType v).2) : some e ∈ v := by
  induction v generalizing matchType with
  | nil => simp [cmdFilter] at h
  | cons slot v ih =>
    cases slot with
    | none =>
      simp only [cmdFilter, List.mem_cons, reduceCtorEq, false_or] at h ⊢
      exact ih h
    | some d =>
      unfold cmdFilter at h
      split at h
      · simp only [List.mem_cons, reduceCtorEq, false_or] at h
        exact List.mem_cons_of_mem _ (ih h)
      · simp only [List.mem_cons] at h
        rcases h with h | h
        · split at h
          · exact List.mem_cons.mpr (.inl h)
          · simp at h
        · exact List.mem_cons_of_mem _ (ih h)

/-- So does the check for ambiguity. -/
theorem mem_isCmdAmbiguous {type : MatchType} {matched : Option Str}
    {v v' : List (Option (CmdElement F))}
    (h : isCmdAmbiguous command index type matched v = .ok v') (hmem : some e ∈ v') :
    some e ∈ v := by
  induction v generalizing matched v' with
  | nil =>
    cases h
    simp at hmem
  | cons slot v ih =>
    cases slot with
    | none =>
      simp only [isCmdAmbiguous] at h
      obtain ⟨v₁, hv₁, rfl⟩ := except_map_eq_ok h
      simp only [List.mem_cons, reduceCtorEq, false_or] at hmem ⊢
      exact ih hv₁ hmem
    | some d =>
      simp only [isCmdAmbiguous] at h
      split at h
      · cases h
      · obtain ⟨v₁, hv₁, rfl⟩ := except_map_eq_ok h
        rcases List.mem_cons.mp hmem with hmem | hmem
        · split at hmem
          · exact List.mem_cons.mpr (.inl hmem)
          · cases hmem
        · exact List.mem_cons_of_mem _ (ih hv₁ hmem)

theorem mem_filterWords {v v' : List (Option (CmdElement F))} {vline : List Str} {i : Nat}
    {vararg : Bool} (h : filterWords filter index v vline = .ok (v', i, vararg))
    (hmem : some e ∈ v') : some e ∈ v := by
  induction vline generalizing index v with
  | nil =>
    cases h
    exact hmem
  | cons command vline ih =>
    unfold filterWords at h
    simp only at h
    split at h
    · cases h
      exact mem_cmdFilter hmem
    · split at h
      · cases h
      · next hv => exact mem_cmdFilter (mem_isCmdAmbiguous hv (ih h))

/-- The command a line stands for is one of the vector. -/
theorem cmdLookup_mem {cmdVector : List (CmdElement F)} {vline argv : List Str}
    (h : cmdLookup filter cmdVector vline = .run e argv) : e ∈ cmdVector := by
  unfold cmdLookup at h
  split at h
  · simp at h
  · next v index vararg hv =>
    dsimp only at h
    split at h
    · split at h <;> simp at h
    · next d hd =>
      split at h
      · simp at h
      · simp at h
      · injection h with he ha
        subst he
        have hmem : d ∈ v.reduceOption.filter fun e => vararg || decide (e.cmdsize ≤ index) := by
          rw [hd]
          simp
        simpa using mem_filterWords hv (List.reduceOption_mem_iff.mp (List.mem_of_mem_filter hmem))
    · simp at h

end Slots

/-! ## Executing a line -/

section Execute
variable {e : Env} {w : World} {v : VtyRef}

theorem sat_cmdExecute {filter : Filter} {vline : List Str} {Q : Int → World → Prop}
    (herr : ∀ code, Q code w)
    (hrun : ∀ elem argv, cmdLookup filter (cmdNodeVector (w.vtyOf v).node) vline =
      .run elem argv → Sat (call elem.func v argv) e w Q) :
    Sat (cmdExecute filter vline v) e w Q := by
  simp only [cmdExecute, sat_bind, sat_get]
  cases hl : cmdLookup filter (cmdNodeVector (w.vtyOf v).node) vline with
  | error code => exact herr code
  | run elem argv => exact hrun elem argv hl
  | undefined => exact sat_undefined

/-- What executing words does to the configuration, by the command they stand for. -/
theorem sat_cmdExecute_config {filter : Filter} {vline : List Str} {I : List Str → Prop}
    (hI : I w.configTop)
    (hstep : ∀ elem argv config config',
      cmdLookup filter (cmdNodeVector (w.vtyOf v).node) vline = .run elem argv → I config →
      Effect elem.func argv config config' → I config') :
    Sat (cmdExecute filter vline v) e w fun _ t => I t.configTop :=
  sat_cmdExecute (fun _ => hI) fun elem argv hl =>
    (call_effect elem.func v argv e w).mono fun _ _ ht => hstep elem argv _ _ hl hI ht

theorem sat_vtyshExecute_config {line : Str} {I : List Str → Prop} (hI : I w.configTop)
    (hstep : ∀ vline elem argv config config', cmdMakeStrvec (cstr line) = some vline →
      cmdLookup .byCompletion (cmdNodeVector (w.vtyOf .vty).node) vline = .run elem argv → I config →
      Effect elem.func argv config config' → I config') :
    Sat (vtyshExecute line) e w fun _ t => I t.configTop := by
  unfold vtyshExecute vtyshExecuteFunc
  cases hv : cmdMakeStrvec (cstr line) with
  | none => simpa using hI
  | some vline =>
    simp only [sat_bind]
    have hrun : Sat (cmdExecuteCommand vline .vty) e w fun _ t => I t.configTop :=
      sat_cmdExecute_config hI fun elem argv config config' =>
        hstep vline elem argv config config' hv
    refine hrun.mono fun r t ht => ?_
    simp only [sat_ite, sat_bind, sat_vtyOut, sat_pure]
    exact ⟨fun _ => ht, fun _ => ⟨fun _ => ht, fun _ => ⟨fun _ => ht, fun _ => ht⟩⟩⟩

theorem sat_configFromFileReport {buf : Str} {ret : Int} {Q : Unit → World → Prop}
    (h : ∀ text, Q () (w.emit (.out text))) (h' : Q () w) :
    Sat (configFromFileReport buf ret) e w Q := by
  simp only [configFromFileReport, sat_ite, sat_vtyOut, sat_pure]
  exact ⟨fun _ => h _, fun _ => ⟨fun _ => h _, fun _ => ⟨fun _ => h _, fun _ => h'⟩⟩⟩

/-- Does the line stand for a command that may change the configuration? -/
def editsLine (node : Node) (line : Str) : Bool :=
  match cmdMakeStrvec (cstr line) with
  | none => false
  | some vline =>
    match cmdLookup .byCompletion (cmdNodeVector node) vline with
    | .run elem _ => editsConfig elem.func
    | _ => false

theorem editsLine_end (node : Node) : editsLine node (str "end") = false := by
  cases node <;> decide +kernel

theorem editsLine_configureTerminal (node : Node) :
    editsLine node (str "configure terminal") = false := by
  cases node <;> decide +kernel

theorem effect_of_not_editsConfig {func : CmdFunc} {argv config config' : List Str}
    (hf : editsConfig func = false) (h : Effect func argv config config') : config' = config := by
  have hedits : edits func argv = [] := by cases func <;> first | rfl | cases hf
  have hundo : undoEdits func argv = [] := by cases func <;> first | rfl | cases hf
  rw [Effect, hedits, hundo] at h
  rcases h with h | ⟨-, h | h⟩
  · exact h
  · exact (Option.some.inj h).symm
  · exact (Option.some.inj h).symm

/-- Executing a line that stands for no such command. -/
theorem sat_vtyshExecute_of_not_editsLine {line : Str} {I : List Str → Prop}
    (hline : ∀ node, editsLine node line = false) (hI : I w.configTop) :
    Sat (vtyshExecute line) e w fun _ t => I t.configTop := by
  refine sat_vtyshExecute_config hI fun vline elem argv config config' hv hl hI' he => ?_
  have hf := hline (w.vtyOf .vty).node
  simp only [editsLine, hv, hl] at hf
  rwa [effect_of_not_editsConfig hf he]

theorem sat_configFromFileLine_config {buf : Str} {I : List Str → Prop} (hI : I w.configTop)
    (hstep : ∀ node vline elem argv config config', cmdMakeStrvec (cstr buf) = some vline →
      cmdLookup .byString (cmdNodeVector node) vline = .run elem argv → I config →
      Effect elem.func argv config config' → I config') :
    Sat (configFromFileLine buf) e w fun _ t => I t.configTop := by
  have hwords : ∀ w : World, I w.configTop →
      Sat (configFromFileWords buf (cmdMakeStrvec (cstr buf))) e w fun _ t => I t.configTop := by
    intro w hI
    cases hv : cmdMakeStrvec (cstr buf) with
    | none => exact hI
    | some vline =>
      have hrun : ∀ w : World, I w.configTop →
          Sat (cmdExecuteCommandStrict vline .myvty) e w fun _ t => I t.configTop := fun w hI =>
        sat_cmdExecute_config hI fun elem argv config config' => hstep _ vline elem argv config config' hv
      simp only [configFromFileWords, configFromFileRetry, sat_bind, sat_ite, sat_modify]
      refine (hrun w hI).mono fun ret t ht => ⟨fun _ => ?_, fun _ => ?_⟩
      · refine (sat_vtyshExecute_of_not_editsLine editsLine_end ht).mono fun _ t ht => ?_
        refine (sat_vtyshExecute_of_not_editsLine editsLine_configureTerminal ht).mono fun _ t ht => ?_
        refine (hrun _ (by simpa using ht)).mono fun _ t ht => ?_
        exact sat_configFromFileReport (fun _ => ht) ht
      · exact sat_configFromFileReport (fun _ => ht) ht
  simp only [configFromFileLine, sat_ite, sat_bind, sat_pure, sat_modify]
  exact ⟨fun _ => hI, fun _ => ⟨fun _ => hwords _ (by simpa using hI), fun _ => hwords _ hI⟩⟩

end Execute

end QrWireguard.Vtysh
