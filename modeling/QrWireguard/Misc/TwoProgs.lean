import QrWireguard.Misc.Prog

/-!
# Two programs that read, change and write back

Two programs that share a state, each of which reads and then makes one change. Whatever the
schedule, one makes its change first, and the other makes its own on top of it, with what it has
read of the states before or after the first change. When the second one starts only after the
first one has returned, the result is that of running one after the other.
-/

namespace QrWireguard

variable {σ α β : Type}

namespace Prog

/-- A program that only reads returns a value when it sees states with a property. -/
inductive Yields (I : σ → Prop) : Prog σ α → α → Prop
  | ret (a : α) : Yields I (.ret a) a
  | look {next : σ → Prog σ α} {a : α} (s : σ) (hs : I s) (h : Yields I (next s) a) :
      Yields I (.look next) a

/-- A program comes to its last step, a change, when it sees states with a property. -/
inductive Finishes (I : σ → Prop) : Prog σ α → (σ → α × σ) → Prop
  | look {next : σ → Prog σ α} {f : σ → α × σ} (s : σ) (hs : I s) (h : Finishes I (next s) f) :
      Finishes I (.look next) f
  | act (f : σ → α × σ) : Finishes I (.act (fun s => (f s).2) fun s => .ret (f s).1) f

variable {I J : σ → Prop}

theorem yields_read {f : σ → α} {a : α} (h : Yields I (Prog.read f) a) : ∃ s, I s ∧ a = f s := by
  cases h with
  | look s hs h =>
    cases h
    exact ⟨s, hs, rfl⟩

theorem Reads.yields_of_bind {R : α → Prop} {p : Prog σ α} {k : α → Prog σ β} {b : β}
    (hp : Reads R p) (h : Yields I (p >>= k) b) : ∃ a, R a ∧ Yields I p a ∧ Yields I (k a) b := by
  induction hp with
  | ret ha => exact ⟨_, ha, .ret _, h⟩
  | look _ ih =>
    cases h with
    | look s hs h =>
      obtain ⟨a, ha, hy, hk⟩ := ih s h
      exact ⟨a, ha, .look s hs hy, hk⟩

theorem Reads.finishes_of_bind {R : α → Prop} {p : Prog σ α} {k : α → Prog σ β} {f : σ → β × σ}
    (hp : Reads R p) (h : Finishes I (p >>= k) f) :
    ∃ a, R a ∧ Yields I p a ∧ Finishes I (k a) f := by
  induction hp with
  | ret ha => exact ⟨_, ha, .ret _, h⟩
  | look _ ih =>
    cases h with
    | look s hs h =>
      obtain ⟨a, ha, hy, hk⟩ := ih s h
      exact ⟨a, ha, .look s hs hy, hk⟩

theorem Finishes.mono {p : Prog σ α} {f : σ → α × σ} (h : Finishes I p f) (hIJ : ∀ s, I s → J s) :
    Finishes J p f := by
  induction h with
  | look s hs _ ih => exact .look s (hIJ s hs) ih
  | act f => exact .act f

theorem Finishes.change {giveUp : α → Prop} {change : (σ → α × σ) → Prop} {p : Prog σ α}
    {f : σ → α × σ} (h : Finishes I p f) (hp : p.Commits giveUp change) : change f := by
  induction h with
  | look s _ _ ih =>
    cases hp with
    | look hp => exact ih (hp s)
  | act f =>
    generalize heff : (fun s => (f s).2) = eff at hp
    generalize hnext : (fun s => (Prog.ret (f s).1 : Prog σ α)) = next at hp
    cases hp with
    | @act g hg =>
      have hfg : f = g := by
        funext s
        exact Prod.ext (Prog.ret.inj (congrFun hnext s)) (congrFun heff s)
      rw [hfg]
      exact hg

/-- Run alone, a program gives up or comes to its change. -/
theorem Commits.run_finishes {giveUp : α → Prop} {change : (σ → α × σ) → Prop} {p : Prog σ α}
    (h : p.Commits giveUp change) (s : σ) :
    (p.run s).2 = s ∨ ∃ f, Finishes (· = s) p f ∧ p.run s = f s := by
  induction h with
  | ret _ => exact .inl rfl
  | look _ ih =>
    rcases ih s with hsame | ⟨f, hf, hrun⟩
    · exact .inl hsame
    · exact .inr ⟨f, .look s rfl hf, hrun⟩
  | @act f _ => exact .inr ⟨f, .act f, rfl⟩

/-- Run alone, a program that sees one state makes the change it has come to. -/
theorem Finishes.run {p : Prog σ α} {f : σ → α × σ} {s : σ} (h : Finishes (· = s) p f) :
    p.run s = f s := by
  induction h with
  | look t ht _ ih =>
    obtain rfl : t = s := ht
    exact ih
  | act f => rfl

end Prog

namespace Pool
open Prog

variable {d t : Pool Bool σ α} {i : Bool} {giveUp : α → Prop} {change : Bool → (σ → α × σ) → Prop}

/-- One program makes its change first; the other one comes to its change having seen states
with a property, and makes it on top. -/
def Ordered (d t : Pool Bool σ α) (i : Bool) (seen : σ → σ → Prop) : Prop :=
  ∃ f g, Finishes (· = d.state) (d.progs i) f ∧
    Finishes (seen (f d.state).2) (d.progs !i) g ∧
    t.state = (g (f d.state).2).2 ∧ t.answer i = some (f d.state).1 ∧
    t.answer (!i) = some (g (f d.state).2).1

theorem run_answer_of_ret {a b : α} (h : d.progs i = .ret a) {schedule : List Bool}
    (hb : (d.run schedule).answer i = some b) : b = a := by
  have hkept := run_progs_of_ret h schedule
  rw [answer_eq_some, hkept] at hb
  exact (Prog.ret.inj hb).symm

/-- A program that has not given up at the end has a step left. -/
theorem look_or_act {change : (σ → α × σ) → Prop} {b : α}
    (hi : (d.progs i).Commits giveUp change) {schedule : List Bool}
    (hb : (d.run schedule).answer i = some b) (hgive : ¬ giveUp b) :
    (∃ next, d.progs i = .look next ∧ ∀ s, (next s).Commits giveUp change) ∨
      ∃ f : σ → α × σ, d.progs i = .act (fun s => (f s).2) fun s => .ret (f s).1 := by
  generalize hp : d.progs i = p at hi
  cases hi with
  | ret h =>
    rw [← run_answer_of_ret hp hb] at h
    exact absurd h hgive
  | look h => exact .inl ⟨_, rfl, h⟩
  | @act f h => exact .inr ⟨f, rfl⟩

theorem answer_eq_none {change : (σ → α × σ) → Prop} {b : α}
    (hi : (d.progs i).Commits giveUp change) {schedule : List Bool}
    (hb : (d.run schedule).answer i = some b) (hgive : ¬ giveUp b) : d.answer i = none := by
  unfold answer
  rcases look_or_act hi hb hgive with ⟨next, hp, -⟩ | ⟨f, hp⟩
  · rw [hp]
  · rw [hp]

/-- A program that is left alone makes its change. -/
theorem run_alone {change : (σ → α × σ) → Prop} {a b : α} (hother : d.progs (!i) = .ret a)
    (hi : (d.progs i).Commits giveUp change) {schedule : List Bool}
    (hb : (d.run schedule).answer i = some b) (hgive : ¬ giveUp b) :
    ∃ f, Finishes (· = d.state) (d.progs i) f ∧ f d.state = (b, (d.run schedule).state) := by
  have hne : (!i) ≠ i := by simp
  induction schedule generalizing d with
  | nil =>
    have hnone := answer_eq_none hi hb hgive
    rw [run_nil, hnone] at hb
    cases hb
  | cons k schedule ih =>
    by_cases equal : k = i
    · subst k
      have hother' : (d.step i).progs (!i) = .ret a := (step_progs_of_ne hne).trans hother
      rcases look_or_act hi hb hgive with ⟨next, hp, hnext⟩ | ⟨f, hp⟩
      · rw [run_cons] at hb ⊢
        obtain ⟨hstate, hprog⟩ := step_look hp
        obtain ⟨f, hf, hrun⟩ := ih hother' (hprog ▸ hnext d.state) hb
        rw [hstate] at hf hrun
        rw [hprog] at hf
        exact ⟨f, hp ▸ .look d.state rfl hf, hrun⟩
      · rw [run_cons] at hb ⊢
        obtain ⟨hstate, hprog⟩ := step_act hp
        have hret : ∀ j, ∃ a, (d.step i).progs j = .ret a := by
          intro j
          by_cases hj : j = i
          · exact ⟨(f d.state).1, hj ▸ hprog⟩
          · exact ⟨a, (Bool.eq_not_of_ne hj) ▸ hother'⟩
        rw [run_of_forall_ret hret, answer_eq_some, hprog] at hb
        rw [run_of_forall_ret hret, hstate]
        exact ⟨f, hp ▸ .act f, Prod.ext (Prog.ret.inj hb) rfl⟩
    · have hk : k = !i := Bool.eq_not_of_ne equal
      rw [run_cons, hk, step_ret hother] at hb ⊢
      exact ih hother hi hb

theorem Ordered.mono {seen seen' : σ → σ → Prop} (h : Ordered d t i seen)
    (hseen : ∀ after s, seen after s → seen' after s) : Ordered d t i seen' := by
  obtain ⟨f, g, hf, hg, hrest⟩ := h
  exact ⟨f, g, hf, hg.mono (hseen _), hrest⟩

/-- A step that only reads, taken by the program whose change comes first. -/
theorem Ordered.of_look_first {seen : σ → σ → Prop} {next : σ → Prog σ α}
    (hp : d.progs i = .look next) (h : Ordered (d.step i) t i seen) : Ordered d t i seen := by
  have hne : (!i) ≠ i := by simp
  obtain ⟨hstate, hnext⟩ := step_look hp
  obtain ⟨f, g, hf, hg, hrest⟩ := h
  rw [hstate] at hf hg hrest
  rw [hnext] at hf
  rw [step_progs_of_ne hne] at hg
  exact ⟨f, g, hp ▸ .look d.state rfl hf, hg, hrest⟩

/-- A step that only reads, taken by the program whose change comes second. -/
theorem Ordered.of_look_second {next : σ → Prog σ α} {seen : σ → σ → Prop}
    (hp : d.progs (!i) = .look next) (hseen : ∀ after, seen after d.state)
    (h : Ordered (d.step !i) t i seen) : Ordered d t i seen := by
  have hne : i ≠ !i := by simp
  obtain ⟨hstate, hnext⟩ := step_look hp
  obtain ⟨f, g, hf, hg, hrest⟩ := h
  rw [hstate] at hf hg hrest
  rw [hnext] at hg
  rw [step_progs_of_ne hne] at hf
  exact ⟨f, g, hf, hp ▸ .look d.state (hseen _) hg, hrest⟩

/-- When one program makes its change, the other one is left alone with the new state. -/
theorem ordered_of_act {b : Bool → α} {f : σ → α × σ}
    (hp : d.progs i = .act (fun s => (f s).2) fun s => .ret (f s).1)
    (hcommits : (d.progs !i).Commits giveUp (change !i)) {schedule : List Bool}
    (hb : ((d.step i).run schedule).answer (!i) = some (b !i)) (hgive : ¬ giveUp (b !i)) :
    Ordered d ((d.step i).run schedule) i fun after s => s = after := by
  have hne : (!i) ≠ i := by simp
  obtain ⟨hstate, hnext⟩ := step_act hp
  have hother : (d.step i).progs (!i) = d.progs (!i) := step_progs_of_ne hne
  obtain ⟨g, hg, hrun⟩ := run_alone (i := !i) (by rwa [Bool.not_not]) (hother ▸ hcommits) hb hgive
  rw [hstate] at hg hrun
  rw [hother] at hg
  refine ⟨f, g, hp ▸ .act f, hg, (congrArg Prod.snd hrun).symm, ?_, ?_⟩
  · exact answer_eq_some.mpr (run_progs_of_ret hnext schedule)
  · rw [hb, congrArg Prod.fst hrun]

/-- One program returns before the other one does. -/
def ReturnsFirst (d : Pool Bool σ α) (i : Bool) (schedule : List Bool) : Prop :=
  ∃ pre, pre <+: schedule ∧ (d.run pre).answer i ≠ none ∧ (d.run pre).answer (!i) = none

/-- One program makes its change first, and the other one comes to its change having seen the
states before and after that. -/
theorem run_ordered {b : Bool → α} (hcommits : ∀ i, (d.progs i).Commits giveUp (change i))
    {schedule : List Bool} (hb : ∀ i, (d.run schedule).answer i = some (b i))
    (hgive : ∀ i, ¬ giveUp (b i)) :
    ∃ i, ReturnsFirst d i schedule ∧
      Ordered d (d.run schedule) i fun after s => s = d.state ∨ s = after := by
  induction schedule generalizing d with
  | nil =>
    have hnone := answer_eq_none (hcommits true) (hb true) (hgive true)
    have hsome := hb true
    rw [run_nil, hnone] at hsome
    cases hsome
  | cons k schedule ih =>
    rcases look_or_act (hcommits k) (hb k) (hgive k) with ⟨next, hp, hnext⟩ | ⟨f, hp⟩
    · rw [run_cons] at hb ⊢
      obtain ⟨hstate, hprog⟩ := step_look hp
      have hcommits' : ∀ i, ((d.step k).progs i).Commits giveUp (change i) := by
        intro i
        by_cases equal : i = k
        · subst i
          rw [hprog]
          exact hnext d.state
        · rw [step_progs_of_ne equal]
          exact hcommits i
      obtain ⟨i, ⟨pre, hpre, hreturned⟩, hi⟩ := ih hcommits' hb
      rw [hstate] at hi
      refine ⟨i, ⟨k :: pre, List.cons_prefix_cons.mpr ⟨rfl, hpre⟩, hreturned⟩, ?_⟩
      by_cases equal : i = k
      · subst i
        exact hi.of_look_first hp
      · obtain rfl : k = !i := Bool.eq_not_of_ne (Ne.symm equal)
        exact hi.of_look_second hp fun _ => .inl rfl
    · rw [run_cons] at hb ⊢
      have hordered := ordered_of_act hp (hcommits !k) (hb !k) (hgive !k)
      have hother : (d.step k).progs (!k) = d.progs (!k) := step_progs_of_ne (by simp)
      have hbusy := answer_eq_none (hother ▸ hcommits !k) (hb !k) (hgive !k)
      have hreturned : (d.step k).answer k ≠ none := by
        rw [answer_eq_some.mpr (step_act hp).2]
        exact Option.some_ne_none _
      exact ⟨k, ⟨[k], List.cons_prefix_cons.mpr ⟨rfl, List.nil_prefix⟩, hreturned, hbusy⟩,
        hordered.mono fun _ _ hs => .inr hs⟩

/-- No program takes its first step while another one that has started is still busy. -/
def ApartFrom {ι : Type} [DecidableEq ι] (d : Pool ι σ α) (started : List ι) : List ι → Prop
  | [] => True
  | i :: schedule =>
    (d.answer i = none → i ∉ started → ∀ j ∈ started, d.answer j ≠ none) ∧
      ApartFrom (d.step i) (i :: started) schedule

/-- A program that has started makes its change before the other one starts. -/
theorem run_apart_of_started {b : Bool → α} (hi : (d.progs i).Commits giveUp (change i))
    (hother : (d.progs !i).Commits giveUp (change !i)) {schedule : List Bool} {started : List Bool}
    (hstarted : i ∈ started) (hfresh : (!i) ∉ started) (hapart : ApartFrom d started schedule)
    (hb : ∀ i, (d.run schedule).answer i = some (b i)) (hgive : ∀ i, ¬ giveUp (b i)) :
    Ordered d (d.run schedule) i fun after s => s = after := by
  have hne : (!i) ≠ i := by simp
  induction schedule generalizing d started with
  | nil =>
    have hnone := answer_eq_none hi (hb i) (hgive i)
    have hsome := hb i
    rw [run_nil, hnone] at hsome
    cases hsome
  | cons k schedule ih =>
    obtain ⟨hfirst, hrest⟩ := hapart
    by_cases equal : k = i
    · subst k
      rcases look_or_act hi (hb i) (hgive i) with ⟨next, hp, hnext⟩ | ⟨f, hp⟩
      · rw [run_cons] at hb ⊢
        obtain ⟨hstate, hprog⟩ := step_look hp
        have hother' : (d.step i).progs (!i) = d.progs (!i) := step_progs_of_ne hne
        have hfresh' : (!i) ∉ i :: started := by
          intro hmem
          rcases List.mem_cons.mp hmem with heq | hmem
          · exact hne heq
          · exact hfresh hmem
        have hordered := ih (hprog ▸ hnext d.state) (hother' ▸ hother) List.mem_cons_self hfresh'
          hrest hb
        exact hordered.of_look_first hp
      · rw [run_cons] at hb ⊢
        exact ordered_of_act hp hother (hb !i) (hgive !i)
    · obtain rfl : k = !i := Bool.eq_not_of_ne equal
      -- the other program would start while this one is busy
      have hbusy := hfirst (answer_eq_none hother (hb !i) (hgive !i)) hfresh i hstarted
      exact absurd (answer_eq_none hi (hb i) (hgive i)) hbusy

/-- Programs that keep apart run one after the other. -/
theorem run_apart {b : Bool → α} (hcommits : ∀ i, (d.progs i).Commits giveUp (change i))
    {schedule : List Bool} (hapart : ApartFrom d [] schedule)
    (hb : ∀ i, (d.run schedule).answer i = some (b i)) (hgive : ∀ i, ¬ giveUp (b i)) :
    ∃ i, Ordered d (d.run schedule) i fun after s => s = after := by
  cases schedule with
  | nil =>
    have hnone := answer_eq_none (hcommits true) (hb true) (hgive true)
    have hsome := hb true
    rw [run_nil, hnone] at hsome
    cases hsome
  | cons k schedule =>
    refine ⟨k, ?_⟩
    rcases look_or_act (hcommits k) (hb k) (hgive k) with ⟨next, hp, hnext⟩ | ⟨f, hp⟩
    · rw [run_cons] at hb ⊢
      obtain ⟨-, hprog⟩ := step_look hp
      have hne : (!k) ≠ k := by simp
      have hother : (d.step k).progs (!k) = d.progs (!k) := step_progs_of_ne hne
      have hordered := run_apart_of_started (hprog ▸ hnext d.state) (hother ▸ hcommits !k)
        List.mem_cons_self (by simp) hapart.2 hb hgive
      exact hordered.of_look_first hp
    · rw [run_cons] at hb ⊢
      exact ordered_of_act hp (hcommits !k) (hb !k) (hgive !k)

/-- In order, and with the second program seeing only the new state, the pool does what the
programs do one after the other. -/
theorem Ordered.run_run (h : Ordered d t i fun after s => s = after) :
    t.state = ((d.progs !i).run ((d.progs i).run d.state).2).2 := by
  obtain ⟨f, g, hf, hg, hstate, -⟩ := h
  rw [hf.run, hg.run, hstate]

end Pool

end QrWireguard
