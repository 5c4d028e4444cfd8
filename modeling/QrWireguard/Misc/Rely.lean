import Mathlib.Data.Fintype.Defs
import QrWireguard.Misc.Prog

/-!
# One program among others

What holds when a program of a pool has returned, while the steps of the other programs meet a
condition, and what all programs keep together, while each one minds what the others have found.
The condition depends on how many steps the program has taken, so that it can say what is left
alone between two of them.
-/

namespace QrWireguard

variable {ι σ α : Type} {I : σ → Prop} {rely : Nat → σ → σ → Prop} {post : α → σ → Prop}

namespace Prog

/-- A property of the state that survives the steps of others after `n` steps. -/
def Stable (rely : Nat → σ → σ → Prop) (n : Nat) (P : σ → Prop) : Prop :=
  ∀ s t, P s → rely n s t → P t

/-- A proof outline of a program that has taken `n` steps, in states with `I`: a stable property
before each step, and at the end one that meets `post` for the number of steps and the value. -/
inductive Outline (I : σ → Prop) (rely : Nat → σ → σ → Prop)
    (post : Nat → α → (σ → Prop) → Prop) : Nat → Prog σ α → (σ → Prop) → Prop
  | ret {n : Nat} {a : α} {P : σ → Prop} (h : post n a P) : Outline I rely post n (.ret a) P
  | look {n : Nat} {next : σ → Prog σ α} {P : σ → Prop} {Q : σ → σ → Prop}
      (hstable : Stable rely n P) (hQ : ∀ s, P s → Q s s)
      (h : ∀ s, I s → P s → Outline I rely post (n + 1) (next s) (Q s)) :
      Outline I rely post n (.look next) P
  | act {n : Nat} {eff : σ → σ} {next : σ → Prog σ α} {P : σ → Prop} {Q : σ → σ → Prop}
      (hstable : Stable rely n P) (hQ : ∀ s, P s → Q s (eff s))
      (h : ∀ s, I s → P s → Outline I rely post (n + 1) (next s) (Q s)) :
      Outline I rely post n (.act eff next) P

namespace Outline
variable {β : Type} {post : Nat → α → (σ → Prop) → Prop} {n : Nat} {P : σ → Prop}
  {Q : σ → σ → Prop}

theorem mono {post' : Nat → α → (σ → Prop) → Prop} {p : Prog σ α}
    (h : Outline I rely post n p P) (hpost : ∀ n a P, post n a P → post' n a P) :
    Outline I rely post' n p P := by
  induction h with
  | ret h => exact .ret (hpost _ _ _ h)
  | look hstable hQ _ ih => exact .look hstable hQ ih
  | act hstable hQ _ ih => exact .act hstable hQ ih

theorem bind_iff {p : Prog σ α} {k : α → Prog σ β} {post : Nat → β → (σ → Prop) → Prop} :
    Outline I rely post n (p >>= k) P ↔
      Outline I rely (fun n a P => Outline I rely post n (k a) P) n p P := by
  constructor
  · intro h
    induction p generalizing n P with
    | ret a => exact .ret h
    | look next ih =>
      cases h with
      | look hstable hQ h => exact .look hstable hQ fun s hI hP => ih s (h s hI hP)
    | act eff next ih =>
      cases h with
      | act hstable hQ h => exact .act hstable hQ fun s hI hP => ih s (h s hI hP)
  · intro h
    induction h with
    | ret h => exact h
    | look hstable hQ _ ih => exact .look hstable hQ ih
    | act hstable hQ _ ih => exact .act hstable hQ ih

theorem bind {p : Prog σ α} {k : α → Prog σ β} {post : Nat → β → (σ → Prop) → Prop}
    (h : Outline I rely (fun n a P => Outline I rely post n (k a) P) n p P) :
    Outline I rely post n (p >>= k) P := bind_iff.mpr h

theorem read {f : σ → α} (hstable : Stable rely n P) (hQ : ∀ s, P s → Q s s)
    (h : ∀ s, I s → P s → post (n + 1) (f s) (Q s)) : Outline I rely post n (Prog.read f) P :=
  .look hstable hQ fun s hI hP => .ret (h s hI hP)

theorem modifyGet {f : σ → α × σ} (hstable : Stable rely n P) (hQ : ∀ s, P s → Q s (f s).2)
    (h : ∀ s, I s → P s → post (n + 1) (f s).1 (Q s)) :
    Outline I rely post n (Prog.modifyGet f) P :=
  .act hstable hQ fun s hI hP => .ret (h s hI hP)

end Outline

/-- An outline whose last property is stable and gives `post` of the value. -/
def Holds (I : σ → Prop) (rely : Nat → σ → σ → Prop) (post : α → σ → Prop) (n : Nat)
    (p : Prog σ α) (P : σ → Prop) : Prop :=
  Outline I rely (fun n a P => Stable rely n P ∧ ∀ s, I s → P s → post a s) n p P

theorem Holds.stable {n : Nat} {p : Prog σ α} {P : σ → Prop} (h : Holds I rely post n p P) :
    Stable rely n P := by
  cases h with
  | ret h => exact h.1
  | look hstable _ _ => exact hstable
  | act hstable _ _ => exact hstable

/-- A proof outline of a program whose changes keep `I`: a stable property before each step, and
`post` for the number of steps, the value and the property at the end. -/
inductive Guards (I : σ → Prop) (rely : Nat → σ → σ → Prop)
    (post : Nat → α → (σ → Prop) → Prop) : Nat → Prog σ α → (σ → Prop) → Prop
  | ret {n : Nat} {a : α} {P : σ → Prop} (h : post n a P) : Guards I rely post n (.ret a) P
  | look {n : Nat} {next : σ → Prog σ α} {P : σ → Prop} {Q : σ → σ → Prop}
      (hstable : Stable rely n P) (hQ : ∀ s, P s → Q s s)
      (h : ∀ s, I s → P s → Guards I rely post (n + 1) (next s) (Q s)) :
      Guards I rely post n (.look next) P
  | act {n : Nat} {eff : σ → σ} {next : σ → Prog σ α} {P : σ → Prop} {Q : σ → σ → Prop}
      (hstable : Stable rely n P) (hQ : ∀ s, P s → Q s (eff s)) (hkeeps : ∀ s, I s → P s → I (eff s))
      (h : ∀ s, I s → P s → Guards I rely post (n + 1) (next s) (Q s)) :
      Guards I rely post n (.act eff next) P

namespace Guards
variable {β : Type} {n : Nat} {P : σ → Prop}

theorem stable {post : Nat → α → (σ → Prop) → Prop} {p : Prog σ α} (h : Guards I rely post n p P)
    (hp : ∀ a, p ≠ .ret a) : Stable rely n P := by
  cases h with
  | ret _ => exact absurd rfl (hp _)
  | look hstable _ _ => exact hstable
  | act hstable _ _ _ => exact hstable

theorem bind {p : Prog σ α} {k : α → Prog σ β} {post : Nat → β → (σ → Prop) → Prop}
    (h : Guards I rely (fun n a P => Guards I rely post n (k a) P) n p P) :
    Guards I rely post n (p >>= k) P := by
  induction h with
  | ret h => exact h
  | look hstable hQ _ ih => exact .look hstable hQ ih
  | act hstable hQ hkeeps _ ih => exact .act hstable hQ hkeeps ih

theorem read {post : Nat → α → (σ → Prop) → Prop} {f : σ → α} {Q : σ → σ → Prop}
    (hstable : Stable rely n P) (hQ : ∀ s, P s → Q s s)
    (h : ∀ s, I s → P s → post (n + 1) (f s) (Q s)) : Guards I rely post n (Prog.read f) P :=
  .look hstable hQ fun s hI hP => .ret (h s hI hP)

theorem modifyGet {post : Nat → α → (σ → Prop) → Prop} {f : σ → α × σ} {Q : σ → σ → Prop}
    (hstable : Stable rely n P) (hQ : ∀ s, P s → Q s (f s).2)
    (hkeeps : ∀ s, I s → P s → I (f s).2) (h : ∀ s, I s → P s → post (n + 1) (f s).1 (Q s)) :
    Guards I rely post n (Prog.modifyGet f) P :=
  .act hstable hQ hkeeps fun s hI hP => .ret (h s hI hP)

/-- A program that reads may go first when the property stays stable. -/
theorem bind_reads {R : α → Prop} {p : Prog σ α} {k : α → Prog σ β}
    {post : Nat → β → (σ → Prop) → Prop} (hp : Reads R p) (hstable : ∀ m, n ≤ m → Stable rely m P)
    (hk : ∀ m a, n ≤ m → R a → Guards I rely post m (k a) P) :
    Guards I rely post n (p >>= k) P := by
  induction hp generalizing n with
  | ret ha => exact hk n _ (Nat.le_refl n) ha
  | look _ ih =>
    refine .look (Q := fun _ => P) (hstable n (Nat.le_refl n)) (fun _ hP => hP) fun s _ _ => ?_
    exact ih s (fun m hm => hstable m (Nat.le_of_succ_le hm))
      fun m a hm => hk m a (Nat.le_of_succ_le hm)

end Guards

/-- Every change a program can make relates the states before and after it. -/
def Keeps (K : σ → σ → Prop) : Prog σ α → Prop
  | .ret _ => True
  | .look next => ∀ s, (next s).Keeps K
  | .act eff next => (∀ s, K s (eff s)) ∧ ∀ s, (next s).Keeps K

theorem Commits.keeps {giveUp : α → Prop} {change : (σ → α × σ) → Prop} {K : σ → σ → Prop}
    {p : Prog σ α} (h : Commits giveUp change p) (hK : ∀ f, change f → ∀ s, K s (f s).2) :
    p.Keeps K := by
  induction h with
  | ret => trivial
  | look _ ih => exact ih
  | act hf => exact ⟨hK _ hf, fun _ => trivial⟩

theorem keeps_modifyGet_bind {β : Type} {K : σ → σ → Prop} {f : σ → α × σ} {k : α → Prog σ β}
    (hf : ∀ s, K s (f s).2) (hk : ∀ a, (k a).Keeps K) : (Prog.modifyGet f >>= k).Keeps K :=
  ⟨hf, fun s => hk (f s).1⟩

end Prog

namespace Pool
open Prog

variable [DecidableEq ι] {d : Pool ι σ α} {i j : ι}

/-- The states of a run. -/
def states (d : Pool ι σ α) : List ι → List σ
  | [] => [d.state]
  | j :: schedule => d.state :: states (d.step j) schedule

theorem state_mem_states (d : Pool ι σ α) (schedule : List ι) : d.state ∈ d.states schedule := by
  cases schedule <;> exact List.mem_cons_self

/-- Every step of a program other than `i` meets the condition for the number of steps that `i`
has taken. -/
def Spares (rely : Nat → σ → σ → Prop) (i : ι) (n : Nat) (d : Pool ι σ α) : List ι → Prop
  | [] => True
  | j :: schedule =>
    (j ≠ i → rely n d.state (d.step j).state) ∧
      Spares rely i (if j = i ∧ d.answer i = none then n + 1 else n) (d.step j) schedule

instance decidableSpares [∀ n s t, Decidable (rely n s t)] : ∀ (schedule : List ι) (n : Nat) (d : Pool ι σ α),
    Decidable (d.Spares rely i n schedule)
  | [], _, _ => inferInstanceAs (Decidable True)
  | j :: schedule, n, d =>
    have := decidableSpares schedule
      (if j = i ∧ d.answer i = none then n + 1 else n) (d.step j)
    inferInstanceAs (Decidable (_ ∧ _))

theorem keeps_step {K : σ → σ → Prop} (hK : ∀ s, K s s) (h : (d.progs j).Keeps K) :
    K d.state (d.step j).state ∧ ((d.step j).progs j).Keeps K := by
  cases hp : d.progs j with
  | ret a =>
    rw [step_ret hp]
    exact ⟨hK _, h⟩
  | look next =>
    obtain ⟨hstate, hprog⟩ := step_look hp
    rw [hp] at h
    rw [hstate, hprog]
    exact ⟨hK _, h _⟩
  | act eff next =>
    obtain ⟨hstate, hprog⟩ := step_act hp
    rw [hp] at h
    rw [hstate, hprog]
    exact ⟨h.1 _, h.2 _⟩

/-- What the programs other than `i` keep in every state joins the condition on their steps. -/
theorem Spares.and_keeps {K : σ → σ → Prop} {n : Nat} {schedule : List ι} (hK : ∀ s, K s s)
    (hprogs : ∀ j ≠ i, (d.progs j).Keeps K) (h : d.Spares rely i n schedule) :
    d.Spares (fun n s t => K s t ∧ rely n s t) i n schedule := by
  induction schedule generalizing d n with
  | nil => trivial
  | cons j schedule ih =>
    obtain ⟨hstep, hrest⟩ := h
    refine ⟨fun hne => ⟨(keeps_step hK (hprogs j hne)).1, hstep hne⟩, ih ?_ hrest⟩
    intro k hne
    by_cases equal : k = j
    · subst equal
      exact (keeps_step hK (hprogs k hne)).2
    · rw [step_progs_of_ne equal]
      exact hprogs k hne

/-- When the program has returned, its value and the state are as the outline says. -/
theorem run_holds {n : Nat} {P : σ → Prop} (h : Holds I rely post n (d.progs i) P) (hP : P d.state)
    {schedule : List ι} (hI : ∀ s ∈ d.states schedule, I s) (hspares : d.Spares rely i n schedule) {a : α}
    (ha : (d.run schedule).answer i = some a) : post a (d.run schedule).state := by
  induction schedule generalizing d n P with
  | nil =>
    rw [run_nil, answer_eq_some] at ha
    rw [ha] at h
    cases h with
    | ret hpost => exact hpost.2 _ (hI _ (state_mem_states d [])) hP
  | cons j schedule ih =>
    obtain ⟨hrely, hrest⟩ := hspares
    have hIstate : I d.state := hI _ (state_mem_states d _)
    have hIrest : ∀ s ∈ (d.step j).states schedule, I s := fun s hs =>
      hI s (List.mem_cons_of_mem _ hs)
    rw [run_cons] at ha ⊢
    by_cases equal : j = i
    · subst j
      cases hp : d.progs i with
      | ret b =>
        have hanswer : d.answer i ≠ none := by
          rw [answer_eq_some.mpr hp]
          exact Option.some_ne_none b
        rw [if_neg fun hboth => hanswer hboth.2] at hrest
        rw [step_ret hp] at ha hrest hIrest ⊢
        exact ih h hP hIrest hrest ha
      | look next =>
        obtain ⟨hstate, hprog⟩ := step_look hp
        have hanswer : d.answer i = none := by
          unfold answer
          rw [hp]
        rw [if_pos ⟨rfl, hanswer⟩] at hrest
        rw [hp] at h
        cases h with
        | look _ hQ hnext =>
          exact ih (hprog ▸ hnext _ hIstate hP) (by rw [hstate]; exact hQ _ hP) hIrest hrest ha
      | act eff next =>
        obtain ⟨hstate, hprog⟩ := step_act hp
        have hanswer : d.answer i = none := by
          unfold answer
          rw [hp]
        rw [if_pos ⟨rfl, hanswer⟩] at hrest
        rw [hp] at h
        cases h with
        | act _ hQ hnext =>
          exact ih (hprog ▸ hnext _ hIstate hP) (by rw [hstate]; exact hQ _ hP) hIrest hrest ha
    · have hprog : (d.step j).progs i = d.progs i := step_progs_of_ne (Ne.symm equal)
      rw [if_neg fun hboth => equal hboth.1] at hrest
      exact ih (hprog ▸ h) (h.stable _ _ hP (hrely equal)) hIrest hrest ha

/-- At every step the programs that have not returned are minded: the step meets the condition of
each other one, for the number of steps that one has taken. -/
def Minds (rely : ι → Nat → σ → σ → Prop) (taken : ι → Nat) (d : Pool ι σ α) : List ι → Prop
  | [] => True
  | j :: schedule =>
    (∀ i, i ≠ j → d.answer i = none → rely i (taken i) d.state (d.step j).state) ∧
      Minds rely (Function.update taken j (taken j + 1)) (d.step j) schedule

instance decidableMinds [Fintype ι] (rely : ι → Nat → σ → σ → Prop)
    [∀ i n s t, Decidable (rely i n s t)] : ∀ (schedule : List ι) (taken : ι → Nat)
      (d : Pool ι σ α), Decidable (d.Minds rely taken schedule)
  | [], _, _ => inferInstanceAs (Decidable True)
  | j :: schedule, taken, d =>
    have := decidableMinds rely schedule (Function.update taken j (taken j + 1)) (d.step j)
    inferInstanceAs (Decidable (_ ∧ _))

/-- Programs that have outlines keep `I` together, when every step minds the other programs. -/
theorem run_guards {rely : ι → Nat → σ → σ → Prop} {post : ι → Nat → α → (σ → Prop) → Prop}
    {taken : ι → Nat} {P : ι → σ → Prop} {schedule : List ι}
    (h : ∀ i, d.answer i = none → Guards I (rely i) (post i) (taken i) (d.progs i) (P i) ∧
      P i d.state)
    (hI : I d.state) (hminds : d.Minds rely taken schedule) : I (d.run schedule).state := by
  induction schedule generalizing d taken P with
  | nil => exact hI
  | cons j schedule ih =>
    obtain ⟨hmind, hrest⟩ := hminds
    rw [run_cons]
    -- what the other programs have found stays
    have hnext : ∀ P' : σ → Prop, ((d.step j).answer j = none →
        Guards I (rely j) (post j) (taken j + 1) ((d.step j).progs j) P' ∧ P' (d.step j).state) →
        I (d.step j).state → I ((d.step j).run schedule).state := by
      intro P' hself hI'
      refine ih (P := Function.update P j P') (fun i hnone => ?_) hI' hrest
      by_cases equal : i = j
      · subst i
        rw [Function.update_self, Function.update_self]
        exact hself hnone
      · have hprog : (d.step j).progs i = d.progs i := step_progs_of_ne equal
        have hbusy : d.answer i = none := by
          rw [answer, ← hprog]
          exact hnone
        obtain ⟨hguards, hP⟩ := h i hbusy
        have hstable := hguards.stable fun a ha => by
          rw [answer, ha] at hbusy
          cases hbusy
        rw [Function.update_of_ne equal, Function.update_of_ne equal, hprog]
        exact ⟨hguards, hstable _ _ hP (hmind i equal hbusy)⟩
    cases hp : d.progs j with
    | ret a =>
      rw [step_ret hp] at hnext ⊢
      refine hnext (fun _ => True) (fun hnone => ?_) hI
      rw [answer, hp] at hnone
      cases hnone
    | look next =>
      obtain ⟨hstate, hprog⟩ := step_look hp
      obtain ⟨hguards, hP⟩ := h j (by rw [answer, hp])
      rw [hp] at hguards
      cases hguards with
      | @look _ _ _ Q _ hQ hlook =>
        refine hnext (Q d.state) (fun _ => ?_) (hstate ▸ hI)
        rw [hprog, hstate]
        exact ⟨hlook _ hI hP, hQ _ hP⟩
    | act eff next =>
      obtain ⟨hstate, hprog⟩ := step_act hp
      obtain ⟨hguards, hP⟩ := h j (by rw [answer, hp])
      rw [hp] at hguards
      cases hguards with
      | @act _ _ _ _ Q _ hQ hkeeps hact =>
        refine hnext (Q d.state) (fun _ => ?_) (hstate ▸ hkeeps _ hI hP)
        rw [hprog, hstate]
        exact ⟨hact _ hI hP, hQ _ hP⟩

end Pool

end QrWireguard
