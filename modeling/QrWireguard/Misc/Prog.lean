import Mathlib.Data.List.Basic
import Mathlib.Logic.Function.Basic

/-!
# Programs of atomic steps

A program works on a shared state by atomic steps, each of which either reads the state or
changes it. Run alone it is a function on the state; in a pool its steps alternate with those of
other programs as a schedule says.
-/

namespace QrWireguard

/-- A program that returns a value, looks at the state and goes on with what it has seen, or
changes the state and goes on with what it has seen of the state before the change. -/
inductive Prog (σ α : Type) : Type
  | ret (a : α)
  | look (next : σ → Prog σ α)
  | act (eff : σ → σ) (next : σ → Prog σ α)

namespace Prog

variable {σ α β : Type}

/-- One program after the other. -/
def bind : Prog σ α → (α → Prog σ β) → Prog σ β
  | ret a, k => k a
  | look next, k => look fun s => (next s).bind k
  | act eff next, k => act eff fun s => (next s).bind k

instance : Monad (Prog σ) where
  pure := ret
  bind := bind

/-- Reads the state in one step. -/
def read (f : σ → β) : Prog σ β := look fun s => ret (f s)

/-- Changes the state in one step, with an answer that depends on the state before. -/
def modifyGet (f : σ → β × σ) : Prog σ β := act (fun s => (f s).2) fun s => ret (f s).1

/-- The answer of a program that runs alone, and the state it leaves. -/
def run : Prog σ α → σ → α × σ
  | ret a, s => (a, s)
  | look next, s => (next s).run s
  | act eff next, s => (next s).run (eff s)

@[simp] theorem run_pure (a : α) (s : σ) : (pure a : Prog σ α).run s = (a, s) := rfl

@[simp] theorem run_read (f : σ → β) (s : σ) : (read f).run s = (f s, s) := rfl

@[simp] theorem run_modifyGet (f : σ → β × σ) (s : σ) : (modifyGet f).run s = f s := rfl

theorem run_bind (p : Prog σ α) (k : α → Prog σ β) (s : σ) :
    (p >>= k).run s = (k (p.run s).1).run (p.run s).2 := by
  induction p generalizing s with
  | ret a => rfl
  | look next ih => exact ih s s
  | act eff next ih => exact ih s (eff s)

theorem read_bind (f : σ → α) (k : α → Prog σ β) : read f >>= k = look fun s => k (f s) := rfl

theorem modifyGet_bind (f : σ → α × σ) (k : α → Prog σ β) :
    modifyGet f >>= k = act (fun s => (f s).2) fun s => k (f s).1 := rfl

/-- A program that only reads, and whose values have a property. -/
inductive Reads (R : α → Prop) : Prog σ α → Prop
  | ret {a : α} (h : R a) : Reads R (.ret a)
  | look {next : σ → Prog σ α} (h : ∀ s, Reads R (next s)) : Reads R (.look next)

/-- A program that reads and then, in its last step, changes the state by one of the given
changes. It may also give up and return a value without a change. -/
inductive Commits (giveUp : α → Prop) (change : (σ → α × σ) → Prop) : Prog σ α → Prop
  | ret {a : α} (h : giveUp a) : Commits giveUp change (.ret a)
  | look {next : σ → Prog σ α} (h : ∀ s, Commits giveUp change (next s)) :
      Commits giveUp change (.look next)
  | act {f : σ → α × σ} (h : change f) :
      Commits giveUp change (.act (fun s => (f s).2) fun s => .ret (f s).1)

namespace Reads
variable {R R' : α → Prop} {p : Prog σ α}

theorem read (f : σ → α) : Reads (fun _ => True) (Prog.read f) :=
  .look fun _ => .ret trivial

theorem run_snd (hp : Reads R p) (s : σ) : (p.run s).2 = s := by
  induction hp with
  | ret => rfl
  | look _ ih => exact ih s

theorem run_fst (hp : Reads R p) (s : σ) : R (p.run s).1 := by
  induction hp with
  | ret h => exact h
  | look _ ih => exact ih s

theorem bind {S : β → Prop} {k : α → Prog σ β} (hp : Reads R p) (hk : ∀ a, R a → Reads S (k a)) :
    Reads S (p >>= k) := by
  induction hp with
  | ret h => exact hk _ h
  | look _ ih => exact .look ih

theorem bind_commits {giveUp : β → Prop} {change : (σ → β × σ) → Prop} {k : α → Prog σ β}
    (hp : Reads R p) (hk : ∀ a, R a → Commits giveUp change (k a)) :
    Commits giveUp change (p >>= k) := by
  induction hp with
  | ret h => exact hk _ h
  | look _ ih => exact .look ih

end Reads

namespace Commits
variable {giveUp giveUp' : α → Prop} {change change' : (σ → α × σ) → Prop} {p : Prog σ α}

theorem mono (ha : ∀ a, giveUp a → giveUp' a) (hf : ∀ f, change f → change' f)
    (h : Commits giveUp change p) : Commits giveUp' change' p := by
  induction h with
  | ret h => exact .ret (ha _ h)
  | look _ ih => exact .look ih
  | act h => exact .act (hf _ h)

/-- Run alone, the program gives up or makes one change. -/
theorem run (h : Commits giveUp change p) (s : σ) :
    (giveUp (p.run s).1 ∧ (p.run s).2 = s) ∨ ∃ f, change f ∧ p.run s = f s := by
  induction h generalizing s with
  | ret h => exact .inl ⟨h, rfl⟩
  | look _ ih => exact ih s s
  | act h => exact .inr ⟨_, h, rfl⟩

end Commits

end Prog

/-- Programs that share a state. -/
structure Pool (ι σ α : Type) where
  state : σ
  progs : ι → Prog σ α

namespace Pool

variable {ι σ α : Type} [DecidableEq ι]

/-- One step of a program. A program that has returned does not step. -/
def step (d : Pool ι σ α) (i : ι) : Pool ι σ α :=
  match d.progs i with
  | .ret _ => d
  | .look next => ⟨d.state, Function.update d.progs i (next d.state)⟩
  | .act eff next => ⟨eff d.state, Function.update d.progs i (next d.state)⟩

/-- The steps of a schedule. -/
def run (d : Pool ι σ α) (schedule : List ι) : Pool ι σ α := schedule.foldl step d

/-- The answer of a program that has returned. -/
def answer (d : Pool ι σ α) (i : ι) : Option α :=
  match d.progs i with
  | .ret a => some a
  | _ => none

@[simp] theorem run_nil (d : Pool ι σ α) : d.run [] = d := rfl

@[simp] theorem run_cons (d : Pool ι σ α) (i : ι) (schedule : List ι) :
    d.run (i :: schedule) = (d.step i).run schedule := rfl

theorem step_ret {d : Pool ι σ α} {i : ι} {a : α} (h : d.progs i = .ret a) : d.step i = d := by
  unfold step
  rw [h]

theorem step_look {d : Pool ι σ α} {i : ι} {next : σ → Prog σ α} (h : d.progs i = .look next) :
    (d.step i).state = d.state ∧ (d.step i).progs i = next d.state := by
  unfold step
  rw [h]
  exact ⟨rfl, Function.update_self ..⟩

theorem step_act {d : Pool ι σ α} {i : ι} {eff : σ → σ} {next : σ → Prog σ α}
    (h : d.progs i = .act eff next) :
    (d.step i).state = eff d.state ∧ (d.step i).progs i = next d.state := by
  unfold step
  rw [h]
  exact ⟨rfl, Function.update_self ..⟩

theorem step_progs_of_ne {d : Pool ι σ α} {i j : ι} (h : j ≠ i) :
    (d.step i).progs j = d.progs j := by
  unfold step
  split
  · rfl
  · exact Function.update_of_ne h _ _
  · exact Function.update_of_ne h _ _

omit [DecidableEq ι] in
theorem answer_eq_some {d : Pool ι σ α} {i : ι} {a : α} :
    d.answer i = some a ↔ d.progs i = .ret a := by
  unfold answer
  cases d.progs i <;> simp

/-- A program that has returned keeps its answer. -/
theorem run_progs_of_ret {d : Pool ι σ α} {i : ι} {a : α} (h : d.progs i = .ret a)
    (schedule : List ι) : (d.run schedule).progs i = .ret a := by
  induction schedule generalizing d with
  | nil => exact h
  | cons j schedule ih =>
    apply ih
    by_cases equal : j = i
    · rw [equal, step_ret h]
      exact h
    · rw [step_progs_of_ne (Ne.symm equal)]
      exact h

/-- Programs that have all returned leave the state as it is. -/
theorem run_of_forall_ret {d : Pool ι σ α} (h : ∀ i, ∃ a, d.progs i = .ret a) (schedule : List ι) :
    d.run schedule = d := by
  induction schedule with
  | nil => rfl
  | cons i schedule ih =>
    obtain ⟨a, ha⟩ := h i
    rw [run_cons, step_ret ha, ih]

end Pool

end QrWireguard
