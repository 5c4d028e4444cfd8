import Mathlib.Tactic.TypeStar

/-!
# Processes

Computations of a C program over an environment `ε` that it only reads (the answers of the
operating system) and a state `σ`. A run ends with a value, ends the process, or has
undefined behaviour. `Sat` is the weakest liberal precondition (it says nothing of a run that
does not end with a value), `Runs` the weakest precondition.
-/

namespace QrWireguard

/-- How a run ends. -/
inductive Outcome (σ α : Type) where
  /-- The function returns a value. -/
  | done (a : α) (s : σ)
  /-- The process calls `exit`. -/
  | exit (s : σ)
  /-- The behaviour is undefined. -/
  | undefined

/-- The value a run ends with. -/
def Outcome.value? {σ α : Type} : Outcome σ α → Option α
  | .done a _ => some a
  | _ => none

/-- The state a run ends in, or the given one when its behaviour is undefined. -/
def Outcome.stateD {σ α : Type} : Outcome σ α → σ → σ
  | .done _ s, _ => s
  | .exit s, _ => s
  | .undefined, s => s

theorem Outcome.eq_done {σ α : Type} {o : Outcome σ α} {a : α} (h : o.value? = some a) (s : σ) :
    o = .done a (o.stateD s) := by
  cases o with
  | done b t => rw [Option.some.inj h]; rfl
  | exit t => cases h
  | undefined => cases h

/-- A computation that may use the environment, change the state, exit or go wrong. -/
def Proc (ε σ α : Type) := ε → σ → Outcome σ α

namespace Proc
variable {ε σ α β γ : Type}

instance : Monad (Proc ε σ) where
  pure a := fun _ s => .done a s
  bind p f := fun e s =>
    match p e s with
    | .done a t => f a e t
    | .exit t => .exit t
    | .undefined => .undefined

/-- The state. -/
def get : Proc ε σ σ := fun _ s => .done s s

/-- Change the state. -/
def modify (f : σ → σ) : Proc ε σ Unit := fun _ s => .done () (f s)

/-- Ask the environment, which answers in view of the state. -/
def ask (f : ε → σ → α) : Proc ε σ α := fun e s => .done (f e s) s

/-- The process ends. -/
def exit : Proc ε σ α := fun _ s => .exit s

/-- The behaviour is undefined. -/
def undefined : Proc ε σ α := fun _ _ => .undefined

theorem bind_assoc (p : Proc ε σ α) (f : α → Proc ε σ β) (g : β → Proc ε σ γ) :
    p >>= f >>= g = p >>= fun a => f a >>= g := by
  funext e s
  simp only [bind]
  cases p e s <;> rfl

theorem bind_of_done {p : Proc ε σ α} {f : α → Proc ε σ β} {e : ε} {s t : σ} {a : α}
    (h : p e s = .done a t) : (p >>= f) e s = f a e t := by
  simp only [bind, h]

/-- If the run ends with a value, the value and the state satisfy `Q`. -/
def Sat (p : Proc ε σ α) (e : ε) (s : σ) (Q : α → σ → Prop) : Prop :=
  match p e s with
  | .done a t => Q a t
  | _ => True

/-- The run ends with a value, and the value and the state satisfy `Q`. -/
def Runs (p : Proc ε σ α) (e : ε) (s : σ) (Q : α → σ → Prop) : Prop :=
  match p e s with
  | .done a t => Q a t
  | _ => False

section Rules
variable {e : ε} {s : σ} {Q : α → σ → Prop}

@[simp] theorem sat_pure (a : α) : Sat (pure a : Proc ε σ α) e s Q ↔ Q a s := Iff.rfl
@[simp] theorem sat_get {Q : σ → σ → Prop} : Sat (get : Proc ε σ σ) e s Q ↔ Q s s := Iff.rfl
@[simp] theorem sat_modify {f : σ → σ} {Q : Unit → σ → Prop} :
    Sat (modify f : Proc ε σ Unit) e s Q ↔ Q () (f s) := Iff.rfl
@[simp] theorem sat_ask {f : ε → σ → α} : Sat (ask f) e s Q ↔ Q (f e s) s := Iff.rfl
@[simp] theorem sat_exit : Sat (exit : Proc ε σ α) e s Q := trivial
@[simp] theorem sat_undefined : Sat (undefined : Proc ε σ α) e s Q := trivial

@[simp] theorem sat_bind {p : Proc ε σ β} {f : β → Proc ε σ α} :
    Sat (p >>= f) e s Q ↔ Sat p e s fun b t => Sat (f b) e t Q := by
  simp only [Sat, bind]
  cases p e s <;> rfl

@[simp] theorem sat_ite {c : Prop} [Decidable c] {p q : Proc ε σ α} :
    Sat (if c then p else q) e s Q ↔ (c → Sat p e s Q) ∧ (¬ c → Sat q e s Q) := by
  by_cases h : c <;> simp [h]

theorem Sat.mono {p : Proc ε σ α} {R : α → σ → Prop} (h : Sat p e s Q)
    (hQR : ∀ a t, Q a t → R a t) : Sat p e s R := by
  unfold Sat at *
  cases hp : p e s with
  | done a t => rw [hp] at h; exact hQR a t h
  | exit => trivial
  | undefined => trivial

theorem Sat.of_done {p : Proc ε σ α} {a : α} {t : σ} (h : Sat p e s Q) (hp : p e s = .done a t) :
    Q a t := by
  simpa [Sat, hp] using h

theorem sat_iff {p : Proc ε σ α} : Sat p e s Q ↔ ∀ a t, p e s = .done a t → Q a t := by
  unfold Sat
  cases p e s <;> simp

@[simp] theorem runs_pure (a : α) : Runs (pure a : Proc ε σ α) e s Q ↔ Q a s := Iff.rfl
@[simp] theorem runs_get {Q : σ → σ → Prop} : Runs (get : Proc ε σ σ) e s Q ↔ Q s s := Iff.rfl
@[simp] theorem runs_modify {f : σ → σ} {Q : Unit → σ → Prop} :
    Runs (modify f : Proc ε σ Unit) e s Q ↔ Q () (f s) := Iff.rfl
@[simp] theorem runs_ask {f : ε → σ → α} : Runs (ask f) e s Q ↔ Q (f e s) s := Iff.rfl
@[simp] theorem runs_exit : ¬ Runs (exit : Proc ε σ α) e s Q := id
@[simp] theorem runs_undefined : ¬ Runs (undefined : Proc ε σ α) e s Q := id

@[simp] theorem runs_bind {p : Proc ε σ β} {f : β → Proc ε σ α} :
    Runs (p >>= f) e s Q ↔ Runs p e s fun b t => Runs (f b) e t Q := by
  simp only [Runs, bind]
  cases p e s <;> rfl

@[simp] theorem runs_ite {c : Prop} [Decidable c] {p q : Proc ε σ α} :
    Runs (if c then p else q) e s Q ↔ (c → Runs p e s Q) ∧ (¬ c → Runs q e s Q) := by
  by_cases h : c <;> simp [h]

theorem Runs.mono {p : Proc ε σ α} {R : α → σ → Prop} (h : Runs p e s Q)
    (hQR : ∀ a t, Q a t → R a t) : Runs p e s R := by
  unfold Runs at *
  cases hp : p e s with
  | done a t => rw [hp] at h; exact hQR a t h
  | exit => rw [hp] at h; exact h
  | undefined => rw [hp] at h; exact h

theorem runs_iff {p : Proc ε σ α} : Runs p e s Q ↔ ∃ a t, p e s = .done a t ∧ Q a t := by
  unfold Runs
  cases p e s with
  | done b u =>
    constructor
    · exact fun h => ⟨b, u, rfl, h⟩
    · rintro ⟨a, t, hp, hQ⟩
      cases hp
      exact hQ
  | exit => simp
  | undefined => simp

/-- What a run shows of its value and its state. -/
theorem Runs.of_value {p : Proc ε σ α} {a : α} (h : Runs p e s Q) (hp : (p e s).value? = some a) :
    Q a ((p e s).stateD s) := by
  have hdone := Outcome.eq_done hp s
  unfold Runs at h
  rw [hdone] at h
  exact h

theorem Runs.sat {p : Proc ε σ α} (h : Runs p e s Q) : Sat p e s Q := by
  unfold Runs at h
  unfold Sat
  cases hp : p e s <;> simp_all

theorem Runs.and {p : Proc ε σ α} {R : α → σ → Prop} (h : Runs p e s Q) (hR : Sat p e s R) :
    Runs p e s fun a t => Q a t ∧ R a t := by
  obtain ⟨a, t, hp, hQ⟩ := runs_iff.mp h
  exact runs_iff.mpr ⟨a, t, hp, hQ, hR.of_done hp⟩

end Rules

/-- The behaviour of the run is undefined. -/
def Wrong (p : Proc ε σ α) (e : ε) (s : σ) : Prop := p e s = .undefined

section Wrong
variable {e : ε} {s : σ}

@[simp] theorem wrong_pure (a : α) : ¬ Wrong (pure a : Proc ε σ α) e s := by
  simp [Wrong, pure]
@[simp] theorem wrong_get : ¬ Wrong (get : Proc ε σ σ) e s := by simp [Wrong, get]
@[simp] theorem wrong_modify {f : σ → σ} : ¬ Wrong (modify f : Proc ε σ Unit) e s := by
  simp [Wrong, modify]
@[simp] theorem wrong_undefined : Wrong (undefined : Proc ε σ α) e s := rfl

@[simp] theorem wrong_bind {p : Proc ε σ β} {f : β → Proc ε σ α} :
    Wrong (p >>= f) e s ↔ Wrong p e s ∨ Runs p e s fun b t => Wrong (f b) e t := by
  simp only [Wrong, Runs, bind]
  cases p e s <;> simp

@[simp] theorem wrong_ite {c : Prop} [Decidable c] {p q : Proc ε σ α} :
    Wrong (if c then p else q) e s ↔ (c ∧ Wrong p e s) ∨ (¬ c ∧ Wrong q e s) := by
  by_cases h : c <;> simp [h]

end Wrong

section Safe

/-- The run does not go wrong, and if it ends with a value, the value and the state satisfy `Q`. -/
def Safe (p : Proc ε σ α) (e : ε) (s : σ) (Q : α → σ → Prop) : Prop :=
  match p e s with
  | .done a t => Q a t
  | .exit _ => True
  | .undefined => False

variable {e : ε} {s : σ} {Q : α → σ → Prop}

@[simp] theorem safe_pure (a : α) : Safe (pure a : Proc ε σ α) e s Q ↔ Q a s := Iff.rfl
@[simp] theorem safe_get {Q : σ → σ → Prop} : Safe (get : Proc ε σ σ) e s Q ↔ Q s s := Iff.rfl
@[simp] theorem safe_modify {f : σ → σ} {Q : Unit → σ → Prop} :
    Safe (modify f : Proc ε σ Unit) e s Q ↔ Q () (f s) := Iff.rfl
@[simp] theorem safe_ask {f : ε → σ → α} : Safe (ask f) e s Q ↔ Q (f e s) s := Iff.rfl
@[simp] theorem safe_exit : Safe (exit : Proc ε σ α) e s Q := trivial
@[simp] theorem safe_undefined : ¬ Safe (undefined : Proc ε σ α) e s Q := id

@[simp] theorem safe_bind {p : Proc ε σ β} {f : β → Proc ε σ α} :
    Safe (p >>= f) e s Q ↔ Safe p e s fun b t => Safe (f b) e t Q := by
  simp only [Safe, bind]
  cases p e s <;> rfl

theorem Safe.mono {p : Proc ε σ α} {R : α → σ → Prop} (h : Safe p e s Q)
    (hQR : ∀ a t, Q a t → R a t) : Safe p e s R := by
  unfold Safe at *
  cases hp : p e s with
  | done a t => rw [hp] at h; exact hQR a t h
  | exit => trivial
  | undefined => rw [hp] at h; exact h

theorem Safe.sat {p : Proc ε σ α} (h : Safe p e s Q) : Sat p e s Q := by
  unfold Safe at h
  unfold Sat
  cases hp : p e s <;> simp_all

theorem Safe.of_done {p : Proc ε σ α} {a : α} {t : σ} (h : Safe p e s Q) (hp : p e s = .done a t) :
    Q a t :=
  h.sat.of_done hp

theorem Safe.not_wrong {p : Proc ε σ α} (h : Safe p e s Q) : p e s ≠ .undefined := by
  intro hp
  rw [Safe, hp] at h
  exact h

/-- No run exits. -/
def NeverExits (p : Proc ε σ α) (e : ε) : Prop := ∀ s t, p e s ≠ .exit t

@[simp] theorem neverExits_pure (a : α) : NeverExits (pure a : Proc ε σ α) e := nofun
@[simp] theorem neverExits_get : NeverExits (get : Proc ε σ σ) e := nofun
@[simp] theorem neverExits_modify (f : σ → σ) : NeverExits (modify f : Proc ε σ Unit) e := nofun
@[simp] theorem neverExits_ask (f : ε → σ → α) : NeverExits (ask f) e := nofun
@[simp] theorem neverExits_undefined : NeverExits (undefined : Proc ε σ α) e := nofun

theorem neverExits_bind {p : Proc ε σ β} {f : β → Proc ε σ α} (hp : NeverExits p e)
    (hf : ∀ b, NeverExits (f b) e) : NeverExits (p >>= f) e := by
  intro s t h
  simp only [bind] at h
  cases hps : p e s with
  | done b u =>
    rw [hps] at h
    exact hf b u t h
  | exit u => exact hp s u hps
  | undefined =>
    rw [hps] at h
    cases h

/-- A safe run that does not exit ends with a value. -/
theorem Safe.runs {p : Proc ε σ α} (h : Safe p e s Q) (hp : NeverExits p e) : Runs p e s Q := by
  unfold Safe at h
  unfold Runs
  cases hps : p e s with
  | done a t => rwa [hps] at h
  | exit t => exact hp s t hps
  | undefined => rwa [hps] at h

end Safe

section Keeps

/-- Every run that ends with a value leaves the component `g` of the state as it was. -/
def Keeps (g : σ → γ) (p : Proc ε σ α) : Prop := ∀ e s, Sat p e s fun _ t => g t = g s

variable {g : σ → γ} {p q : Proc ε σ α}

@[simp] theorem keeps_pure (a : α) : Keeps g (pure a : Proc ε σ α) := fun _ _ => rfl
@[simp] theorem keeps_get : Keeps g (get : Proc ε σ σ) := fun _ _ => rfl
@[simp] theorem keeps_ask (f : ε → σ → α) : Keeps g (ask f) := fun _ _ => rfl
@[simp] theorem keeps_exit : Keeps g (exit : Proc ε σ α) := fun _ _ => trivial
@[simp] theorem keeps_undefined : Keeps g (undefined : Proc ε σ α) := fun _ _ => trivial

@[simp] theorem keeps_bind {r : Proc ε σ β} {f : β → Proc ε σ α} (hr : Keeps g r)
    (hf : ∀ b, Keeps g (f b)) : Keeps g (r >>= f) := by
  intro e s
  rw [sat_bind]
  exact (hr e s).mono fun b t ht => (hf b e t).mono fun a u hu => hu.trans ht

@[simp] theorem keeps_ite {c : Prop} [Decidable c] (hp : Keeps g p) (hq : Keeps g q) :
    Keeps g (if c then p else q) := by
  split
  · exact hp
  · exact hq

theorem Keeps.sat {e : ε} {s : σ} {Q : α → σ → Prop} (h : Keeps g p)
    (hQ : ∀ a t, g t = g s → Q a t) : Sat p e s Q :=
  (h e s).mono hQ

/-- A list of steps that each keep `g` keeps `g`. -/
theorem keeps_forM {δ : Type} {f : δ → Proc ε σ PUnit} (hf : ∀ x, Keeps g (f x)) (l : List δ) :
    Keeps g (l.forM f) := by
  induction l with
  | nil => exact keeps_pure _
  | cons x xs ih => exact keeps_bind (hf x) fun _ => ih

end Keeps

end Proc

end QrWireguard
