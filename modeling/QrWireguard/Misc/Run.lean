/-!
# Runs

The states a transition system reaches when every step of the run meets a condition. The
condition may look at the state the step is taken in and at the label of the step.
-/

namespace QrWireguard

variable {σ ι : Type}

/-- The states reached from an initial state by steps that all meet `ok`. -/
inductive Reach (init : σ → Prop) (step : σ → ι → σ → Prop) (ok : σ → ι → Prop) : σ → Prop
  | init {s : σ} (h : init s) : Reach init step ok s
  | step {s t : σ} {i : ι} (hs : Reach init step ok s) (hok : ok s i) (h : step s i t) :
      Reach init step ok t

namespace Reach
variable {init : σ → Prop} {step : σ → ι → σ → Prop} {ok : σ → ι → Prop} {s : σ}

/-- What holds at the start and is kept by every step that meets the condition holds in every
state reached. -/
theorem invariant {I : σ → Prop} (hinit : ∀ s, init s → I s)
    (hstep : ∀ s i t, I s → ok s i → step s i t → I t) (h : Reach init step ok s) : I s := by
  induction h with
  | init h => exact hinit _ h
  | step _ hok hst ih => exact hstep _ _ _ ih hok hst

/-- A weaker condition reaches more states. -/
theorem mono {ok' : σ → ι → Prop} (hok : ∀ s i, ok s i → ok' s i)
    (h : Reach init step ok s) : Reach init step ok' s := by
  induction h with
  | init h => exact .init h
  | step _ hi hst ih => exact .step ih (hok _ _ hi) hst

/-- From more initial states more states are reached. -/
theorem weaken {init' : σ → Prop} (hinit : ∀ s, init s → init' s)
    (h : Reach init step ok s) : Reach init' step ok s := by
  induction h with
  | init h => exact .init (hinit _ h)
  | step _ hi hst ih => exact .step ih hi hst

/-- A run is matched step by step by a run of another system. -/
theorem simulation {τ κ : Type} {init' : τ → Prop} {step' : τ → κ → τ → Prop}
    {ok' : τ → κ → Prop} {R : σ → τ → Prop} (hinit : ∀ s, init s → ∃ t, init' t ∧ R s t)
    (hstep : ∀ s i s' t, R s t → ok s i → step s i s' →
      ∃ k t', ok' t k ∧ step' t k t' ∧ R s' t')
    (h : Reach init step ok s) : ∃ t, Reach init' step' ok' t ∧ R s t := by
  induction h with
  | init h =>
    obtain ⟨t, ht, hR⟩ := hinit _ h
    exact ⟨t, .init ht, hR⟩
  | step _ hok hst ih =>
    obtain ⟨t, ht, hR⟩ := ih
    obtain ⟨k, t', hok', hst', hR'⟩ := hstep _ _ _ t hR hok hst
    exact ⟨t', .step ht hok' hst', hR'⟩

end Reach

/-- Steps that make a measure smaller, as long as something holds that they keep, come to an
end. -/
theorem acc_of_measure {step : σ → σ → Prop} {I : σ → Prop} (f : σ → Nat)
    (hstep : ∀ s t, I s → step s t → I t ∧ f t < f s) {s : σ} (hs : I s) :
    Acc (fun t s => step s t) s := by
  induction hn : f s using Nat.strongRecOn generalizing s with
  | ind n ih =>
    apply Acc.intro
    intro t hst
    obtain ⟨ht, hlt⟩ := hstep s t hs hst
    exact ih (f t) (hn ▸ hlt) ht rfl

end QrWireguard
