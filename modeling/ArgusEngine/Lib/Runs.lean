import Mathlib.Tactic.Common

/-!
# Runs of a step relation

`Run step s l s'`: from `s` the labels of `l`, in order, lead to `s'`. The rules a proof about whole
runs uses:

* `Run.invariant`: what every step keeps holds at the end of every run;
* `Run.simulates`: a relation to a second state that every step keeps, the second state moving by
  a function of the label;
* `Run.related`: two runs of the same labels from related states end in related states.
-/

namespace Runs

variable {σ τ ι : Type*} {step : ι → σ → σ → Prop}

inductive Run (step : ι → σ → σ → Prop) : σ → List ι → σ → Prop
  | nil (s : σ) : Run step s [] s
  | cons {a : ι} {l : List ι} {s s' s'' : σ} : step a s s' → Run step s' l s'' →
    Run step s (a :: l) s''

/-- **The invariant rule.** -/
theorem Run.invariant {I : σ → Prop} (hI : ∀ a s s', I s → step a s s' → I s')
    {s s' : σ} {l : List ι} (h : Run step s l s') (hs : I s) : I s' := by
  induction h with
  | nil => exact hs
  | cons hstep _ ih => exact ih (hI _ _ _ hs hstep)

/-- **The simulation rule**: `spec` follows the run in a second state. -/
theorem Run.simulates {R : σ → τ → Prop} {f : ι → τ → τ}
    (hR : ∀ a s s' t, R s t → step a s s' → R s' (f a t)) {s s' : σ} {l : List ι} {t : τ}
    (h : Run step s l s') (hs : R s t) : R s' (l.foldl (fun t a => f a t) t) := by
  induction h generalizing t with
  | nil => exact hs
  | cons hstep _ ih => exact ih (hR _ _ _ _ hs hstep)

/-- **The relational rule**: two runs of the same labels. -/
theorem Run.related {step₂ : ι → τ → τ → Prop} {R : σ → τ → Prop}
    (hR : ∀ a s s' t t', R s t → step a s s' → step₂ a t t' → R s' t') {s s' : σ}
    {t t' : τ} {l : List ι} (h : Run step s l s') (h₂ : Run step₂ t l t') (hs : R s t) :
    R s' t' := by
  induction h generalizing t with
  | nil => cases h₂; exact hs
  | cons hstep _ ih =>
    cases h₂ with
    | cons hstep₂ hrest => exact ih hrest (hR _ _ _ _ _ hs hstep hstep₂)

theorem Run.of_foldlM {f : σ → ι → Option σ} {s s' : σ} {l : List ι} (h : l.foldlM f s = some s') :
    Run (fun a s s' => f s a = some s') s l s' := by
  induction l generalizing s with
  | nil => obtain rfl : s = s' := by simpa using h
           exact .nil s
  | cons a l ih =>
    rw [List.foldlM_cons] at h
    obtain ⟨s₁, h₁, h₂⟩ := Option.bind_eq_some_iff.mp h
    exact .cons h₁ (ih h₂)

end Runs
