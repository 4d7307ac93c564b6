import Mathlib.Tactic.Common

/-!
# Two computations with the same outcome

`Agree R x y`: the fallible computations `x` and `y` fail with the same error, or succeed with
results that `R` relates. `Agree.bind` and `Agree.foldlM` carry a relation through sequencing and
through a loop.
-/

namespace Outcomes

universe u

variable {ε ι : Type*} {α β γ δ : Type u}

inductive Agree (R : α → β → Prop) : Except ε α → Except ε β → Prop
  | ok {a : α} {b : β} : R a b → Agree R (.ok a) (.ok b)
  | error (e : ε) : Agree R (.error e) (.error e)

theorem Agree.refl_eq (x : Except ε α) : Agree (· = ·) x x := by
  cases x with
  | ok a => exact .ok rfl
  | error e => exact .error e

theorem Agree.mono {R S : α → β → Prop} {x : Except ε α} {y : Except ε β} (h : Agree R x y)
    (hRS : ∀ a b, R a b → S a b) : Agree S x y := by
  cases h with
  | ok h => exact .ok (hRS _ _ h)
  | error e => exact .error e

theorem Agree.symm {R : α → β → Prop} {x : Except ε α} {y : Except ε β} (h : Agree R x y) :
    Agree (fun b a => R a b) y x := by
  cases h with
  | ok h => exact .ok h
  | error e => exact .error e

theorem Agree.trans {R : α → β → Prop} {S : β → γ → Prop} {x : Except ε α}
    {y : Except ε β} {z : Except ε γ} (h : Agree R x y) (h' : Agree S y z) :
    Agree (fun a c => ∃ b, R a b ∧ S b c) x z := by
  cases h with
  | ok h =>
    cases h' with
    | ok h' => exact .ok ⟨_, h, h'⟩
  | error e =>
    cases h' with
    | error => exact .error e

theorem Agree.exists_ok {R : α → β → Prop} {x : Except ε α} {b : β} (h : Agree R x (.ok b)) :
    ∃ a, x = .ok a ∧ R a b := by
  cases h with
  | ok h => exact ⟨_, rfl, h⟩

theorem Agree.bind {R : α → β → Prop} {S : γ → δ → Prop} {x : Except ε α} {y : Except ε β}
    {f : α → Except ε γ} {g : β → Except ε δ} (h : Agree R x y)
    (hf : ∀ a b, R a b → Agree S (f a) (g b)) : Agree S (x >>= f) (y >>= g) := by
  cases h with
  | ok h => exact hf _ _ h
  | error e => exact .error e

/-- **A loop whose every iteration keeps `R`.** -/
theorem Agree.foldlM {R : α → β → Prop} {f : α → ι → Except ε α}
    {g : β → ι → Except ε β} {l : List ι} (hf : ∀ i ∈ l, ∀ a b, R a b → Agree R (f a i) (g b i))
    {a : α} {b : β} (h : R a b) : Agree R (l.foldlM f a) (l.foldlM g b) := by
  induction l generalizing a b with
  | nil => exact .ok h
  | cons i l ih =>
    rw [List.foldlM_cons, List.foldlM_cons]
    exact (hf i List.mem_cons_self a b h).bind fun a' b' h' =>
      ih (fun j hj => hf j (List.mem_cons_of_mem _ hj)) h'

end Outcomes
