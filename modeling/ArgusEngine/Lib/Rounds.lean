import Mathlib.Algebra.BigOperators.Fin
import Mathlib.Tactic.Common

/-!
# Schedules in rounds, and sums over processes

Processes that step in any order, and what a fair schedule reaches. `Progress` collects what a proof
of termination shows: a rank that no step raises and that a ready process lowers, and a ready
process as long as the goal is not reached, which stays ready until the rank falls.

* `Progress.reaches`: after as many rounds as the rank, the goal has been reached, a round being any
  list of steps in which every process has one.
* `sum_update_add`: a sum over processes after one of them has moved.
-/

namespace Rounds

variable {σ ι α : Type*}

/-- The states that a schedule passes through, from the first to the last. -/
def trace (step : α → σ → σ) (s : σ) : List α → List σ
  | [] => [s]
  | a :: l => s :: trace step (step a s) l

theorem mem_trace_self (step : α → σ → σ) (s : σ) (l : List α) : s ∈ trace step s l := by
  cases l <;> simp [trace]

theorem trace_subset_append (step : α → σ → σ) (l l' : List α) (s : σ) :
    ∀ t ∈ trace step s l, t ∈ trace step s (l ++ l') := by
  induction l generalizing s with
  | nil => intro t ht; rw [List.mem_singleton.mp ht]; exact mem_trace_self _ _ _
  | cons a l ih =>
    intro t ht
    rcases List.mem_cons.mp ht with rfl | ht
    · exact mem_trace_self _ _ _
    · exact List.mem_cons_of_mem _ (ih _ t ht)

/-- The state that a schedule ends in. -/
def run (step : α → σ → σ) (s : σ) (l : List α) : σ := l.foldl (fun s a => step a s) s

@[simp] theorem run_cons (step : α → σ → σ) (s : σ) (a : α) (l : List α) :
    run step s (a :: l) = run step (step a s) l := rfl

theorem trace_append (step : α → σ → σ) (l l' : List α) (s : σ) :
    ∀ t ∈ trace step (run step s l) l', t ∈ trace step s (l ++ l') := by
  induction l generalizing s with
  | nil => exact fun t h => h
  | cons a l ih => exact fun t h => List.mem_cons_of_mem _ (ih _ t h)

/-- What a proof of termination shows of the step: `Inv` is kept, `rank` does not grow, a ready
process lowers it, and some process is ready and stays so until the rank has fallen. `own a i`: the
step `a` is one of process `i`. -/
structure Progress (step : α → σ → σ) (own : α → ι → Prop) (Inv Goal : σ → Prop)
    (Ready : ι → σ → Prop) (rank : σ → ℕ) : Prop where
  keeps : ∀ a s, Inv s → Inv (step a s)
  rank_le : ∀ a s, Inv s → ¬ Goal s → rank (step a s) ≤ rank s
  lowers : ∀ a i s, Inv s → ¬ Goal s → Ready i s → own a i → rank (step a s) < rank s
  some_ready : ∀ s, Inv s → ¬ Goal s → ∃ i, Ready i s
  stays_ready : ∀ a i s, Inv s → ¬ Goal s → Ready i s → ¬ own a i → rank (step a s) = rank s →
    Ready i (step a s)

variable {step : α → σ → σ} {own : α → ι → Prop} {Inv Goal : σ → Prop}
  {Ready : ι → σ → Prop} {rank : σ → ℕ}

/-- A schedule with a step of a ready process reaches the goal or lowers the rank. -/
theorem Progress.round (hp : Progress step own Inv Goal Ready rank) {i : ι} (l : List α)
    {s : σ} (hs : Inv s) (hr : Ready i s) (hl : ∃ a ∈ l, own a i) :
    (∃ t ∈ trace step s l, Goal t) ∨ rank (run step s l) < rank s := by
  classical
  -- until the ready process steps, a step keeps it ready or lowers the rank; afterwards the rank
  -- does not grow
  have hle : ∀ (l : List α) (s : σ), Inv s → (∃ t ∈ trace step s l, Goal t) ∨
    rank (run step s l) ≤ rank s := by
    intro l
    induction l with
    | nil => exact fun s _ => Or.inr le_rfl
    | cons a l ih =>
      intro s hs
      by_cases hg : Goal s
      · exact Or.inl ⟨s, mem_trace_self _ _ _, hg⟩
      rcases ih (step a s) (hp.keeps a s hs) with ⟨t, ht, hgt⟩ | h
      · exact Or.inl ⟨t, List.mem_cons_of_mem _ ht, hgt⟩
      · exact Or.inr (h.trans (hp.rank_le a s hs hg))
  induction l generalizing s with
  | nil => obtain ⟨a, ha, -⟩ := hl; exact absurd ha List.not_mem_nil
  | cons a l ih =>
    by_cases hg : Goal s
    · exact Or.inl ⟨s, mem_trace_self _ _ _, hg⟩
    have hinv := hp.keeps a s hs
    have hafter : rank (step a s) < rank s →
        (∃ t ∈ trace step s (a :: l), Goal t) ∨ rank (run step s (a :: l)) < rank s := by
      intro hlt
      rcases hle l (step a s) hinv with ⟨t, ht, hgt⟩ | h
      · exact Or.inl ⟨t, List.mem_cons_of_mem _ ht, hgt⟩
      · exact Or.inr (lt_of_le_of_lt h hlt)
    by_cases hown : own a i
    · exact hafter (hp.lowers a i s hs hg hr hown)
    rcases (hp.rank_le a s hs hg).lt_or_eq with hlt | heq
    · exact hafter hlt
    have hl' : ∃ b ∈ l, own b i := by
      obtain ⟨b, hb, hbi⟩ := hl
      rcases List.mem_cons.mp hb with rfl | hb
      · exact absurd hbi hown
      · exact ⟨b, hb, hbi⟩
    rcases ih hinv (hp.stays_ready a i s hs hg hr hown heq) hl' with ⟨t, ht, hgt⟩ | h
    · exact Or.inl ⟨t, List.mem_cons_of_mem _ ht, hgt⟩
    · exact Or.inr (heq ▸ h)

theorem Progress.keeps_run (hp : Progress step own Inv Goal Ready rank) (l : List α)
    {s : σ} (hs : Inv s) : Inv (run step s l) := by
  induction l generalizing s with
  | nil => exact hs
  | cons a l ih => exact ih (hp.keeps a s hs)

/-- **As many rounds as the rank reach the goal.** -/
theorem Progress.reaches (hp : Progress step own Inv Goal Ready rank) (rounds : List (List α))
    {s : σ} (hs : Inv s) (hround : ∀ r ∈ rounds, ∀ i, ∃ a ∈ r, own a i)
    (hlen : rank s < rounds.length) : ∃ t ∈ trace step s rounds.flatten, Goal t := by
  induction rounds generalizing s with
  | nil => exact absurd hlen (Nat.not_lt_zero _)
  | cons r rounds ih =>
    rw [List.flatten_cons]
    by_cases hg : Goal s
    · exact ⟨s, mem_trace_self _ _ _, hg⟩
    obtain ⟨i, hi⟩ := hp.some_ready s hs hg
    rcases hp.round r hs hi (hround r List.mem_cons_self i) with ⟨t, ht, hgt⟩ | hlt
    · exact ⟨t, trace_subset_append step r _ s t ht, hgt⟩
    · have hlen' : rank (run step s r) < rounds.length := by
        rw [List.length_cons] at hlen
        omega
      obtain ⟨t, ht, hgt⟩ :=
        ih (hp.keeps_run r hs) (fun r' hr' => hround r' (List.mem_cons_of_mem _ hr')) hlen'
      exact ⟨t, trace_append step r _ s t ht, hgt⟩

/-- **One process has moved**: the sum changes by that process's summand. -/
theorem sum_update_add {M β : Type*} [AddCommMonoid M] [Fintype ι] [DecidableEq ι] (g : ι → β → M)
    (w : ι → β) (i : ι) (b : β) :
    (∑ x, g x (Function.update w i b x)) + g i (w i) = (∑ x, g x (w x)) + g i b := by
  rw [← Finset.add_sum_erase _ _ (Finset.mem_univ i),
    ← Finset.add_sum_erase _ (fun x => g x (w x)) (Finset.mem_univ i)]
  have hrest : ∑ x ∈ Finset.univ.erase i, g x (Function.update w i b x) = ∑ x ∈ Finset.univ.erase i,
    g x (w x) :=
    Finset.sum_congr rfl fun x hx => by rw [Function.update_of_ne (Finset.ne_of_mem_erase hx)]
  rw [hrest, Function.update_self]
  ac_rfl

end Rounds
