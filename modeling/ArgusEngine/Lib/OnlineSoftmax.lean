import Mathlib.Algebra.BigOperators.Group.List.Basic
import Mathlib.Algebra.BigOperators.Ring.List
import Mathlib.Algebra.Order.BigOperators.Group.List
import Mathlib.Algebra.Order.Field.Basic
import Mathlib.Order.WithBot
import Mathlib.Tactic.Positivity
import Mathlib.Tactic.Ring

/-!
# Softmax averages by running sums

The average of vectors weighted by the exponentials of their scores, computed in one pass: the sums
are kept relative to a running reference, and rescaled when the reference moves. Over an ordered
field with an exponential.

* `average`: the plain form; `average_perm`: it does not depend on the order;
* `Acc.Sums`: what a running state says of the scored vectors it has absorbed;
* **`Acc.Sums.absorb`**: a block of scored vectors, with a new reference;
* **`Acc.Sums.average_eq`**: the quotient of the running sums is the average;
* `two_pass`: the average by its weights, relative to any reference;
* **`sums_merge`**: states of several parts, brought to one reference and added;
* `sum_map_ite`, `le_foldl_max`: the loops of the kernels, over the entries that are not masked out;
* `live`: the entries whose score is not `-∞`; `softmaxRow`, `softmaxWeight`: their average and
  their weights, uniform when there are none.
-/

namespace OnlineSoftmax

/-- An exponential of an ordered field. -/
structure Exponential (K : Type*) [Field K] [LinearOrder K] where
  exp : K → K
  pos : ∀ x, 0 < exp x
  add : ∀ x y, exp (x + y) = exp x * exp y

variable {K ι : Type*} [Field K] [LinearOrder K]

/-- A running state: the reference, the sum of the weights, and the weighted sum of the vectors. -/
structure Acc (K ι : Type*) where
  m : WithBot K
  l : K
  o : ι → K

def Acc.empty : Acc K ι := ⟨⊥, 0, fun _ => 0⟩

namespace Exponential

variable (E : Exponential K)

/-- The exponential of a difference, that of `-∞` being zero: the weight of a score, and the factor
that brings sums to another reference. -/
def rescale (m : WithBot K) (M : K) : K := if m = ⊥ then 0 else E.exp (m.unbotD 0 - M)

/-- The sum of the weights of scored vectors. -/
def total (xs : List (K × (ι → K))) : K := (xs.map fun x => E.exp x.1).sum

def weighted (xs : List (K × (ι → K))) (d : ι) : K := (xs.map fun x => E.exp x.1 * x.2 d).sum

/-- **The softmax average** of scored vectors; that of none is zero. -/
def average (xs : List (K × (ι → K))) (d : ι) : K := E.weighted xs d / E.total xs

variable {E} {xs ys : List (K × (ι → K))}

theorem exp_sub (x y : K) : E.exp (x - y) = E.exp (-y) * E.exp x := by
  rw [sub_eq_add_neg, add_comm, E.add]

theorem average_perm (h : xs.Perm ys) (d : ι) : E.average xs d = E.average ys d := by
  rw [average, average, weighted, weighted, total, total, (h.map _).sum_eq, (h.map _).sum_eq]

theorem average_congr {κ α β : Type*} {l : List α} {l' : List β} {g : α → K × (ι → K)}
    {g' : β → K × (κ → K)} {d : ι} {d' : κ}
    (h : List.Forall₂ (fun a b => (g a).1 = (g' b).1 ∧ (g a).2 d = (g' b).2 d') l l') :
    E.average (l.map g) d = E.average (l'.map g') d' := by
  have hsums : E.weighted (l.map g) d = E.weighted (l'.map g') d' ∧
    E.total (l.map g) = E.total (l'.map g') := by
    unfold weighted total
    induction h with
    | nil => exact ⟨rfl, rfl⟩
    | cons hab _ ih =>
      simp only [List.map_cons, List.sum_cons, hab.1, hab.2]
      exact ⟨congrArg _ ih.1, congrArg _ ih.2⟩
  rw [average, average, hsums.1, hsums.2]

@[simp] theorem total_append : E.total (xs ++ ys) = E.total xs + E.total ys := by
  simp [total]

@[simp] theorem weighted_append (d : ι) :
    E.weighted (xs ++ ys) d = E.weighted xs d + E.weighted ys d := by
  simp [weighted]

@[simp] theorem total_nil : E.total ([] : List (K × (ι → K))) = 0 := rfl

@[simp] theorem weighted_nil (d : ι) : E.weighted [] d = 0 := rfl

theorem sum_exp_sub (M : K) : (xs.map fun x => E.exp (x.1 - M)).sum = E.exp (-M) * E.total xs := by
  rw [total, ← List.sum_map_mul_left]
  exact congrArg List.sum (List.map_congr_left fun x _ => exp_sub x.1 M)

theorem sum_exp_sub_mul (M : K) (d : ι) :
    (xs.map fun x => E.exp (x.1 - M) * x.2 d).sum = E.exp (-M) * E.weighted xs d := by
  rw [weighted, ← List.sum_map_mul_left]
  exact congrArg List.sum (List.map_congr_left fun x _ => by rw [exp_sub, mul_assoc])

theorem total_pos [IsStrictOrderedRing K] (h : xs ≠ []) : 0 < E.total xs := by
  cases xs with
  | nil => exact absurd rfl h
  | cons x xs =>
    rw [total, List.map_cons, List.sum_cons]
    refine add_pos_of_pos_of_nonneg (E.pos _) (List.sum_nonneg fun y hy => ?_)
    obtain ⟨z, -, rfl⟩ := List.mem_map.mp hy
    exact (E.pos _).le

end Exponential

open Exponential

variable {E : Exponential K} {a : Acc K ι} {xs ys : List (K × (ι → K))}

/-- The state `a` holds the sums over `xs`, relative to its reference. -/
structure Acc.Sums (E : Exponential K) (a : Acc K ι) (xs : List (K × (ι → K))) : Prop where
  none : a.m = ⊥ → xs = [] ∧ a.l = 0 ∧ ∀ d, a.o d = 0
  some : ∀ M : K, a.m = M → a.l = E.exp (-M) * E.total xs ∧ ∀ d,
    a.o d = E.exp (-M) * E.weighted xs d

theorem Acc.sums_empty : (Acc.empty : Acc K ι).Sums E [] where
  none _ := ⟨rfl, rfl, fun _ => rfl⟩
  some M h := absurd h (by simp [Acc.empty])

theorem Acc.Sums.rescale (h : a.Sums E xs) (M : K) :
    a.l * E.rescale a.m M = E.exp (-M) * E.total xs ∧
      ∀ d, a.o d * E.rescale a.m M = E.exp (-M) * E.weighted xs d := by
  rcases eq_or_ne a.m ⊥ with hm | hm
  · obtain ⟨rfl, hl, ho⟩ := h.none hm
    simp [Exponential.rescale, hm]
  · obtain ⟨M₀, hM₀⟩ := WithBot.ne_bot_iff_exists.mp hm
    obtain ⟨hl, ho⟩ := h.some M₀ hM₀.symm
    have hfac : E.rescale a.m M = E.exp (M₀ - M) := by simp [Exponential.rescale, ← hM₀]
    have hmul : E.exp (-M₀) * E.exp (M₀ - M) = E.exp (-M) := by rw [← E.add]; congr 1; ring
    rw [hfac]
    refine ⟨?_, fun d => ?_⟩
    · rw [hl, mul_right_comm, hmul]
    · rw [ho d, mul_right_comm, hmul]

/-- **A block is absorbed** at a new reference. -/
theorem Acc.Sums.absorb (h : a.Sums E xs) (ys : List (K × (ι → K))) (M : K) :
    (⟨M, a.l * E.rescale a.m M + (ys.map fun y => E.exp (y.1 - M)).sum,
      fun d => a.o d * E.rescale a.m M + (ys.map fun y => E.exp (y.1 - M) * y.2 d).sum⟩ :
      Acc K ι).Sums E (xs ++ ys) where
  none hm := absurd hm WithBot.coe_ne_bot
  some M' hM' := by
    obtain rfl : M = M' := WithBot.coe_injective hM'
    obtain ⟨hl, ho⟩ := h.rescale M
    refine ⟨?_, fun d => ?_⟩
    · change a.l * _ + _ = _
      rw [hl, sum_exp_sub, total_append, mul_add]
    · change a.o d * _ + _ = _
      rw [ho d, sum_exp_sub_mul, weighted_append, mul_add]

/-- **The quotient of the running sums is the average.** -/
theorem Acc.Sums.average_eq (h : a.Sums E xs) (d : ι) : a.o d / a.l = E.average xs d := by
  rcases eq_or_ne a.m ⊥ with hm | hm
  · obtain ⟨rfl, hl, ho⟩ := h.none hm
    rw [hl, ho d, average, weighted_nil, total_nil]
  · obtain ⟨M, hM⟩ := WithBot.ne_bot_iff_exists.mp hm
    obtain ⟨hl, ho⟩ := h.some M hM.symm
    rw [hl, ho d, average, mul_div_mul_left _ _ (E.pos _).ne']

theorem Acc.Sums.eq_nil (h : a.Sums E xs) [IsStrictOrderedRing K] (hl : a.l = 0) : xs = [] := by
  rcases eq_or_ne a.m ⊥ with hm | hm
  · exact (h.none hm).1
  · obtain ⟨M, hM⟩ := WithBot.ne_bot_iff_exists.mp hm
    by_contra hne
    rw [(h.some M hM.symm).1] at hl
    exact (mul_pos (E.pos _) (total_pos hne)).ne' hl

theorem two_pass (xs : List (K × (ι → K))) (M : K) (d : ι) :
    (xs.map fun x => E.exp (x.1 - M) / (xs.map fun y => E.exp (y.1 - M)).sum * x.2 d).sum =
      E.average xs d := by
  have hdiv : ∀ x : K × (ι → K), E.exp (x.1 - M) / (xs.map fun y => E.exp (y.1 - M)).sum * x.2 d =
      ((xs.map fun y => E.exp (y.1 - M)).sum)⁻¹ * (E.exp (x.1 - M) * x.2 d) := fun x => by
    rw [div_eq_inv_mul, mul_assoc]
  simp only [hdiv]
  rw [List.sum_map_mul_left, sum_exp_sub_mul, sum_exp_sub, average, ← div_eq_inv_mul,
    mul_div_mul_left _ _ (E.pos _).ne']

/-- **Several parts merge** at one reference. -/
theorem sums_merge {β : Type*} (l : List β) (part : β → Acc K ι) (xs : β → List (K × (ι → K)))
    (h : ∀ b ∈ l, (part b).Sums E (xs b)) (M : K) :
    (l.map fun b => E.rescale (part b).m M * (part b).l).sum = E.exp (-M) * E.total (l.flatMap xs) ∧
      ∀ d, (l.map fun b => E.rescale (part b).m M * (part b).o d).sum =
        E.exp (-M) * E.weighted (l.flatMap xs) d := by
  induction l with
  | nil => simp
  | cons b l ih =>
    obtain ⟨hl, ho⟩ := ih fun c hc => h c (List.mem_cons_of_mem _ hc)
    obtain ⟨hbl, hbo⟩ := (h b List.mem_cons_self).rescale M
    refine ⟨?_, fun d => ?_⟩
    · rw [List.map_cons, List.sum_cons, hl, mul_comm, hbl, List.flatMap_cons, total_append, mul_add]
    · rw [List.map_cons, List.sum_cons, ho d, mul_comm, hbo d, List.flatMap_cons,
        weighted_append, mul_add]

/-! ## Masked loops -/

omit [LinearOrder K] in
theorem sum_map_ite {α : Type*} (l : List α) (p : α → Bool) (f : α → K) :
    (l.map fun c => if p c then f c else 0).sum = ((l.filter p).map f).sum := by
  induction l with
  | nil => rfl
  | cons c l ih =>
    rw [List.map_cons, List.sum_cons, ih]
    by_cases hc : p c
    · rw [if_pos hc, List.filter_cons_of_pos hc, List.map_cons, List.sum_cons]
    · rw [if_neg hc, List.filter_cons_of_neg hc, zero_add]

theorem le_foldl_max {α β : Type*} [LinearOrder β] (s : α → β) (l : List α) (m : β) :
    m ≤ l.foldl (fun m c => if m < s c then s c else m) m ∧
      ∀ c ∈ l, s c ≤ l.foldl (fun m c => if m < s c then s c else m) m := by
  induction l generalizing m with
  | nil => exact ⟨le_rfl, fun c hc => absurd hc List.not_mem_nil⟩
  | cons c l ih =>
    obtain ⟨h₁, h₂⟩ := ih (if m < s c then s c else m)
    have hm : m ≤ (if m < s c then s c else m) ∧ s c ≤ (if m < s c then s c else m) := by
      split_ifs with h
      · exact ⟨h.le, le_rfl⟩
      · exact ⟨le_rfl, not_lt.mp h⟩
    refine ⟨hm.1.trans h₁, fun x hx => ?_⟩
    rcases List.mem_cons.mp hx with rfl | hx
    · exact hm.2.trans h₁
    · exact h₂ x hx

omit [Field K] in
theorem foldl_max_eq_bot {α : Type*} (s : α → WithBot K) (l : List α) :
    l.foldl (fun m c => if m < s c then s c else m) ⊥ = ⊥ ↔ ∀ c ∈ l, s c = ⊥ := by
  constructor
  · intro h c hc
    exact le_bot_iff.mp (h ▸ (le_foldl_max s l ⊥).2 c hc)
  · intro h
    induction l with
    | nil => rfl
    | cons c l ih =>
      rw [List.foldl_cons, h c List.mem_cons_self, if_neg (lt_irrefl _)]
      exact ih fun c' hc' => h c' (List.mem_cons_of_mem _ hc')

/-! ## Scores that may be `-∞` -/

section Live

variable {α : Type*} (s : α → WithBot K) (v : α → ι → K) (l : List α)

/-- The entries with a score, and their vectors. -/
def live : List (K × (ι → K)) :=
  (l.filter fun t => decide (s t ≠ ⊥)).map fun t => ((s t).unbotD 0, v t)

/-- The sum of the weights. -/
def liveTotal (E : Exponential K) : K :=
  ((l.filter fun t => decide (s t ≠ ⊥)).map fun t => E.exp ((s t).unbotD 0)).sum

/-- **The softmax average** of the entries that have a score; without any, the plain mean. -/
def softmaxRow (E : Exponential K) (d : ι) : K :=
  if ∀ t ∈ l, s t = ⊥ then (l.map fun t => 1 / (l.length : K) * v t d).sum
    else E.average (live s v l) d

/-- The weight of an entry in that average. -/
def softmaxWeight (E : Exponential K) (t : α) : K :=
  if ∀ t ∈ l, s t = ⊥ then 1 / (l.length : K)
  else if s t = ⊥ then 0 else E.exp ((s t).unbotD 0) / liveTotal s l E

variable {s v l} {E : Exponential K}

theorem live_append (l' : List α) : live s v (l ++ l') = live s v l ++ live s v l' := by
  simp [live]

theorem live_flatMap {β : Type*} (bs : List β) (f : β → List α) :
    live s v (bs.flatMap f) = bs.flatMap fun b => live s v (f b) := by
  induction bs with
  | nil => rfl
  | cons b bs ih => rw [List.flatMap_cons, live_append, ih, List.flatMap_cons]

theorem live_eq_nil : live s v l = [] ↔ ∀ t ∈ l, s t = ⊥ := by
  simp [live, List.filter_eq_nil_iff]

theorem total_live : E.total (live s v l) = liveTotal s l E := by
  rw [Exponential.total, live, liveTotal, List.map_map]
  rfl

theorem liveTotal_pos [IsStrictOrderedRing K] (h : ¬ ∀ t ∈ l, s t = ⊥) : 0 < liveTotal s l E := by
  rw [← total_live (v := fun _ (_ : Unit) => (0 : K))]
  exact total_pos fun hnil => h (live_eq_nil.mp hnil)

theorem sum_rescale (M : K) :
    (l.map fun t => E.rescale (s t) M).sum = E.exp (-M) * liveTotal s l E := by
  have hif : ∀ t, E.rescale (s t) M = if decide (s t ≠ ⊥) then E.exp ((s t).unbotD 0 - M)
    else 0 := fun t => by
    by_cases h : s t = ⊥ <;> simp [Exponential.rescale, h]
  simp only [hif]
  rw [sum_map_ite, liveTotal, ← List.sum_map_mul_left]
  exact congrArg List.sum (List.map_congr_left fun t _ => exp_sub _ _)

theorem rescale_div (M : K) (t : α) : E.rescale (s t) M / (E.exp (-M) * liveTotal s l E) =
    if s t = ⊥ then 0 else E.exp ((s t).unbotD 0) / liveTotal s l E := by
  unfold Exponential.rescale
  split_ifs with h
  · rw [zero_div]
  · rw [exp_sub, mul_div_mul_left _ _ (E.pos _).ne']

theorem softmaxRow_coe {f : α → K} (h : ∀ t ∈ l, s t = (f t : K)) (d : ι) :
    softmaxRow s v l E d = E.average (l.map fun t => (f t, v t)) d := by
  unfold softmaxRow
  split_ifs with hbot
  · have hnil : l = [] := List.eq_nil_iff_forall_not_mem.mpr fun t ht =>
      WithBot.coe_ne_bot ((h t ht).symm.trans (hbot t ht))
    rw [hnil]
    simp [Exponential.average]
  · have hlive : live s v l = l.map fun t => (f t, v t) := by
      unfold live
      rw [List.filter_eq_self.mpr fun t ht =>
        by rw [h t ht]; exact decide_eq_true WithBot.coe_ne_bot]
      refine List.map_congr_left fun t ht => ?_
      rw [h t ht]
      rfl
    rw [hlive]

theorem softmaxRow_eq_sum (d : ι) :
    softmaxRow s v l E d = (l.map fun t => softmaxWeight s l E t * v t d).sum := by
  by_cases h : ∀ t ∈ l, s t = ⊥
  · simp only [softmaxRow, softmaxWeight, if_pos h]
  · have hif : ∀ t, softmaxWeight s l E t * v t d = if decide (s t ≠ ⊥) then
        (liveTotal s l E)⁻¹ * (E.exp ((s t).unbotD 0) * v t d) else 0 := fun t => by
      by_cases ht : s t = ⊥
      · simp [softmaxWeight, if_neg h, ht]
      · rw [softmaxWeight, if_neg h, if_neg ht, if_pos (decide_eq_true ht),
          div_eq_inv_mul, mul_assoc]
    simp only [softmaxRow, if_neg h, hif]
    rw [sum_map_ite, List.sum_map_mul_left, Exponential.average, total_live, div_eq_inv_mul,
      Exponential.weighted, live, List.map_map]
    rfl

/-- **The weights sum to one.** -/
theorem sum_softmaxWeight [IsStrictOrderedRing K] (h : l ≠ []) :
    (l.map (softmaxWeight s l E)).sum = 1 := by
  by_cases hbot : ∀ t ∈ l, s t = ⊥
  · have hlen : (l.length : K) ≠ 0 := Nat.cast_ne_zero.mpr fun h0 =>
      h (List.length_eq_zero_iff.mp h0)
    have hconst : l.map (softmaxWeight s l E) = l.map fun _ => 1 / (l.length : K) :=
      List.map_congr_left fun t _ => if_pos hbot
    rw [hconst, List.map_const', List.sum_replicate, nsmul_eq_mul, mul_one_div, div_self hlen]
  · have hif : l.map (softmaxWeight s l E) = l.map fun t => E.rescale (s t) 0 /
      (E.exp (-0) * liveTotal s l E) :=
      List.map_congr_left fun t _ => by rw [rescale_div, softmaxWeight, if_neg hbot]
    have hne : E.exp (-0) * liveTotal s l E ≠ 0 := (mul_pos (E.pos _) (liveTotal_pos hbot)).ne'
    rw [hif]
    simp only [div_eq_mul_inv]
    rw [List.sum_map_mul_right, sum_rescale, mul_inv_cancel₀ hne]

theorem softmaxWeight_nonneg [IsStrictOrderedRing K] (t : α) : 0 ≤ softmaxWeight s l E t := by
  unfold softmaxWeight
  split_ifs with h₁ h₂
  · positivity
  · exact le_rfl
  · exact (div_pos (E.pos _) (liveTotal_pos h₁)).le

theorem live_map {β : Type*} (f : β → α) (bs : List β) :
    live s v (bs.map f) = live (s ∘ f) (v ∘ f) bs := by
  unfold live
  rw [List.filter_map, List.map_map]
  rfl

theorem liveTotal_map {β : Type*} (f : β → α) (bs : List β) :
    liveTotal s (bs.map f) E = liveTotal (s ∘ f) bs E := by
  unfold liveTotal
  rw [List.filter_map, List.map_map]
  rfl

theorem softmaxRow_map {β : Type*} (f : β → α) (bs : List β) (d : ι) :
    softmaxRow s v (bs.map f) E d = softmaxRow (s ∘ f) (v ∘ f) bs E d := by
  unfold softmaxRow
  simp only [List.forall_mem_map, live_map, List.map_map, List.length_map, Function.comp_def]

theorem softmaxWeight_map {β : Type*} (f : β → α) (bs : List β) (b : β) :
    softmaxWeight s (bs.map f) E (f b) = softmaxWeight (s ∘ f) bs E b := by
  unfold softmaxWeight
  simp only [List.forall_mem_map, liveTotal_map, List.length_map, Function.comp_def]

end Live

end OnlineSoftmax
