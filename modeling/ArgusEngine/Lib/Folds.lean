import Mathlib.Algebra.BigOperators.Group.Finset.Basic
import Mathlib.Algebra.BigOperators.Intervals
import Mathlib.Data.List.Basic

/-!
# Loops over an array

* `foldl_nest`: a loop nest over a flat array as one loop;
* `getElem?_foldl_modify`, `getD_foldl_set`: an entry after a loop of updates;
* `foldl_add`: a loop that adds up;
* `foldl_only`: what one index of a loop sets and no other touches, in whatever order;
* **`foldl_improve`**: a loop that keeps the best value it has seen.
-/

namespace Folds

variable {α β ι : Type*}

theorem foldl_nest (g : β → ℕ → β) (n m : ℕ) (b : β) :
    (List.range n).foldl (fun b h => (List.range m).foldl (fun b d => g b (h * m + d)) b) b =
      (List.range (n * m)).foldl g b := by
  induction n with
  | zero =>
    rw [Nat.zero_mul]
    rfl
  | succ n ih =>
    rw [List.range_succ, List.foldl_append, ih, Nat.succ_mul, List.range_add, List.foldl_append,
      List.foldl_map]
    rfl

theorem getElem?_foldl_modify {l : List ι} {key : ι → ℕ} {f : ι → α → α} {b : List α} {p : ℕ} :
    (l.foldl (fun b x => b.modify (key x) (f x)) b)[p]? =
      b[p]?.map fun a => (l.filter (key · = p)).foldl (fun a x => f x a) a := by
  induction l generalizing b with
  | nil => simp
  | cons x l ih =>
    rw [List.foldl_cons, ih, List.getElem?_modify]
    by_cases hx : key x = p
    · rw [List.filter_cons_of_pos (by simpa using hx)]
      cases b[p]? <;> simp [hx]
    · rw [List.filter_cons_of_neg (by simpa using hx)]
      cases b[p]? <;> simp [hx]

theorem getElem?_foldl_range_modify {f : ℕ → α → α} {b : List α} {n p : ℕ} (hp : p < n) :
    ((List.range n).foldl (fun b i => b.modify i (f i)) b)[p]? = b[p]?.map (f p) := by
  have hone : ((List.range n).filter fun i => decide (i = p)) = [p] := by
    obtain ⟨k, rfl⟩ := Nat.exists_eq_add_of_lt hp
    rw [show p + k + 1 = p + (1 + k)
      by omega, List.range_add, List.range_add, List.filter_append, List.map_append,
      List.filter_append]
    have hlow : (List.range p).filter (fun i => decide (i = p)) = [] := by
      simp only [List.filter_eq_nil_iff, List.mem_range, decide_eq_true_eq]
      omega
    have hhigh : (((List.range k).map (1 + ·)).map (p + ·)).filter (fun i =>
      decide (i = p)) = [] := by
      simp only [List.filter_eq_nil_iff, List.mem_map, decide_eq_true_eq]
      omega
    rw [hlow, hhigh]
    simp
  rw [getElem?_foldl_modify, hone]
  rfl

theorem length_foldl_set {l : List ℕ} {x : α} {b : List α} :
    (l.foldl (fun b i => b.set i x) b).length = b.length := by
  induction l generalizing b with
  | nil => rfl
  | cons i l ih => rw [List.foldl_cons, ih, List.length_set]

theorem getD_foldl_set {l : List ℕ} {b : List Bool} {p : ℕ} (hp : p < b.length) :
    (l.foldl (fun b i => b.set i true) b).getD p false = true ↔ p ∈ l ∨ b.getD p false = true := by
  induction l generalizing b with
  | nil => simp
  | cons i l ih =>
    rw [List.foldl_cons, ih (by rwa [List.length_set]), List.mem_cons]
    by_cases hi : p = i
    · subst hi
      simp [List.getD_eq_getElem?_getD, List.getElem?_set_self hp]
    · simp [List.getD_eq_getElem?_getD, List.getElem?_set_ne (Ne.symm hi), hi]

theorem foldl_add [AddCommMonoid α] (f : ℕ → α) (n : ℕ) (a : α) :
    (List.range n).foldl (fun s i => s + f i) a = a + ∑ i ∈ Finset.range n, f i := by
  induction n with
  | zero => simp
  | succ n ih =>
    rw [List.range_succ, List.foldl_append, ih, Finset.sum_range_succ, ← add_assoc]
    rfl

/-- A part of the state that one index of a loop sets, and no other touches. -/
theorem foldl_only {γ : Type*} {g : β → ι → β} (read : β → γ) {l : List ι} {x : ι}
    {val : γ} (hx : x ∈ l) (hset : ∀ b, read (g b x) = val)
    (hkeep : ∀ y ∈ l, y ≠ x → ∀ b, read (g b y) = read b) (b : β) : read (l.foldl g b) = val := by
  induction l using List.reverseRecOn with
  | nil => exact absurd hx List.not_mem_nil
  | append_singleton l y ih =>
    rw [List.foldl_append, List.foldl_cons, List.foldl_nil]
    by_cases hy : y = x
    · rw [hy]
      exact hset _
    · rw [hkeep y (by simp) hy]
      have hxl : x ∈ l := by
        rcases List.mem_append.mp hx with h | h
        · exact h
        · exact absurd (List.mem_singleton.mp h).symm hy
      exact ih hxl fun z hz => hkeep z (List.mem_append_left _ hz)

/-! ## The best value -/

section Improve

variable (r : α → α → Prop) [DecidableRel r]

/-- `if r v m { m = v }`, where `none` is worse than any value. -/
def improve (v : α) : Option α → Option α
  | none => some v
  | some m => some (if r v m then v else m)

/-- **The best of the values seen**: one of them, and no other is better. -/
theorem foldl_improve [IsStrictOrder α r] {l : List ι} (hl : l ≠ []) (v : ι → α) :
    ∃ m, l.foldl (fun o x => improve r (v x) o) none = some m ∧ (∃ x ∈ l, m = v x) ∧
    ∀ x ∈ l, ¬ r (v x) m := by
  induction l using List.reverseRecOn with
  | nil => exact absurd rfl hl
  | append_singleton l x ih =>
    rw [List.foldl_append]
    by_cases hnil : l = []
    · subst hnil
      refine ⟨v x, rfl, ⟨x, by simp, rfl⟩, fun y hy => ?_⟩
      obtain rfl : y = x := by simpa using hy
      exact irrefl _
    · obtain ⟨m, hm, ⟨y, hy, hmy⟩, hbest⟩ := ih hnil
      rw [hm]
      by_cases hx : r (v x) m
      · refine ⟨v x, congrArg some (if_pos hx), ⟨x, by simp, rfl⟩, fun z hz => ?_⟩
        rcases List.mem_append.mp hz with hz | hz
        · exact fun hzx => hbest z hz (Trans.trans hzx hx)
        · obtain rfl : z = x := by simpa using hz
          exact irrefl _
      · refine ⟨m, congrArg some (if_neg hx), ⟨y, List.mem_append_left _ hy, hmy⟩, fun z hz => ?_⟩
        rcases List.mem_append.mp hz with hz | hz
        · exact hbest z hz
        · obtain rfl : z = x := by simpa using hz
          exact hx

end Improve

end Folds
