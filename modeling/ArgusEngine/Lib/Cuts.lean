import Mathlib.Data.List.Nodup
import Mathlib.Logic.Function.Iterate
import Mathlib.Tactic.Common

/-!
# Blocks cut off the front of a list

A `Cut` is a list from whose front blocks were taken, in order, while its end grew. Joined in the
order they were taken the blocks give the list back (`Cut.whole_take`, `Cut.whole_append`). Put back
one by one in front, first taken first, they come in the reverse order.

* `Cut.putBack_off`: what the blocks put back first-taken-first leave;
* **`Cut.putBack_eq_whole`**: it is the whole list if and only if the blocks read the same in
  reverse;
* `Cut.reverse_flatten_of_length`, `Cut.length_le_one_of_nodup`: with at most one block it is; over
  a list without repetition, only then.
-/

namespace Cuts

variable {α : Type*}

/-- The blocks taken off, oldest first, and what is left. -/
structure Cut (α : Type*) where
  off : List (List α)
  rest : List α

namespace Cut

/-- Take the first `n` off, never nothing and never everything. -/
def take (t : Cut α) (n : ℕ) : Cut α :=
  if 0 < n ∧ n < t.rest.length then ⟨t.off ++ [t.rest.take n], t.rest.drop n⟩ else t

def append (t : Cut α) (l : List α) : Cut α := ⟨t.off, t.rest ++ l⟩

/-- Everything in order. -/
def whole (t : Cut α) : List α := t.off.flatten ++ t.rest

/-- Put the first-taken block back in front. -/
def putBack (t : Cut α) : Cut α :=
  match t.off with
  | [] => t
  | b :: bs => ⟨bs, b ++ t.rest⟩

theorem whole_take (t : Cut α) (n : ℕ) : (t.take n).whole = t.whole := by
  unfold take whole
  split_ifs
  · simp [List.append_assoc]
  · rfl

theorem whole_append (t : Cut α) (l : List α) : (t.append l).whole = t.whole ++ l := by
  simp [append, whole, List.append_assoc]

theorem length_whole_putBack (t : Cut α) : t.putBack.whole.length = t.whole.length := by
  obtain ⟨_ | ⟨b, bs⟩, rest⟩ := t
  · rfl
  · simp only [putBack, whole, List.flatten_cons, List.length_append]
    omega

/-- No block is empty. -/
def Proper (t : Cut α) : Prop := ∀ b ∈ t.off, b ≠ []

theorem Proper.take {t : Cut α} (h : t.Proper) (n : ℕ) : (t.take n).Proper := by
  unfold Cut.take
  split_ifs with hn
  · intro b hb
    rcases List.mem_append.mp hb with hb | hb
    · exact h b hb
    · rw [List.mem_singleton.mp hb]
      intro he
      have := congrArg List.length he
      simp only [List.length_take, List.length_nil] at this
      omega
  · exact h

/-- **The blocks put back, first taken first.** -/
theorem putBack_off (t : Cut α) :
    putBack^[t.off.length] t = ⟨[], t.off.reverse.flatten ++ t.rest⟩ := by
  obtain ⟨off, rest⟩ := t
  induction off generalizing rest with
  | nil => rfl
  | cons b bs ih =>
    rw [List.length_cons, Function.iterate_succ_apply]
    refine (ih (b ++ rest)).trans ?_
    simp [List.append_assoc]

/-- **Whole again** if and only if the blocks read the same in reverse. -/
theorem putBack_eq_whole (t : Cut α) :
    t.off.reverse.flatten ++ t.rest = t.whole ↔ t.off.reverse.flatten = t.off.flatten :=
  List.append_left_inj _

theorem reverse_flatten_of_length {l : List (List α)} (h : l.length ≤ 1) :
    l.reverse.flatten = l.flatten := by
  match l with
  | [] => rfl
  | [b] => rfl
  | _ :: _ :: _ => simp at h

/-- Without repetition two blocks never read the same in reverse: the first element tells them
apart. -/
theorem length_le_one_of_nodup {l : List (List α)} (hne : ∀ b ∈ l, b ≠ []) (hnd : l.flatten.Nodup)
    (h : l.reverse.flatten = l.flatten) : l.length ≤ 1 := by
  cases l with
  | nil => simp
  | cons b bs =>
    rcases List.eq_nil_or_concat bs with rfl | ⟨m, c, rfl⟩
    · simp
    exfalso
    obtain ⟨x, b', rfl⟩ := List.exists_cons_of_ne_nil (hne b List.mem_cons_self)
    obtain ⟨y, c', rfl⟩ := List.exists_cons_of_ne_nil (hne c (by simp))
    have hxy : y = x := by
      have := congrArg List.head? h
      simpa using this
    subst hxy
    simp at hnd

end Cut

end Cuts
