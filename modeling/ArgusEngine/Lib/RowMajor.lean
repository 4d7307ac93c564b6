import Mathlib.Algebra.Order.Group.Nat
import Mathlib.Data.Nat.Basic
import Mathlib.Tactic.Common

/-!
# Row-major buffers

A tensor of rows of `w` entries is a buffer; entry `j` of row `i` is at `i * w + j`. Operations that
treat the rows alike are compared row by row: `SameRow` says that a row of one buffer and a row of
another agree.

* `row`, `SameRow`;
* `div_row`, `mod_row`: from an index to its row and back;
* `SameRow.blocks`: a row of `m * w` entries as `m` rows of `w`.
-/

namespace RowMajor

variable {α β γ : Type*}

/-- Row `i` of a buffer of rows of `w` entries. -/
def row (w i : ℕ) (f : ℕ → α) : ℕ → α := fun j => f (i * w + j)

/-- Row `i` of `f` is row `i'` of `g`. -/
def SameRow (w i i' : ℕ) (f g : ℕ → α) : Prop := ∀ j < w, f (i * w + j) = g (i' * w + j)

variable {w i i' i'' j : ℕ} {f g e : ℕ → α}

theorem SameRow.refl (w i : ℕ) (f : ℕ → α) : SameRow w i i f f := fun _ _ => rfl

theorem SameRow.symm (h : SameRow w i i' f g) : SameRow w i' i g f := fun j hj => (h j hj).symm

theorem SameRow.trans (h : SameRow w i i' f g) (h' : SameRow w i' i'' g e) : SameRow w i i'' f e :=
  fun j hj => (h j hj).trans (h' j hj)

theorem row_zero (w : ℕ) (f : ℕ → α) : row w 0 f = f := by
  funext j
  rw [row, Nat.zero_mul, Nat.zero_add]

theorem sameRow_row (w i : ℕ) (f : ℕ → α) : SameRow w i 0 f (row w i f) := fun j _ => by
  unfold row
  rw [Nat.zero_mul, Nat.zero_add]

theorem div_row (hj : j < w) (i : ℕ) : (i * w + j) / w = i := by
  rw [Nat.mul_comm, Nat.mul_add_div (Nat.zero_lt_of_lt hj), Nat.div_eq_of_lt hj, Nat.add_zero]

theorem mod_row (hj : j < w) (i : ℕ) : (i * w + j) % w = j := by
  rw [Nat.mul_comm, Nat.mul_add_mod, Nat.mod_eq_of_lt hj]

theorem SameRow.map₂ {f' g' : ℕ → β} (h : SameRow w i i' f g) (h' : SameRow w i i' f' g')
    (op : α → β → γ) : SameRow w i i' (fun x => op (f x) (f' x)) fun x =>
    op (g x) (g' x) := fun j hj => by
  simp only [h j hj, h' j hj]

theorem SameRow.map (h : SameRow w i i' f g) (op : α → β) :
    SameRow w i i' (fun x => op (f x)) fun x => op (g x) :=
  fun j hj => by simp only [h j hj]

section Blocks

variable {m b : ℕ}

theorem block_index (i m b w j : ℕ) : i * (m * w) + (b * w + j) = (i * m + b) * w + j := by
  rw [Nat.add_mul, Nat.mul_assoc, Nat.add_assoc]

theorem SameRow.blocks (h : ∀ b < m, SameRow w (i * m + b) (i' * m + b) f g) :
    SameRow (m * w) i i' f g := by
  intro j hj
  have hw : 0 < w := Nat.pos_of_ne_zero fun h0 => by simp [h0] at hj
  have hb : j / w < m := Nat.div_lt_of_lt_mul (by rwa [Nat.mul_comm] at hj)
  have hsplit : j = j / w * w + j % w := by rw [Nat.mul_comm]; exact (Nat.div_add_mod j w).symm
  rw [hsplit, block_index, block_index]
  exact h _ hb _ (Nat.mod_lt _ hw)

theorem SameRow.block (h : SameRow (m * w) i i' f g) (hb : b < m) :
    SameRow w (i * m + b) (i' * m + b) f g := by
  intro j hj
  have hlt : b * w + j < m * w := by
    calc b * w + j < b * w + w := Nat.add_lt_add_left hj _
      _ = (b + 1) * w := (Nat.succ_mul b w).symm
      _ ≤ m * w := Nat.mul_le_mul_right w hb
  have hsame := h (b * w + j) hlt
  rwa [block_index, block_index] at hsame

end Blocks

end RowMajor
