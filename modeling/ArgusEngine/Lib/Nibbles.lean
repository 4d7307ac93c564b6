import Mathlib.Data.Nat.Bitwise
import Mathlib.Tactic.Ring
import ArgusEngine.Lib.Words

/-!
# Fields of bytes

The bit fields a packed format is made of, as numbers: the nibbles `lo` and `hi` of a byte and the
four nibbles of a 16-bit word. The lemmas turn the masks and shifts of a packing into arithmetic.

* `toNat_low_pair`, `toNat_high_pair`: two bytes packed by their low or by their high nibbles;
* **`nibble_ofLe16`**: the nibbles of a word are those of its two bytes.
-/

namespace Nibbles

open Checked FlatMem

def lo (x : UInt8) : ℕ := x.toNat % 16

def hi (x : UInt8) : ℕ := x.toNat / 16

/-- Nibble `i` of a word, from the low end. -/
def nibble (x : UInt16) (i : ℕ) : ℕ := x.toNat / 16 ^ i % 16

theorem lo_lt (x : UInt8) : lo x < 16 := Nat.mod_lt _ (by decide)

theorem hi_lt (x : UInt8) : hi x < 16 := Nat.div_lt_of_lt_mul x.toNat_lt

theorem lo_add_hi (x : UInt8) : lo x + 16 * hi x = x.toNat := Nat.mod_add_div _ _

theorem ext_nibbles {x y : UInt8} (hl : lo x = lo y) (hh : hi x = hi y) : x = y := by
  rw [← UInt8.toNat_inj, ← lo_add_hi x, ← lo_add_hi y, hl, hh]

/-! ## Masks and shifts -/

theorem toNat_and_low (x : UInt8) : (x &&& 0x0F).toNat = lo x := by
  rw [UInt8.toNat_and]
  exact Nat.and_two_pow_sub_one_eq_mod _ 4

theorem toNat_shiftRight_four (x : UInt8) : (x >>> 4).toNat = hi x := by
  rw [UInt8.toNat_shiftRight]
  exact Nat.shiftRight_eq_div_pow _ 4

theorem toNat_and_high (x : UInt8) : (x &&& 0xF0).toNat = 16 * hi x := by
  have h : ∀ n < 256, n &&& 240 = 16 * (n / 16) := by decide +kernel
  rw [UInt8.toNat_and]
  exact h _ x.toNat_lt

theorem or_shiftLeft {a b k : ℕ} (ha : a < 2 ^ k) : a ||| b <<< k = a + 2 ^ k * b := by
  rw [Nat.or_comm, ← Nat.shiftLeft_add_eq_or_of_lt ha, Nat.shiftLeft_eq]
  ring

theorem toNat_low_pair (x y : UInt8) :
    ((x &&& (0x0F : UInt8)) ||| ((y &&& (0x0F : UInt8)) <<< (4 : UInt8))).toNat =
      lo x + 16 * lo y := by
  have hy := lo_lt y
  have hx := lo_lt x
  rw [UInt8.toNat_or, UInt8.toNat_shiftLeft, toNat_and_low, toNat_and_low]
  have h4 : (4 : UInt8).toNat % 8 = 4 := rfl
  rw [h4, Nat.mod_eq_of_lt (by rw [Nat.shiftLeft_eq]; omega)]
  exact or_shiftLeft (k := 4) hx

theorem toNat_high_pair (x y : UInt8) :
    (((x &&& (0xF0 : UInt8)) >>> (4 : UInt8)) ||| (y &&& (0xF0 : UInt8))).toNat =
      hi x + 16 * hi y := by
  have hx := hi_lt x
  rw [UInt8.toNat_or, UInt8.toNat_shiftRight, toNat_and_high, toNat_and_high]
  have h4 : (4 : UInt8).toNat % 8 = 4 := rfl
  rw [h4, Nat.shiftRight_eq_div_pow, Nat.mul_div_cancel_left _ (by decide)]
  have := or_shiftLeft (a := hi x) (b := hi y) (k := 4) (by omega)
  rwa [Nat.shiftLeft_eq, Nat.mul_comm] at this

/-! ## Words -/

theorem toNat_ofLe16 {b : List UInt8} {x y : UInt8} (h : b = [x, y]) :
    (ofLe16 b).toNat = x.toNat + 256 * y.toNat := by
  have hx := x.toNat_lt
  have hy := y.toNat_lt
  have hle : ofLe b = x.toNat + 256 * y.toNat := by simp [h, ofLe]
  rw [ofLe16, hle, UInt16.toNat_ofNat', Nat.mod_eq_of_lt (by omega)]

theorem le16_ofLe16 {b : List UInt8} (h : b.length = 2) : le16 (ofLe16 b) = b := by
  obtain ⟨x, y, rfl⟩ := List.length_eq_two.mp h
  have hx := x.toNat_lt
  rw [le16, toNat_ofLe16 rfl]
  have hdiv : (x.toNat + 256 * y.toNat) / 256 = y.toNat := by omega
  simp only [toLe, hdiv, List.cons.injEq, and_true, ← UInt8.toNat_inj, UInt8.toNat_ofNat']
  exact ⟨by omega, Nat.mod_eq_of_lt y.toNat_lt⟩

/-- **The nibbles of a word** are those of its low byte and then those of its high byte. -/
theorem nibble_ofLe16 {b : List UInt8} {x y : UInt8} (h : b = [x, y]) :
    nibble (ofLe16 b) 0 = lo x ∧ nibble (ofLe16 b) 1 = hi x ∧ nibble (ofLe16 b) 2 = lo y ∧
      nibble (ofLe16 b) 3 = hi y := by
  have hx := lo_add_hi x
  have hy := lo_add_hi y
  have h₁ := lo_lt x
  have h₂ := hi_lt x
  have h₃ := lo_lt y
  have h₄ := hi_lt y
  unfold nibble
  rw [toNat_ofLe16 h]
  norm_num
  omega

end Nibbles
