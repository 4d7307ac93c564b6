import Mathlib.Tactic.Common
import ArgusEngine.Lib.Words

/-!
# Decimal numerals

The text of a number is its decimal digits, and the digits give the number back.

* `asBytes_toString`: the last digit and those before it;
* **`digits_toString`**: the digits are digits, and their value is the number.
-/

namespace Checked

theorem asBytes_append (s t : String) : asBytes (s ++ t) = asBytes s ++ asBytes t := by
  unfold asBytes
  rw [String.toByteArray_append]
  simp

theorem asBytes_digit {d : ℕ} (hd : d < 10) : asBytes (String.ofList [d.digitChar]) =
    [UInt8.ofNat (48 + d)] := by
  revert hd d
  decide +kernel

theorem asBytes_toString (n : ℕ) : asBytes (toString n) =
    (if n < 10 then [] else asBytes (toString (n / 10))) ++ [UInt8.ofNat (48 + n % 10)] := by
  have h : ∀ m : ℕ, toString m = String.ofList (Nat.toDigits 10 m) := fun m => rfl
  rw [h, h, Nat.toDigits_eq_if (by decide : 1 < 10)]
  split_ifs with hn
  · rw [asBytes_digit hn, Nat.mod_eq_of_lt hn, List.nil_append]
  · rw [String.ofList_append, asBytes_append, asBytes_digit (Nat.mod_lt n (by decide))]

theorem toString_ne_nil (n : ℕ) : asBytes (toString n) ≠ [] := by
  rw [asBytes_toString]
  exact List.append_ne_nil_of_right_ne_nil _ (List.cons_ne_nil _ _)

theorem toNat_digit {d : ℕ} (hd : d < 10) : (UInt8.ofNat (48 + d)).toNat = 48 + d := by
  rw [UInt8.toNat_ofNat', Nat.mod_eq_of_lt (by omega)]

/-- **The digits of a number**, and their value. -/
theorem digits_toString (n : ℕ) : (∀ b ∈ asBytes (toString n), 48 ≤ b ∧ b ≤ 57) ∧
    (asBytes (toString n)).foldl (fun n b => n * 10 + (b.toNat - 48)) 0 = n := by
  induction n using Nat.strong_induction_on with
  | _ n ih =>
    have hmod := Nat.mod_lt n (show 0 < 10 by decide)
    have hdigit := toNat_digit hmod
    have hlast : 48 ≤ UInt8.ofNat (48 + n % 10) ∧ UInt8.ofNat (48 + n % 10) ≤ 57 := by
      rw [UInt8.le_iff_toNat_le, UInt8.le_iff_toNat_le, hdigit]
      exact ⟨Nat.le_add_right _ _, show 48 + n % 10 ≤ 57 by omega⟩
    rw [asBytes_toString]
    split_ifs with hn
    · rw [List.nil_append]
      refine ⟨List.forall_mem_singleton.mpr hlast, ?_⟩
      rw [List.foldl_cons, List.foldl_nil, hdigit]
      omega
    · obtain ⟨hall, hfold⟩ := ih (n / 10) (by omega)
      refine ⟨List.forall_mem_append.mpr ⟨hall, List.forall_mem_singleton.mpr hlast⟩, ?_⟩
      rw [List.foldl_append, hfold, List.foldl_cons, List.foldl_nil, hdigit]
      omega

end Checked
