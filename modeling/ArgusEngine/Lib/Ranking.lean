import Mathlib.Data.List.Basic

/-!
# Ranked lists

* `pairwise_mergeSort_stable`: a stable sort keeps the order of what ties;
* `rel_of_take_of_drop`: what is taken of a ranked list stands before what is dropped.
-/

namespace Ranking

variable {α : Type*} {R : α → α → Prop} {l : List α}

/-- **A stable sort**: of two elements that tie, the first one stays in front. -/
theorem pairwise_mergeSort_stable (le : α → α → Bool)
    (trans : ∀ a b c, le a b = true → le b c = true → le a c = true)
    (total : ∀ a b, (le a b || le b a) = true) (h : l.Pairwise R) :
    (l.mergeSort le).Pairwise fun a b => le a b = true ∧ (le b a = true → R a b) := by
  -- the sort of the elements with their places: a tie is broken by the places
  rw [← List.mergeSort_zipIdx, List.pairwise_map]
  have hsorted := List.pairwise_mergeSort (List.zipIdxLE_trans trans)
    (List.zipIdxLE_total total) l.zipIdx
  have hplaces : ((l.zipIdx).mergeSort (List.zipIdxLE le)).Pairwise fun a b => a.2 ≠ b.2 := by
    have hnodup : (l.zipIdx.map Prod.snd).Nodup := by
      rw [List.zipIdx_map_snd]
      exact List.nodup_range'
    exact List.pairwise_map.mp
      (((List.mergeSort_perm l.zipIdx _).map Prod.snd).nodup_iff.mpr hnodup)
  refine (hsorted.and hplaces).imp_of_mem ?_
  rintro ⟨a, i⟩ ⟨b, j⟩ ha hb ⟨hle, hne⟩
  rw [List.mem_mergeSort, List.mem_zipIdx_iff_getElem?] at ha hb
  unfold List.zipIdxLE at hle
  dsimp only at hle hne ha hb ⊢
  by_cases hab : le a b = true
  · refine ⟨hab, fun hba => ?_⟩
    rw [if_pos hab, if_pos hba] at hle
    obtain ⟨hi, rfl⟩ := List.getElem?_eq_some_iff.mp ha
    obtain ⟨hj, rfl⟩ := List.getElem?_eq_some_iff.mp hb
    exact List.pairwise_iff_getElem.mp h i j hi hj (Nat.lt_of_le_of_ne (of_decide_eq_true hle) hne)
  · rw [if_neg hab] at hle
    cases hle

theorem rel_of_take_of_drop (h : l.Pairwise R) {k : ℕ} {a b : α} (ha : a ∈ l.take k)
    (hb : b ∈ l.drop k) : R a b := by
  rw [← List.take_append_drop k l] at h
  exact (List.pairwise_append.mp h).2.2 a ha b hb

end Ranking
