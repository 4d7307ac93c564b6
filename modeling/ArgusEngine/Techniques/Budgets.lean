import Mathlib.Algebra.BigOperators.Intervals
import Mathlib.Algebra.BigOperators.Ring.Finset
import Mathlib.Algebra.Order.BigOperators.Group.Finset
import Mathlib.Data.List.GetD
import Mathlib.Tactic.FieldSimp
import Mathlib.Tactic.LinearCombination
import Mathlib.Tactic.Ring
import ArgusEngine.Techniques.Planners

/-!
# Budgets over layers and heads

PyramidKV lets the budget fall linearly from layer to layer, AdaKV lets the heads of a layer compete
for it. Both are read here over an arithmetic of their own: with that of the machine they are the
functions of the planners, with the exact one they spend what they are given.

* `BudgetArith`, `layerBudget`, `perHeadKeep`;
* **`layerBudget_pyramid`**: the budgets of the layers fall, and add up to the total but for the
  rounding;
* **`perHeadKeep_allocates`**: the heads win the whole budget, and each keeps its best positions.
-/

namespace ArgusEngine.Techniques

open Checked FlatMem Finset

/-- The arithmetic of a budget: an operation of each type, and a cast to `usize`. -/
structure BudgetArith where
  f64 : ℚ → ℚ
  f32 : ℚ → ℚ
  usize : ℕ → ℕ
  asUsize : ℤ → ℕ

namespace BudgetArith

def machine : BudgetArith := ⟨Techniques.f64, Techniques.f32, (· % 2 ^ 64), Techniques.asUsize⟩

def exact : BudgetArith := ⟨id, id, id, Int.toNat⟩

end BudgetArith

/-! ## Layers -/

section Layers

variable (B : BudgetArith) (qLen : ℕ) (compressionRatio : ℚ) (windowSize beta : ℕ)

/-- The budget of the first layer and that of the last. -/
def layerBounds : ℚ × ℚ :=
  let q := B.f64 qLen
  let w := B.f64 windowSize
  let maxCapacityPrompt := B.f64 (w + B.f64 (q * B.f64 (1 - compressionRatio)))
  let minNum := B.f64 (B.f64 (maxCapacityPrompt - w) / beta)
  let maxNum := B.f64 (B.f64 (B.f64 (maxCapacityPrompt - w) * 2) - minNum)
  if B.f64 (q - w) ≤ maxNum then
    (B.f64 (q - w), B.f64 (B.f64 (B.f64 (maxCapacityPrompt - w) * 2) - B.f64 (q - w)))
  else (maxNum, minNum)

/-- The admission of the pyramid. -/
def Pyramid : Prop :=
  let bounds := layerBounds B qLen compressionRatio windowSize beta
  bounds.1 ≤ B.f64 qLen ∧ bounds.2 ≤ bounds.1 ∧ B.f64 windowSize ≤ bounds.2

instance : Decidable (Pyramid B qLen compressionRatio windowSize beta) := by
  unfold Pyramid
  infer_instance

/-- `get_layer_budget`. -/
def layerBudget (numLayers layerIdx : ℕ) : ℕ :=
  let uniform := B.asUsize (halfEven (B.f64 (B.f64 qLen * B.f64 (1 - compressionRatio))))
  if ¬ Pyramid B qLen compressionRatio windowSize beta then uniform
  else if numLayers ≤ 1 then uniform
  else
    let bounds := layerBounds B qLen compressionRatio windowSize beta
    let steps := B.f64 (B.f64 (bounds.1 - bounds.2) / B.f64 (B.f64 numLayers - 1))
    B.asUsize (halfEven (B.f64 (bounds.1 - B.f64 (B.f64 layerIdx * steps))))

theorem getLayerBudget_eq (numLayers layerIdx : ℕ) :
    getLayerBudget qLen compressionRatio windowSize beta numLayers layerIdx =
      layerBudget .machine qLen compressionRatio windowSize beta numLayers layerIdx := by
  unfold getLayerBudget layerBudget Pyramid
  rfl

end Layers

section Exact

variable (q : ℕ) (cr : ℚ) (w beta n : ℕ)

/-- **The two ends average to the mean budget**, also where the first one is cut to the prompt. -/
theorem layerBounds_add :
    (layerBounds .exact q cr w beta).1 + (layerBounds .exact q cr w beta).2 =
      2 * (q * (1 - cr)) := by
  unfold layerBounds
  dsimp only
  split_ifs with hcut
  · simp only [BudgetArith.exact, id_eq]
    ring
  · simp only [BudgetArith.exact, id_eq]
    ring

/-- The share of a layer before it is rounded. -/
def share (i : ℕ) : ℚ :=
  let bounds := layerBounds .exact q cr w beta
  if Pyramid .exact q cr w beta then bounds.1 - i * ((bounds.1 - bounds.2) / (n - 1))
    else q * (1 - cr)

theorem layerBudget_exact (hn : 2 ≤ n) (i : ℕ) :
    layerBudget .exact q cr w beta n i = (halfEven (share q cr w beta n i)).toNat := by
  unfold layerBudget share
  by_cases hpyramid : Pyramid .exact q cr w beta
  · rw [if_neg (not_not.mpr hpyramid), if_neg (by omega), if_pos hpyramid]
    rfl
  · rw [if_pos hpyramid, if_neg hpyramid]
    rfl

variable {n}

theorem share_antitone (hn : 2 ≤ n) {i j : ℕ} (hij : i ≤ j) :
    share q cr w beta n j ≤ share q cr w beta n i := by
  unfold share
  dsimp only
  split_ifs with hpyramid
  · have hsteps : 0 ≤ ((layerBounds .exact q cr w beta).1 - (layerBounds .exact q cr w beta).2) /
      ((n : ℚ) - 1) := by
      have hn' : (2 : ℚ) ≤ n := by exact_mod_cast hn
      exact div_nonneg (sub_nonneg.mpr hpyramid.2.1) (by linarith)
    exact sub_le_sub_left (mul_le_mul_of_nonneg_right (by exact_mod_cast hij) hsteps) _
  · exact le_rfl

variable {q cr w beta}

theorem share_ends (hn : 2 ≤ n) (hpyramid : Pyramid .exact q cr w beta) :
    share q cr w beta n 0 = (layerBounds .exact q cr w beta).1 ∧
      share q cr w beta n (n - 1) = (layerBounds .exact q cr w beta).2 := by
  have hn' : (n : ℚ) - 1 ≠ 0 := by
    have : (2 : ℚ) ≤ n := by exact_mod_cast hn
    linarith
  unfold share
  rw [if_pos hpyramid, if_pos hpyramid, Nat.cast_sub (by omega), Nat.cast_one,
    mul_div_cancel₀ _ hn']
  exact ⟨by simp, sub_sub_cancel _ _⟩

variable (q w beta)

theorem share_bounds (hn : 2 ≤ n) (h0 : 0 < cr) (h1 : cr < 1) {i : ℕ} (hi : i < n) :
    0 ≤ share q cr w beta n i ∧ share q cr w beta n i ≤ q ∧
      (Pyramid .exact q cr w beta → w ≤ share q cr w beta n i) := by
  by_cases hpyramid : Pyramid .exact q cr w beta
  · obtain ⟨hfirst, hlast⟩ := share_ends hn hpyramid
    have hle : share q cr w beta n i ≤ q :=
      (share_antitone q cr w beta hn (Nat.zero_le i)).trans (hfirst.trans_le hpyramid.1)
    have hge : (w : ℚ) ≤ share q cr w beta n i :=
      (hpyramid.2.2.trans_eq hlast.symm).trans (share_antitone q cr w beta hn (by omega))
    exact ⟨(Nat.cast_nonneg w).trans hge, hle, fun _ => hge⟩
  · have hshare : share q cr w beta n i = q * (1 - cr) := if_neg hpyramid
    have hq : (0 : ℚ) ≤ q := Nat.cast_nonneg _
    rw [hshare]
    exact ⟨mul_nonneg hq (by linarith), mul_le_of_le_one_right hq (by linarith), fun h =>
      absurd h hpyramid⟩

/-- **The shares add up to the total.** -/
theorem sum_share (cr : ℚ) (hn : 2 ≤ n) :
    ∑ i ∈ range n, share q cr w beta n i = n * q * (1 - cr) := by
  by_cases hpyramid : Pyramid .exact q cr w beta
  · have hn' : (n : ℚ) - 1 ≠ 0 := by
      have : (2 : ℚ) ≤ n := by exact_mod_cast hn
      linarith
    have hgauss : (∑ i ∈ range n, (i : ℚ)) * 2 = n * (n - 1) := by
      have h := congrArg (Nat.cast (R := ℚ)) (Finset.sum_range_id_mul_two n)
      rw [Nat.cast_mul, Nat.cast_mul, Nat.cast_sub (by omega), Nat.cast_sum] at h
      exact_mod_cast h
    have hshare : ∀ i : ℕ, share q cr w beta n i = (layerBounds .exact q cr w beta).1 -
        i * (((layerBounds .exact q cr w beta).1 - (layerBounds .exact q cr w beta).2) / (n - 1)) :=
      fun _ => if_pos hpyramid
    have hends := layerBounds_add q cr w beta
    simp only [hshare]
    rw [Finset.sum_sub_distrib, ← Finset.sum_mul, Finset.sum_const, card_range, nsmul_eq_mul,
      eq_div_of_mul_eq two_ne_zero hgauss]
    field_simp
    linear_combination hends
  · have hshare : ∀ i : ℕ, share q cr w beta n i = q * (1 - cr) := fun _ => if_neg hpyramid
    simp only [hshare]
    rw [Finset.sum_const, card_range, nsmul_eq_mul, mul_assoc]

/-- **The pyramid**: the budgets fall from layer to layer, fit the prompt, cover the window, and add
up to the total but for half a token in each layer. -/
theorem layerBudget_pyramid (h0 : 0 < cr) (h1 : cr < 1) (hn : 2 ≤ n) :
    (∀ i j, i ≤ j → j < n → layerBudget .exact q cr w beta n j ≤
      layerBudget .exact q cr w beta n i) ∧
      (∀ i < n, layerBudget .exact q cr w beta n i ≤ q) ∧
      (Pyramid .exact q cr w beta → ∀ i < n, w ≤ layerBudget .exact q cr w beta n i) ∧
      |∑ i ∈ range n, (layerBudget .exact q cr w beta n i : ℚ) - n * q * (1 - cr)| ≤ n / 2 := by
  simp only [layerBudget_exact q cr w beta n hn]
  refine ⟨fun i j hij _ => ?_, fun i hi => ?_, fun hpyramid i hi => ?_, ?_⟩
  · exact Int.toNat_le_toNat (halfEven_mono (share_antitone q cr w beta hn hij))
  · have hle := halfEven_mono (share_bounds q w beta hn h0 h1 hi).2.1
    rw [halfEven_natCast] at hle
    omega
  · have hle := halfEven_mono ((share_bounds q w beta hn h0 h1 hi).2.2 hpyramid)
    rw [halfEven_natCast] at hle
    omega
  · rw [← sum_share q w beta cr hn, ← Finset.sum_sub_distrib]
    have hround : ∀ i ∈ range n,
        |((halfEven (share q cr w beta n i)).toNat : ℚ) - share q cr w beta n i| ≤ 1 / 2 := by
      intro i hi
      have hnonneg := halfEven_nonneg (share_bounds q w beta hn h0 h1 (mem_range.mp hi)).1
      have hcast : ((halfEven (share q cr w beta n i)).toNat : ℚ) =
        halfEven (share q cr w beta n i) := by
        exact_mod_cast Int.toNat_of_nonneg hnonneg
      rw [hcast]
      exact abs_halfEven_sub_le _
    calc _ ≤ ∑ i ∈ range n, |((halfEven (share q cr w beta n i)).toNat : ℚ) -
      share q cr w beta n i| :=
          Finset.abs_sum_le_sum_abs _ _
      _ ≤ ∑ _i ∈ range n, (1 / 2 : ℚ) := Finset.sum_le_sum hround
      _ = n / 2 := by rw [Finset.sum_const, card_range, nsmul_eq_mul, mul_one_div]

/-- Ten tokens on two layers, of which three are kept on average. -/
theorem layerBudget_ten : Pyramid .exact 10 (7 / 10) 1 3 ∧
    1 ≤ layerBudget .exact 10 (7 / 10) 1 3 2 1 :=
  have hpyramid : Pyramid .exact 10 (7 / 10) 1 3 := by decide +kernel
  ⟨hpyramid, (layerBudget_pyramid 10 1 3 (by norm_num) (by norm_num) (le_refl 2)).2.2.1
    hpyramid 1 (by decide)⟩

end Exact

/-! ## Heads -/

section Heads

variable (B : BudgetArith) {F : Type} [LinearOrder F] (A : ScoreArith F) (spec : AdaKvSelect)

/-- `adakv_head_caps`. -/
def headCaps (counts : List ℕ) (base : ℕ) (floorAlpha : Option ℚ) : List ℕ :=
  counts.map fun (c : ℕ) => match floorAlpha with
    | none => 0
    | some alpha =>
      let floorCap := B.f32 ⌊B.f64 (B.f64 base * alpha)⌋
      let oneMinus := B.f32 (B.f64 (1 - alpha))
      B.asUsize (halfEven (B.f32 (B.f32 (B.f32 c * oneMinus) + floorCap)))

/-- The first position of a head that competes. -/
def regionStart (headStart : List ℕ) (heavyLen h : ℕ) : ℕ :=
  min (B.usize (headStart.getD h 0 + spec.protectedPrefix)) heavyLen

/-- The competition of `adakv_per_head_keep`. -/
def headCounts (pooled : List (List F)) (headStart : List ℕ) (nKv heavyLen : ℕ) :
    Except (Fault Empty) (List ℕ) := do
  let regionStart := regionStart B spec headStart heavyLen
  let flat := (List.range nKv).flatMap fun h =>
    (List.range' (regionStart h) (heavyLen - regionStart h)).map fun pos => (h, pos)
  let scored ← flat.mapM fun x => do
    let row ← get pooled x.1
    let score ← get row x.2
    return (x.1, score)
  let ranked := scored.mergeSort fun a b => decide (b.2 ≤ a.2)
  let nWin := min (B.usize (nKv * spec.base)) flat.length
  let won ← index ranked 0 nWin
  won.foldlM (fun counts x => do
    let count ← get counts x.1
    return counts.set x.1 (count + 1)) (List.replicate nKv 0)

/-- `adakv_per_head_keep`. -/
def perHeadKeep (readQhead : ℕ → List F) (headStart : List ℕ) :
    Except (Fault Empty) (List ℕ × List (List ℕ)) := do
  let nKv := max spec.nKvHeads 1
  let groups := max (spec.nQHeads / nKv) 1
  let heavyLen := spec.current - spec.window
  let pooled ← (List.range nKv).mapM fun kvh => adakvPooled A spec readQhead groups heavyLen kvh
  let counts ← headCounts B spec pooled headStart nKv heavyLen
  let caps := headCaps B counts spec.base spec.floorAlpha
  let keeps ← (List.range nKv).mapM fun h => do
    let scores ← get pooled h
    let cap ← get caps h
    return compileKeepTopK
      ⟨min (headStart.getD h 0) spec.current, spec.current, spec.protectedPrefix, spec.window, cap⟩
      fun pos => scores.getD pos (A.ofNat 0)
  return (caps, keeps)

theorem adakvPerHeadKeep_eq (readQhead : ℕ → List F) (headStart : List ℕ) :
    adakvPerHeadKeep A spec readQhead headStart =
      perHeadKeep .machine A spec readQhead headStart := by
  have hcounts : ∀ (pooled : List (List F)) nKv heavyLen,
      adakvCounts spec pooled headStart nKv heavyLen =
        headCounts .machine spec pooled headStart nKv heavyLen := by
    intro pooled nKv heavyLen
    unfold adakvCounts headCounts regionStart BudgetArith.machine
    rfl
  have hcaps : adakvHeadCaps = headCaps .machine := by
    unfold adakvHeadCaps headCaps BudgetArith.machine
    rfl
  unfold adakvPerHeadKeep perHeadKeep
  rw [hcaps]
  simp only [hcounts]

/-- The resident positions of a head that are protected. -/
def prefixPart (headStart : List ℕ) (h : ℕ) : Finset ℕ :=
  (range spec.current).filter fun p => headStart.getD h 0 ≤ p ∧
    p < headStart.getD h 0 + spec.protectedPrefix

/-- The positions between the prefix and the window. -/
def scoredPart (headStart : List ℕ) (h : ℕ) : Finset ℕ :=
  (range spec.current).filter fun p => headStart.getD h 0 + spec.protectedPrefix ≤ p ∧
    p < spec.current - spec.window

/-- The positions of the window behind the prefix. -/
def windowPart (headStart : List ℕ) (h : ℕ) : Finset ℕ :=
  (range spec.current).filter fun p => headStart.getD h 0 + spec.protectedPrefix ≤ p ∧
    spec.current - spec.window ≤ p

/-- **What an allocation is to give** for the pooled scores. -/
structure Allocates (alpha : ℚ) (headStart : List ℕ) (score : ℕ → ℕ → F) (counts caps : List ℕ)
    (keeps : List (List ℕ)) : Prop where
  heads : counts.length = max spec.nKvHeads 1 ∧ caps.length = max spec.nKvHeads 1 ∧
    keeps.length = max spec.nKvHeads 1
  spends : counts.sum = min (max spec.nKvHeads 1 * spec.base)
    (∑ h ∈ range (max spec.nKvHeads 1), #(scoredPart spec headStart h))
  near : ∀ h < max spec.nKvHeads 1,
    |(caps.getD h 0 : ℚ) - ((1 - alpha) * counts.getD h 0 + ⌊alpha * spec.base⌋)| ≤ 1 / 2
  floor : ∀ h < max spec.nKvHeads 1, ⌊alpha * spec.base⌋ ≤ (caps.getD h 0 : ℤ)
  length : ∀ h l, keeps[h]? = some l → l.length = #(prefixPart spec headStart h) +
    min (caps.getD h 0) #(scoredPart spec headStart h) + #(windowPart spec headStart h)
  holds : ∀ h l, keeps[h]? = some l → l.Pairwise (· < ·) ∧ ∀ p, p ∈ prefixPart spec headStart h ∨
    p ∈ windowPart spec headStart h → p ∈ l
  ranked : ∀ h l, keeps[h]? = some l → ∀ p ∈ scoredPart spec headStart h, p ∈ l →
    ∀ p' ∈ scoredPart spec headStart h, p' ∉ l → score h p' < score h p ∨
    score h p' = score h p ∧ p < p'

/-! ### The competition -/

omit [LinearOrder F] in
theorem countWins {nKv : ℕ} (won : List (ℕ × F)) (hwon : ∀ x ∈ won, x.1 < nKv) (counts : List ℕ)
    (hcounts : counts.length = nKv) :
    ∃ counts', won.foldlM (fun counts x => do
      let count ← get (ε := Empty) counts x.1
      return counts.set x.1 (count + 1)) counts = .ok counts' ∧ counts'.length = nKv ∧
        counts'.sum = counts.sum + won.length := by
  induction won generalizing counts with
  | nil => exact ⟨counts, rfl, hcounts, rfl⟩
  | cons x won ih =>
    have hx : x.1 < counts.length := hcounts ▸ hwon x List.mem_cons_self
    have hsum : (counts.set x.1 (counts[x.1] + 1)).sum = counts.sum + 1 := by
      have h := List.sum_set counts x.1 (counts[x.1] + 1)
      have h' := List.sum_set counts x.1 counts[x.1]
      rw [List.set_getElem_self] at h'
      rw [if_pos hx] at h h'
      omega
    rw [List.foldlM_cons, get_of_lt hx, ok_seq]
    obtain ⟨counts', hok, hlen, hsum'⟩ := ih (fun y hy => hwon y (List.mem_cons_of_mem _ hy))
      (counts.set x.1 (counts[x.1] + 1)) (by rw [List.length_set, hcounts])
    exact ⟨counts', hok, hlen, by rw [hsum', hsum, List.length_cons]; omega⟩

/-- **The winners are as many as the budget, or as the competitors.** -/
theorem headCounts_ok {pooled : List (List F)} {nKv heavyLen : ℕ} (hpooled : pooled.length = nKv)
    (hwidth : ∀ row ∈ pooled, row.length = heavyLen) (headStart : List ℕ) :
    ∃ counts, headCounts B spec pooled headStart nKv heavyLen = .ok counts ∧ counts.length = nKv ∧
      counts.sum = min (B.usize (nKv * spec.base))
        (∑ h ∈ range nKv, (heavyLen - regionStart B spec headStart heavyLen h)) := by
  unfold headCounts
  dsimp only
  generalize hflat : ((List.range nKv).flatMap fun h =>
    (List.range' (regionStart B spec headStart heavyLen h)
      (heavyLen - regionStart B spec headStart heavyLen h)).map fun pos => (h, pos)) = flat
  have hsize : flat.length = ∑ h ∈ range nKv,
    (heavyLen - regionStart B spec headStart heavyLen h) := by
    rw [← hflat, List.length_flatMap]
    simp only [List.length_map, List.length_range']
    rfl
  have hmem : ∀ x ∈ flat, x.1 < nKv ∧ x.2 < heavyLen := by
    intro x hx
    rw [← hflat, List.mem_flatMap] at hx
    obtain ⟨h, hh, hx⟩ := hx
    obtain ⟨pos, hpos, rfl⟩ := List.mem_map.mp hx
    have hh := List.mem_range.mp hh
    rw [List.mem_range'_1] at hpos
    dsimp only
    omega
  obtain ⟨scored, hscored, hall⟩ := exists_mapM (l := flat) (R := fun x y => y.1 = x.1)
    (f := fun x => do
      let row ← get (ε := Empty) pooled x.1
      let score ← get row x.2
      return (x.1, score)) fun x hx => by
    have hlt : x.1 < pooled.length := hpooled.symm ▸ (hmem x hx).1
    rw [get_of_lt hlt, ok_seq,
      get_of_lt (by rw [hwidth _ (List.getElem_mem hlt)]; exact (hmem x hx).2)]
    exact ⟨_, rfl, rfl⟩
  have hheads : ∀ y ∈ scored, y.1 < nKv := by
    intro y hy
    obtain ⟨i, hi, rfl⟩ := List.mem_iff_getElem.mp hy
    have hi' : i < flat.length := hall.length_eq ▸ hi
    have hget := hall.get hi' hi
    rw [List.get_eq_getElem, List.get_eq_getElem] at hget
    rw [hget]
    exact (hmem _ (List.getElem_mem hi')).1
  have hwins : min (B.usize (nKv * spec.base)) flat.length ≤
      (scored.mergeSort fun a b => decide (b.2 ≤ a.2)).length := by
    rw [List.length_mergeSort, ← hall.length_eq]
    exact Nat.min_le_right _ _
  rw [hscored, ok_seq, index_of_le ⟨Nat.zero_le _, hwins⟩, ok_seq]
  obtain ⟨counts, hok, hlen, hsum⟩ := countWins
    (slice (scored.mergeSort fun a b => decide (b.2 ≤ a.2))
      0 (min (B.usize (nKv * spec.base)) flat.length - 0))
    (fun x hx => hheads x (List.mem_mergeSort.mp (List.mem_of_mem_drop (List.mem_of_mem_take hx))))
    (List.replicate nKv 0) List.length_replicate
  refine ⟨counts, hok, hlen, ?_⟩
  rw [hsum, length_slice (by rw [Nat.zero_add, Nat.sub_zero]; exact hwins), hsize, Nat.sub_zero,
    List.sum_replicate]
  simp

/-! ### The selection -/

variable {readQhead : ℕ → List F}

omit [LinearOrder F] in
theorem adakvMean_ok {heavyLen : ℕ} (hlen : ∀ qh, heavyLen ≤ (readQhead qh).length)
    (base : ℕ) (scale : F) (gs : List ℕ) (acc : List F) (hacc : acc.length = heavyLen) :
    ∃ mKv, gs.foldlM (fun acc g => do
      let row ← index (ε := Empty) (readQhead (base + g)) 0 heavyLen
      return List.zipWith (fun a x => A.add a (A.mul x scale)) acc row) acc = .ok mKv ∧
        mKv.length = heavyLen := by
  induction gs generalizing acc with
  | nil => exact ⟨acc, rfl, hacc⟩
  | cons g gs ih =>
    rw [List.foldlM_cons, index_of_le ⟨Nat.zero_le _, hlen _⟩, ok_seq]
    refine ih _ ?_
    rw [List.length_zipWith, length_slice (by rw [Nat.zero_add, Nat.sub_zero]; exact hlen _),
      hacc, Nat.sub_zero, Nat.min_self]

theorem adakvPooled_ok {groups heavyLen : ℕ}
    (hlen : ∀ qh, heavyLen ≤ (readQhead qh).length) (kvh : ℕ) :
    ∃ row, adakvPooled A spec readQhead groups heavyLen kvh = .ok row ∧ row.length = heavyLen := by
  obtain ⟨mKv, hmKv, hwidth⟩ := adakvMean_ok A hlen (kvh * groups)
    (A.div (A.ofNat 1) (A.ofNat (max spec.window 1))) (List.range groups)
      (List.replicate heavyLen (A.ofNat 0)) List.length_replicate
  unfold adakvPooled
  dsimp only
  rw [hmKv, ok_seq]
  cases spec.pooling with
  | max =>
    obtain ⟨row, hrow, hrowLen⟩ :=
      maxPool1d_ok A (mKv.map fun x => A.mul x (A.div (A.ofNat 1) (A.ofNat groups))) spec.kernel
    exact ⟨row, hrow, hrowLen.trans ((List.length_map _).trans hwidth)⟩
  | avg =>
    obtain ⟨row, hrow, hrowLen⟩ :=
      avgPool1d_ok A (mKv.map fun x => A.mul x (A.div (A.ofNat 1) (A.ofNat groups))) spec.kernel
    exact ⟨row, hrow, hrowLen.trans ((List.length_map _).trans hwidth)⟩

/-- The pooled scores of every head, as the selection reads them. -/
def pooledScores (readQhead : ℕ → List F) : Except (Fault Empty) (List (List F)) :=
  let nKv := max spec.nKvHeads 1
  (List.range nKv).mapM fun kvh =>
    adakvPooled A spec readQhead (max (spec.nQHeads / nKv) 1) (spec.current - spec.window) kvh

/-- **Every head gets the list of `compile_keep_top_k`**, of its capacity and by its scores. -/
theorem perHeadKeep_ok (readQhead : ℕ → List F)
    (hcols : ∀ qh, spec.current - spec.window ≤ (readQhead qh).length) (headStart : List ℕ) :
    ∃ pooled counts keeps, pooledScores A spec readQhead = .ok pooled ∧
      headCounts B spec pooled headStart (max spec.nKvHeads 1)
        (spec.current - spec.window) = .ok counts ∧
      perHeadKeep B A spec readQhead headStart =
        .ok (headCaps B counts spec.base spec.floorAlpha, keeps) ∧
      counts.length = max spec.nKvHeads 1 ∧
      counts.sum = min (B.usize (max spec.nKvHeads 1 * spec.base))
        (∑ h ∈ range (max spec.nKvHeads 1),
        (spec.current - spec.window -
          regionStart B spec headStart (spec.current - spec.window) h)) ∧
      keeps.length = max spec.nKvHeads 1 ∧ ∀ h l, keeps[h]? = some l → l = compileKeepTopK
        ⟨min (headStart.getD h 0) spec.current, spec.current, spec.protectedPrefix, spec.window,
          (headCaps B counts spec.base spec.floorAlpha).getD h 0⟩
        fun pos => (pooled.getD h []).getD pos (A.ofNat 0) := by
  obtain ⟨pooled, hpooled, hpooledLen, hrows⟩ := exists_mapM_range (n := max spec.nKvHeads 1)
    (R := fun _ row => row.length = spec.current - spec.window)
    (f := fun kvh => adakvPooled A spec readQhead (max (spec.nQHeads / max spec.nKvHeads 1) 1)
      (spec.current - spec.window) kvh) fun kvh _ => adakvPooled_ok A spec hcols kvh
  have hwidth : ∀ row ∈ pooled, row.length = spec.current - spec.window := by
    intro row hrow
    obtain ⟨i, hi⟩ := List.mem_iff_getElem?.mp hrow
    exact hrows i row hi
  obtain ⟨counts, hcounts, hcountsLen, hsum⟩ := headCounts_ok B spec hpooledLen hwidth headStart
  have hcapsLen : (headCaps B counts spec.base spec.floorAlpha).length = max spec.nKvHeads 1 := by
    rw [headCaps, List.length_map, hcountsLen]
  obtain ⟨caps, hcaps⟩ : ∃ caps, headCaps B counts spec.base spec.floorAlpha = caps := ⟨_, rfl⟩
  rw [hcaps] at hcapsLen
  obtain ⟨keeps, hkeeps, hkeepsLen, hlists⟩ := exists_mapM_range (n := max spec.nKvHeads 1)
    (R := fun h l => l = compileKeepTopK
      ⟨min (headStart.getD h 0) spec.current, spec.current, spec.protectedPrefix,
      spec.window, caps.getD h 0⟩ fun pos => (pooled.getD h []).getD pos (A.ofNat 0))
    (f := fun h => do
      let scores ← get (ε := Empty) pooled h
      let cap ← get caps h
      return compileKeepTopK
        ⟨min (headStart.getD h 0) spec.current, spec.current, spec.protectedPrefix,
        spec.window, cap⟩ fun pos => scores.getD pos (A.ofNat 0)) fun h hh => by
    have hrow : h < pooled.length := hpooledLen.symm ▸ hh
    have hcap : h < caps.length := hcapsLen.symm ▸ hh
    rw [get_of_lt hrow, ok_seq, get_of_lt hcap, ok_seq, ← List.getD_eq_getElem caps 0 hcap,
      ← List.getD_eq_getElem pooled [] hrow]
    exact ⟨_, rfl, rfl⟩
  refine ⟨pooled, counts, keeps, hpooled, hcounts, ?_, hcountsLen, hsum, hkeepsLen, hcaps ▸ hlists⟩
  unfold perHeadKeep
  dsimp only
  rw [hpooled, ok_seq, hcounts, ok_seq, hcaps, hkeeps]
  rfl

/-! ### What a head keeps -/

section Lists

variable {spec} {headStart : List ℕ} {h : ℕ}

theorem mem_scoredPart {p : ℕ} : p ∈ scoredPart spec headStart h ↔
    headStart.getD h 0 + spec.protectedPrefix ≤ p ∧ p < spec.current - spec.window := by
  unfold scoredPart
  rw [mem_filter, mem_range]
  omega

theorem card_scoredPart : #(scoredPart spec headStart h) = spec.current - spec.window -
    regionStart .exact spec headStart (spec.current - spec.window) h := by
  have hIco : scoredPart spec headStart h =
      Finset.Ico (headStart.getD h 0 + spec.protectedPrefix) (spec.current - spec.window) := by
    ext p
    rw [mem_scoredPart, Finset.mem_Ico]
  rw [hIco, Nat.card_Ico, regionStart]
  dsimp only [BudgetArith.exact, id_eq]
  omega

theorem card_prefixPart : #(prefixPart spec headStart h) =
    min (headStart.getD h 0 + spec.protectedPrefix) spec.current - min (headStart.getD h 0)
      spec.current := by
  have hIco : prefixPart spec headStart h =
      Finset.Ico (headStart.getD h 0)
        (min (headStart.getD h 0 + spec.protectedPrefix) spec.current) := by
    ext p
    rw [prefixPart, mem_filter, mem_range, Finset.mem_Ico]
    omega
  rw [hIco, Nat.card_Ico]
  omega

theorem card_windowPart : #(windowPart spec headStart h) = spec.current -
    max (spec.current - spec.window)
      (min (headStart.getD h 0 + spec.protectedPrefix) spec.current) := by
  have hIco : windowPart spec headStart h =
      Finset.Ico (max (spec.current - spec.window) (headStart.getD h 0 + spec.protectedPrefix))
        spec.current := by
    ext p
    rw [windowPart, mem_filter, mem_range, Finset.mem_Ico]
    omega
  rw [hIco, Nat.card_Ico]
  omega

variable {cap : ℕ} {score : ℕ → F}

theorem length_keep : (compileKeepTopK
    ⟨min (headStart.getD h 0) spec.current, spec.current, spec.protectedPrefix, spec.window, cap⟩
      score).length = #(prefixPart spec headStart h) + min cap #(scoredPart spec headStart h) +
        #(windowPart spec headStart h) := by
  unfold compileKeepTopK
  dsimp only
  rw [List.length_append, List.length_append, length_heaviest, List.length_map, List.length_range',
    List.length_range', List.length_range', card_prefixPart, card_scoredPart,
    card_windowPart, regionStart]
  dsimp only [BudgetArith.exact, id_eq]
  have hstart : min (min (headStart.getD h 0) spec.current) spec.current =
    min (headStart.getD h 0) spec.current :=
    min_eq_left (Nat.min_le_right _ _)
  have hend : min (min (headStart.getD h 0) spec.current + spec.protectedPrefix) spec.current =
      min (headStart.getD h 0 + spec.protectedPrefix) spec.current := by omega
  rw [hstart, hend]
  generalize headStart.getD h 0 + spec.protectedPrefix = first
  have hscored : max (spec.current - spec.window) (min first spec.current) -
    min first spec.current =
      spec.current - spec.window - min first (spec.current - spec.window) := by omega
  rw [hscored]

end Lists

theorem rank_of_keep {headStart : List ℕ} {h cap p p' : ℕ} {score : ℕ → F}
    (hp : p ∈ scoredPart spec headStart h) (hp' : p' ∈ scoredPart spec headStart h)
    (hin : p ∈ compileKeepTopK
      ⟨min (headStart.getD h 0) spec.current, spec.current, spec.protectedPrefix,
      spec.window, cap⟩ score)
    (hout : p' ∉ compileKeepTopK
      ⟨min (headStart.getD h 0) spec.current, spec.current, spec.protectedPrefix,
      spec.window, cap⟩ score) :
    score p' < score p ∨ score p' = score p ∧ p < p' := by
  rw [mem_scoredPart] at hp hp'
  unfold compileKeepTopK at hin hout
  dsimp only at hin hout
  rw [List.mem_append, List.mem_append, List.mem_range'_1, List.mem_range'_1] at hin hout
  rw [not_or, not_or] at hout
  refine rank_of_heaviest ?_ (List.mem_range'_1.mpr ?_) hout.1.2
  · rcases hin with (hin | hin) | hin
    · omega
    · exact hin
    · omega
  · omega

/-- **The allocation**: the heads win the whole budget, every capacity is the blend of what its head
has won and of the floor, and every head keeps its best positions. -/
theorem perHeadKeep_allocates {alpha : ℚ} (halpha : spec.floorAlpha = some alpha)
    (h0 : 0 ≤ alpha) (h1 : alpha ≤ 1) (read : ℕ → ℕ → F)
    (hcols : spec.current - spec.window ≤ spec.cols) (headStart : List ℕ) :
    ∃ pooled counts caps keeps,
      pooledScores A spec (fun qh => (List.range spec.cols).map (read qh)) = .ok pooled ∧
      headCounts .exact spec pooled headStart (max spec.nKvHeads 1)
        (spec.current - spec.window) = .ok counts ∧
      perHeadKeep .exact A spec (fun qh => (List.range spec.cols).map (read qh)) headStart =
      .ok (caps, keeps) ∧ Allocates spec alpha headStart
        (fun h pos => (pooled.getD h []).getD pos (A.ofNat 0)) counts caps keeps := by
  obtain ⟨pooled, counts, keeps, hpooled, hcounts, hok, hcountsLen, hsum, hkeepsLen, hlists⟩ :=
    perHeadKeep_ok .exact A spec (fun qh => (List.range spec.cols).map (read qh))
      (fun qh => by rw [List.length_map, List.length_range]; exact hcols) headStart
  -- the capacity of a head, before it is rounded
  have hcap : ∀ h < max spec.nKvHeads 1,
    (headCaps .exact counts spec.base spec.floorAlpha).getD h 0 =
      (halfEven ((1 - alpha) * counts.getD h 0 + ⌊alpha * spec.base⌋)).toNat := by
    intro h hh
    have hlt : h < counts.length := hcountsLen.symm ▸ hh
    rw [headCaps, List.getD_eq_getElem _ _ (by rw [List.length_map]; exact hlt),
      List.getElem_map, halpha, List.getD_eq_getElem _ _ hlt]
    simp only [BudgetArith.exact, id_eq]
    rw [mul_comm (1 - alpha), mul_comm alpha]
  have hblend : ∀ h, ((⌊alpha * spec.base⌋.toNat : ℕ) : ℚ) ≤ (1 - alpha) * counts.getD h 0 +
    ⌊alpha * spec.base⌋ := by
    intro h
    have hfloor : 0 ≤ ⌊alpha * spec.base⌋ :=
      Int.floor_nonneg.mpr (mul_nonneg h0 (Nat.cast_nonneg _))
    have hcast : ((⌊alpha * spec.base⌋.toNat : ℕ) : ℚ) = ⌊alpha * spec.base⌋ := by
      exact_mod_cast Int.toNat_of_nonneg hfloor
    have hshare : 0 ≤ (1 - alpha) * counts.getD h 0 := mul_nonneg (by linarith) (Nat.cast_nonneg _)
    linarith
  have hround : ∀ h, ⌊alpha * spec.base⌋ ≤
    halfEven ((1 - alpha) * counts.getD h 0 + ⌊alpha * spec.base⌋) := by
    intro h
    have hmono := halfEven_mono (hblend h)
    rw [halfEven_natCast] at hmono
    exact (Int.self_le_toNat _).trans hmono
  have hnonneg : ∀ h, 0 ≤ halfEven ((1 - alpha) * counts.getD h 0 + ⌊alpha * spec.base⌋) := fun h =>
    (Int.floor_nonneg.mpr (mul_nonneg h0 (Nat.cast_nonneg _))).trans (hround h)
  refine ⟨pooled, counts, _, keeps, hpooled, hcounts, hok,
    ⟨hcountsLen, ?_, hkeepsLen⟩, ?_, ?_, ?_, ?_, ?_, ?_⟩
  · rw [headCaps, List.length_map, hcountsLen]
  · rw [hsum]
    simp only [card_scoredPart]
    rfl
  · intro h hh
    have hcast : ((halfEven ((1 - alpha) * counts.getD h 0 + ⌊alpha * spec.base⌋)).toNat : ℚ) =
        halfEven ((1 - alpha) * counts.getD h 0 + ⌊alpha * spec.base⌋) := by
      exact_mod_cast Int.toNat_of_nonneg (hnonneg h)
    rw [hcap h hh, hcast]
    exact abs_halfEven_sub_le _
  · intro h hh
    rw [hcap h hh, Int.toNat_of_nonneg (hnonneg h)]
    exact hround h
  · intro h l hl
    rw [hlists h l hl]
    exact length_keep
  · intro h l hl
    have hkeeps := keeps_compileKeepTopK ⟨min (headStart.getD h 0) spec.current, spec.current,
      spec.protectedPrefix, spec.window, (headCaps .exact counts spec.base spec.floorAlpha).getD h
        0⟩ (Nat.min_le_right _ _)
      fun pos => (pooled.getD h []).getD pos (A.ofNat 0)
    rw [← hlists h l hl] at hkeeps
    refine ⟨hkeeps.ascending, fun p hp => ?_⟩
    rcases hp with hp | hp
    · rw [prefixPart, mem_filter, mem_range] at hp
      exact hkeeps.first p (by dsimp only; omega) (by dsimp only; omega)
    · rw [windowPart, mem_filter, mem_range] at hp
      exact hkeeps.last p (by dsimp only; omega) (by dsimp only; omega) hp.1
  · intro h l hl p hp hin p' hp' hout
    rw [hlists h l hl] at hin hout
    exact rank_of_keep spec hp hp' hin hout

/-- Two heads that compete for two of eight positions. -/
def twoHeads : AdaKvSelect := ⟨2, 2, 4, 5, 1, 1, .max, 1, some (1 / 2), 0⟩

def natScores : ScoreArith ℕ := ⟨id, 0, (· + ·), (· * ·), (· / ·)⟩

theorem perHeadKeep_twoHeads : ∃ (counts caps : List ℕ) (keeps : List (List ℕ)),
    perHeadKeep .exact natScores twoHeads (fun qh => (List.range 4).map fun p => qh + p)
      [] = .ok (caps, keeps) ∧
      counts.sum = min (2 * 1) (∑ h ∈ range 2, #(scoredPart twoHeads [] h)) ∧ keeps.length = 2 := by
  obtain ⟨_, counts, caps, keeps, -, -, hok, hall⟩ := perHeadKeep_allocates natScores twoHeads
    (rfl : twoHeads.floorAlpha = some (1 / 2)) (by norm_num) (by norm_num)
      (fun qh p => qh + p) (by decide) []
  exact ⟨counts, caps, keeps, hok, hall.spends, hall.heads.2.2⟩

end Heads

end ArgusEngine.Techniques
