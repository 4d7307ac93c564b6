import Mathlib.Algebra.Order.Field.Basic
import Mathlib.Algebra.BigOperators.Ring.List
import Mathlib.Algebra.Order.BigOperators.Group.List
import Mathlib.Data.Finset.Card
import Mathlib.Data.List.Perm.Subperm
import ArgusEngine.Kv.Values
import ArgusEngine.Lib.Groups
import ArgusEngine.Techniques.Planners

/-!
# D2O

D2O keeps a prefix, the heaviest positions and a recent window, and merges an evicted position into
the kept one whose key is most similar, if it is similar enough: the threshold is an average over
all earlier calls. The values are those of an ordered field, with any square root and any positive
exponential.

* `computeD2oPlan`: the partition, the matches, the threshold;
* `computePlan`: the plan of a layer, with the weights of the merges;
* `MergePlan`: what a plan is to be;
* **`mergePlan_of_computePlan`**: every plan is one.
-/

namespace ArgusEngine.Techniques

open Finset

/-! ## The stage -/

/-- The square root and the exponential. -/
structure D2oMath (F : Type) [Zero F] [LT F] where
  sqrt : F → F
  exp : F → F
  exp_pos : ∀ x, 0 < exp x

/-- `D2OConfig`; a `keep_ratio` of `none` is infinite. -/
structure D2oConfig (F : Type) where
  keepRatio : Option ℚ
  protectedPrefix : ℕ
  emaBeta : F
  mergeE : F
  useLayerAllocation : Bool
  protectedLayers : List ℕ
  mergeAxis : MergeAxis

structure D2oState (F : Type) where
  emaThreshold : F
  initialized : Bool
  totalMerged : ℕ
  totalDeleted : ℕ

structure Match (F : Type) where
  retainPos : ℕ
  sim : F

/-- What the stage reads of a layer besides `StageCtx`. -/
structure MergeCtx (F : Type) extends StageCtx F where
  headDim : ℕ
  dequantK : ℕ → ℕ → ℕ → F
  kvOnDevice : Bool

/-- The order in which a map is walked. -/
structure WalkOrder (α : Type) where
  walk : List α → List α
  perm : ∀ l, (walk l).Perm l

section Stage

variable {F : Type} [Field F] [LinearOrder F] (M : D2oMath F)

/-- `cosine_similarity`. -/
def cosineSimilarity (a b : List F) : F :=
  let sums := (a.zip b).foldl (fun (s : F × F × F) x =>
    (s.1 + x.1 * x.2, s.2.1 + x.1 * x.1, s.2.2 + x.2 * x.2)) (0, 0, 0)
  let denom := M.sqrt (sums.2.1 * sums.2.2)
  if denom < 1 / 10 ^ 10 then 0 else sums.1 / denom

/-- `dequantize_k_layer_wide_via`. -/
def dequantizeKLayerWideVia (reader : ℕ → ℕ → ℕ → F) (pos kvHeads headDim : ℕ) : List F :=
  (List.range kvHeads).flatMap fun h => (List.range headDim).map (reader pos h)

/-- `find_nearest_layer_wide_via`; `none` is the infinity that the similarity starts from. -/
def findNearestLayerWideVia (reader : ℕ → ℕ → ℕ → F) (evictPos : ℕ) (retainSet : List ℕ)
    (kvHeads headDim : ℕ) : Match F :=
  let evictBuf := dequantizeKLayerWideVia reader evictPos kvHeads headDim
  let best := retainSet.foldl (fun (best : ℕ × Option F) retainPos =>
    if retainPos = evictPos then best
    else
      let sim := cosineSimilarity M evictBuf
        (dequantizeKLayerWideVia reader retainPos kvHeads headDim)
      if best.2.all (· < sim) then (retainPos, some sim) else best)
        (retainSet.head?.getD evictPos, none)
  ⟨best.1, best.2.getD 0⟩

/-- `group_by_retain`. -/
def groupByRetain (passingPositions : List ℕ) (ms : List (Match F)) : List (ℕ × List (ℕ × F)) :=
  Groups.collect (fun x : ℕ × Match F => x.2.retainPos) (fun x => (x.1, x.2.sim))
    (passingPositions.zip ms)

/-- `compute_eq11_weights`. -/
def computeEq11Weights (evictedList : List (ℕ × F)) (mergeE : F) : F × List F :=
  let exps := evictedList.map fun x => M.exp (max (-10) (min x.2 10))
  let denom := exps.sum + mergeE
  let invDenom := if 0 < denom then 1 / denom else 0
  (mergeE * invDenom, exps.map (· * invDenom))

/-- The heavy share of the budget. -/
def hhBudget (keepRatio : Option ℚ) (available : ℕ) : ℕ :=
  match keepRatio with
  | none => 2 ^ 64 - 1
  | some ratio => asUsize ⌊f32 (f32 available * ratio)⌋

/-- The partition of `compute_d2o_plan`: what is retained and what is evicted. -/
def d2oPartition (cfg : D2oConfig F) (current targetLen : ℕ) (importance : List F) :
    List ℕ × List ℕ :=
  let prefixLen := min cfg.protectedPrefix current
  let available := max targetLen (prefixLen + 2) - prefixLen
  let recentBudget := available - hhBudget cfg.keepRatio available
  let recentStart := max (current - recentBudget) prefixLen
  let actualHhBudget := available - (current - recentStart)
  let tokenScores := (List.range' prefixLen (recentStart - prefixLen)).map fun pos =>
    (pos, importance.getD pos 0)
  let ranked := tokenScores.mergeSort fun a b => decide (b.2 ≤ a.2)
  let hhPositions := (ranked.take actualHhBudget).map Prod.fst
  let evictPositions := (ranked.drop actualHhBudget).map Prod.fst
  ((List.range prefixLen ++ hhPositions ++
    List.range' recentStart (current - recentStart)).mergeSort fun a b =>
    decide (a ≤ b), evictPositions)

/-- The threshold after the matches of a call. -/
def emaThreshold (cfg : D2oConfig F) (st : D2oState F) (allMatches : List (Match F)) : D2oState F :=
  if allMatches = [] then st
  else if st.initialized then
    let globalMax := (allMatches.foldl (fun (m : Option F) x => some (m.elim x.sim (max · x.sim)))
      none).getD 0
    { st with emaThreshold := cfg.emaBeta * globalMax + (1 - cfg.emaBeta) * st.emaThreshold }
  else { st with emaThreshold := (allMatches.map Match.sim).sum / allMatches.length,
                 initialized := true }

/-- `compute_d2o_plan`. -/
def computeD2oPlan (reader : ℕ → ℕ → ℕ → F) (cfg : D2oConfig F) (st : D2oState F)
    (current targetLen : ℕ) (importance : List F) (kvHeads headDim : ℕ) (mergeEnabled : Bool) :
    Option (List ℕ × List ℕ × List (Match F)) × D2oState F :=
  let prefixLen := min cfg.protectedPrefix current
  if current ≤ max targetLen (prefixLen + 2) then (none, st)
  else
    let (retainAll, evictPositions) := d2oPartition cfg current targetLen importance
    if evictPositions = [] then (none, st)
    else if !mergeEnabled then
      (some (retainAll, [], []),
        { st with totalDeleted := st.totalDeleted + evictPositions.length })
    else
      let mergeTargets := retainAll.filter (prefixLen ≤ ·)
      let allMatches := evictPositions.map fun pos =>
        findNearestLayerWideVia M reader pos mergeTargets kvHeads headDim
      let st := emaThreshold cfg st allMatches
      let passing := (evictPositions.zip allMatches).filter fun x =>
        decide (st.emaThreshold ≤ x.2.sim)
      (some (retainAll, passing.map Prod.fst, passing.map Prod.snd),
        { st with
          totalMerged := st.totalMerged + passing.length
          totalDeleted := st.totalDeleted + (evictPositions.length - passing.length) })

/-- `is_protected`. -/
def D2oConfig.isProtected (cfg : D2oConfig F) (layerIdx nLayers : ℕ) : Bool :=
  cfg.protectedLayers.contains layerIdx || cfg.useLayerAllocation &&
    decide (0 < nLayers ∧ layerIdx = nLayers - 1)

/-- The merge of a group. -/
def mergeOf (cfg : D2oConfig F) (g : ℕ × List (ℕ × F)) : WeightedMerge F :=
  let w := computeEq11Weights M g.2 cfg.mergeE
  ⟨g.1, w.1, (g.2.zip w.2).map fun x => (x.1.1, x.2), cfg.mergeAxis⟩

/-- `compute_plan`: what the layer keeps and its merges, and the state behind the call. -/
def computePlan (order : WalkOrder (ℕ × List (ℕ × F))) (cfg : D2oConfig F) (st : D2oState F)
    (ctx : MergeCtx F) : Option (List ℕ × List (WeightedMerge F)) × D2oState F :=
  if cfg.isProtected ctx.layerIdx ctx.nLayers then (none, st)
  else
    match computeD2oPlan M ctx.dequantK cfg st ctx.currentPos ctx.targetLen (ctx.importance.getD [])
      ctx.nKvHeads ctx.headDim (!ctx.kvOnDevice) with
    | (none, st) => (none, st)
    | (some (retainAll, passing, ms), st) =>
      let merges := if passing = [] then []
        else (order.walk (groupByRetain passing ms)).map (mergeOf M cfg)
      (some (retainAll, merges), st)

end Stage

/-- **What a plan is to be** for a cache of `current` positions of which `keepLen` are kept. -/
structure MergePlan {F : Type} [Field F] (prefixLen current keepLen : ℕ) (keep : List ℕ)
    (merges : List (WeightedMerge F)) : Prop where
  ascending : keep.Pairwise (· < ·)
  resident : ∀ p ∈ keep, p < current
  first : ∀ p < prefixLen, p ∈ keep
  length : keep.length = keepLen
  into : ∀ m ∈ merges, m.into ∈ keep ∧ prefixLen ≤ m.into
  apart : (merges.map fun m => m.into).Nodup
  evicted : ∀ m ∈ merges, ∀ x ∈ m.source, x.1 < current ∧ x.1 ∉ keep
  once : (merges.flatMap fun m => m.source.map Prod.fst).Nodup
  weights : ∀ m ∈ merges, m.intoWeight + (m.source.map Prod.snd).sum = 1

/-! ## The partition -/

section Partition

variable {F : Type} [Field F] [LinearOrder F] {cfg : D2oConfig F} {current targetLen : ℕ}
  (importance : List F)

/-- **The partition** splits the positions of a cache that is longer than what is kept. -/
theorem d2oPartition_perm (h : max targetLen (min cfg.protectedPrefix current + 2) < current) :
    ((d2oPartition cfg current targetLen importance).1 ++
      (d2oPartition cfg current targetLen importance).2).Perm (List.range current) ∧
    (d2oPartition cfg current targetLen importance).1.length =
      max targetLen (min cfg.protectedPrefix current + 2) := by
  unfold d2oPartition
  dsimp only
  generalize hpre : min cfg.protectedPrefix current = pre at h ⊢
  generalize havail : max targetLen (pre + 2) - pre = avail
  generalize hhBudget cfg.keepRatio avail = hh
  generalize hrs : max (current - (avail - hh)) pre = rs
  generalize hact : avail - (current - rs) = act
  generalize hranked : (((List.range' pre (rs - pre)).map fun pos =>
    (pos, importance.getD pos 0)).mergeSort fun a b => decide (b.2 ≤ a.2)) = ranked
  have htokens : (ranked.map Prod.fst).Perm (List.range' pre (rs - pre)) := by
    rw [← hranked]
    refine ((List.mergeSort_perm _ _).map Prod.fst).trans ?_
    rw [fst_tokenScores]
  have hlen : ranked.length = rs - pre := by
    rw [← List.length_map, htokens.length_eq, List.length_range']
  have hrange : List.range current = List.range pre ++ List.range' pre (rs - pre) ++
    List.range' rs (current - rs) := by
    rw [List.range_eq_range', List.range_eq_range', List.append_assoc]
    have hmid := List.range'_append_1 (s := pre) (m := rs - pre) (n := current - rs)
    have hall := List.range'_append_1 (s := 0) (m := pre) (n := rs - pre + (current - rs))
    rw [show pre + (rs - pre) = rs by omega] at hmid
    rw [Nat.zero_add, ← hmid, show pre + (rs - pre + (current - rs)) = current by omega] at hall
    exact hall.symm
  refine ⟨?_, ?_⟩
  · rw [hrange]
    refine ((List.mergeSort_perm _ _).append_right _).trans ?_
    -- the window and what is evicted change places
    rw [List.append_assoc _ (List.range' rs (current - rs))]
    refine (List.perm_append_comm.append_left _).trans ?_
    rw [← List.append_assoc, List.append_assoc (List.range pre), ← List.map_append,
      List.take_append_drop]
    exact (htokens.append_left _).append_right _
  · rw [List.length_mergeSort, List.length_append, List.length_append, List.length_range,
      List.length_map, List.length_take, hlen, List.length_range']
    omega

theorem ascending_d2oPartition (h : max targetLen (min cfg.protectedPrefix current + 2) < current) :
    (d2oPartition cfg current targetLen importance).1.Pairwise (· < ·) := by
  have hle : (d2oPartition cfg current targetLen importance).1.Pairwise fun a b =>
    decide (a ≤ b) = true :=
    List.pairwise_mergeSort
      (fun a b c hab hbc => decide_eq_true ((of_decide_eq_true hab).trans (of_decide_eq_true hbc)))
      (fun a b => by simpa using Nat.le_total a b) _
  have hnodup := (d2oPartition_perm importance h).1.nodup_iff.mpr List.nodup_range
  have hne : (d2oPartition cfg current targetLen importance).1.Pairwise (· ≠ ·) :=
    (List.nodup_append.mp hnodup).1
  exact (hle.and hne).imp fun h => lt_of_le_of_ne (of_decide_eq_true h.1) h.2

theorem mem_d2oPartition {p : ℕ} (h : p < min cfg.protectedPrefix current) :
    p ∈ (d2oPartition cfg current targetLen importance).1 :=
  List.mem_mergeSort.mpr (List.mem_append_left _ (List.mem_append_left _ (List.mem_range.mpr h)))

end Partition

/-! ## Matches and weights -/

section Matches

variable {F : Type} [Field F] [LinearOrder F] (M : D2oMath F)

theorem retainPos_mem {reader : ℕ → ℕ → ℕ → F} {evictPos kvHeads headDim : ℕ} {retainSet : List ℕ}
    (h : retainSet ≠ []) :
    (findNearestLayerWideVia M reader evictPos retainSet kvHeads headDim).retainPos ∈
      retainSet := by
  have hfold : ∀ (l : List ℕ) (best : ℕ × Option F), best.1 ∈ retainSet → l ⊆ retainSet →
      (l.foldl (fun (best : ℕ × Option F) retainPos =>
        if retainPos = evictPos then best
        else
          let sim := cosineSimilarity M (dequantizeKLayerWideVia reader evictPos kvHeads headDim)
            (dequantizeKLayerWideVia reader retainPos kvHeads headDim)
          if best.2.all (· < sim) then (retainPos, some sim) else best) best).1 ∈ retainSet := by
    intro l
    induction l with
    | nil => exact fun best hbest _ => hbest
    | cons p l ih =>
      intro best hbest hl
      rw [List.cons_subset] at hl
      refine ih _ ?_ hl.2
      dsimp only
      split_ifs
      · exact hbest
      · exact hl.1
      · exact hbest
  refine hfold _ _ ?_ (List.Subset.refl _)
  cases retainSet with
  | nil => exact absurd rfl h
  | cons p l => exact List.mem_cons_self

variable [IsStrictOrderedRing F]

/-- **The weights of a merge add up to one.** -/
theorem sum_computeEq11Weights {mergeE : F} (h : 0 < mergeE) (l : List (ℕ × F)) :
    (computeEq11Weights M l mergeE).1 + (computeEq11Weights M l mergeE).2.sum = 1 := by
  unfold computeEq11Weights
  dsimp only
  generalize hexps : l.map (fun x => M.exp (max (-10) (min x.2 10))) = exps
  have hpos : 0 < exps.sum + mergeE := by
    refine add_pos_of_nonneg_of_pos (List.sum_nonneg fun x hx => ?_) h
    rw [← hexps] at hx
    obtain ⟨y, -, rfl⟩ := List.mem_map.mp hx
    exact (M.exp_pos _).le
  rw [if_pos hpos, List.sum_map_mul_right, List.map_id', ← add_mul, add_comm mergeE,
    mul_one_div_cancel hpos.ne']

omit [IsStrictOrderedRing F] in
theorem length_computeEq11Weights (l : List (ℕ × F)) (mergeE : F) :
    (computeEq11Weights M l mergeE).2.length = l.length := by
  simp [computeEq11Weights]

end Matches

/-! ## Plans -/

section Plans

variable {F : Type} [Field F] [LinearOrder F] {M : D2oMath F} {cfg : D2oConfig F}

theorem emaThreshold_totals (cfg : D2oConfig F) (st : D2oState F) (ms : List (Match F)) :
    (emaThreshold cfg st ms).totalMerged = st.totalMerged ∧
    (emaThreshold cfg st ms).totalDeleted = st.totalDeleted := by
  unfold emaThreshold
  split_ifs <;> exact ⟨rfl, rfl⟩

theorem exists_target {current targetLen : ℕ} (importance : List F)
    (h : max targetLen (min cfg.protectedPrefix current + 2) < current) :
    (d2oPartition cfg current targetLen importance).1.filter
      (fun p => decide (min cfg.protectedPrefix current ≤ p)) ≠ [] := by
  intro hnil
  have hsub : (d2oPartition cfg current targetLen importance).1 ⊆
    List.range (min cfg.protectedPrefix current) := by
    intro p hp
    have hlt := List.filter_eq_nil_iff.mp hnil p hp
    rw [decide_eq_true_eq, Nat.not_le] at hlt
    exact List.mem_range.mpr hlt
  have hnodup : (d2oPartition cfg current targetLen importance).1.Nodup :=
    (ascending_d2oPartition importance h).imp fun hlt => hlt.ne
  have hle := (hnodup.subperm hsub).length_le
  have hlen := (d2oPartition_perm importance h).2
  rw [List.length_range] at hle
  omega

/-- **What `compute_d2o_plan` returns**: the partition, matches of some of what is evicted, and all
of it counted. -/
theorem computeD2oPlan_some {reader : ℕ → ℕ → ℕ → F} {st st' : D2oState F}
    {current targetLen kvHeads headDim : ℕ} {importance : List F} {mergeEnabled : Bool}
    {keep passing : List ℕ} {ms : List (Match F)}
    (h : computeD2oPlan M reader cfg st current targetLen importance kvHeads headDim mergeEnabled =
      (some (keep, passing, ms), st')) :
    max targetLen (min cfg.protectedPrefix current + 2) < current ∧
      keep = (d2oPartition cfg current targetLen importance).1 ∧
      passing.length = ms.length ∧
      passing.Sublist (d2oPartition cfg current targetLen importance).2 ∧
      (∀ m ∈ ms, m.retainPos ∈ keep ∧ min cfg.protectedPrefix current ≤ m.retainPos) ∧
      st'.totalMerged + st'.totalDeleted = st.totalMerged + st.totalDeleted +
        (d2oPartition cfg current targetLen importance).2.length := by
  unfold computeD2oPlan at h
  dsimp only at h
  by_cases hfits : current ≤ max targetLen (min cfg.protectedPrefix current + 2)
  · rw [if_pos hfits] at h
    cases h
  rw [if_neg hfits] at h
  have hlong := Nat.lt_of_not_le hfits
  refine ⟨hlong, ?_⟩
  have htargets := exists_target importance hlong
  generalize hpart : d2oPartition cfg current targetLen importance = part at h htargets ⊢
  obtain ⟨retainAll, evict⟩ := part
  dsimp only at h htargets ⊢
  by_cases hnone : evict = []
  · rw [if_pos hnone] at h
    cases h
  rw [if_neg hnone] at h
  cases mergeEnabled with
  | false =>
    cases h
    refine ⟨rfl, rfl, List.nil_sublist _, fun m hm => absurd hm List.not_mem_nil, ?_⟩
    dsimp only
    omega
  | true =>
    rw [if_neg (by decide)] at h
    generalize hall : evict.map (fun pos => findNearestLayerWideVia M reader pos
      (retainAll.filter fun p => decide (min cfg.protectedPrefix current ≤ p)) kvHeads headDim) =
        allMatches at h
    generalize hpass : (evict.zip allMatches).filter
      (fun x => decide ((emaThreshold cfg st allMatches).emaThreshold ≤ x.2.sim)) = pass at h
    cases h
    have hlen : evict.length = allMatches.length := by rw [← hall, List.length_map]
    have hsub : pass.Sublist (evict.zip allMatches) := hpass ▸ List.filter_sublist
    have hfst : (pass.map Prod.fst).Sublist evict := by
      have := hsub.map Prod.fst
      rwa [List.map_fst_zip hlen.le] at this
    refine ⟨rfl, by rw [List.length_map, List.length_map], hfst, fun m hm => ?_, ?_⟩
    · have hm' : m ∈ allMatches := by
        have := (hsub.map Prod.snd).subset hm
        rwa [List.map_snd_zip hlen.ge] at this
      rw [← hall] at hm'
      obtain ⟨pos, -, rfl⟩ := List.mem_map.mp hm'
      obtain ⟨hin, hge⟩ := List.mem_filter.mp (retainPos_mem M htargets)
      exact ⟨hin, of_decide_eq_true hge⟩
    · have hle := hfst.length_le
      rw [List.length_map] at hle
      obtain ⟨hmerged, hdeleted⟩ := emaThreshold_totals cfg st allMatches
      dsimp only
      omega

theorem fst_mergeOf (g : ℕ × List (ℕ × F)) :
    (mergeOf M cfg g).source.map Prod.fst = g.2.map Prod.fst := by
  have hlen := length_computeEq11Weights M g.2 cfg.mergeE
  unfold mergeOf
  dsimp only
  rw [List.map_map]
  calc _ = ((g.2.zip (computeEq11Weights M g.2 cfg.mergeE).2).map Prod.fst).map Prod.fst := by
        rw [List.map_map]
        rfl
    _ = g.2.map Prod.fst := by rw [List.map_fst_zip hlen.ge]

theorem snd_mergeOf (g : ℕ × List (ℕ × F)) :
    (mergeOf M cfg g).source.map Prod.snd = (computeEq11Weights M g.2 cfg.mergeE).2 := by
  have hlen := length_computeEq11Weights M g.2 cfg.mergeE
  unfold mergeOf
  dsimp only
  rw [List.map_map]
  exact List.map_snd_zip hlen.le

theorem perm_sources (order : WalkOrder (ℕ × List (ℕ × F))) {passing : List ℕ} {ms : List (Match F)}
    (hlen : passing.length = ms.length) :
    (((order.walk (groupByRetain passing ms)).map (mergeOf M cfg)).flatMap fun m =>
      m.source.map Prod.fst).Perm
      passing := by
  rw [List.flatMap_map]
  simp only [fst_mergeOf]
  refine ((order.perm _).flatMap_right _).trans ?_
  rw [← List.map_flatMap]
  refine (Groups.perm_collect.map Prod.fst).trans ?_
  rw [List.map_map]
  exact List.Perm.of_eq (List.map_fst_zip hlen.le)

theorem card_evicted {current targetLen : ℕ} (importance : List F)
    (h : max targetLen (min cfg.protectedPrefix current + 2) < current) :
    #((range current).filter fun p => p ∉ (d2oPartition cfg current targetLen importance).1) =
      (d2oPartition cfg current targetLen importance).2.length := by
  have hperm := (d2oPartition_perm importance h).1
  obtain ⟨-, hnodup, hdisj⟩ := List.nodup_append.mp (hperm.nodup_iff.mpr List.nodup_range)
  rw [← List.toFinset_card_of_nodup hnodup]
  congr 1
  ext p
  have hmem := hperm.mem_iff (a := p)
  rw [List.mem_append, List.mem_range] at hmem
  rw [mem_filter, mem_range, List.mem_toFinset, ← hmem]
  constructor
  · rintro ⟨hp | hp, hout⟩
    · exact absurd hp hout
    · exact hp
  · exact fun hp => ⟨Or.inr hp, fun hin => hdisj p hin p hp rfl⟩

/-- A layer that is not protected gets a plan when it is longer than what is kept. -/
theorem exists_computePlan (M : D2oMath F) (cfg : D2oConfig F)
    (order : WalkOrder (ℕ × List (ℕ × F))) (st : D2oState F) (ctx : MergeCtx F)
    (hprotected : cfg.isProtected ctx.layerIdx ctx.nLayers = false)
    (hlong : max ctx.targetLen (min cfg.protectedPrefix ctx.currentPos + 2) < ctx.currentPos) :
    ∃ keep merges st', computePlan M order cfg st ctx = (some (keep, merges), st') := by
  have hevict :
    (d2oPartition cfg ctx.currentPos ctx.targetLen (ctx.importance.getD [])).2 ≠ [] := by
    obtain ⟨hperm, hlen⟩ := d2oPartition_perm (ctx.importance.getD []) hlong
    have hall := hperm.length_eq
    rw [List.length_append, List.length_range, hlen] at hall
    exact List.ne_nil_of_length_pos (by omega)
  have hplan : ∃ keep passing ms st',
    computeD2oPlan M ctx.dequantK cfg st ctx.currentPos ctx.targetLen
      (ctx.importance.getD []) ctx.nKvHeads ctx.headDim (!ctx.kvOnDevice) =
        (some (keep, passing, ms), st') := by
    unfold computeD2oPlan
    dsimp only
    rw [if_neg (Nat.not_le.mpr hlong), if_neg hevict]
    split_ifs
    · exact ⟨_, _, _, _, rfl⟩
    · exact ⟨_, _, _, _, rfl⟩
  obtain ⟨keep, passing, ms, st', hplan⟩ := hplan
  unfold computePlan
  rw [if_neg (by rw [hprotected]; exact Bool.false_ne_true), hplan]
  exact ⟨_, _, _, rfl⟩

variable [IsStrictOrderedRing F]

/-- **Every plan of D2O is a merge plan**, and the positions it evicts are counted. -/
theorem mergePlan_of_computePlan (M : D2oMath F) (order : WalkOrder (ℕ × List (ℕ × F)))
    (cfg : D2oConfig F) (hmerge : 0 < cfg.mergeE) (st st' : D2oState F) (ctx : MergeCtx F)
    (keep : List ℕ) (merges : List (WeightedMerge F))
    (h : computePlan M order cfg st ctx = (some (keep, merges), st')) :
    MergePlan (min cfg.protectedPrefix ctx.currentPos) ctx.currentPos
        (max ctx.targetLen (min cfg.protectedPrefix ctx.currentPos + 2)) keep merges ∧
      st'.totalMerged + st'.totalDeleted = st.totalMerged + st.totalDeleted +
        #((range ctx.currentPos).filter fun p => p ∉ keep) := by
  unfold computePlan at h
  by_cases hprotected : cfg.isProtected ctx.layerIdx ctx.nLayers
  · rw [if_pos hprotected] at h
    cases h
  rw [if_neg hprotected] at h
  generalize hplan : computeD2oPlan M ctx.dequantK cfg st ctx.currentPos ctx.targetLen
    (ctx.importance.getD []) ctx.nKvHeads ctx.headDim (!ctx.kvOnDevice) = plan at h
  obtain ⟨_ | ⟨retainAll, passing, ms⟩, st₁⟩ := plan
  · cases h
  obtain ⟨hlong, hkeep, hlen, hsub, htargets, htotals⟩ := computeD2oPlan_some hplan
  obtain ⟨hsome, rfl⟩ := Prod.mk.inj h
  obtain ⟨rfl, hlist⟩ := Prod.mk.inj (Option.some.inj hsome)
  -- without a group there is no merge either
  have hmerges : merges = (order.walk (groupByRetain passing ms)).map (mergeOf M cfg) := by
    rw [← hlist]
    by_cases hnone : passing = []
    · have hwalk : order.walk (groupByRetain passing ms) = [] := by
        rw [hnone]
        exact (order.perm _).eq_nil
      rw [if_pos hnone, hwalk]
      rfl
    · rw [if_neg hnone]
  have hperm := (d2oPartition_perm (ctx.importance.getD []) hlong).1
  obtain ⟨-, hevict, hdisj⟩ := List.nodup_append.mp (hperm.nodup_iff.mpr List.nodup_range)
  have hsources : (merges.flatMap fun m => m.source.map Prod.fst).Perm passing :=
    hmerges ▸ perm_sources order hlen
  refine ⟨⟨?_, ?_, ?_, ?_, ?_, ?_, ?_, ?_, ?_⟩, ?_⟩
  · rw [hkeep]
    exact ascending_d2oPartition _ hlong
  · intro p hp
    rw [hkeep] at hp
    exact List.mem_range.mp (hperm.subset (List.mem_append_left _ hp))
  · intro p hp
    rw [hkeep]
    exact mem_d2oPartition _ hp
  · rw [hkeep]
    exact (d2oPartition_perm _ hlong).2
  · intro m hm
    rw [hmerges] at hm
    obtain ⟨g, hg, rfl⟩ := List.mem_map.mp hm
    obtain ⟨x, hx, hkey⟩ := Groups.mem_keys_collect (List.mem_map_of_mem ((order.perm _).subset hg))
    have htarget := htargets x.2 (List.of_mem_zip hx).2
    rw [hkey] at htarget
    exact htarget
  · rw [hmerges, List.map_map]
    exact ((order.perm _).map Prod.fst).nodup_iff.mpr Groups.nodup_keys_collect
  · intro m hm x hx
    have hpass : x.1 ∈ passing :=
      hsources.subset (List.mem_flatMap.mpr ⟨m, hm, List.mem_map_of_mem hx⟩)
    have hin := hsub.subset hpass
    refine ⟨List.mem_range.mp (hperm.subset (List.mem_append_right _ hin)), fun hkept => ?_⟩
    rw [hkeep] at hkept
    exact hdisj _ hkept _ hin rfl
  · exact hsources.nodup_iff.mpr (hevict.sublist hsub)
  · intro m hm
    rw [hmerges] at hm
    obtain ⟨g, -, rfl⟩ := List.mem_map.mp hm
    rw [snd_mergeOf]
    exact sum_computeEq11Weights M hmerge g.2
  · rw [htotals, hkeep, card_evicted _ hlong]

/-- Five positions of one head, of which three are kept. -/
def fiveKeys : MergeCtx ℚ :=
  { currentPos := 5, headStart := fun _ => 0, targetLen := 3, nLayers := 1,
    layerIdx := 0, nKvHeads := 1,
    protectedPrefix := 1, importance := some [1, 2, 3, 4, 5], headScores := none,
      prefillWindow := none,
    currentPos_lt := by
      decide, headStart_le := fun _ => Nat.zero_le _, headDim := 1, dequantK := fun pos _ _ => pos,
    kvOnDevice := false }

theorem mergePlan_fiveKeys : ∃ (keep : List ℕ) (merges : List (WeightedMerge ℚ)),
    MergePlan 1 5 3 keep merges := by
  have hexp : ∀ x : ℚ, 0 < |x| + 1 := fun x => by positivity
  obtain ⟨keep, merges, st', h⟩ := exists_computePlan ⟨id, fun x => |x| + 1, hexp⟩
    ⟨some (1 / 2), 1, 7 / 10, 1 / 10, false, [], .both⟩ ⟨id, List.Perm.refl⟩ ⟨0, false, 0, 0⟩
      fiveKeys (by decide) (by decide)
  exact ⟨keep, merges, (mergePlan_of_computePlan _ _ _ (by norm_num) _ _ _ _ _ h).1⟩

end Plans

end ArgusEngine.Techniques
