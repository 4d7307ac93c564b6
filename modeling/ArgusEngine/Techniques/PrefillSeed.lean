import Mathlib.Algebra.Field.Rat
import Mathlib.Algebra.Order.Ring.Rat
import ArgusEngine.Techniques.FlatScores

/-!
# Seeding by a prefill

The attention of a prefill reaches the importance of each layer in one step of column sums, or in
one step for each of its queries.

* `Prefill`: a causal attention array, its `columnSums` and its `querySteps`;
* **`cell_seedRow`**: what the column sums of a layer add is the sum of what its queries add;
* **`seeded_as_online`**: both ways give the same importances, and so do further steps.
-/

namespace ArgusEngine.Techniques

open Checked Outcomes

variable {K : Type} [Field K]

/-! ## The prefill -/

/-- The attention of the query `i` of the layer `l`; the head `h` gives the key `k` what is at `h *
prefixLen + k`. A query does not attend to a later key. -/
structure Prefill (K : Type) [Zero K] where
  nLayers : ℕ
  nHeadsQ : ℕ
  prefixLen : ℕ
  attn : (l i x : ℕ) → K
  causal : ∀ l i h k, h < nHeadsQ → i < k → k < prefixLen → attn l i (h * prefixLen + k) = 0

namespace Prefill

variable (m : Prefill K) (nKvHeads : ℕ)

/-- The column sums of a layer over its queries. -/
def columnSum (l : ℕ) : List K :=
  (List.range (m.nHeadsQ * m.prefixLen)).map fun x => ∑ i ∈ Finset.range m.prefixLen, m.attn l i x

def columnSums : List (List K) := (List.range m.nLayers).map m.columnSum

/-- The row of a layer that holds its column sums. -/
def seedRow (l : ℕ) : DecodeAttnCtx K :=
  ⟨m.columnSum l, m.prefixLen, m.prefixLen, m.nHeadsQ, nKvHeads, 0, l⟩

/-- The row of a layer for the query `i`, which attends to `i + 1` keys. -/
def queryRow (i l : ℕ) : DecodeAttnCtx K :=
  ⟨(List.range (m.nHeadsQ * m.prefixLen)).map (m.attn l i), m.prefixLen, i + 1,
    m.nHeadsQ, nKvHeads, 0, l⟩

/-- One step for each query. -/
def querySteps : List (List (DecodeAttnCtx K)) :=
  (List.range m.prefixLen).map fun i => (List.range m.nLayers).map (m.queryRow nKvHeads i)

variable {nKvHeads} {cfg : FlatConfig K}

theorem isRow_seedRow (hkv : nKvHeads = cfg.nKvHeads) (hpos : 0 < nKvHeads) (l : ℕ) :
    IsRow cfg (m.seedRow nKvHeads l) :=
  ⟨rfl, hkv, hkv ▸ hpos, (List.length_map _).trans List.length_range, min_le_left _ _⟩

theorem isRow_queryRow (hkv : nKvHeads = cfg.nKvHeads) (hpos : 0 < nKvHeads) {i : ℕ}
    (hi : i < m.prefixLen) (l : ℕ) : IsRow cfg (m.queryRow nKvHeads i l) :=
  ⟨rfl, hkv, hkv ▸ hpos, (List.length_map _).trans List.length_range, (min_le_left _ _).trans hi⟩

theorem isStep_map {row : ℕ → DecodeAttnCtx K} (hrow : ∀ l, IsRow cfg (row l))
    (hlayer : ∀ l, (row l).layer = l) : IsStep cfg ((List.range m.nLayers).map row) where
  rows ctx hctx := by
    obtain ⟨l, -, rfl⟩ := List.mem_map.mp hctx
    exact hrow l
  layers := by
    rw [List.map_map, show DecodeAttnCtx.layer ∘ row = id from funext hlayer, List.map_id]
    exact List.nodup_range

theorem zipIdx_columnSums : m.columnSums.zipIdx.map (fun x =>
    (⟨x.1, m.prefixLen, m.prefixLen, m.nHeadsQ, nKvHeads, 0, x.2⟩ : DecodeAttnCtx K)) =
      (List.range m.nLayers).map (m.seedRow nKvHeads) := by
  refine List.ext_getElem (by simp [columnSums]) fun l h _ => ?_
  simp [columnSums, seedRow]

/-! ## The cells -/

theorem index_lt {h t : ℕ} (hh : h < m.nHeadsQ) (ht : t < m.prefixLen) :
    h * m.prefixLen + t < m.nHeadsQ * m.prefixLen :=
  calc h * m.prefixLen + t < (h + 1) * m.prefixLen := by rw [Nat.succ_mul]; omega
    _ ≤ m.nHeadsQ * m.prefixLen := Nat.mul_le_mul_right _ hh

theorem cell_queryRow {i : ℕ} (hi : i < m.prefixLen) (l p : ℕ) :
    cell cfg (m.queryRow nKvHeads i l) p =
    if cfg.tracks l ∧ Covers cfg (m.seedRow nKvHeads l) p then
      ∑ h ∈ Finset.range m.nHeadsQ, m.attn l i (h * m.prefixLen + (p - l * cfg.maxSeqLen))
        else 0 := by
  have hscore : ∀ t < m.prefixLen, rowScore (m.queryRow nKvHeads i l) t =
      ∑ h ∈ Finset.range m.nHeadsQ, m.attn l i (h * m.prefixLen + t) := by
    intro t ht
    refine Finset.sum_congr rfl fun h hh => ?_
    have hlt := m.index_lt (Finset.mem_range.mp hh) ht
    show ((List.range (m.nHeadsQ * m.prefixLen)).map (m.attn l i)).getD (h * m.prefixLen + t) 0 = _
    rw [List.getD_eq_getElem _ _ (by rwa [List.length_map, List.length_range]), List.getElem_map,
      List.getElem_range]
  by_cases hseed : cfg.tracks l ∧ Covers cfg (m.seedRow nKvHeads l) p
  · rw [if_pos hseed]
    obtain ⟨htracks, hlo, hhi⟩ : cfg.tracks l ∧ l * cfg.maxSeqLen ≤ p ∧
        p < l * cfg.maxSeqLen + min m.prefixLen cfg.maxSeqLen := hseed
    by_cases hquery : Covers cfg (m.queryRow nKvHeads i l) p
    · rw [cell, if_pos ⟨htracks, hquery⟩]
      exact hscore (p - l * cfg.maxSeqLen) (by omega)
    · -- the key is behind the query
      rw [cell, if_neg fun h => hquery h.2]
      refine (Finset.sum_eq_zero fun h hh =>
        m.causal l i h _ (Finset.mem_range.mp hh) ?_ (by omega)).symm
      by_contra hle
      exact hquery (show l * cfg.maxSeqLen ≤ p ∧ p < l * cfg.maxSeqLen + min (i + 1)
        cfg.maxSeqLen by omega)
  · rw [if_neg hseed, cell, if_neg]
    intro hquery
    obtain ⟨htracks, hlo, hhi⟩ : cfg.tracks l ∧ l * cfg.maxSeqLen ≤ p ∧
        p < l * cfg.maxSeqLen + min (i + 1) cfg.maxSeqLen := hquery
    exact hseed ⟨htracks,
      show l * cfg.maxSeqLen ≤ p ∧ p < l * cfg.maxSeqLen + min m.prefixLen cfg.maxSeqLen by omega⟩

/-- **What the column sums add** is what the queries add. -/
theorem cell_seedRow (l p : ℕ) : cell cfg (m.seedRow nKvHeads l) p =
    ∑ i ∈ Finset.range m.prefixLen, cell cfg (m.queryRow nKvHeads i l) p := by
  rw [Finset.sum_congr rfl fun i hi => m.cell_queryRow (Finset.mem_range.mp hi) l p]
  by_cases hseed : cfg.tracks l ∧ Covers cfg (m.seedRow nKvHeads l) p
  · rw [Finset.sum_congr rfl fun i _ => if_pos hseed, Finset.sum_comm]
    refine (if_pos hseed).trans ?_
    obtain ⟨-, hlo, hhi⟩ : cfg.tracks l ∧ l * cfg.maxSeqLen ≤ p ∧
        p < l * cfg.maxSeqLen + min m.prefixLen cfg.maxSeqLen := hseed
    refine Finset.sum_congr rfl fun h hh => ?_
    have hlt : h * m.prefixLen + (p - l * cfg.maxSeqLen) < m.nHeadsQ * m.prefixLen :=
      m.index_lt (Finset.mem_range.mp hh) (by omega)
    show (m.columnSum l).getD (h * m.prefixLen + (p - l * cfg.maxSeqLen)) 0 = _
    unfold columnSum
    rw [List.getD_eq_getElem _ _ (by rwa [List.length_map, List.length_range]), List.getElem_map,
      List.getElem_range]
  · rw [Finset.sum_congr rfl fun i _ => if_neg hseed, Finset.sum_const_zero]
    exact if_neg hseed

end Prefill

/-! ## The two ways -/

/-- Which accumulators are enabled besides the one of the layers. -/
structure Flags where
  layerHeadDump : Bool
  timeNormalize : Bool

section Ways

variable [LinearOrder K]

/-- A producer that keeps an importance for each layer, active and without scores. -/
def started (params : ScoreProducerParams K) (flags : Flags) : AttnScoreProducer K :=
  let s := ((AttnScoreProducer.new params).setActive true).enablePerLayerFlat.setTimeNormalize
    flags.timeNormalize
  if flags.layerHeadDump then s.enableLayerHeadDump else s

/-- The part of `started` that no step changes. -/
def startedConfig (params : ScoreProducerParams K) : FlatConfig K :=
  let s := AttnScoreProducer.new params
  ⟨s.maxSeqLen, s.trackedLayers, s.decay, true, s.nKvHeads⟩

def startedScores (params : ScoreProducerParams K) : FlatScores K :=
  ⟨0, List.replicate (params.totalLayers * params.maxSeqLen) 0,
    List.replicate (params.totalLayers * params.maxSeqLen) 0⟩

omit [LinearOrder K] in
theorem length_startedScores (params : ScoreProducerParams K) :
    (startedScores params).layerFlat.length = params.totalLayers * params.maxSeqLen :=
    List.length_replicate

omit [LinearOrder K] in
theorem cum_startedScores (params : ScoreProducerParams K) :
    (startedScores params).layerFlatCum =
      (List.range (startedScores params).layerFlat.length).map fun _ => 0 := by
  rw [List.map_const', List.length_range, length_startedScores]
  rfl

theorem shows_started (params : ScoreProducerParams K) (flags : Flags) :
    AttnScoreProducer.Shows (startedConfig params) (started params flags)
      (startedScores params) := by
  have hresized : AttnScoreProducer.resized ([] : List K) (params.totalLayers * params.maxSeqLen) =
      List.replicate (params.totalLayers * params.maxSeqLen) 0 := by
    unfold AttnScoreProducer.resized
    split_ifs with h
    · rfl
    · rw [← not_not.mp h]
      rfl
  have hsize : ∀ n, (List.replicate n (0 : K)).length = n := fun n => List.length_replicate
  have hshows : AttnScoreProducer.Shows (startedConfig params)
      (((AttnScoreProducer.new params).setActive true).enablePerLayerFlat.setTimeNormalize
        flags.timeNormalize)
      (startedScores params) :=
    ⟨⟨hsize _, hsize _, hsize _, hsize _, List.length_replicate, hsize _⟩, rfl, rfl,
      congrArg₂ (FlatScores.mk 0) hresized.symm hresized.symm⟩
  unfold started
  dsimp only
  split_ifs
  · exact hshows.enableLayerHeadDump
  · exact hshows

variable {cfg : FlatConfig K} {f f' : FlatScores K}

variable (cfg) in
/-- **Steps forget the slots of the step before**: only the sums count. -/
theorem agree_decode_of_cum (hactive : cfg.active = true)
    (hlen : f.layerFlat.length = f'.layerFlat.length) (hcum : f.layerFlatCum = f'.layerFlatCum)
    (steps : List (List (DecodeAttnCtx K))) : Agree (fun g g' => g.layerFlatCum = g'.layerFlatCum)
    (f.decode cfg steps) (f'.decode cfg steps) := by
  have hrun : Agree (fun g g' : FlatScores K => g.layerFlat.length = g'.layerFlat.length ∧
    g.layerFlatCum = g'.layerFlatCum)
      (f.decode cfg steps) (f'.decode cfg steps) := by
    refine Agree.foldlM (fun ctxs _ g g' hg => ?_) ⟨hlen, hcum⟩
    have hbegin : (g.beginStep cfg).layerFlat = (g'.beginStep cfg).layerFlat ∧
        (g.beginStep cfg).layerFlatCum = (g'.beginStep cfg).layerFlatCum := by
      unfold FlatScores.beginStep
      rw [if_pos hactive, if_pos hactive]
      dsimp only
      rw [List.map_const', List.map_const', hg.1, hg.2]
      exact ⟨rfl, rfl⟩
    -- a layer that is tracked sets the current one first
    have hloop := Agree.foldlM (l := ctxs)
      (R := fun h h' : FlatScores K => h.layerFlat = h'.layerFlat ∧
      h.layerFlatCum = h'.layerFlatCum) (f := fun h ctx => if cfg.tracks ctx.layer
        then h.onDecodeAttn cfg ctx else return h)
      (g := fun h ctx => if cfg.tracks ctx.layer then h.onDecodeAttn cfg ctx else return h)
      (fun ctx _ h h' hh => by
        have hset : h.setCurrentLayer ctx.layer = h'.setCurrentLayer ctx.layer :=
          congrArg₂ (FlatScores.mk ctx.layer) hh.1 hh.2
        split_ifs
        · unfold FlatScores.onDecodeAttn
          rw [hset]
          exact (Agree.refl_eq _).mono fun a b hab => hab ▸ ⟨rfl, rfl⟩
        · exact .ok hh) hbegin
    refine hloop.bind fun h h' hh => .ok ?_
    unfold FlatScores.endStep
    rw [if_pos hactive, if_pos hactive]
    exact ⟨congrArg List.length hh.1, congrArg₂ addInto hh.2 hh.1⟩
  exact hrun.mono fun g g' hg => hg.2

variable {params : ScoreProducerParams K} (m : Prefill K)

omit [LinearOrder K] in
theorem sum_map_range (n : ℕ) (x : ℕ → K) :
    ((List.range n).map x).sum = ∑ i ∈ Finset.range n, x i := rfl

theorem decay_startedConfig [IsStrictOrderedRing K] (hdecay : params.decay = 0) :
    (startedConfig params).decay = 0 := by
  show min (max params.decay 0) 1 = 0
  rw [hdecay, max_self, min_eq_left zero_le_one]

variable (params) in
/-- The importances of the layers after the prefill. -/
def seededCum : List K := (List.range (params.totalLayers * params.maxSeqLen)).map fun p =>
  ∑ l ∈ Finset.range m.nLayers, cell (startedConfig params) (m.seedRow params.nKvHeads l) p

/-- The column sums reach the importances in one step. -/
theorem exists_seeded [IsStrictOrderedRing K] (hdecay : params.decay = 0)
    (hheads : 0 < params.nKvHeads) (flags : Flags) :
    ∃ s f, (started params flags).seedPrefillImportance m.columnSums m.prefixLen m.nHeadsQ
      params.nKvHeads = .ok s ∧ AttnScoreProducer.Shows (startedConfig params) s f ∧
      f.layerFlat.length = params.totalLayers * params.maxSeqLen ∧
      f.layerFlatCum = seededCum params m := by
  have hshows := shows_started params flags
  by_cases hnone : m.prefixLen = 0 ∨ m.nHeadsQ = 0
  · -- nothing is seeded, and the rows are empty
    refine ⟨started params flags, _, if_pos hnone, hshows, length_startedScores params, ?_⟩
    have hzero : ∀ l p, cell (startedConfig params) (m.seedRow params.nKvHeads l) p = 0 := by
      intro l p
      rw [m.cell_seedRow]
      rcases hnone with h | h
      · rw [h, Finset.sum_range_zero]
      · refine Finset.sum_eq_zero fun i hi => ?_
        rw [m.cell_queryRow (Finset.mem_range.mp hi), h, Finset.sum_range_zero, ite_self]
    unfold seededCum
    simp only [hzero, Finset.sum_const_zero]
    rw [List.map_const', List.length_range]
    rfl
  · rw [not_or] at hnone
    have hagree := AttnScoreProducer.agree_seedPrefillImportance hshows hheads hnone.1 hnone.2
      m.columnSums params.nKvHeads
    rw [m.zipIdx_columnSums] at hagree
    have hstep : IsStep (startedConfig params)
      ((List.range m.nLayers).map (m.seedRow params.nKvHeads)) :=
      m.isStep_map (m.isRow_seedRow rfl hheads) fun _ => rfl
    obtain ⟨f, hf, hflen, hfcum⟩ := decodeStep_rows (b := fun _ => 0)
      hstep rfl (decay_startedConfig hdecay) (cum_startedScores params)
    rw [hf] at hagree
    obtain ⟨s, hs, hshown⟩ := hagree.exists_ok
    refine ⟨s, f, hs, hshown, hflen.trans (length_startedScores params), hfcum.trans ?_⟩
    rw [length_startedScores]
    refine List.map_congr_left fun p _ => ?_
    rw [zero_add, List.map_map]
    exact sum_map_range _ _

/-- The queries reach the importances step by step. -/
theorem exists_online [IsStrictOrderedRing K] (hdecay : params.decay = 0)
    (hheads : 0 < params.nKvHeads) (flags : Flags) :
    ∃ s f, (started params flags).decode (m.querySteps params.nKvHeads) = .ok s ∧
      AttnScoreProducer.Shows (startedConfig params) s f ∧
      f.layerFlat.length = params.totalLayers * params.maxSeqLen ∧
      f.layerFlatCum = seededCum params m := by
  have hagree := AttnScoreProducer.agree_decode (shows_started params flags)
    (m.querySteps params.nKvHeads)
  have hsteps : ∀ ctxs ∈ m.querySteps params.nKvHeads, IsStep (startedConfig params) ctxs := by
    intro ctxs hctxs
    obtain ⟨i, hi, rfl⟩ := List.mem_map.mp hctxs
    exact m.isStep_map (m.isRow_queryRow rfl hheads (List.mem_range.mp hi)) fun _ => rfl
  obtain ⟨f, hf, hflen, hfcum⟩ :=
    decode_rows (b := fun _ => 0) hsteps rfl (decay_startedConfig hdecay) (cum_startedScores params)
  rw [hf] at hagree
  obtain ⟨s, hs, hshown⟩ := hagree.exists_ok
  refine ⟨s, f, hs, hshown, hflen.trans (length_startedScores params), hfcum.trans ?_⟩
  rw [length_startedScores]
  refine List.map_congr_left fun p _ => ?_
  have hquery : ∀ i, (((List.range m.nLayers).map (m.queryRow params.nKvHeads i)).map fun ctx =>
      cell (startedConfig params) ctx p).sum =
        ∑ l ∈ Finset.range m.nLayers, cell (startedConfig params)
          (m.queryRow params.nKvHeads i l) p := by
    intro i
    rw [List.map_map]
    exact sum_map_range _ _
  calc 0 + ((m.querySteps params.nKvHeads).map fun ctxs =>
    (ctxs.map fun ctx => cell (startedConfig params) ctx p).sum).sum
      = ∑ i ∈ Finset.range m.prefixLen, ∑ l ∈ Finset.range m.nLayers,
          cell (startedConfig params) (m.queryRow params.nKvHeads i l) p := by
        rw [zero_add, Prefill.querySteps, List.map_map, ← sum_map_range]
        exact congrArg List.sum (List.map_congr_left fun i _ => hquery i)
    _ = ∑ l ∈ Finset.range m.nLayers, ∑ i ∈ Finset.range m.prefixLen,
          cell (startedConfig params) (m.queryRow params.nKvHeads i l) p := Finset.sum_comm
    _ = ∑ l ∈ Finset.range m.nLayers, cell (startedConfig params) (m.seedRow params.nKvHeads l) p :=
        Finset.sum_congr rfl fun l _ => (m.cell_seedRow l p).symm

/-- **Seeding is online scoring** for the importance of each layer, whatever else is accumulated on
either side, and further steps keep both alike. -/
theorem seeded_as_online [IsStrictOrderedRing K] (hdecay : params.decay = 0)
    (hheads : 0 < params.nKvHeads) (seedFlags onlineFlags : Flags) :
    ∃ s s', (started params seedFlags).seedPrefillImportance m.columnSums m.prefixLen m.nHeadsQ
      params.nKvHeads = .ok s ∧
      (started params onlineFlags).decode (m.querySteps params.nKvHeads) = .ok s' ∧
      s.layerFlatImportance = some (seededCum params m) ∧
      s'.layerFlatImportance = some (seededCum params m) ∧ ∀ steps,
      Agree (fun t t' => t.layerFlatImportance = t'.layerFlatImportance) (s.decode steps)
        (s'.decode steps) := by
  obtain ⟨s, f, hs, hshows, hlen, hcum⟩ := exists_seeded m hdecay hheads seedFlags
  obtain ⟨s', f', hs', hshows', hlen', hcum'⟩ := exists_online m hdecay hheads onlineFlags
  refine ⟨s, s', hs, hs', hshows.layerFlatImportance.trans (congrArg some hcum),
    hshows'.layerFlatImportance.trans (congrArg some hcum'), fun steps => ?_⟩
  have hslots := agree_decode_of_cum (startedConfig params) rfl (hlen.trans hlen'.symm)
    (hcum.trans hcum'.symm) steps
  have h := ((AttnScoreProducer.agree_decode hshows steps).trans hslots).trans
    (AttnScoreProducer.agree_decode hshows' steps).symm
  refine h.mono ?_
  rintro t t' ⟨g', ⟨g, ht, hg⟩, ht'⟩
  rw [ht.layerFlatImportance, ht'.layerFlatImportance, hg]

/-- Two layers of two heads and two queries; a query attends to its keys alike. -/
def smallPrefill : Prefill ℚ where
  nLayers := 2
  nHeadsQ := 2
  prefixLen := 2
  attn _ i x := if x % 2 ≤ i then 1 / (i + 1) else 0
  causal l i h k _ hik hk := if_neg (by omega)

/-- The small prefill, with one KV head. -/
theorem seeded_smallPrefill : ∃ s s',
    (started (⟨3, 1, 2, 0, 0⟩ : ScoreProducerParams ℚ) ⟨true, false⟩).seedPrefillImportance
      smallPrefill.columnSums 2 2 1 = .ok s ∧
    (started (⟨3, 1, 2, 0, 0⟩ : ScoreProducerParams ℚ) ⟨false, true⟩).decode
      (smallPrefill.querySteps 1) = .ok s' ∧
    s.layerFlatImportance = some (seededCum ⟨3, 1, 2, 0, 0⟩ smallPrefill) ∧
    s'.layerFlatImportance = some (seededCum ⟨3, 1, 2, 0, 0⟩ smallPrefill) ∧
    ∀ steps, Agree (fun t t' => t.layerFlatImportance = t'.layerFlatImportance) (s.decode steps)
      (s'.decode steps) :=
  seeded_as_online smallPrefill rfl Nat.one_pos ⟨true, false⟩ ⟨false, true⟩

end Ways

end ArgusEngine.Techniques
