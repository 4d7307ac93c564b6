import Mathlib.Algebra.Order.Field.Basic
import ArgusEngine.Lib.Checked

/-!
# The attention scores

The producer of the scores adds up the attention that every position receives: over the heads of a
layer, with the maximum over the layers of a step, and over the steps. Besides this importance it
keeps one for each KV head and, where they are enabled, one for each layer and KV head and one for
each layer. Scores are exact.

* `AttnScoreProducer`: its buffers;
* `accumulateLayer`, `accumulateLayerGqa`: a layer of a step;
* `beginStep`, `endStep`, `decodeStep`: a step;
* `seedPrefillImportance`: the column sums of a prefill as one step.

An index out of range and a division by zero panic.
-/

namespace ArgusEngine.Techniques

open Checked

/-- `ScoreProducerParams`; `n_heads` is not read. -/
structure ScoreProducerParams (K : Type) where
  maxSeqLen : ℕ
  nKvHeads : ℕ
  totalLayers : ℕ
  lastNLayers : ℕ
  decay : K

/-- `DecodeAttnCtx`. -/
structure DecodeAttnCtx (K : Type) where
  scores : List K
  stride : ℕ
  effectiveLen : ℕ
  nHeadsQ : ℕ
  nKvHeads : ℕ
  scoreOffset : ℕ
  layer : ℕ

/-- `AttnScoreProducer`. -/
structure AttnScoreProducer (K : Type) where
  importance : List K
  stepImportance : List K
  maxSeqLen : ℕ
  /-- No layer stands for all of them. -/
  trackedLayers : List ℕ
  decay : K
  active : Bool
  nKvHeads : ℕ
  headImportance : List K
  headStepImportance : List K
  lastLayerHeadAttn : List K
  stepCount : List UInt32
  normalized : List K
  timeNormalize : Bool
  totalLayers : ℕ
  currentLayer : ℕ
  dumpLayerHead : Bool
  layerHead : List K
  layerHeadCum : List K
  perLayerFlat : Bool
  layerFlat : List K
  layerFlatCum : List K

/-- `*cum += step` along two buffers; what is longer is left as it is. -/
def addInto {K : Type} [Add K] (cum step : List K) : List K :=
  cum.zipWith (· + ·) step ++ cum.drop step.length

section Scores

variable {K : Type} [Field K]

/-- The sum of a column of the scores over the rows `first, …, first + n - 1`. -/
def columnScore (scores : List K) (stride first n t : ℕ) : Except (Fault Empty) K :=
  (List.range n).foldlM (fun s h => do
    let x ← get scores ((first + h) * stride + t)
    return s + x) 0

end Scores

namespace AttnScoreProducer

variable {K : Type} [Field K] [LinearOrder K]

/-! ## Construction -/

/-- `new`. -/
def new (params : ScoreProducerParams K) : AttnScoreProducer K where
  importance := List.replicate params.maxSeqLen 0
  stepImportance := List.replicate params.maxSeqLen 0
  maxSeqLen := params.maxSeqLen
  trackedLayers :=
    if params.lastNLayers = 0 ∨ params.totalLayers ≤ params.lastNLayers then []
    else List.range' (params.totalLayers - params.lastNLayers) params.lastNLayers
  decay := min (max params.decay 0) 1
  active := false
  nKvHeads := params.nKvHeads
  headImportance := List.replicate (params.nKvHeads * params.maxSeqLen) 0
  headStepImportance := List.replicate (params.nKvHeads * params.maxSeqLen) 0
  lastLayerHeadAttn := List.replicate (params.nKvHeads * params.maxSeqLen) 0
  stepCount := List.replicate params.maxSeqLen 0
  normalized := List.replicate params.maxSeqLen 0
  timeNormalize := false
  totalLayers := params.totalLayers
  currentLayer := 0
  dumpLayerHead := false
  layerHead := []
  layerHeadCum := []
  perLayerFlat := false
  layerFlat := []
  layerFlatCum := []

variable (s : AttnScoreProducer K)

/-- `set_active`. -/
def setActive (active : Bool) : AttnScoreProducer K := { s with active := active }

/-- `set_time_normalize`. -/
def setTimeNormalize (enable : Bool) : AttnScoreProducer K := { s with timeNormalize := enable }

/-- `set_current_layer`. -/
def setCurrentLayer (layer : ℕ) : AttnScoreProducer K := { s with currentLayer := layer }

/-- `should_track_layer`. -/
def shouldTrackLayer (layer : ℕ) : Bool :=
  s.active && (s.trackedLayers.isEmpty || s.trackedLayers.contains layer)

/-- A buffer of `size` elements: a new one, unless it has that size. -/
def resized (buf : List K) (size : ℕ) : List K :=
  if buf.length ≠ size then List.replicate size 0 else buf

/-- `enable_layer_head_dump`. -/
def enableLayerHeadDump : AttnScoreProducer K :=
  if s.nKvHeads = 0 then s
  else
    let size := s.totalLayers * s.nKvHeads * s.maxSeqLen
    { s with layerHead := resized s.layerHead size, layerHeadCum := resized s.layerHeadCum size,
             dumpLayerHead := true }

/-- `enable_per_layer_flat`. -/
def enablePerLayerFlat : AttnScoreProducer K :=
  let size := s.totalLayers * s.maxSeqLen
  { s with layerFlat := resized s.layerFlat size, layerFlatCum := resized s.layerFlatCum size,
           perLayerFlat := true }

/-- `layer_flat_importance`. -/
def layerFlatImportance : Option (List K) := if s.perLayerFlat then some s.layerFlatCum else none

/-! ## A layer of a step -/

/-- The positions of a row in the cache: the loop breaks behind the last one. -/
def rowPositions (effectiveLen scoreOffset : ℕ) : List ℕ :=
  (List.range (min effectiveLen s.maxSeqLen)).takeWhile fun t => scoreOffset + t < s.maxSeqLen

/-- The score of a layer at `pos`. -/
def foldFlat (pos : ℕ) (layerScore : K) : Except (Fault Empty) (AttnScoreProducer K) := do
  let v ← get s.stepImportance pos
  let stepImportance ← put s.stepImportance pos (max v layerScore)
  let s := { s with stepImportance := stepImportance }
  if s.perLayerFlat then
    let lIdx := s.currentLayer * s.maxSeqLen + pos
    -- no maximum over the layers: each has a slot of its own
    if lIdx < s.layerFlat.length then return { s with layerFlat := s.layerFlat.set lIdx layerScore }
      else return s
  else return s

/-- The mean of a KV head at `pos`; an exact score is a number, so the guard against NaN is gone. -/
def foldHead (pos kvH : ℕ) (groupScore : K) : Except (Fault Empty) (AttnScoreProducer K) := do
  let idx := kvH * s.maxSeqLen + pos
  let v ← get s.headStepImportance idx
  let headStepImportance ← put s.headStepImportance idx (max v groupScore)
  let lastLayerHeadAttn ← put s.lastLayerHeadAttn idx groupScore
  let s := { s with headStepImportance := headStepImportance,
                    lastLayerHeadAttn := lastLayerHeadAttn }
  if s.dumpLayerHead then
    let lIdx := (s.currentLayer * s.nKvHeads + kvH) * s.maxSeqLen + pos
    if lIdx < s.layerHead.length then return { s with layerHead := s.layerHead.set lIdx groupScore }
      else return s
  else return s

/-- `accumulate_layer`. -/
def accumulateLayer (scores : List K) (stride cacheSeqLen nHeadsQ scoreOffset : ℕ) :
    Except (Fault Empty) (AttnScoreProducer K) :=
  (s.rowPositions cacheSeqLen scoreOffset).foldlM (fun s t => do
    let layerScore ← columnScore scores stride 0 nHeadsQ t
    s.foldFlat (scoreOffset + t) layerScore) s

/-- `accumulate_layer_gqa`. -/
def accumulateLayerGqa (scores : List K) (stride cacheSeqLen nHeadsQ nKvHeads scoreOffset : ℕ) :
    Except (Fault Empty) (AttnScoreProducer K) := do
  let nRep ← div nHeadsQ nKvHeads
  let invRep : K := 1 / nRep
  (s.rowPositions cacheSeqLen scoreOffset).foldlM (fun s t => do
    let layerScore ← columnScore scores stride 0 nHeadsQ t
    let s ← s.foldFlat (scoreOffset + t) layerScore
    (List.range nKvHeads).foldlM (fun s kvH => do
      let groupScore ← columnScore scores stride (kvH * nRep) nRep t
      s.foldHead (scoreOffset + t) kvH (groupScore * invRep)) s) s

/-- `on_decode_attn`. -/
def onDecodeAttn (ctx : DecodeAttnCtx K) : Except (Fault Empty) (AttnScoreProducer K) :=
  let s := s.setCurrentLayer ctx.layer
  if 0 < s.nKvHeads then
    s.accumulateLayerGqa ctx.scores ctx.stride ctx.effectiveLen ctx.nHeadsQ
      ctx.nKvHeads ctx.scoreOffset
  else s.accumulateLayer ctx.scores ctx.stride ctx.effectiveLen ctx.nHeadsQ ctx.scoreOffset

/-! ## A step -/

/-- The decay of the importances. -/
def decayed : AttnScoreProducer K :=
  if 0 < s.decay then
    let factor := 1 - s.decay
    { s with
      importance := s.importance.map (· * factor)
      headImportance := s.headImportance.map (· * factor)
      layerHeadCum := s.layerHeadCum.map (· * factor)
      layerFlatCum := s.layerFlatCum.map (· * factor) }
  else s

/-- `begin_step`. -/
def beginStep : AttnScoreProducer K :=
  if s.active then
    let s := s.decayed
    { s with
      stepImportance := s.stepImportance.map fun _ => 0
      headStepImportance := s.headStepImportance.map fun _ => 0
      lastLayerHeadAttn := s.lastLayerHeadAttn.map fun _ => 0
      layerHead := s.layerHead.map fun _ => 0
      layerFlat := s.layerFlat.map fun _ => 0 }
  else s

/-- The steps that a position was in the cache. -/
def countStep (t : ℕ) (stepVal : K) : Except (Fault Empty) (List UInt32) :=
  if 0 < stepVal then do
    let n ← get s.stepCount t
    put s.stepCount t (n + 1)
  else .ok s.stepCount

/-- The importance of a position for each of its steps. -/
def normalizeAt (t : ℕ) : Except (Fault Empty) (List K) :=
  if s.timeNormalize then do
    let n ← get s.stepCount t
    let count : K := (max n 1).toNat
    let total ← get s.importance t
    put s.normalized t (total / count)
  else .ok s.normalized

/-- The end of a step at the position `t`. -/
def endPosition (t : ℕ) : Except (Fault Empty) (AttnScoreProducer K) := do
  let stepVal ← get s.stepImportance t
  let v ← get s.importance t
  let importance ← put s.importance t (v + stepVal)
  let stepCount ← s.countStep t stepVal
  let s := { s with importance := importance, stepCount := stepCount }
  let normalized ← s.normalizeAt t
  return { s with normalized := normalized }

/-- The step is added to the importances of the heads and the layers. -/
def flushed : AttnScoreProducer K :=
  { s with
    headImportance := addInto s.headImportance s.headStepImportance
    layerHeadCum := if s.dumpLayerHead then addInto s.layerHeadCum s.layerHead else s.layerHeadCum
    layerFlatCum := if s.perLayerFlat then addInto s.layerFlatCum s.layerFlat else s.layerFlatCum }

/-- `end_step`. -/
def endStep : Except (Fault Empty) (AttnScoreProducer K) :=
  if s.active then do
    let s ← (List.range s.maxSeqLen).foldlM (fun s t => s.endPosition t) s
    return s.flushed
  else return s

/-- A step of the decoder: every layer that is tracked. -/
def decodeStep (ctxs : List (DecodeAttnCtx K)) : Except (Fault Empty) (AttnScoreProducer K) := do
  let s ← ctxs.foldlM (fun s ctx => if s.shouldTrackLayer ctx.layer then s.onDecodeAttn ctx
    else return s) s.beginStep
  s.endStep

/-- Steps of the decoder. -/
def decode (steps : List (List (DecodeAttnCtx K))) : Except (Fault Empty) (AttnScoreProducer K) :=
  steps.foldlM (fun s ctxs => s.decodeStep ctxs) s

/-- `seed_prefill_importance`. -/
def seedPrefillImportance (pfa : List (List K)) (prefixLen nHeadsQ nKvHeads : ℕ) :
    Except (Fault Empty) (AttnScoreProducer K) :=
  if prefixLen = 0 ∨ nHeadsQ = 0 then return s
  else do
    let s ← pfa.zipIdx.foldlM (fun s x =>
      if s.shouldTrackLayer x.2 then
        (s.setCurrentLayer x.2).accumulateLayerGqa x.1 prefixLen prefixLen nHeadsQ nKvHeads 0
      else return s) s.beginStep
    s.endStep

end AttnScoreProducer

end ArgusEngine.Techniques
