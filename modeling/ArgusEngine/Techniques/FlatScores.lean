import Mathlib.Algebra.BigOperators.Group.List.Basic
import Mathlib.Data.List.TakeWhile
import ArgusEngine.Lib.Folds
import ArgusEngine.Lib.Outcomes
import ArgusEngine.Techniques.AttnScore

/-!
# The importance of each layer

What the producer keeps for each layer, without its other buffers.

* `FlatScores`: the slots of a step and their sum over the steps, each with its operations;
* `Shows`: a producer and these slots. **`agree_decode`**: its steps are those of the slots;
* `cell`: what a row of scores adds to a slot;
* **`decode_rows`**: steps add the cells of their rows.
-/

namespace ArgusEngine.Techniques

open Checked Outcomes

/-- What no step changes. -/
structure FlatConfig (K : Type) where
  maxSeqLen : ℕ
  trackedLayers : List ℕ
  decay : K
  active : Bool
  nKvHeads : ℕ

def FlatConfig.tracks {K : Type} (cfg : FlatConfig K) (layer : ℕ) : Bool :=
  cfg.active && (cfg.trackedLayers.isEmpty || cfg.trackedLayers.contains layer)

/-- The slot of a position of a layer is `layer * maxSeqLen + pos`. -/
structure FlatScores (K : Type) where
  currentLayer : ℕ
  layerFlat : List K
  layerFlatCum : List K

namespace FlatScores

variable {K : Type} [Field K] [LinearOrder K] (cfg : FlatConfig K) (f : FlatScores K)

def setCurrentLayer (layer : ℕ) : FlatScores K := { f with currentLayer := layer }

def foldFlat (pos : ℕ) (layerScore : K) : FlatScores K :=
  { f with layerFlat := f.layerFlat.set (f.currentLayer * cfg.maxSeqLen + pos) layerScore }

def rowPositions (ctx : DecodeAttnCtx K) : List ℕ :=
  (List.range (min ctx.effectiveLen cfg.maxSeqLen)).takeWhile fun t =>
    ctx.scoreOffset + t < cfg.maxSeqLen

def accumulateLayer (ctx : DecodeAttnCtx K) : Except (Fault Empty) (FlatScores K) :=
  (rowPositions cfg ctx).foldlM (fun f t => do
    let layerScore ← columnScore ctx.scores ctx.stride 0 ctx.nHeadsQ t
    return f.foldFlat cfg (ctx.scoreOffset + t) layerScore) f

/-- The scores of a KV head are read, and its place is checked. -/
def readHead (ctx : DecodeAttnCtx K) (nRep t kvH : ℕ) : Except (Fault Empty) (FlatScores K) := do
  let _ ← columnScore ctx.scores ctx.stride (kvH * nRep) nRep t
  if kvH * cfg.maxSeqLen + (ctx.scoreOffset + t) < cfg.nKvHeads * cfg.maxSeqLen then .ok f
  else .error (.panic "index out of bounds")

def accumulateLayerGqa (ctx : DecodeAttnCtx K) : Except (Fault Empty) (FlatScores K) := do
  let nRep ← div ctx.nHeadsQ ctx.nKvHeads
  (rowPositions cfg ctx).foldlM (fun f t => do
    let layerScore ← columnScore ctx.scores ctx.stride 0 ctx.nHeadsQ t
    (List.range ctx.nKvHeads).foldlM (fun f kvH => f.readHead cfg ctx nRep t kvH)
      (f.foldFlat cfg (ctx.scoreOffset + t) layerScore)) f

def onDecodeAttn (ctx : DecodeAttnCtx K) : Except (Fault Empty) (FlatScores K) :=
  if 0 < cfg.nKvHeads then (f.setCurrentLayer ctx.layer).accumulateLayerGqa cfg ctx
  else (f.setCurrentLayer ctx.layer).accumulateLayer cfg ctx

def beginStep : FlatScores K :=
  if cfg.active then
    { f with
      layerFlat := f.layerFlat.map fun _ => 0
      layerFlatCum := if 0 < cfg.decay then f.layerFlatCum.map (· * (1 - cfg.decay))
        else f.layerFlatCum }
  else f

def endStep : FlatScores K :=
  if cfg.active then { f with layerFlatCum := addInto f.layerFlatCum f.layerFlat } else f

def decodeStep (ctxs : List (DecodeAttnCtx K)) : Except (Fault Empty) (FlatScores K) := do
  let f ← ctxs.foldlM (fun f ctx => if cfg.tracks ctx.layer then f.onDecodeAttn cfg ctx
    else return f) (f.beginStep cfg)
  return f.endStep cfg

def decode (steps : List (List (DecodeAttnCtx K))) : Except (Fault Empty) (FlatScores K) :=
  steps.foldlM (fun f ctxs => f.decodeStep cfg ctxs) f

end FlatScores

/-! ## The producer shows them -/

namespace AttnScoreProducer

variable {K : Type}

/-- The buffers have the sizes of `new`. -/
structure Sized (s : AttnScoreProducer K) : Prop where
  importance : s.importance.length = s.maxSeqLen
  stepImportance : s.stepImportance.length = s.maxSeqLen
  headStepImportance : s.headStepImportance.length = s.nKvHeads * s.maxSeqLen
  lastLayerHeadAttn : s.lastLayerHeadAttn.length = s.nKvHeads * s.maxSeqLen
  stepCount : s.stepCount.length = s.maxSeqLen
  normalized : s.normalized.length = s.maxSeqLen

/-- The producer keeps an importance for each layer, and it is `f`. -/
structure Shows (cfg : FlatConfig K) (s : AttnScoreProducer K) (f : FlatScores K) : Prop where
  sized : s.Sized
  config : cfg = ⟨s.maxSeqLen, s.trackedLayers, s.decay, s.active, s.nKvHeads⟩
  enabled : s.perLayerFlat = true
  scores : f = ⟨s.currentLayer, s.layerFlat, s.layerFlatCum⟩

variable {cfg : FlatConfig K} {s : AttnScoreProducer K} {f : FlatScores K}

theorem Shows.layerFlatImportance (h : Shows cfg s f) :
    s.layerFlatImportance = some f.layerFlatCum := by
  rw [AttnScoreProducer.layerFlatImportance, if_pos h.enabled, h.scores]

theorem Shows.setCurrentLayer (h : Shows cfg s f) (layer : ℕ) :
    Shows cfg (s.setCurrentLayer layer) (f.setCurrentLayer layer) := by
  obtain ⟨⟨h1, h2, h3, h4, h5, h6⟩, rfl, henabled, rfl⟩ := h
  exact ⟨⟨h1, h2, h3, h4, h5, h6⟩, rfl, henabled, rfl⟩

theorem Shows.enableLayerHeadDump [Field K] (h : Shows cfg s f) :
    Shows cfg s.enableLayerHeadDump f := by
  unfold AttnScoreProducer.enableLayerHeadDump
  split_ifs
  · exact h
  · obtain ⟨⟨h1, h2, h3, h4, h5, h6⟩, rfl, henabled, rfl⟩ := h
    exact ⟨⟨h1, h2, h3, h4, h5, h6⟩, rfl, henabled, rfl⟩

theorem Shows.shouldTrackLayer (h : Shows cfg s f) (layer : ℕ) :
    s.shouldTrackLayer layer = cfg.tracks layer := by
  rw [h.config]
  rfl

theorem Shows.rowPositions (h : Shows cfg s f) (ctx : DecodeAttnCtx K) :
    s.rowPositions ctx.effectiveLen ctx.scoreOffset = FlatScores.rowPositions cfg ctx := by
  rw [h.config]
  rfl

theorem lt_of_mem_rowPositions {ctx : DecodeAttnCtx K} {t : ℕ}
    (h : t ∈ FlatScores.rowPositions cfg ctx) : ctx.scoreOffset + t < cfg.maxSeqLen := by
  have := List.mem_takeWhile_imp h
  simpa using this

theorem agree_foldFlat [LinearOrder K] (h : Shows cfg s f) {pos : ℕ}
    (hpos : pos < cfg.maxSeqLen) (x : K) :
    Agree (Shows cfg) (s.foldFlat pos x) (.ok (f.foldFlat cfg pos x)) := by
  obtain ⟨⟨h1, h2, h3, h4, h5, h6⟩, rfl, henabled, rfl⟩ := h
  have hlt : pos < s.stepImportance.length := by rwa [h2]
  unfold foldFlat
  rw [get_of_lt hlt, ok_seq, put, if_pos hlt, ok_seq]
  dsimp only
  rw [if_pos henabled]
  split_ifs with hslot
  · exact .ok ⟨⟨h1, List.length_set.trans h2, h3, h4, h5, h6⟩, rfl, henabled, rfl⟩
  · refine .ok ⟨⟨h1, List.length_set.trans h2, h3, h4, h5, h6⟩, rfl, henabled, ?_⟩
    rw [FlatScores.foldFlat]
    dsimp only
    rw [List.set_eq_of_length_le (not_lt.mp hslot)]

theorem agree_foldHead [LinearOrder K] (h : Shows cfg s f) (pos kvH : ℕ) (x : K) :
    Agree (Shows cfg) (s.foldHead pos kvH x)
      (if kvH * cfg.maxSeqLen + pos < cfg.nKvHeads * cfg.maxSeqLen then .ok f
        else .error (.panic "index out of bounds")) := by
  obtain ⟨⟨h1, h2, h3, h4, h5, h6⟩, rfl, henabled, rfl⟩ := h
  dsimp only
  unfold foldHead
  split_ifs with hlt
  · have hstep : kvH * s.maxSeqLen + pos < s.headStepImportance.length := by rwa [h3]
    have hlast : kvH * s.maxSeqLen + pos < s.lastLayerHeadAttn.length := by rwa [h4]
    dsimp only
    rw [get_of_lt hstep, ok_seq, put, if_pos hstep, ok_seq, put, if_pos hlast, ok_seq]
    split_ifs
    all_goals exact .ok ⟨⟨h1, h2, List.length_set.trans h3, List.length_set.trans h4, h5, h6⟩, rfl,
      henabled, rfl⟩
  · have hnone : s.headStepImportance[kvH * s.maxSeqLen + pos]? = none :=
      List.getElem?_eq_none (by rw [h3]; exact not_lt.mp hlt)
    dsimp only
    unfold Checked.get
    rw [hnone]
    exact .error _

variable [Field K] [LinearOrder K]

theorem agree_accumulateLayer (h : Shows cfg s f) (ctx : DecodeAttnCtx K) :
    Agree (Shows cfg) (s.accumulateLayer ctx.scores ctx.stride ctx.effectiveLen
      ctx.nHeadsQ ctx.scoreOffset) (f.accumulateLayer cfg ctx) := by
  unfold accumulateLayer FlatScores.accumulateLayer
  rw [h.rowPositions]
  refine Agree.foldlM (fun t ht s f hs => ?_) h
  refine (Agree.refl_eq _).bind ?_
  rintro x - rfl
  exact agree_foldFlat hs (lt_of_mem_rowPositions ht) x

theorem agree_accumulateLayerGqa (h : Shows cfg s f) (ctx : DecodeAttnCtx K) :
    Agree (Shows cfg)
      (s.accumulateLayerGqa ctx.scores ctx.stride ctx.effectiveLen ctx.nHeadsQ
        ctx.nKvHeads ctx.scoreOffset)
      (f.accumulateLayerGqa cfg ctx) := by
  unfold accumulateLayerGqa FlatScores.accumulateLayerGqa
  refine (Agree.refl_eq _).bind ?_
  rintro nRep - rfl
  dsimp only
  rw [h.rowPositions]
  refine Agree.foldlM (fun t ht s f hs => ?_) h
  refine (Agree.refl_eq _).bind ?_
  rintro x - rfl
  have hfold := agree_foldFlat hs (lt_of_mem_rowPositions ht) x
  refine hfold.bind (g := fun f =>
    (List.range ctx.nKvHeads).foldlM (fun f kvH => f.readHead cfg ctx nRep t kvH) f) fun s f hs =>
    Agree.foldlM (fun kvH _ s f hs => ?_) hs
  refine (Agree.refl_eq _).bind ?_
  rintro y - rfl
  exact agree_foldHead hs _ kvH _

theorem agree_onDecodeAttn (h : Shows cfg s f) (ctx : DecodeAttnCtx K) :
    Agree (Shows cfg) (s.onDecodeAttn ctx) (f.onDecodeAttn cfg ctx) := by
  have hcur := h.setCurrentLayer ctx.layer
  have hheads : (s.setCurrentLayer ctx.layer).nKvHeads = cfg.nKvHeads := by rw [hcur.config]
  unfold onDecodeAttn FlatScores.onDecodeAttn
  dsimp only
  rw [hheads]
  split_ifs
  · exact agree_accumulateLayerGqa hcur ctx
  · exact agree_accumulateLayer hcur ctx

theorem Shows.beginStep (h : Shows cfg s f) : Shows cfg s.beginStep (f.beginStep cfg) := by
  obtain ⟨⟨h1, h2, h3, h4, h5, h6⟩, rfl, henabled, rfl⟩ := h
  unfold AttnScoreProducer.beginStep FlatScores.beginStep decayed
  dsimp only
  split_ifs
  · exact ⟨⟨(List.length_map _).trans h1, (List.length_map _).trans h2,
      (List.length_map _).trans h3, (List.length_map _).trans h4, h5, h6⟩, rfl, henabled, rfl⟩
  · exact ⟨⟨h1, (List.length_map _).trans h2, (List.length_map _).trans h3,
      (List.length_map _).trans h4, h5, h6⟩, rfl, henabled, rfl⟩
  · exact ⟨⟨h1, h2, h3, h4, h5, h6⟩, rfl, henabled, rfl⟩

theorem Sized.exists_countStep (h : s.Sized) {t : ℕ} (ht : t < s.maxSeqLen) (x : K) :
    ∃ count, s.countStep t x = .ok count ∧ count.length = s.maxSeqLen := by
  have hlt : t < s.stepCount.length := by rwa [h.stepCount]
  unfold countStep
  split_ifs
  · rw [get_of_lt hlt, ok_seq, put, if_pos hlt]
    exact ⟨_, rfl, List.length_set.trans h.stepCount⟩
  · exact ⟨_, rfl, h.stepCount⟩

omit [LinearOrder K] in
theorem Sized.exists_normalizeAt (h : s.Sized) {t : ℕ} (ht : t < s.maxSeqLen) :
    ∃ normalized, s.normalizeAt t = .ok normalized ∧ normalized.length = s.maxSeqLen := by
  have hlt : t < s.normalized.length := by rwa [h.normalized]
  unfold normalizeAt
  split_ifs
  · rw [get_of_lt (by rwa [h.stepCount]), ok_seq, get_of_lt (by rwa [h.importance]),
      ok_seq, put, if_pos hlt]
    exact ⟨_, rfl, List.length_set.trans h.normalized⟩
  · exact ⟨_, rfl, h.normalized⟩

theorem exists_endPosition (h : Shows cfg s f) {t : ℕ} (ht : t < cfg.maxSeqLen) :
    ∃ s', s.endPosition t = .ok s' ∧ Shows cfg s' f := by
  obtain ⟨hsized, rfl, henabled, rfl⟩ := h
  dsimp only at ht
  have himportance : t < s.importance.length := by rwa [hsized.importance]
  have hstep : t < s.stepImportance.length := by rwa [hsized.stepImportance]
  unfold endPosition
  rw [get_of_lt hstep, ok_seq, get_of_lt himportance, ok_seq, put, if_pos himportance, ok_seq]
  obtain ⟨count, hcount, hcountLen⟩ := hsized.exists_countStep ht s.stepImportance[t]
  rw [hcount, ok_seq]
  obtain ⟨h1, h2, h3, h4, -, h6⟩ := hsized
  have hsized' : Sized { s with
      importance := s.importance.set t (s.importance[t] + s.stepImportance[t]),
        stepCount := count } :=
    ⟨List.length_set.trans h1, h2, h3, h4, hcountLen, h6⟩
  obtain ⟨normalized, hnormalized, hnormalizedLen⟩ := hsized'.exists_normalizeAt ht
  dsimp only
  rw [hnormalized]
  exact ⟨_, rfl, ⟨List.length_set.trans h1, h2, h3, h4, hcountLen, hnormalizedLen⟩,
    rfl, henabled, rfl⟩

theorem agree_endStep (h : Shows cfg s f) : Agree (Shows cfg) s.endStep (.ok (f.endStep cfg)) := by
  have hactive : s.active = cfg.active := by rw [h.config]
  have hlen : s.maxSeqLen = cfg.maxSeqLen := by rw [h.config]
  unfold endStep FlatScores.endStep
  rw [hactive, hlen]
  split_ifs
  · -- the slots stand still while the positions are added up
    have hloop : Agree (Shows cfg)
      ((List.range cfg.maxSeqLen).foldlM (fun s t => s.endPosition t) s)
        ((List.range cfg.maxSeqLen).foldlM (fun f _ => .ok f) f) :=
      Agree.foldlM (fun t ht s f hs => by
        obtain ⟨s', hs', hshows⟩ := exists_endPosition hs (List.mem_range.mp ht)
        rw [hs']
        exact .ok hshows) h
    have hstill : (List.range cfg.maxSeqLen).foldlM (fun f _ => (.ok f : Except (Fault Empty) _))
      f = .ok f :=
      List.recOn (List.range cfg.maxSeqLen) rfl fun _ _ ih => ih
    rw [hstill] at hloop
    refine hloop.bind (g := fun f =>
      .ok { f with layerFlatCum := addInto f.layerFlatCum f.layerFlat }) fun s f hs => ?_
    obtain ⟨⟨h1, h2, h3, h4, h5, h6⟩, rfl, henabled, rfl⟩ := hs
    refine .ok ⟨⟨h1, h2, h3, h4, h5, h6⟩, rfl, henabled, ?_⟩
    unfold flushed
    dsimp only
    rw [if_pos henabled]
  · exact .ok h

theorem agree_decodeStep (h : Shows cfg s f) (ctxs : List (DecodeAttnCtx K)) :
    Agree (Shows cfg) (s.decodeStep ctxs) (f.decodeStep cfg ctxs) := by
  unfold decodeStep FlatScores.decodeStep
  refine Agree.bind (Agree.foldlM (fun ctx _ s f hs => ?_) h.beginStep) fun s f hs =>
    agree_endStep hs
  rw [hs.shouldTrackLayer]
  split_ifs
  · exact agree_onDecodeAttn hs ctx
  · exact .ok hs

/-- **The steps of the producer** are those of the slots. -/
theorem agree_decode (h : Shows cfg s f) (steps : List (List (DecodeAttnCtx K))) :
    Agree (Shows cfg) (s.decode steps) (f.decode cfg steps) :=
  Agree.foldlM (fun ctxs _ _ _ hs => agree_decodeStep hs ctxs) h

theorem agree_seedPrefillImportance (h : Shows cfg s f) (hheads : 0 < cfg.nKvHeads)
    {prefixLen nHeadsQ : ℕ} (hne : prefixLen ≠ 0) (hq : nHeadsQ ≠ 0)
    (pfa : List (List K)) (nKvHeads : ℕ) :
    Agree (Shows cfg) (s.seedPrefillImportance pfa prefixLen nHeadsQ nKvHeads)
      (f.decodeStep cfg (pfa.zipIdx.map fun x =>
        ⟨x.1, prefixLen, prefixLen, nHeadsQ, nKvHeads, 0, x.2⟩)) := by
  unfold seedPrefillImportance FlatScores.decodeStep
  rw [if_neg (not_or.mpr ⟨hne, hq⟩), List.foldlM_map]
  refine Agree.bind (Agree.foldlM (fun x _ s f hs => ?_) h.beginStep) fun s f hs => agree_endStep hs
  rw [hs.shouldTrackLayer, FlatScores.onDecodeAttn, if_pos hheads]
  split_ifs
  · exact agree_accumulateLayerGqa (hs.setCurrentLayer x.2)
      ⟨x.1, prefixLen, prefixLen, nHeadsQ, nKvHeads, 0, x.2⟩
  · exact .ok hs

end AttnScoreProducer

/-! ## What a row adds -/

section Rows

variable {K : Type} [Field K] [LinearOrder K] (cfg : FlatConfig K) {f : FlatScores K}

/-- A row of scores from the start of the cache, for the heads of the producer. -/
structure IsRow (ctx : DecodeAttnCtx K) : Prop where
  offset : ctx.scoreOffset = 0
  heads : ctx.nKvHeads = cfg.nKvHeads
  heads_pos : 0 < cfg.nKvHeads
  length : ctx.scores.length = ctx.nHeadsQ * ctx.stride
  stride : min ctx.effectiveLen cfg.maxSeqLen ≤ ctx.stride

/-- The scores that the heads of a row give the position `t`. -/
def rowScore (ctx : DecodeAttnCtx K) (t : ℕ) : K :=
  ∑ h ∈ Finset.range ctx.nHeadsQ, ctx.scores.getD (h * ctx.stride + t) 0

/-- The slot `p` is one of the row. -/
def Covers (ctx : DecodeAttnCtx K) (p : ℕ) : Prop :=
  ctx.layer * cfg.maxSeqLen ≤ p ∧ p < ctx.layer * cfg.maxSeqLen + min ctx.effectiveLen cfg.maxSeqLen

instance (ctx : DecodeAttnCtx K) (p : ℕ) : Decidable (Covers cfg ctx p) :=
  inferInstanceAs (Decidable (_ ∧ _))

/-- The slots `b` after a row is written over them. -/
def written (ctx : DecodeAttnCtx K) (b : ℕ → K) (p : ℕ) : K :=
  if Covers cfg ctx p then rowScore ctx (p - ctx.layer * cfg.maxSeqLen) else b p

/-- What a row adds to the slot `p`. -/
def cell (ctx : DecodeAttnCtx K) (p : ℕ) : K :=
  if cfg.tracks ctx.layer ∧ Covers cfg ctx p
    then rowScore ctx (p - ctx.layer * cfg.maxSeqLen) else 0

variable {cfg}

omit [LinearOrder K] in
theorem columnScore_ok {scores : List K} {stride first n t : ℕ} (ht : t < stride)
    (hlen : (first + n) * stride ≤ scores.length) :
    columnScore scores stride first n t =
      .ok (∑ h ∈ Finset.range n, scores.getD ((first + h) * stride + t) 0) := by
  induction n with
  | zero => rfl
  | succ n ih =>
    have hlt : (first + n) * stride + t < scores.length := by
      rw [← Nat.add_assoc, Nat.succ_mul] at hlen
      omega
    have hle : (first + n) * stride ≤ scores.length := by omega
    have := ih hle
    unfold columnScore at this ⊢
    rw [List.range_succ, List.foldlM_append, this, ok_seq, Finset.sum_range_succ, List.foldlM_cons,
      get_of_lt hlt, ok_seq, List.getD_eq_getElem _ _ hlt]
    rfl

omit [Field K] [LinearOrder K] in
theorem rowPositions_of_offset {ctx : DecodeAttnCtx K} (h : ctx.scoreOffset = 0) :
    FlatScores.rowPositions cfg ctx = List.range (min ctx.effectiveLen cfg.maxSeqLen) := by
  unfold FlatScores.rowPositions
  refine List.takeWhile_eq_self_iff.mpr fun t ht => ?_
  have := List.mem_range.mp ht
  rw [h, decide_eq_true_eq]
  omega

omit [Field K] [LinearOrder K] in
theorem foldl_set_range {x : ℕ → K} {base n len : ℕ} {b : ℕ → K} :
    (List.range n).foldl (fun l t => l.set (base + t) (x t)) ((List.range len).map b) =
      (List.range len).map fun p => if base ≤ p ∧ p < base + n then x (p - base) else b p := by
  induction n with
  | zero =>
    refine List.map_congr_left fun p _ => ?_
    rw [if_neg (by omega)]
  | succ n ih =>
    rw [List.range_succ, List.foldl_append, ih, List.foldl_cons, List.foldl_nil]
    refine List.ext_getElem? fun p => ?_
    rw [List.getElem?_set, List.getElem?_map, List.getElem?_map, List.length_map, List.length_range]
    by_cases hp : p < len
    · rw [List.getElem?_range hp]
      simp only [Option.map_some]
      by_cases hlast : base + n = p
      · subst hlast
        rw [if_pos rfl, if_pos hp, if_pos ⟨by omega, by omega⟩, Nat.add_sub_cancel_left]
      · rw [if_neg hlast]
        congr 1
        refine if_congr ?_ rfl rfl
        omega
    · rw [List.getElem?_eq_none (by rw [List.length_range]; omega)]
      simp only [Option.map_none]
      split_ifs with h1 h2
      · omega
      · rfl
      · rfl

omit [LinearOrder K] in
/-- **A row is written** into the slots of its layer. -/
theorem accumulateLayerGqa_row {ctx : DecodeAttnCtx K} (h : IsRow cfg ctx) {len : ℕ} {b : ℕ → K}
    (hflat : f.layerFlat = (List.range len).map b) (hlayer : f.currentLayer = ctx.layer) :
    f.accumulateLayerGqa cfg ctx =
      .ok { f with layerFlat := (List.range len).map (written cfg ctx b) } := by
  have hmul : ctx.nHeadsQ / ctx.nKvHeads * ctx.nKvHeads ≤ ctx.nHeadsQ := Nat.div_mul_le_self _ _
  have hpos : ctx.nKvHeads ≠ 0 := by
    rw [h.heads]
    exact h.heads_pos.ne'
  -- the heads are read, and their places are in the buffers
  have hhead : ∀ t < min ctx.effectiveLen cfg.maxSeqLen, ∀ g : FlatScores K,
    (List.range ctx.nKvHeads).foldlM
      (fun f kvH => f.readHead cfg ctx (ctx.nHeadsQ / ctx.nKvHeads) t kvH) g = .ok g := by
    intro t ht g
    refine foldlM_still fun kvH hkvH => ?_
    have hkvH := List.mem_range.mp hkvH
    have hrows : (kvH * (ctx.nHeadsQ / ctx.nKvHeads) + ctx.nHeadsQ / ctx.nKvHeads) * ctx.stride ≤
      ctx.scores.length := by
      rw [h.length, ← Nat.succ_mul]
      refine Nat.mul_le_mul_right _ (le_trans ?_ hmul)
      rw [Nat.mul_comm]
      exact Nat.mul_le_mul_left _ hkvH
    unfold FlatScores.readHead
    rw [columnScore_ok (lt_of_lt_of_le ht h.stride) hrows, ok_seq, if_pos]
    rw [h.offset, Nat.zero_add, ← h.heads]
    calc kvH * cfg.maxSeqLen + t < kvH * cfg.maxSeqLen + cfg.maxSeqLen := by omega
      _ = (kvH + 1) * cfg.maxSeqLen := (Nat.succ_mul _ _).symm
      _ ≤ ctx.nKvHeads * cfg.maxSeqLen := Nat.mul_le_mul_right _ hkvH
  have hloop : ∀ n ≤ min ctx.effectiveLen cfg.maxSeqLen, (List.range n).foldlM (fun f t => do
      let layerScore ← columnScore ctx.scores ctx.stride 0 ctx.nHeadsQ t
      (List.range ctx.nKvHeads).foldlM (fun f kvH =>
        f.readHead cfg ctx (ctx.nHeadsQ / ctx.nKvHeads) t kvH)
          (f.foldFlat cfg (ctx.scoreOffset + t) layerScore)) f =
      .ok ⟨f.currentLayer, (List.range n).foldl (fun l t =>
        l.set (ctx.layer * cfg.maxSeqLen + t) (rowScore ctx t)) f.layerFlat, f.layerFlatCum⟩ := by
    intro n hn
    induction n with
    | zero => rfl
    | succ n ih =>
      have hlt : n < ctx.stride := by
        have := h.stride
        omega
      rw [List.range_succ, List.foldlM_append, ih (by omega), ok_seq, List.foldlM_cons,
        columnScore_ok hlt (by rw [Nat.zero_add, h.length]), ok_seq, hhead n (by omega),
        List.foldl_append]
      simp only [Nat.zero_add, h.offset, FlatScores.foldFlat, hlayer]
      rfl
  unfold FlatScores.accumulateLayerGqa
  rw [div, if_pos hpos, ok_seq, rowPositions_of_offset h.offset, hloop _ le_rfl,
    hflat, foldl_set_range]
  rfl

omit [Field K] [LinearOrder K] in
theorem layer_of_covers {ctx : DecodeAttnCtx K} {p : ℕ} (h : Covers cfg ctx p) :
    p / cfg.maxSeqLen = ctx.layer := by
  refine Nat.div_eq_of_lt_le h.1 (h.2.trans_le ?_)
  rw [Nat.succ_mul]
  exact Nat.add_le_add_left (min_le_right _ _) _

omit [LinearOrder K] in
/-- The rows of a step, each of a layer of its own, are written side by side. -/
theorem foldlM_rows {ctxs : List (DecodeAttnCtx K)} (hrows : ∀ ctx ∈ ctxs, IsRow cfg ctx)
    (hlayers : (ctxs.map DecodeAttnCtx.layer).Nodup) {len : ℕ} {b : ℕ → K}
    (hzero : ∀ ctx ∈ ctxs, ∀ p, Covers cfg ctx p → b p = 0)
    (hflat : f.layerFlat = (List.range len).map b) :
    ∃ layer, ctxs.foldlM (fun f ctx => if cfg.tracks ctx.layer then f.onDecodeAttn cfg ctx
      else return f) f = .ok ⟨layer, (List.range len).map fun p =>
        b p + (ctxs.map fun ctx => cell cfg ctx p).sum, f.layerFlatCum⟩ := by
  induction ctxs generalizing f b with
  | nil =>
    refine ⟨f.currentLayer, congrArg Except.ok ?_⟩
    simp only [List.map_nil, List.sum_nil, add_zero, ← hflat]
  | cons ctx ctxs ih =>
    rw [List.map_cons, List.nodup_cons] at hlayers
    have hrest : ∀ c ∈ ctxs, IsRow cfg c := fun c hc => hrows c (List.mem_cons_of_mem _ hc)
    rw [List.foldlM_cons]
    by_cases htracks : cfg.tracks ctx.layer = true
    · have hrow := hrows ctx List.mem_cons_self
      rw [if_pos htracks, FlatScores.onDecodeAttn, if_pos hrow.heads_pos,
        accumulateLayerGqa_row (f := f.setCurrentLayer ctx.layer) hrow hflat rfl, ok_seq]
      -- the other rows lie elsewhere
      have hzero' : ∀ c ∈ ctxs, ∀ p, Covers cfg c p → written cfg ctx b p = 0 := by
        intro c hc p hp
        have hnot : ¬ Covers cfg ctx p := fun hp' => hlayers.1
          ((layer_of_covers hp').symm.trans (layer_of_covers hp) ▸ List.mem_map_of_mem hc)
        rw [written, if_neg hnot]
        exact hzero c (List.mem_cons_of_mem _ hc) p hp
      obtain ⟨layer, hlayer⟩ :=
        ih (f := ⟨ctx.layer, (List.range len).map (written cfg ctx b), f.layerFlatCum⟩)
          hrest hlayers.2 hzero' rfl
      refine ⟨layer, hlayer.trans (congrArg Except.ok ?_)⟩
      congr 1
      refine List.map_congr_left fun p _ => ?_
      rw [List.map_cons, List.sum_cons, ← add_assoc, written, cell]
      by_cases hp : Covers cfg ctx p
      · rw [if_pos hp, if_pos ⟨htracks, hp⟩, hzero ctx List.mem_cons_self p hp, zero_add]
      · rw [if_neg hp, if_neg fun h => hp h.2, add_zero]
    · rw [if_neg htracks]
      obtain ⟨layer, hlayer⟩ :=
        ih hrest hlayers.2 (fun c hc => hzero c (List.mem_cons_of_mem _ hc)) hflat
      refine ⟨layer, hlayer.trans (congrArg Except.ok ?_)⟩
      congr 1
      refine List.map_congr_left fun p _ => ?_
      rw [List.map_cons, List.sum_cons, cell, if_neg fun h => htracks h.1, zero_add]

omit [LinearOrder K] in
theorem addInto_map (len : ℕ) (b c : ℕ → K) :
    addInto ((List.range len).map b) ((List.range len).map c) = (List.range len).map fun p =>
      b p + c p := by
  unfold addInto
  rw [List.drop_eq_nil_of_le (by rw [List.length_map, List.length_map]), List.append_nil,
    List.zipWith_map, List.zipWith_self]

/-- A step of rows, each of a layer of its own. -/
structure IsStep (cfg : FlatConfig K) (ctxs : List (DecodeAttnCtx K)) : Prop where
  rows : ∀ ctx ∈ ctxs, IsRow cfg ctx
  layers : (ctxs.map DecodeAttnCtx.layer).Nodup

theorem decodeStep_rows {ctxs : List (DecodeAttnCtx K)} (hstep : IsStep cfg ctxs)
    (hactive : cfg.active = true) (hdecay : cfg.decay = 0) {b : ℕ → K}
    (hcum : f.layerFlatCum = (List.range f.layerFlat.length).map b) :
    ∃ f', f.decodeStep cfg ctxs = .ok f' ∧ f'.layerFlat.length = f.layerFlat.length ∧
      f'.layerFlatCum = (List.range f.layerFlat.length).map fun p =>
      b p + (ctxs.map fun ctx => cell cfg ctx p).sum := by
  have hbegin : f.beginStep cfg =
      ⟨f.currentLayer, (List.range f.layerFlat.length).map fun _ => 0, f.layerFlatCum⟩ := by
    rw [FlatScores.beginStep, if_pos hactive, hdecay, if_neg (lt_irrefl _), List.map_const',
      List.map_const', List.length_range]
  unfold FlatScores.decodeStep
  rw [hbegin]
  obtain ⟨layer, hlayer⟩ :=
    foldlM_rows (f := ⟨f.currentLayer, (List.range f.layerFlat.length).map fun _ => 0,
    f.layerFlatCum⟩) hstep.rows hstep.layers (fun _ _ _ _ => rfl) rfl
  rw [hlayer, ok_seq]
  refine ⟨_, rfl, ?_, ?_⟩
  · rw [FlatScores.endStep, if_pos hactive, List.length_map, List.length_range]
  · rw [FlatScores.endStep, if_pos hactive]
    dsimp only
    rw [hcum, addInto_map]
    refine List.map_congr_left fun p _ => ?_
    rw [zero_add]

/-- **Steps add the cells of their rows.** -/
theorem decode_rows {steps : List (List (DecodeAttnCtx K))}
    (hsteps : ∀ ctxs ∈ steps, IsStep cfg ctxs) (hactive : cfg.active = true)
    (hdecay : cfg.decay = 0) {b : ℕ → K}
    (hcum : f.layerFlatCum = (List.range f.layerFlat.length).map b) :
    ∃ f', f.decode cfg steps = .ok f' ∧ f'.layerFlat.length = f.layerFlat.length ∧
      f'.layerFlatCum = (List.range f.layerFlat.length).map fun p =>
        b p + (steps.map fun ctxs => (ctxs.map fun ctx => cell cfg ctx p).sum).sum := by
  induction steps generalizing f b with
  | nil =>
    refine ⟨f, rfl, rfl, hcum.trans ?_⟩
    simp only [List.map_nil, List.sum_nil, add_zero]
  | cons ctxs steps ih =>
    obtain ⟨f₁, hf₁, hlen₁, hcum₁⟩ := decodeStep_rows (hsteps ctxs List.mem_cons_self)
      hactive hdecay hcum
    rw [← hlen₁] at hcum₁
    obtain ⟨f', hf', hlen', hcum'⟩ := ih (fun c hc => hsteps c (List.mem_cons_of_mem _ hc)) hcum₁
    refine ⟨f', ?_, hlen'.trans hlen₁, hcum'.trans ?_⟩
    · rw [FlatScores.decode, List.foldlM_cons, hf₁]
      exact hf'
    · rw [hlen₁]
      refine List.map_congr_left fun p _ => ?_
      rw [List.map_cons, List.sum_cons, add_assoc]

end Rows

end ArgusEngine.Techniques
