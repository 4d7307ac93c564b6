import ArgusEngine.Forward.KvAttention
import ArgusEngine.Lib.Sweeps

/-!
# A layer of the transformer

`forward_prefill_fmt` takes the rows of a chunk at once and `forward_gen_fmt` one row; they differ
in their buffers, in the order of their sums and in the norms they fuse. Both are compared with a
layer that knows rows and tokens only.

* `forwardPrefillFmt`, `forwardGenFmt`: the two passes;
* `Content`, `rowOutput`, `layerRow`: what a layer does to a row, over the tokens it holds;
* `Fits`: weights of the shapes of a model, and a norm before the feed-forward block exactly where
  norms add a unit;
* **`refines_forwardPrefillFmt`**, **`refines_forwardGenFmt`**: the passes do that to each of their
  rows, in turn.
-/

namespace ArgusEngine.Forward

open Attn RowMajor KVCache Sweeps

/-! ## The two passes -/

structure QkvBias (K : Type*) where
  bq : ℕ → K
  bk : ℕ → K
  bv : ℕ → K

/-- `TransformerLayer`. -/
structure TransformerLayer (K : Type*) where
  wq : Weight K
  wk : Weight K
  wv : Weight K
  wo : Weight K
  wGate : Weight K
  wUp : Weight K
  wDown : Weight K
  attentionNorm : ℕ → K
  ffnNorm : ℕ → K
  qkvBias : Option (QkvBias K)
  qNorm : Option (ℕ → K)
  kNorm : Option (ℕ → K)
  preFfnNorm : Option (ℕ → K)
  postFfnNorm : Option (ℕ → K)

/-- The arguments that the two passes share. -/
structure LayerArgs (K : Type*) where
  layerIdx : ℕ
  rmsNormEps : K
  ropeTheta : K
  ropeFreqScaling : RopeFreqScaling K
  headDim : ℕ
  dim : ℕ
  rmsNormAddUnit : Bool
  useGeluTanh : Bool
  isLocalAttn : Option Bool
  localAttnWindow : Option ℕ

/-- The window of a local layer. -/
def LayerArgs.window {K : Type*} (a : LayerArgs K) : Option ℕ :=
  if a.isLocalAttn = some true then a.localAttnWindow else none

section Passes

variable {K : Type} [Field K] [LinearOrder K] (H : Host K) (l : TransformerLayer K)
  (a : LayerArgs K)

omit [LinearOrder K] in
/-- A projection with its bias. -/
def projection (w : Weight K) (bias : Option (ℕ → K)) (x : ℕ → K) : ℕ → K :=
  match bias with
  | some b => addRowBias w.rows (matmulTransposed x w) b
  | none => matmulTransposed x w

/-- A norm that a model may lack. -/
def normIf (dim : ℕ) (w : Option (ℕ → K)) (x : ℕ → K) : ℕ → K :=
  match w with
  | some w => rmsNorm H.F dim x w a.rmsNormEps true
  | none => x

/-- `q_rope`, from the normed rows of a chunk. -/
def qRope (startPos : ℕ) (x : ℕ → K) : ℕ → K :=
  let q := normIf H a a.headDim l.qNorm (projection l.wq (l.qkvBias.map QkvBias.bq) x)
  ropeInplace H.F a.headDim (l.wq.rows / a.headDim) q startPos a.ropeTheta a.ropeFreqScaling

/-- `k_rope`. -/
def kRope (startPos : ℕ) (x : ℕ → K) : ℕ → K :=
  let k := normIf H a a.headDim l.kNorm (projection l.wk (l.qkvBias.map QkvBias.bk) x)
  ropeInplace H.F a.headDim (l.wk.rows / a.headDim) k startPos a.ropeTheta a.ropeFreqScaling

/-- The gated feed-forward block, up to its activation. -/
def gated (x : ℕ → K) : ℕ → K :=
  let gate := matmulTransposed x l.wGate
  let up := matmulTransposed x l.wUp
  if a.useGeluTanh then geluTanhMul H.F gate up else siluMul H.F gate up

/-- `forward_prefill_fmt`: `none` where it returns an error. -/
def forwardPrefillFmt (startPos seqLen : ℕ) (x : ℕ → K) (c : KVCache) :
    Option ((ℕ → K) × KVCache) := do
  let nHeadsQ := l.wq.rows / a.headDim
  let nHeadsKv := l.wk.rows / a.headDim
  let residual := x
  let x := rmsNorm H.F a.dim x l.attentionNorm a.rmsNormEps a.rmsNormAddUnit
  let v := projection l.wv (l.qkvBias.map QkvBias.bv) x
  if a.headDim % 2 ≠ 0 then none
  let c ← writeKv H c seqLen nHeadsKv a.headDim (kRope H l a startPos x) v
  let outAttn ← attentionInto H a.layerIdx startPos c seqLen nHeadsQ a.window
    (qRope H l a startPos x)
  let attnOutProj := matmulTransposed outAttn l.wo
  let attnOutProj :=
    if a.rmsNormAddUnit then rmsNorm H.F a.dim attnOutProj l.ffnNorm a.rmsNormEps true
      else attnOutProj
  let x := addAssign attnOutProj residual
  let residualFfn := x
  let x := match l.preFfnNorm with
    | some w => rmsNorm H.F a.dim x w a.rmsNormEps true
    | none => rmsNorm H.F a.dim x l.ffnNorm a.rmsNormEps false
  let down := normIf H a a.dim l.postFfnNorm (matmulTransposed (gated H l a x) l.wDown)
  some (addAssign down residualFfn, c)

/-- `forward_gen_fmt`: `none` where it returns an error. -/
def forwardGenFmt (startPos : ℕ) (x : ℕ → K) (c : KVCache) : Option ((ℕ → K) × KVCache) := do
  let nHeadsQ := l.wq.rows / a.headDim
  let nHeadsKv := l.wk.rows / a.headDim
  let residual := rmsNorm H.F a.dim x l.attentionNorm a.rmsNormEps a.rmsNormAddUnit
  let v := projection l.wv (l.qkvBias.map QkvBias.bv) residual
  if a.headDim % 2 ≠ 0 then none
  let c ← writeKv H c 1 nHeadsKv a.headDim (kRope H l a startPos residual) v
  let outAttn ← attentionInto H a.layerIdx startPos c 1 nHeadsQ a.window
    (qRope H l a startPos residual)
  let attnOut := matmulTransposed outAttn l.wo
  -- the sum and the norm are fused, and a model that adds a unit without a norm of its own here
  -- gets none
  let (x, residual) :=
    if a.rmsNormAddUnit then
      let attnOut := rmsNorm H.F a.dim attnOut l.ffnNorm a.rmsNormEps true
      let x := addAssign x attnOut
      match l.preFfnNorm with
      | some w => (x, rmsNorm H.F a.dim x w a.rmsNormEps true)
      | none => (x, x)
    else
      let x := addAssign x attnOut
      (x, rmsNorm H.F a.dim x l.ffnNorm a.rmsNormEps false)
  let down := normIf H a a.dim l.postFfnNorm (matmulTransposed (gated H l a residual) l.wDown)
  some (addAssign x down, c)

/-! ## A row and its tokens -/

/-- What a cache holds: its format, its limit and its tokens. -/
structure Content where
  format : Format
  maxSeqLen : ℕ
  tokens : List Token

/-- A layer after its attention: `x` has come in and its heads got `attn`. -/
def afterAttention (x attn : ℕ → K) : ℕ → K :=
  let o := matmulTransposed attn l.wo
  let y := addAssign x (if a.rmsNormAddUnit
    then rmsNorm H.F a.dim o l.ffnNorm a.rmsNormEps true else o)
  let z := match l.preFfnNorm with
    | some w => rmsNorm H.F a.dim y w a.rmsNormEps true
    | none => rmsNorm H.F a.dim y l.ffnNorm a.rmsNormEps false
  addAssign y (normIf H a a.dim l.postFfnNorm (matmulTransposed (gated H l a z) l.wDown))

/-- A row as its queries, keys and values are taken from it. -/
def normed (x : ℕ → K) : ℕ → K := rmsNorm H.F a.dim x l.attentionNorm a.rmsNormEps a.rmsNormAddUnit

/-- The token of a row. -/
def rowToken (f : Format) (pos : ℕ) (x : ℕ → K) : Token :=
  H.codec.token f.dtype f.kvHeads f.headDim (kRope H l a pos (normed H l a x))
    (projection l.wv (l.qkvBias.map QkvBias.bv) (normed H l a x))

/-- What the heads of a row get over the tokens up to its own. -/
def rowAttention (f : Format) (pos : ℕ) (x : ℕ → K) (ts : List Token) : ℕ → K := fun i =>
  attended H.F.toFloatOps H.codec f (l.wq.rows / a.headDim) (qRope H l a pos (normed H l a x))
    ts (i / f.headDim) (i % f.headDim)

/-- A row after a layer that holds the tokens up to its own. -/
def rowOutput (f : Format) (ts : List Token) (b : ℕ × (ℕ → K)) : ℕ × (ℕ → K) :=
  (b.1, afterAttention H l a b.2 (rowAttention H l a f b.1 b.2 ts))

/-- **What a layer does to a row**: the row attends to the tokens before it and its own. A full
cache refuses it. -/
def layerRow (t : Content) (b : ℕ × (ℕ → K)) : Option ((ℕ × (ℕ → K)) × Content) :=
  if a.headDim % 2 ≠ 0 ∨ t.maxSeqLen < t.tokens.length + 1 then none
  else
    let tokens := t.tokens ++ [rowToken H l a t.format b.1 b.2]
    some (rowOutput H l a t.format tokens b, { t with tokens := tokens })

end Passes

/-! ## The passes on the rows of a chunk -/

/-- The shapes of a layer, for caches of format `f`. A model that adds a unit in its norms has a
norm before the feed-forward block, and the others have none. -/
structure Fits {K : Type} (l : TransformerLayer K) (a : LayerArgs K) (f : Format) : Prop where
  headDim : f.headDim = a.headDim
  headDim_pos : 0 < a.headDim
  heads : f.kvHeads ∣ l.wq.rows / a.headDim
  wq_rows : l.wq.rows / a.headDim * a.headDim = l.wq.rows
  wk_rows : l.wk.rows = f.kvHeads * a.headDim
  wv_rows : l.wv.rows = f.kvHeads * a.headDim
  wq_cols : l.wq.cols = a.dim
  wk_cols : l.wk.cols = a.dim
  wv_cols : l.wv.cols = a.dim
  wo_rows : l.wo.rows = a.dim
  wo_cols : l.wo.cols = l.wq.rows
  wGate_cols : l.wGate.cols = a.dim
  wUp_cols : l.wUp.cols = a.dim
  wUp_rows : l.wUp.rows = l.wGate.rows
  wDown_rows : l.wDown.rows = a.dim
  wDown_cols : l.wDown.cols = l.wGate.rows
  preFfnNorm : l.preFfnNorm.isSome = a.rmsNormAddUnit

section Rows

variable {K : Type} [Field K] [LinearOrder K] {H : Host K} {l : TransformerLayer K}
  {a : LayerArgs K} {f : Format} {i i' : ℕ} {x y : ℕ → K}

omit [LinearOrder K] in
theorem same_projection {w : Weight K} {bias : Option (ℕ → K)} (h : SameRow w.cols i i' x y) :
    SameRow w.rows i i' (projection w bias x) (projection w bias y) := by
  cases bias with
  | none => exact same_matmulTransposed h
  | some b => exact same_addRowBias (same_matmulTransposed h)

theorem same_normIf {w : Option (ℕ → K)} (h : SameRow a.dim i i' x y) :
    SameRow a.dim i i' (normIf H a a.dim w x) (normIf H a a.dim w y) := by
  cases w with
  | none => exact h
  | some w => exact same_rmsNorm h

theorem same_normIf_heads {n : ℕ} {w : Option (ℕ → K)} (h : SameRow (n * a.headDim) i i' x y) :
    SameRow (n * a.headDim) i i' (normIf H a a.headDim w x) (normIf H a a.headDim w y) := by
  cases w with
  | none => exact h
  | some w => exact same_rmsNorm_heads h

theorem same_qRope (hl : Fits l a f) {p p' : ℕ} (hpos : p + i = p' + i')
    (h : SameRow a.dim i i' x y) :
    SameRow (l.wq.rows / a.headDim * a.headDim) i i' (qRope H l a p x) (qRope H l a p' y) := by
  refine same_ropeInplace hpos (same_normIf_heads ?_)
  rw [hl.wq_rows]
  exact same_projection (hl.wq_cols ▸ h)

theorem same_kRope (hl : Fits l a f) {p q : ℕ} (hpos : p + i = q + i')
    (h : SameRow a.dim i i' x y) : SameRow (f.kvHeads * a.headDim) i i' (kRope H l a p x)
    (kRope H l a q y) := by
  have hheads : l.wk.rows / a.headDim =
    f.kvHeads := by rw [hl.wk_rows, Nat.mul_div_cancel _ hl.headDim_pos]
  unfold kRope
  rw [hheads]
  refine same_ropeInplace hpos (same_normIf_heads ?_)
  rw [← hl.wk_rows]
  exact same_projection (hl.wk_cols ▸ h)

theorem same_gated (hl : Fits l a f) (h : SameRow a.dim i i' x y) :
    SameRow l.wGate.rows i i' (gated H l a x) (gated H l a y) := by
  have hgate := same_matmulTransposed (b := l.wGate) (hl.wGate_cols ▸ h)
  have hup := same_matmulTransposed (b := l.wUp) (hl.wUp_cols ▸ h)
  rw [hl.wUp_rows] at hup
  unfold gated
  dsimp only
  split_ifs
  · exact same_geluTanhMul hgate hup
  · exact same_siluMul hgate hup

theorem same_afterAttention (hl : Fits l a f) {attn attn' : ℕ → K} (h : SameRow a.dim i i' x y)
    (hattn : SameRow l.wq.rows i i' attn attn') :
    SameRow a.dim i i' (afterAttention H l a x attn) (afterAttention H l a y attn') := by
  have ho : SameRow a.dim i i' (matmulTransposed attn l.wo) (matmulTransposed attn' l.wo) :=
    hl.wo_rows ▸ same_matmulTransposed (hl.wo_cols ▸ hattn)
  have hy : SameRow a.dim i i'
      (addAssign x (if a.rmsNormAddUnit then rmsNorm H.F a.dim (matmulTransposed attn l.wo)
        l.ffnNorm a.rmsNormEps true
        else matmulTransposed attn l.wo))
      (addAssign y (if a.rmsNormAddUnit then rmsNorm H.F a.dim (matmulTransposed attn' l.wo)
        l.ffnNorm a.rmsNormEps true
        else matmulTransposed attn' l.wo)) := by
    refine same_addAssign h ?_
    split_ifs
    · exact same_rmsNorm ho
    · exact ho
  have hdown : ∀ {z z' : ℕ → K}, SameRow a.dim i i' z z' →
      SameRow a.dim i i' (normIf H a a.dim l.postFfnNorm (matmulTransposed (gated H l a z) l.wDown))
        (normIf H a a.dim l.postFfnNorm (matmulTransposed (gated H l a z') l.wDown)) := fun hz =>
    same_normIf (hl.wDown_rows ▸ same_matmulTransposed (hl.wDown_cols.symm ▸ same_gated hl hz))
  unfold afterAttention
  dsimp only
  cases l.preFfnNorm with
  | none => exact same_addAssign hy (hdown (same_rmsNorm hy))
  | some w => exact same_addAssign hy (hdown (same_rmsNorm hy))

theorem forwardPrefillFmt_eq (startPos seqLen : ℕ) (x : ℕ → K) (c : KVCache) :
    forwardPrefillFmt H l a startPos seqLen x c =
      if a.headDim % 2 ≠ 0 then none
      else
        (writeKv H c seqLen (l.wk.rows / a.headDim)
          a.headDim (kRope H l a startPos (normed H l a x))
            (projection l.wv (l.qkvBias.map QkvBias.bv) (normed H l a x))).bind fun c =>
          (attentionInto H a.layerIdx startPos c seqLen (l.wq.rows / a.headDim) a.window
            (qRope H l a startPos (normed H l a x))).map fun attn =>
              (afterAttention H l a x attn, c) := by
  unfold forwardPrefillFmt normed
  by_cases hodd : a.headDim % 2 ≠ 0
  · simp only [if_pos hodd]
    rfl
  · simp only [if_neg hodd, addAssign_comm _ x]
    refine congrArg (Option.bind _) (funext fun c => ?_)
    generalize attentionInto H a.layerIdx startPos c seqLen _ _ _ = attn
    cases attn with
    | none => rfl
    | some attn => exact congrArg (fun y => some (y, c)) (addAssign_comm _ _)

/-- **A decode step** is a chunk of one row. -/
theorem forwardGenFmt_eq (hunit : l.preFfnNorm.isSome = a.rmsNormAddUnit) (startPos : ℕ)
    (x : ℕ → K) (c : KVCache) :
    forwardGenFmt H l a startPos x c = forwardPrefillFmt H l a startPos 1 x c := by
  rw [forwardPrefillFmt_eq]
  unfold forwardGenFmt normed
  by_cases hodd : a.headDim % 2 ≠ 0
  · simp only [if_pos hodd]
    rfl
  · simp only [if_neg hodd]
    refine congrArg (Option.bind _) (funext fun c => ?_)
    generalize attentionInto H a.layerIdx startPos c 1 _ _ _ = attn
    cases attn with
    | none => rfl
    | some attn =>
      unfold afterAttention
      cases hpre : l.preFfnNorm with
      | none =>
        have hno : a.rmsNormAddUnit = false := by rw [← hunit, hpre]; rfl
        simp only [hno, Bool.false_eq_true, if_false]
        rfl
      | some w =>
        have hyes : a.rmsNormAddUnit = true := by rw [← hunit, hpre]; rfl
        simp only [hyes, if_true]
        rfl

end Rows

/-! ## The rows of a layer in turn -/

section Rows

variable {K : Type} [Field K] [LinearOrder K] {H : Host K} {l : TransformerLayer K}
  {a : LayerArgs K} {t : Content}

theorem sweep_layerRow (heven : a.headDim % 2 = 0) {bs : List (ℕ × (ℕ → K))}
    (hroom : t.tokens.length + bs.length ≤ t.maxSeqLen) :
    ∃ bs', sweep (layerRow H l a) t bs =
        some (bs',
          { t with tokens := t.tokens ++ bs.map fun b => rowToken H l a t.format b.1 b.2 }) ∧
      bs'.length = bs.length ∧ ∀ i (hi : i < bs.length) (hi' : i < bs'.length), bs'[i] =
        rowOutput H l a t.format
          (t.tokens ++ (bs.take (i + 1)).map fun b => rowToken H l a t.format b.1 b.2) bs[i] := by
  induction bs generalizing t with
  | nil => exact ⟨[], by simp [sweep], rfl, fun i hi => absurd hi (Nat.not_lt_zero i)⟩
  | cons b bs ih =>
    rw [List.length_cons] at hroom
    set token := rowToken H l a t.format b.1 b.2 with htoken
    obtain ⟨bs', hsweep, hlen, hrows⟩ := ih (t := { t with tokens := t.tokens ++ [token] }) (by
      simp only [List.length_append, List.length_singleton]
      omega)
    have hone : layerRow H l a t b =
        some (rowOutput H l a t.format (t.tokens ++ [token]) b,
        { t with tokens := t.tokens ++ [token] }) :=
      if_neg (by omega)
    refine ⟨rowOutput H l a t.format (t.tokens ++ [token]) b :: bs', ?_, congrArg (· + 1) hlen,
      fun i hi hi' => ?_⟩
    · rw [sweep, hone]
      simp only [Option.bind_eq_bind, Option.bind_some, hsweep, List.map_cons, List.append_assoc,
        List.singleton_append, ← htoken]
    · cases i with
      | zero => simp [htoken]
      | succ i =>
        rw [List.getElem_cons_succ, List.getElem_cons_succ, hrows i (Nat.lt_of_succ_lt_succ hi) _]
        simp only [List.take_succ_cons, List.map_cons, List.append_assoc,
          List.singleton_append, ← htoken]

/-- Rows that have no room are refused, and so are rows of an odd head. -/
theorem sweep_layerRow_none {bs : List (ℕ × (ℕ → K))} (hne : bs ≠ [])
    (h : a.headDim % 2 ≠ 0 ∨ t.maxSeqLen < t.tokens.length + bs.length) :
    sweep (layerRow H l a) t bs = none := by
  induction bs generalizing t with
  | nil => exact absurd rfl hne
  | cons b bs ih =>
    rw [sweep, layerRow]
    split_ifs with hfull
    · rfl
    · rw [List.length_cons] at h
      simp only [Option.bind_eq_bind, Option.bind_some]
      rw [ih (by rintro rfl; simp only [List.length_nil] at h; omega) ?_]
      · rfl
      · refine h.imp_right fun h => ?_
        simp only [List.length_append, List.length_singleton]
        omega

/-! ## Refinement -/

/-- The rows of a chunk of `seqLen` rows from position `startPos` on. -/
structure Chunk (dim startPos seqLen : ℕ) (x : ℕ → K) (bs : List (ℕ × (ℕ → K))) : Prop where
  length : bs.length = seqLen
  pos : ∀ i (hi : i < bs.length), bs[i].1 = startPos + i
  row : ∀ i (hi : i < bs.length), SameRow dim i 0 x bs[i].2

/-- A cache in use, with what it holds. -/
structure Holds (c : KVCache) (t : Content) : Prop where
  serving : Serving c
  format : c.format = t.format
  maxSeqLen : c.maxSeqLen = t.maxSeqLen
  tokens : c.tokens = t.tokens

variable {c : KVCache} {startPos seqLen : ℕ} {x : ℕ → K} {bs : List (ℕ × (ℕ → K))}

omit [Field K] [LinearOrder K] in
theorem token_congr {C : FloatCodec K} {dtype : DType} {kvHeads headDim : ℕ} {k k' v v' : ℕ → K}
    (hk : ∀ j < kvHeads * headDim, k j = k' j) (hv : ∀ j < kvHeads * headDim, v j = v' j) :
    C.token dtype kvHeads headDim k v = C.token dtype kvHeads headDim k' v' := by
  funext half h
  unfold FloatCodec.token
  split_ifs with hh
  · refine List.flatMap_congr fun d hd => congrArg _ ?_
    have hlt : h * headDim + d < kvHeads * headDim := by
      calc h * headDim + d < h * headDim + headDim := Nat.add_lt_add_left (List.mem_range.mp hd) _
        _ = (h + 1) * headDim := (Nat.succ_mul h headDim).symm
        _ ≤ kvHeads * headDim := Nat.mul_le_mul_right _ hh
    cases half
    · exact hk _ hlt
    · exact hv _ hlt
  · rfl

theorem newTokens_chunk (hl : Fits l a t.format) (hc : Holds c t)
    (hbs : Chunk a.dim startPos seqLen x bs) :
    newTokens H.codec c seqLen (kRope H l a startPos (normed H l a x))
      (projection l.wv (l.qkvBias.map QkvBias.bv) (normed H l a x)) =
      bs.map fun b => rowToken H l a t.format b.1 b.2 := by
  have hdtype : c.kvDtype = t.format.dtype := congrArg Format.dtype hc.format
  have hkvHeads : c.kvHeads = t.format.kvHeads := congrArg Format.kvHeads hc.format
  have hheadDim : c.headDim = t.format.headDim := congrArg Format.headDim hc.format
  unfold newTokens
  rw [hdtype, hkvHeads, hheadDim]
  refine List.ext_getElem (by rw [List.length_map, List.length_range, List.length_map, hbs.length])
    fun i hi hi' => ?_
  have hlt : i < bs.length := by rwa [List.length_map] at hi'
  have hrow : SameRow a.dim i 0 (normed H l a x) (normed H l a bs[i].2) :=
    same_rmsNorm (hbs.row i hlt)
  have hk := same_kRope (H := H) hl (p := startPos) (q := bs[i].1)
    (by rw [hbs.pos i hlt, Nat.add_zero]) hrow
  have hv : SameRow l.wv.rows i 0 (projection l.wv (l.qkvBias.map QkvBias.bv) (normed H l a x)) _ :=
    same_projection (hl.wv_cols ▸ hrow)
  rw [hl.wv_rows, ← hl.headDim] at hv
  rw [← hl.headDim] at hk
  rw [List.getElem_map, List.getElem_map, List.getElem_range, rowToken]
  refine token_congr (fun j hj => ?_) fun j hj => ?_
  · rw [row, hk j hj, Nat.zero_mul, Nat.zero_add]
  · rw [row, hv j hj, Nat.zero_mul, Nat.zero_add]

theorem same_rowAttention (hl : Fits l a f) {pos : ℕ} {y attn : ℕ → K} {ts : List Token}
    (hpos : pos = startPos + i) (h : SameRow a.dim i 0 x y)
    (hattn : ∀ h < l.wq.rows / a.headDim, ∀ d < a.headDim,
      row (l.wq.rows / a.headDim * a.headDim) i attn (h * a.headDim + d) =
        attended H.F.toFloatOps H.codec f (l.wq.rows / a.headDim)
          (row (l.wq.rows / a.headDim * a.headDim) i (qRope H l a startPos (normed H l a x)))
            ts h d) :
    SameRow l.wq.rows i 0 attn (rowAttention H l a f pos y ts) := by
  intro j hj
  rw [← hl.wq_rows] at hj
  have hd : j % a.headDim < a.headDim := Nat.mod_lt _ hl.headDim_pos
  have hh : j / a.headDim < l.wq.rows / a.headDim := Nat.div_lt_of_lt_mul (by rwa [Nat.mul_comm])
  have hj' : j = j / a.headDim * a.headDim + j % a.headDim := by
    rw [Nat.mul_comm]; exact (Nat.div_add_mod j _).symm
  have hq : SameRow (l.wq.rows / a.headDim * a.headDim) i 0 (qRope H l a startPos (normed H l a x))
      (qRope H l a pos (normed H l a y)) :=
      same_qRope hl (by rw [hpos, Nat.add_zero]) (same_rmsNorm h)
  unfold rowAttention
  rw [Nat.zero_mul, Nat.zero_add, hl.headDim]
  have hq' : SameRow (l.wq.rows / a.headDim * f.headDim) 0 0
      (row (l.wq.rows / a.headDim * a.headDim) i (qRope H l a startPos (normed H l a x)))
      (qRope H l a pos (normed H l a y)) := by
    rw [hl.headDim]
    exact (sameRow_row _ _ _).symm.trans hq
  rw [← attended_congr hq' hh, ← hattn _ hh _ hd, ← hj', row, hl.wq_rows]

/-- **A chunk** goes through a layer as its rows do in turn. -/
theorem refines_forwardPrefillFmt [IsStrictOrderedRing K] (hl : Fits l a t.format) (hc : Holds c t)
    (hseq : 0 < seqLen) (hbs : Chunk a.dim startPos seqLen x bs)
    (hwindow : ∀ w ∈ a.window, t.tokens.length + seqLen ≤ w ∧ w + 1 < 2 ^ 32) : Option.Rel
      (fun r r' => Chunk a.dim startPos seqLen r.1 r'.1 ∧ Holds r.2 r'.2 ∧ r'.2.format = t.format ∧
        r'.2.tokens.length = t.tokens.length + seqLen)
      (forwardPrefillFmt H l a startPos seqLen x c) (sweep (layerRow H l a) t bs) := by
  have hkvHeads : c.kvHeads = t.format.kvHeads := congrArg Format.kvHeads hc.format
  have hheadDim : c.headDim = a.headDim := (congrArg Format.headDim hc.format).trans hl.headDim
  have hpos : c.currentPos = t.tokens.length := by rw [← c.length_tokens, hc.tokens]
  have hne : bs ≠ [] := fun hnil => by
    have hlen := hbs.length
    rw [hnil, List.length_nil] at hlen
    omega
  have hwk : l.wk.rows / a.headDim =
    c.kvHeads := by rw [hl.wk_rows, Nat.mul_div_cancel _ hl.headDim_pos, hkvHeads]
  rw [forwardPrefillFmt_eq, hwk, ← hheadDim]
  by_cases hodd : a.headDim % 2 ≠ 0
  · rw [if_pos (by rwa [hheadDim]), sweep_layerRow_none hne (.inl hodd)]
    exact .none
  rw [if_neg (by rwa [hheadDim])]
  rcases Nat.lt_or_ge c.maxSeqLen (c.currentPos + seqLen) with hfull | hroom
  · rw [writeKv_full H hc.serving hfull,
      sweep_layerRow_none hne (.inr (by rwa [← hc.maxSeqLen, ← hpos, hbs.length]))]
    exact .none
  -- there is room: the write appends the tokens of the chunk, and the attention reads them
  obtain ⟨c', hwrite, hserving, hformat, hmax, htokens⟩ :=
    tokens_writeKv H (kRope H l a startPos (normed H l a x))
      (projection l.wv (l.qkvBias.map QkvBias.bv) (normed H l a x)) hc.serving hroom
  rw [newTokens_chunk hl hc hbs, hc.tokens] at htokens
  have hpos' : c'.currentPos = t.tokens.length + seqLen := by
    rw [← c'.length_tokens, htokens, List.length_append, List.length_map, hbs.length]
  have hkvHeads' : c'.kvHeads = t.format.kvHeads :=
    congrArg Format.kvHeads (hformat.trans hc.format)
  have hheadDim' : c'.headDim = a.headDim :=
    (congrArg Format.headDim (hformat.trans hc.format)).trans hl.headDim
  have hdvd : c'.kvHeads ∣ l.wq.rows / a.headDim := by
    rw [hkvHeads']
    exact hl.heads
  have hwide : ∀ w ∈ a.window, c'.currentPos ≤ w ∧ w + 1 < 2 ^ 32 := fun w hw => by
    rw [hpos']
    exact hwindow w hw
  obtain ⟨attn, hattn, hrows⟩ := attentionInto_rows H hserving hdvd a.layerIdx startPos
    hseq (by omega) hwide
    (qRope H l a startPos (normed H l a x))
  have hroom' : t.tokens.length + bs.length ≤
    t.maxSeqLen := by rwa [hbs.length, ← hpos, ← hc.maxSeqLen]
  obtain ⟨bs', hsweep, hlen, hbs'⟩ := sweep_layerRow (H := H) (l := l) (a := a) (by omega) hroom'
  rw [hwrite, hsweep, Option.bind_some, hheadDim, hattn]
  refine .some ⟨⟨hlen.trans hbs.length, fun i hi => ?_, fun i hi => ?_⟩,
    ⟨hserving, hformat.trans hc.format, hmax.trans hc.maxSeqLen, htokens⟩, rfl, ?_⟩
  · rw [hbs' i (hlen ▸ hi) hi]
    exact hbs.pos i (hlen ▸ hi)
  · -- a row of the chunk: its own queries, and the attention gave it the tokens up to its own
    have hlt : i < bs.length := hlen ▸ hi
    rw [hbs' i hlt hi]
    refine same_afterAttention hl (hbs.row i hlt)
      (same_rowAttention hl (hbs.pos i hlt) (hbs.row i hlt) ?_)
    have hrow := hrows i (hbs.length ▸ hlt)
    rw [hheadDim', hformat, hc.format, hpos', htokens, Nat.add_sub_cancel,
      List.take_length_add_append, ← List.map_take] at hrow
    exact hrow
  · rw [List.length_append, List.length_map, hbs.length]

end Rows

end ArgusEngine.Forward
