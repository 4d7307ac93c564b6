import ArgusEngine.Forward.Layer
import ArgusEngine.Loader.GgufSource

/-!
# A model and its calls

`ModelForward` feeds tokens to a model: a `prefill` takes a prompt in chunks, a `step` one token. A
chunk goes through all layers at once.

* `forwardInto`: one pass; `deriveChunkSize`, `prefill`, `step`, `exec`: the calls;
* `tokenRow`: what the model does to a token, over the tokens that its layers hold;
* `Holding`: the caches of a model with what they hold, whose local windows hold what is to come;
* **`refines_exec`**: a call does that to each of its tokens, in turn.
-/

namespace ArgusEngine.Forward

open Attn RowMajor KVCache Sweeps Gguf

/-- `ModelConfig`, as far as a pass reads it. -/
structure ModelConfig (K : Type) where
  arch : ModelArch
  hiddenSize : ℕ
  headDim : ℕ
  vocabSize : ℕ
  rmsNormEps : K
  ropeTheta : K
  ropeFreqScaling : RopeFreqScaling K
  ropeLocalTheta : Option K
  slidingWindow : Option ℕ
  slidingWindowPattern : Option ℕ
  embedScale : Option K

/-- `TransformerModel`. -/
structure TransformerModel (K : Type) where
  config : ModelConfig K
  embedTokens : Weight K
  layers : List (TransformerLayer K)
  norm : ℕ → K
  lmHead : Weight K

/-- The state of `ModelForward` that a pass reads or writes. -/
structure ModelForward (K : Type) where
  fmtCaches : List KVCache
  decodeXGen : ℕ → K
  logitsPrefillLast : ℕ → K

/-- The device, as `derive_chunk_size` asks for it. -/
structure Device where
  isGpu : Bool
  maxSingleAlloc : ℕ

/-- `is_local_layer`. -/
def isLocalLayer (layerIdx : ℕ) (pattern : Option ℕ) : Bool :=
  match pattern with
  | some p => if p > 0 then decide ((layerIdx + 1) % p ≠ 0) else false
  | none => false

section Calls

variable {K : Type} [Field K] [LinearOrder K]

/-- What a layer is called with. -/
def ModelConfig.layerArgs (cfg : ModelConfig K) (i : ℕ) : LayerArgs K :=
  let isGemma3 : Bool := cfg.arch = .gemma3
  let isLocal := isLocalLayer i cfg.slidingWindowPattern
  { layerIdx := i
    rmsNormEps := cfg.rmsNormEps
    ropeTheta := if isGemma3 && isLocal then cfg.ropeLocalTheta.getD cfg.ropeTheta
      else cfg.ropeTheta
    ropeFreqScaling := if isGemma3 && isLocal then .NONE else cfg.ropeFreqScaling
    headDim := cfg.headDim
    dim := cfg.hiddenSize
    rmsNormAddUnit := isGemma3
    useGeluTanh := isGemma3
    isLocalAttn := if isGemma3 then some isLocal else none
    localAttnWindow := cfg.slidingWindow }

/-- The layers of a model with what they are called with. -/
def TransformerModel.stages (m : TransformerModel K) : List (TransformerLayer K × LayerArgs K) :=
  m.layers.zipIdx.map fun l => (l.1, m.config.layerArgs l.2)

variable (H : Host K) (m : TransformerModel K)

omit [LinearOrder K] in
/-- An entry of an embedding, scaled where the model says so. -/
def embedScaled (x : K) : K :=
  match m.config.embedScale with
  | some s => x * s
  | none => x

omit [LinearOrder K] in
/-- The rows that a pass begins with. -/
def embed (inputTokens : List ℕ) (x : ℕ → K) : ℕ → K :=
  fun i => embedScaled m (gather m.embedTokens inputTokens x i)

/-- A layer of a pass: a single token with the workspace of a decode step goes through
`forward_gen_fmt`. -/
def passStage (startPos seqLen : ℕ) (workspace : Bool) (l : TransformerLayer K × LayerArgs K)
    (c : KVCache) (x : ℕ → K) : Option ((ℕ → K) × KVCache) :=
  if seqLen = 1 && workspace then forwardGenFmt H l.1 l.2 startPos x c
  else forwardPrefillFmt H l.1 l.2 startPos seqLen x c

/-- `forward_into`: the logits, the last rows and the caches. -/
def forwardInto (inputTokens : List ℕ) (startPos : ℕ) (fmts : List KVCache) (xGen : Option (ℕ → K))
    (workspace : Bool) (logitsLastOnly : Bool) : Option ((ℕ → K) × (ℕ → K) × List KVCache) := do
  let seqLen := inputTokens.length
  let isDecode : Bool := seqLen = 1
  let x := if isDecode then xGen.getD fun _ => 0 else fun _ => 0
  let (x, fmts) ← column (passStage H startPos seqLen workspace) (m.stages.zip fmts)
    (embed m inputTokens x)
  let x := rmsNorm H.F m.config.hiddenSize x m.norm m.config.rmsNormEps (m.config.arch = .gemma3)
  let xLast := if logitsLastOnly && seqLen > 1 then row m.config.hiddenSize (seqLen - 1) x else x
  some (matmulTransposed xLast m.lmHead, x, fmts.map Prod.snd)

/-- `read_logits`. -/
def readLogits (logits : ℕ → K) : List K := (List.range m.config.vocabSize).map logits

/-- `derive_chunk_size`. -/
def deriveChunkSize (d : Device) (seqLen : ℕ) : ℕ :=
  if !d.isGpu then seqLen
  else if d.maxSingleAlloc = 0 ∨ d.maxSingleAlloc = 2 ^ 64 - 1 then seqLen
  else
    let budget := d.maxSingleAlloc / 2
    let byVocab := max (budget / (m.config.vocabSize * 4)) 1
    let byHidden := max (d.maxSingleAlloc / (m.config.hiddenSize * 4)) 1
    min (min (min byVocab byHidden) 512) seqLen

omit [Field K] [LinearOrder K] in
theorem deriveChunkSize_pos (d : Device) {seqLen : ℕ} (h : 0 < seqLen) :
    0 < deriveChunkSize m d seqLen := by
  unfold deriveChunkSize
  split_ifs
  · exact h
  · exact h
  · simp only [lt_min_iff, lt_max_iff]
    exact ⟨⟨⟨.inr one_pos, .inr one_pos⟩, by omega⟩, h⟩

/-- The loop of `prefill` over its chunks. -/
def prefillChunks (chunkSize : ℕ) (hsize : 0 < chunkSize) (tokens : List ℕ) (startPos : ℕ)
    (s : ModelForward K) : Option (ModelForward K) :=
  if _ : tokens = [] then some s
  else do
    let chunk := tokens.take chunkSize
    let (logits, _, fmts) ← forwardInto H m chunk startPos s.fmtCaches none false true
    prefillChunks chunkSize hsize (tokens.drop chunkSize) (startPos + chunk.length)
      { s with fmtCaches := fmts, logitsPrefillLast := logits }
  termination_by tokens.length
  decreasing_by
    rw [List.length_drop]
    have hpos := List.length_pos_of_ne_nil ‹_›
    omega

/-- `prefill`: an error where it gets no token. -/
def prefill (d : Device) (s : ModelForward K) (tokens : List ℕ) (startPos : ℕ) :
    Option (List K × ModelForward K) :=
  if h : tokens = [] then none
  else
    (prefillChunks H m (deriveChunkSize m d tokens.length)
      (deriveChunkSize_pos m d (List.length_pos_of_ne_nil h)) tokens startPos s).map fun s =>
      (readLogits m s.logitsPrefillLast, s)

/-- `step`, on the path of the layer loop. -/
def step (s : ModelForward K) (pos token : ℕ) : Option (List K × ModelForward K) :=
  (forwardInto H m [token] pos s.fmtCaches (some s.decodeXGen) true false).map fun r =>
    (readLogits m r.1, { s with fmtCaches := r.2.2, decodeXGen := r.2.1 })

/-- What a session asks of its model. -/
inductive Call where
  | prefill (tokens : List ℕ)
  | step (token : ℕ)
  deriving Repr, DecidableEq

def Call.tokens : Call → List ℕ
  | .prefill ts => ts
  | .step t => [t]

/-- A call at the position that the session has reached. -/
def exec (d : Device) (s : ℕ × ModelForward K) (c : Call) :
    Option (List K × (ℕ × ModelForward K)) :=
  match c with
  | .prefill ts => (prefill H m d s.2 ts s.1).map fun r => (r.1, (s.1 + ts.length, r.2))
  | .step t => (step H m s.2 s.1 t).map fun r => (r.1, (s.1 + 1, r.2))

end Calls

/-! ## A token through the model -/

section Tokens

variable {K : Type} [Field K] [LinearOrder K] (H : Host K) (m : TransformerModel K)

omit [LinearOrder K] in
/-- The row of a token. -/
def embedded (token : ℕ) : ℕ → K :=
  fun j => embedScaled m (m.embedTokens.data (token * m.embedTokens.cols + j))

/-- The logits after a row. -/
def rowLogits (x : ℕ → K) : List K :=
  readLogits m (matmulTransposed
    (rmsNorm H.F m.config.hiddenSize x m.norm m.config.rmsNormEps
      (m.config.arch = .gemma3)) m.lmHead)

/-- A layer of the model on a row. -/
def stageRow (l : TransformerLayer K × LayerArgs K) :
    Content → ℕ × (ℕ → K) → Option ((ℕ × (ℕ → K)) × Content) :=
  layerRow H l.1 l.2

/-- **What a model does to a token** at a position: its row goes through the layers, which hold the
tokens before it. -/
def tokenRow (contents : List ((TransformerLayer K × LayerArgs K) × Content)) (b : ℕ × ℕ) :
    Option (List K × List ((TransformerLayer K × LayerArgs K) × Content)) :=
  (column (stageRow H) contents (b.2, embedded m b.1)).map fun r => (rowLogits H m r.1.2, r.2)

end Tokens

/-! ## A pass over a chunk -/

section Passes

variable {K : Type} [Field K] [LinearOrder K] {H : Host K} {m : TransformerModel K}

/-- The shapes of the tables of a model. -/
structure TransformerModel.Fits (m : TransformerModel K) : Prop where
  embed_cols : m.embedTokens.cols = m.config.hiddenSize
  lmHead_cols : m.lmHead.cols = m.config.hiddenSize
  lmHead_rows : m.lmHead.rows = m.config.vocabSize

/-- A layer and its cache, of which `t` is the content: a local window holds `k` more tokens. -/
structure Layered (dim k : ℕ) (l : TransformerLayer K × LayerArgs K) (c : KVCache)
    (t : Content) : Prop where
  fits : Fits l.1 l.2 t.format
  holds : Holds c t
  dim : l.2.dim = dim
  window : ∀ w ∈ l.2.window, t.tokens.length + k ≤ w ∧ w + 1 < 2 ^ 32

/-- The caches of a model and their contents. -/
structure Holding (m : TransformerModel K) (k : ℕ) (fmts : List KVCache)
    (contents : List ((TransformerLayer K × LayerArgs K) × Content)) : Prop where
  length : fmts.length = m.stages.length
  stages : List.Forall₂ (fun x y => x.1 = y.1 ∧ Layered m.config.hiddenSize k x.1 x.2 y.2)
    (m.stages.zip fmts) contents

variable {k n startPos : ℕ} {l : TransformerLayer K × LayerArgs K} {c : KVCache} {t : Content}
  {fmts : List KVCache} {contents : List ((TransformerLayer K × LayerArgs K) × Content)}
  {tokens : List ℕ}

theorem Layered.chunk [IsStrictOrderedRing K] {dim : ℕ} {x : ℕ → K} {bs : List (ℕ × (ℕ → K))}
    {workspace : Bool} (hl : Layered dim k l c t) (hpos : 0 < n) (hn : n ≤ k)
    (hbs : Chunk dim startPos n x bs) :
    Option.Rel (fun r r' => Chunk dim startPos n r.1 r'.1 ∧ Layered dim (k - n) l r.2 r'.2)
      (passStage H startPos n workspace l c x) (sweep (stageRow H l) t bs) := by
  have hpass : passStage H startPos n workspace l c x =
    forwardPrefillFmt H l.1 l.2 startPos n x c := by
    unfold passStage
    split_ifs with hgen
    · have hone : n = 1 := by simp_all
      rw [hone]
      exact forwardGenFmt_eq hl.fits.preFfnNorm startPos x c
    · rfl
  have hrel := refines_forwardPrefillFmt (H := H)
    hl.fits hl.holds hpos (hl.dim.symm ▸ hbs) fun w hw =>
    ⟨by have := (hl.window w hw).1; omega, (hl.window w hw).2⟩
  rw [hl.dim] at hrel
  rw [hpass]
  refine rel_mono hrel fun r r' _ _ h => ?_
  obtain ⟨hchunk, hholds, hformat, hlen⟩ := h
  refine ⟨hchunk, ⟨hformat.symm ▸ hl.fits, hholds, hl.dim, fun w hw => ?_⟩⟩
  obtain ⟨hfit, hword⟩ := hl.window w hw
  exact ⟨by omega, hword⟩

omit [LinearOrder K] in
theorem same_embed (hm : m.Fits) (x : ℕ → K) {i : ℕ} (hi : i < tokens.length)
    (htoken : tokens[i] < m.embedTokens.rows) : SameRow m.config.hiddenSize i 0 (embed m tokens x)
    (embedded m tokens[i]) := by
  have hrow : SameRow m.embedTokens.cols i tokens[i] (gather m.embedTokens tokens x)
    m.embedTokens.data :=
    gather_row (List.getElem?_eq_getElem hi) htoken
  intro j hj
  unfold embed embedded
  rw [← hm.embed_cols] at hj ⊢
  rw [hrow j hj, Nat.zero_mul, Nat.zero_add]

omit [LinearOrder K] in
theorem chunk_embed (hm : m.Fits) (htokens : ∀ t ∈ tokens, t < m.embedTokens.rows) (x : ℕ → K) :
    Chunk m.config.hiddenSize startPos tokens.length (embed m tokens x)
      ((tokens.zipIdx startPos).map fun b => (b.2, embedded m b.1)) := by
  refine ⟨by rw [List.length_map, List.length_zipIdx], fun i hi => ?_, fun i hi => ?_⟩
  · rw [List.getElem_map, List.getElem_zipIdx]
  · have hlt : i < tokens.length := by rwa [List.length_map, List.length_zipIdx] at hi
    rw [List.getElem_map, List.getElem_zipIdx]
    exact same_embed hm x hlt (htokens _ (List.getElem_mem hlt))

theorem readLogits_row (hm : m.Fits) {i : ℕ} {x y : ℕ → K}
    (h : SameRow m.config.hiddenSize i 0 x y) :
    readLogits m (matmulTransposed (row m.config.hiddenSize i
      (rmsNorm H.F m.config.hiddenSize x m.norm m.config.rmsNormEps (m.config.arch = .gemma3)))
        m.lmHead) =
      rowLogits H m y := by
  have hrow : SameRow m.lmHead.cols 0 0
      (row m.config.hiddenSize i
        (rmsNorm H.F m.config.hiddenSize x m.norm m.config.rmsNormEps (m.config.arch = .gemma3)))
      (rmsNorm H.F m.config.hiddenSize y m.norm m.config.rmsNormEps (m.config.arch = .gemma3)) := by
    rw [hm.lmHead_cols]
    exact (sameRow_row _ _ _).symm.trans (same_rmsNorm h)
  refine List.map_congr_left fun j hj => ?_
  have hlogit := same_matmulTransposed hrow j (by rw [hm.lmHead_rows]; exact List.mem_range.mp hj)
  rwa [Nat.zero_mul, Nat.zero_add] at hlogit

theorem refines_column [IsStrictOrderedRing K] (hm : m.Fits) (hc : Holding m k fmts contents)
    (hne : tokens ≠ []) (hk : tokens.length ≤ k) (htokens : ∀ t ∈ tokens, t < m.embedTokens.rows)
    (workspace : Bool) (x : ℕ → K) : Option.Rel
      (fun r r' => Chunk m.config.hiddenSize startPos tokens.length r.1 r'.1 ∧
        Holding m (k - tokens.length) (r.2.map Prod.snd) r'.2)
      (column (passStage H startPos tokens.length workspace) (m.stages.zip fmts) (embed m tokens x))
      (sweep (column (stageRow H)) contents ((tokens.zipIdx startPos).map fun b =>
        (b.2, embedded m b.1))) := by
  have hcolumn := rel_column_sweep (f := passStage H startPos tokens.length workspace)
    (g := stageRow H) (R := Layered m.config.hiddenSize k)
      (Q := Layered m.config.hiddenSize (k - tokens.length))
    (E := Chunk m.config.hiddenSize startPos tokens.length)
    (fun l c t x bs hl hbs => hl.chunk (List.length_pos_of_ne_nil hne) hk hbs) hc.stages
    (chunk_embed hm htokens x)
  refine rel_mono hcolumn fun r r' hr _ h => ⟨h.1, ?_⟩
  -- the layers have kept their places
  have hlabels : r.2.map Prod.fst = m.stages :=
    (map_fst_column hr).trans (List.map_fst_zip hc.length.ge)
  have hzip : m.stages.zip (r.2.map Prod.snd) = r.2 := (List.zip_of_prod hlabels rfl).symm
  refine ⟨?_, hzip.symm ▸ h.2⟩
  rw [← hlabels, List.length_map, List.length_map]

/-- **A pass** takes the tokens of a chunk as the model takes them in turn, and its logits are those
of the last. -/
theorem refines_forwardInto [IsStrictOrderedRing K] (hm : m.Fits) (hc : Holding m k fmts contents)
    (hne : tokens ≠ []) (hk : tokens.length ≤ k) (htokens : ∀ t ∈ tokens, t < m.embedTokens.rows)
    {logitsLastOnly : Bool} (hlast : logitsLastOnly = true ∨ tokens.length = 1)
    (xGen : Option (ℕ → K)) (workspace : Bool) : Option.Rel
      (fun r r' => r'.1.getLast? = some (readLogits m r.1) ∧
      Holding m (k - tokens.length) r.2.2 r'.2)
        (forwardInto H m tokens startPos fmts xGen workspace logitsLastOnly)
      (sweep (tokenRow H m) contents (tokens.zipIdx startPos)) := by
  have hsweep : sweep (tokenRow H m) contents (tokens.zipIdx startPos) =
      (sweep (column (stageRow H)) contents
        ((tokens.zipIdx startPos).map fun b => (b.2, embedded m b.1))).map
        fun r => (r.1.map fun x => rowLogits H m x.2, r.2) :=
    sweep_map (column (stageRow H)) (fun b : ℕ × ℕ => (b.2, embedded m b.1))
      (fun x => rowLogits H m x.2) _ _
  rw [hsweep, Option.map_eq_bind]
  refine rel_bind (refines_column hm hc hne hk htokens workspace _) fun r r' h => .some ⟨?_, h.2⟩
  obtain ⟨x, stages⟩ := r
  have hpos : 0 < tokens.length := List.length_pos_of_ne_nil hne
  have hlt : tokens.length - 1 < r'.1.length := by rw [h.1.length]; omega
  rw [List.getLast?_map, List.getLast?_eq_getElem?, h.1.length, List.getElem?_eq_getElem hlt,
    Option.map_some, ← readLogits_row hm (h.1.row _ hlt)]
  split_ifs with hrows
  · rfl
  · have hone : tokens.length = 1 := hlast.elim (fun hyes => by simp_all; omega) id
    rw [hone, row_zero]

end Passes

/-! ## Calls -/

section Runs

variable {K : Type} [Field K] [LinearOrder K] [IsStrictOrderedRing K] {H : Host K}
  {m : TransformerModel K} {k pos : ℕ} {s : ModelForward K}
  {contents : List ((TransformerLayer K × LayerArgs K) × Content)} {tokens : List ℕ}

theorem refines_step (hm : m.Fits) (hc : Holding m k s.fmtCaches contents) (hk : 1 ≤ k) {token : ℕ}
    (htoken : token < m.embedTokens.rows) :
    Option.Rel (fun r r' => r'.1.getLast? = some r.1 ∧ Holding m (k - 1) r.2.fmtCaches r'.2)
      (step H m s pos token) (sweep (tokenRow H m) contents ([token].zipIdx pos)) :=
  rel_map_left (refines_forwardInto hm hc (List.cons_ne_nil token []) hk (by simpa using htoken)
    (.inr rfl) _ _) fun _ _ h => h

end Runs

end ArgusEngine.Forward
