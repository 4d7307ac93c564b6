import ArgusEngine.Kv.Mirror

/-!
# The rows an attention call reads

`StandardFormat::attention_into` by the rows whose keys enter the softmax: which query row reads
which slot of which KV head (`Read`). A single query (decode) goes to one of five branches, several
queries (prefill) to `prefill_attention`; the arithmetic of the softmax is left out.

* `attentionGen`, `attentionGenRagged`, `attentionQ4GpuFallback`: the decode kernels;
* `flashAttentionHeadFrom`, `prefillAttentionScores`: the tiled prefill loop and its score channel;
* **`mem_flashAttentionHeadFrom`**: no tile that is skipped holds a key of the band;
* **`readsWindow_iff`**: when the calls read the window of the most recent positions;
* `decode_reads_oldest`: a call that reads the oldest ones.
-/

namespace ArgusEngine

open KVCache

/-- Query row `row` takes the key of KV head `kvHead` at `slot`. -/
structure Read where
  row : ℕ
  kvHead : ℕ
  slot : ℕ
  deriving Repr, DecidableEq

/-- What the engine asks of a backend. -/
structure Backend where
  name : String
  isGpu : Bool
  /-- `q2_gpu_native_min_ctx`, where `q2_gpu_native_enabled`. -/
  q2MinCtx : Option ℕ
  supportsOpaqueQ2Dequant : Bool
  /-- Whether `dequant_opaque_q2_to_f16` takes both halves. -/
  q2DequantOk : Bool
  /-- Whether `flash_attention_prefill` takes a K buffer with this `head_dim` and these starts. -/
  flashAttentionPrefill : Tensor → ℕ → Option (List ℕ) → Bool
  /-- The refusals of a backend's own `attention_gen_ragged` for a K buffer, `head_dim` and
  `kv_base`; `none` where the trait's default runs. -/
  raggedKernel : Option (Tensor → ℕ → ℕ → Except Fail Unit)

structure AttnDims where
  nHeadsQ : ℕ
  window : Option ℕ

/-! ## Decode kernels -/

/-- `attention_gen`: the first `cacheSeqLen` slots of every head. -/
def attentionGen (numHeadsQ numHeadsKv cacheSeqLen : ℕ) : List Read :=
  (List.range numHeadsQ).flatMap fun h =>
    (List.range cacheSeqLen).map fun t => ⟨0, h / (numHeadsQ / numHeadsKv), t⟩

/-- `attention_q4_gpu_fallback`: `cacheSeqLen` slots from `kvStartPos` on. -/
def attentionQ4GpuFallback (nHeadsQ nHeadsKv cacheSeqLen kvStartPos : ℕ) : List Read :=
  (List.range nHeadsQ).flatMap fun h =>
    (List.range cacheSeqLen).map fun t => ⟨0, h / (nHeadsQ / nHeadsKv), kvStartPos + t⟩

/-- The slots of every head from its own first one on. -/
def readsFrom (numHeadsQ gqaRatio cacheSeqLen : ℕ) (start : ℕ → ℕ) : List Read :=
  (List.range numHeadsQ).flatMap fun h =>
    let kvH := h / gqaRatio
    (List.range' (start kvH) (cacheSeqLen - start kvH)).map fun slot => ⟨0, kvH, slot⟩

/-- `Backend::attention_gen_ragged`, the host kernel of the trait. -/
def attentionGenRaggedDefault (b : Backend) (k v : Tensor) (numHeadsQ numHeadsKv headDim : ℕ)
    (kvStart : List ℕ) (kvBase cacheSeqLen : ℕ) : Except Fail (List Read) :=
  let name := b.name
  let dt := k.dtype.debug
  let len := kvStart.length
  if k.buffer.isGpuBuffer || v.buffer.isGpuBuffer then
    .error (.err
      s!"attention_gen_ragged: backend '{name}' has no device kernel for a ragged KV cache")
  else if k.dtype ≠ .f32 ∧ k.dtype ≠ .f16 then
    .error (.err s!"attention_gen_ragged: unsupported KV dtype {dt} (a ragged cache is f32/f16)")
  else
    let capacity := k.size / k.dtype.size / (max numHeadsKv 1 * max headDim 1)
    if len ≠ numHeadsKv ∨ kvBase > cacheSeqLen ∨ cacheSeqLen > capacity then
      .error (.err
        (s!"attention_gen_ragged: kv_start has {len} entries for {numHeadsKv} KV heads " ++
          s!"(kv_base {kvBase}, n {cacheSeqLen}, capacity {capacity})"))
    else .ok (readsFrom numHeadsQ (max (numHeadsQ / numHeadsKv) 1) cacheSeqLen fun kvH =>
      min (max (kvStart.getD kvH 0) kvBase) cacheSeqLen)

/-- `attention_gen_ragged`. A device kernel takes the starts from the cache's mirror, which stands
in for `kvStart` only without a window floor. -/
def attentionGenRagged (b : Backend) (k v : Tensor) (numHeadsQ numHeadsKv headDim : ℕ)
    (kvStart : List ℕ) (kvStartDev : Option (List (BitVec 32))) (kvBase cacheSeqLen : ℕ) :
    Except Fail (List Read) :=
  match b.raggedKernel with
  | none => attentionGenRaggedDefault b k v numHeadsQ numHeadsKv headDim kvStart kvBase cacheSeqLen
  | some refuses => match refuses k headDim kvBase with
    | .error e => .error e
    | .ok () => .ok (readsFrom numHeadsQ (numHeadsQ / numHeadsKv) cacheSeqLen fun kvH =>
      match kvStartDev with
      | some dev => if kvBase = 0 then (dev.getD kvH 0).toInt.toNat else kvStart.getD kvH 0
      | none => kvStart.getD kvH 0)

/-! ## Prefill -/

/-- `usize::div_ceil`. -/
def divCeil (a b : ℕ) : ℕ := (a + b - 1) / b

/-- `flash_attention_head_from` by its `(query row, key)` pairs: tiles of `br` rows and `bc` keys, a
tile skipped when no pair of it can be in the band. -/
def flashAttentionHeadFrom (qLen kvLen qStartPos br bc : ℕ) (windowSize : Option ℕ) (kvStart : ℕ) :
    List (ℕ × ℕ) :=
  (List.range (divCeil qLen br)).flatMap fun i =>
    let rStart := i * br
    let rEnd := min (rStart + br) qLen
    (List.range (divCeil kvLen bc)).flatMap fun j =>
      let cStart := j * bc
      let cEnd := min (cStart + bc) kvLen
      if cStart > rEnd - 1 + qStartPos then []
      else if cEnd ≤ kvStart then []
      else if windowSize.any fun ws => decide (cEnd + ws ≤ rStart + qStartPos + 1) then []
      else (List.range (rEnd - rStart)).flatMap fun r =>
        let globalQ := rStart + r + qStartPos
        ((List.range (cEnd - cStart)).filter fun c =>
          decide (cStart + c ≤ globalQ) &&
            (windowSize.all fun ws => decide (cStart + c + ws > globalQ)) &&
              decide (cStart + c ≥ kvStart)).map fun c => (rStart + r, cStart + c)

/-- `flash_attention_forward_strided`, the portable path. -/
def flashAttentionForwardStrided (nHeadsQ nHeadsKv qLen kvLen qStartPos : ℕ) (windowSize : Option ℕ)
    (kvStart : Option (List ℕ)) : List Read :=
  (List.range nHeadsQ).flatMap fun h =>
    let kvH := h / (nHeadsQ / nHeadsKv)
    (flashAttentionHeadFrom qLen kvLen qStartPos 32 32 windowSize
      ((kvStart.getD []).getD kvH 0)).map fun rc =>
      ⟨rc.1, kvH, rc.2⟩

/-- The lower end of the window of query position `p`. -/
def windowFloor (window : Option ℕ) (p : ℕ) : ℕ :=
  match window with
  | some w => p - (w - 1)
  | none => 0

/-- The loop of `prefill_attention_scores` over the rows of the trailing query window, for one
head. -/
def prefillScoreRows (seqLen qStartPos qWindow : ℕ) (window : Option ℕ) (kvStart : ℕ) :
    List (ℕ × ℕ) :=
  let qwin := min qWindow seqLen
  (List.range' (seqLen - qwin) qwin).flatMap fun r =>
    let p := qStartPos + r
    let lo := max (windowFloor window p) kvStart
    (List.range' lo (p + 1 - lo)).map fun keyPos => (r, keyPos)

def prefillAttentionScores (nHeadsQ nHeadsKv seqLen qStartPos qWindow : ℕ) (window : Option ℕ)
    (kvStart : Option (List ℕ)) : List Read :=
  (List.range nHeadsQ).flatMap fun h =>
    let kvHead := h / (nHeadsQ / nHeadsKv)
    (prefillScoreRows seqLen qStartPos qWindow window
      ((kvStart.getD []).getD kvHead 0)).map fun rc =>
      ⟨rc.1, kvHead, rc.2⟩

/-- The keys a call reads: for its output, and for the score side channel. -/
structure Attended where
  out : List Read
  scores : List Read

/-- `prefill_attention`. A device kernel gets the starts and no window. -/
def prefillAttention (b : Backend) (k : Tensor)
    (nHeadsQ nHeadsKv headDim seqLen cacheSeqLen qStartPos : ℕ) (window : Option ℕ)
    (kvStart : Option (List ℕ)) (qWindow : Option ℕ) : Attended where
  out :=
    if b.isGpu && k.buffer.isGpuBuffer && b.flashAttentionPrefill k headDim kvStart then
      flashAttentionForwardStrided nHeadsQ nHeadsKv seqLen cacheSeqLen qStartPos none kvStart
    else flashAttentionForwardStrided nHeadsQ nHeadsKv seqLen cacheSeqLen qStartPos window kvStart
  scores := match qWindow with
    | some qWindow =>
      prefillAttentionScores nHeadsQ nHeadsKv seqLen qStartPos qWindow window kvStart
    | none => []

/-! ## `attention_into` -/

/-- The window clamped to what is there. -/
def effectiveCacheLen (window : Option ℕ) (cacheSeqLen : ℕ) : ℕ :=
  match window with
  | some w => min cacheSeqLen w
  | none => cacheSeqLen

/-- The `q2_0` block format. -/
def KVLayoutDesc.isQ2 (d : KVLayoutDesc) : Bool :=
  d.bits = 2 && d.blockElems = 32 && d.packing = .quad && d.scaleLayout = .perBlockF16WithMin

/-- The device mirror in `F16` that the native `q2_0` path decodes an opaque cache into. -/
def q2Mirror (b : Backend) (c : KVCache) : Option Tensor :=
  if (b.q2MinCtx.any fun m => decide (c.currentPos ≥ m)) && b.isGpu && b.supportsOpaqueQ2Dequant &&
      (c.headDim = 64 || c.headDim = 128) && c.layout = .headMajor &&
        c.kBuffer.buffer.desc.any KVLayoutDesc.isQ2 &&
      b.q2DequantOk then
    c.memory.map fun m => ⟨[1, c.kvHeads, c.capacity, c.headDim],
      (m.allocKv (c.kvHeads * c.capacity * c.headDim * 2) .f16).1, true⟩
  else none

/-- The opaque branch: the native path where it applies, else the descriptor floor, on the host. -/
def attentionOpaque (b : Backend) (c : KVCache) (dims : AttnDims) (seqLen : ℕ)
    (qWindow : Option ℕ) : Attended :=
  let n := c.currentPos
  if seqLen > 1 then
    match q2Mirror b c with
    | some kDev =>
      prefillAttention b kDev dims.nHeadsQ c.kvHeads c.headDim seqLen n (n - seqLen)
        dims.window none qWindow
    | none =>
      -- the dequantized copy is a host buffer, and the backend the CPU one
      ⟨flashAttentionForwardStrided dims.nHeadsQ c.kvHeads seqLen n (n - seqLen) dims.window none,
        match qWindow with
        | some qWindow =>
          prefillAttentionScores dims.nHeadsQ c.kvHeads seqLen (n - seqLen) qWindow dims.window none
        | none => []⟩
  else ⟨attentionGen dims.nHeadsQ c.kvHeads (effectiveCacheLen dims.window n), []⟩

/-- `attention_into`: what is read, and the cache with its mirror. -/
def attentionInto (b : Backend) (c : KVCache) (dims : AttnDims) (seqLen : ℕ) (qWindow : Option ℕ) :
    Except Fail Attended × KVCache :=
  let n := c.currentPos
  if c.isOpaque then (.ok (attentionOpaque b c dims seqLen qWindow), c)
  else if seqLen > 1 then
    let raggedStarts := if c.isRagged then some c.headStarts else none
    (.ok (prefillAttention b c.kBuffer dims.nHeadsQ c.kvHeads c.headDim seqLen n
      (n - seqLen) dims.window raggedStarts qWindow), c)
  else
    let effective := effectiveCacheLen dims.window n
    if c.kvDtype = .q4_0 ∧ b.isGpu then
      (.ok ⟨attentionQ4GpuFallback dims.nHeadsQ c.kvHeads effective (n - effective), []⟩, c)
    else if c.isRagged then
      let winStart := n - effective
      let kvStart := (List.range c.kvHeads).map fun h => max (c.headStartOf h) winStart
      let dev := c.headStartDevice
      ((attentionGenRagged b c.kBuffer c.vBuffer dims.nHeadsQ c.kvHeads c.headDim kvStart
        dev.1 winStart n).map fun reads => ⟨reads, []⟩, dev.2)
    else (.ok ⟨attentionGen dims.nHeadsQ c.kvHeads effective, []⟩, c)

/-! ## What each kernel reads -/

section Kernels

variable {nHeadsQ nHeadsKv : ℕ}

theorem kvHead_iff (hkv : 0 < nHeadsKv) (hq : 0 < nHeadsQ) (hdvd : nHeadsKv ∣ nHeadsQ) (k : ℕ) :
    (∃ h < nHeadsQ, h / (nHeadsQ / nHeadsKv) = k) ↔ k < nHeadsKv := by
  obtain ⟨g, rfl⟩ := hdvd
  have hg : 0 < g := Nat.pos_of_mul_pos_left hq
  rw [Nat.mul_div_cancel_left g hkv]
  constructor
  · rintro ⟨h, hh, rfl⟩
    exact Nat.div_lt_of_lt_mul (by rwa [Nat.mul_comm])
  · intro hk
    exact ⟨k * g, Nat.mul_lt_mul_of_pos_right hk hg, Nat.mul_div_cancel _ hg⟩

theorem mem_heads (hkv : 0 < nHeadsKv) (hq : 0 < nHeadsQ) (hdvd : nHeadsKv ∣ nHeadsQ)
    (f : ℕ → List (ℕ × ℕ)) (r k p : ℕ) : (⟨r, k, p⟩ : Read) ∈ ((List.range nHeadsQ).flatMap fun h =>
      (f (h / (nHeadsQ / nHeadsKv))).map fun rc => ⟨rc.1, h / (nHeadsQ / nHeadsKv), rc.2⟩) ↔
    k < nHeadsKv ∧ (r, p) ∈ f k := by
  rw [← kvHead_iff hkv hq hdvd k]
  simp only [List.mem_flatMap, List.mem_range, List.mem_map, Read.mk.injEq]
  constructor
  · rintro ⟨h, hh, rc, hrc, rfl, rfl, rfl⟩
    exact ⟨⟨h, hh, rfl⟩, hrc⟩
  · rintro ⟨⟨h, hh, rfl⟩, hmem⟩
    exact ⟨h, hh, (r, p), hmem, rfl, rfl, rfl⟩

theorem mem_attentionGen (hkv : 0 < nHeadsKv) (hq : 0 < nHeadsQ) (hdvd : nHeadsKv ∣ nHeadsQ)
    (len k p : ℕ) : ⟨0, k, p⟩ ∈ attentionGen nHeadsQ nHeadsKv len ↔ k < nHeadsKv ∧ p < len := by
  have h := mem_heads hkv hq hdvd (fun _ => (List.range len).map fun t => (0, t)) 0 k p
  simp only [List.map_map, List.mem_map, List.mem_range, Prod.mk.injEq, true_and,
    exists_eq_right] at h
  exact h

theorem mem_attentionQ4GpuFallback (hkv : 0 < nHeadsKv) (hq : 0 < nHeadsQ)
    (hdvd : nHeadsKv ∣ nHeadsQ) (len start k p : ℕ) :
    ⟨0, k, p⟩ ∈ attentionQ4GpuFallback nHeadsQ nHeadsKv len start ↔
      k < nHeadsKv ∧ start ≤ p ∧ p < start + len := by
  have h := mem_heads hkv hq hdvd (fun _ => (List.range len).map fun t => (0, start + t)) 0 k p
  simp only [List.map_map, List.mem_map, List.mem_range, Prod.mk.injEq, true_and] at h
  refine h.trans (and_congr_right fun _ => ⟨?_, fun hp => ⟨p - start, by omega, by omega⟩⟩)
  rintro ⟨t, ht, rfl⟩
  omega

theorem mem_readsFrom (hkv : 0 < nHeadsKv) (hq : 0 < nHeadsQ) (hdvd : nHeadsKv ∣ nHeadsQ)
    (n : ℕ) (start : ℕ → ℕ) (k p : ℕ) : ⟨0, k, p⟩ ∈ readsFrom nHeadsQ (nHeadsQ / nHeadsKv) n start ↔
    k < nHeadsKv ∧ start k ≤ p ∧ p < n := by
  have h := mem_heads hkv hq hdvd (fun k => (List.range' (start k) (n - start k)).map fun t =>
    (0, t)) 0 k p
  simp only [List.map_map, List.mem_map, List.mem_range'_1, Prod.mk.injEq, true_and,
    exists_eq_right] at h
  refine h.trans (and_congr_right fun _ => ?_)
  omega

/-- The band of query position `q`: causal, inside the window, resident. -/
def InBand (window : Option ℕ) (start q p : ℕ) : Prop :=
  p ≤ q ∧ (∀ w, window = some w → q < p + w) ∧ start ≤ p

/-- An index below `n` lies in exactly one place of one tile. -/
theorem tile_iff {b : ℕ} (hb : 0 < b) (n x : ℕ) :
    (∃ i < divCeil n b, ∃ r < min (i * b + b) n - i * b, i * b + r = x) ↔ x < n := by
  constructor
  · rintro ⟨i, -, r, hr, rfl⟩
    omega
  · intro hx
    have hdiv : x / b * b + x % b = x := Nat.div_add_mod' x b
    have hmod := Nat.mod_lt x hb
    refine ⟨x / b, ?_, x % b, ?_, hdiv⟩
    · unfold divCeil
      rw [Nat.div_lt_iff_lt_mul hb]
      have hceil : n ≤ (n + b - 1) / b * b := by
        have h₁ := Nat.div_add_mod' (n + b - 1) b
        have h₂ := Nat.mod_lt (n + b - 1) hb
        omega
      omega
    · omega

/-- **The tiled loop reads the band**: a tile that is skipped lies past every query of it, in front
of the head's first slot, or in front of every window of it. -/
theorem mem_flashAttentionHeadFrom {qLen kvLen qStartPos br bc : ℕ} (hbr : 0 < br) (hbc : 0 < bc)
    (window : Option ℕ) (start r p : ℕ) :
    (r, p) ∈ flashAttentionHeadFrom qLen kvLen qStartPos br bc window start ↔
      r < qLen ∧ p < kvLen ∧ InBand window start (r + qStartPos) p := by
  have hall : ∀ q p, (window.all fun ws => decide (p + ws > q)) = true ↔ ∀ w,
    window = some w → q < p + w := by
    intro q p
    cases window with
    | none => simp
    | some w => simp
  unfold flashAttentionHeadFrom InBand
  simp only [List.mem_flatMap, List.mem_range]
  rw [← tile_iff hbr qLen r, ← tile_iff hbc kvLen p]
  constructor
  · rintro ⟨i, hi, j, hj, hmem⟩
    split_ifs at hmem with h₁ h₂ h₃
    · cases hmem
    · cases hmem
    · cases hmem
    · simp only [List.mem_flatMap, List.mem_range, List.mem_map, List.mem_filter, Bool.and_eq_true,
        decide_eq_true_eq, Prod.mk.injEq, hall] at hmem
      obtain ⟨r', hr', c, ⟨hc, ⟨hcausal, hwin⟩, hres⟩, rfl, rfl⟩ := hmem
      exact ⟨⟨i, hi, r', hr', rfl⟩, ⟨j, hj, c, hc, rfl⟩, hcausal, hwin, hres⟩
  · rintro ⟨⟨i, hi, r', hr', rfl⟩, ⟨j, hj, c, hc, rfl⟩, hcausal, hwin, hres⟩
    refine ⟨i, hi, j, hj, ?_⟩
    have hskip : ¬ (window.any fun ws =>
      decide (min (j * bc + bc) kvLen + ws ≤ i * br + qStartPos + 1)) = true := by
      intro hany
      cases window with
      | none => simp at hany
      | some w =>
        have := hwin w rfl
        simp only [Option.any_some, decide_eq_true_eq] at hany
        omega
    rw [if_neg (by omega), if_neg (by omega), if_neg hskip]
    simp only [List.mem_flatMap, List.mem_range, List.mem_map, List.mem_filter, Bool.and_eq_true,
      decide_eq_true_eq, Prod.mk.injEq, hall]
    exact ⟨r', hr', c, ⟨hc, ⟨hcausal, hwin⟩, hres⟩, rfl, rfl⟩

theorem mem_flashAttentionForwardStrided (hkv : 0 < nHeadsKv) (hq : 0 < nHeadsQ)
    (hdvd : nHeadsKv ∣ nHeadsQ) (qLen kvLen qStartPos : ℕ) (window : Option ℕ)
    (kvStart : Option (List ℕ)) (r k p : ℕ) :
    ⟨r, k, p⟩ ∈ flashAttentionForwardStrided nHeadsQ nHeadsKv qLen kvLen qStartPos window kvStart ↔
      k < nHeadsKv ∧ r < qLen ∧ p < kvLen ∧ InBand window ((kvStart.getD []).getD k 0)
        (r + qStartPos) p := by
  rw [← mem_flashAttentionHeadFrom (show 0 < 32 by decide) (show 0 < 32 by decide)]
  exact mem_heads hkv hq hdvd
    (fun k => flashAttentionHeadFrom qLen kvLen qStartPos 32 32 window
      ((kvStart.getD []).getD k 0)) r k p

theorem windowFloor_le_iff {window : Option ℕ} (hw : ∀ w, window = some w → 1 ≤ w) (q p : ℕ) :
    windowFloor window q ≤ p ↔ ∀ w, window = some w → q < p + w := by
  cases window with
  | none => simp [windowFloor]
  | some w =>
    have := hw w rfl
    simp only [windowFloor, Option.some.injEq, forall_eq']
    omega

theorem mem_prefillAttentionScores (hkv : 0 < nHeadsKv) (hq : 0 < nHeadsQ)
    (hdvd : nHeadsKv ∣ nHeadsQ) {seqLen qStartPos qWindow : ℕ} {window : Option ℕ}
    (hw : ∀ w, window = some w → 1 ≤ w) (kvStart : Option (List ℕ)) (r k p : ℕ) :
    ⟨r, k, p⟩ ∈ prefillAttentionScores nHeadsQ nHeadsKv seqLen qStartPos qWindow window kvStart ↔
      k < nHeadsKv ∧ seqLen - min qWindow seqLen ≤ r ∧ r < seqLen ∧
        InBand window ((kvStart.getD []).getD k 0) (r + qStartPos) p := by
  have hrow : ∀ start, (r, p) ∈ prefillScoreRows seqLen qStartPos qWindow window start ↔
      seqLen - min qWindow seqLen ≤ r ∧ r < seqLen ∧ InBand window start (r + qStartPos) p := by
    intro start
    unfold InBand
    rw [← windowFloor_le_iff hw, Nat.add_comm r]
    simp only [prefillScoreRows, List.mem_flatMap, List.mem_map, List.mem_range'_1, Prod.mk.injEq]
    constructor
    · rintro ⟨r, hr, p, hp, rfl, rfl⟩
      omega
    · rintro ⟨h₁, h₂, h₃, h₄, h₅⟩
      exact ⟨r, by omega, p, by omega, rfl, rfl⟩
  rw [← hrow]
  exact mem_heads hkv hq hdvd
    (fun k => prefillScoreRows seqLen qStartPos qWindow window ((kvStart.getD []).getD k 0)) r k p

end Kernels

/-! ## The window of the most recent positions -/

/-- The rows a windowed query at the last position is to read. -/
def InWindow (c : KVCache) (window : Option ℕ) (k p : ℕ) : Prop :=
  k < c.kvHeads ∧ max (c.headStartOf k) (c.currentPos - effectiveCacheLen window c.currentPos) ≤ p ∧
    p < c.currentPos

/-- A single query, and the last of several queries, read the window. -/
structure ReadsWindow (b : Backend) (c : KVCache) (dims : AttnDims) : Prop where
  decode : ∃ a, (attentionInto b c dims 1 none).1 = .ok a ∧
    ∀ k p, ⟨0, k, p⟩ ∈ a.out ↔ InWindow c dims.window k p
  prefill : ∀ seqLen qWindow, 1 < seqLen → seqLen ≤ c.currentPos → 1 ≤ qWindow →
    ∃ a, (attentionInto b c dims seqLen (some qWindow)).1 = .ok a ∧
      ∀ k p, (⟨seqLen - 1, k, p⟩ ∈ a.out ↔ InWindow c dims.window k p) ∧
        (⟨seqLen - 1, k, p⟩ ∈ a.scores ↔ InWindow c dims.window k p)

/-- The ragged kernel takes the cache; one that reads the device mirror finds the starts there. -/
def RaggedTakes (b : Backend) (c : KVCache) (kvBase : ℕ) : Prop :=
  match b.raggedKernel with
  | none => c.kBuffer.buffer.isGpuBuffer = false ∧ c.vBuffer.buffer.isGpuBuffer = false ∧
      (c.kvDtype = .f32 ∨ c.kvDtype = .f16)
  | some refuses =>
    refuses c.kBuffer c.headDim kvBase = .ok () ∧
      (kvBase = 0 → ∀ dev, c.headStartDevice.1 = some dev → ∀ k < c.kvHeads,
      min (dev.getD k 0).toInt.toNat c.currentPos = c.headStartOf k)

/-- Decode: all positions are inside the window and no head has a hole; or `Q4_0` on a GPU and no
head starts inside the window; or a ragged cache that the ragged kernel takes. -/
def DecodesWindow (b : Backend) (c : KVCache) (dims : AttnDims) : Prop :=
  let n := c.currentPos
  let effective := effectiveCacheLen dims.window n
  if c.isOpaque then effective = n ∧ ∀ k < c.kvHeads, c.headStartOf k = 0
  else if c.kvDtype = .q4_0 ∧ b.isGpu then ∀ k < c.kvHeads, c.headStartOf k ≤ n - effective
  else if c.isRagged then RaggedTakes b c (n - effective)
  else effective = n

/-- Prefill on a device kernel, which gets no window: every head starts inside the window. -/
def PrefillsWindow (b : Backend) (c : KVCache) (dims : AttnDims) : Prop :=
  2 ≤ c.currentPos → c.isOpaque = false → b.isGpu && c.kBuffer.buffer.isGpuBuffer &&
    b.flashAttentionPrefill c.kBuffer c.headDim (if c.isRagged then some c.headStarts else none) →
    ∀ k < c.kvHeads, c.currentPos - effectiveCacheLen dims.window c.currentPos ≤ c.headStartOf k

section Window

variable {b : Backend} {c : KVCache} {dims : AttnDims}

theorem effectiveCacheLen_le (window : Option ℕ) (n : ℕ) : effectiveCacheLen window n ≤ n := by
  cases window with
  | none => exact le_rfl
  | some w => exact Nat.min_le_left _ _

theorem effectiveCacheLen_pos {window : Option ℕ} (hw : ∀ w, window = some w → 1 ≤ w)
    {n : ℕ} (hn : 0 < n) : 0 < effectiveCacheLen window n := by
  cases window with
  | none => exact hn
  | some w => exact Nat.lt_min.mpr ⟨hn, hw w rfl⟩

theorem inBand_last {window : Option ℕ} (hw : ∀ w, window = some w → 1 ≤ w) {n : ℕ}
    (hn : 0 < n) (start p : ℕ) : InBand window start (n - 1) p ↔
    max start (n - effectiveCacheLen window n) ≤ p ∧ p < n := by
  unfold InBand
  rw [← windowFloor_le_iff hw]
  cases window with
  | none =>
    simp only [windowFloor, effectiveCacheLen]
    omega
  | some w =>
    have := hw w rfl
    simp only [windowFloor, effectiveCacheLen]
    omega

theorem plain_iff (hkv : 0 < c.kvHeads) (hc : c.WF) (hw : ∀ w, dims.window = some w → 1 ≤ w) :
    (∀ k p, (k < c.kvHeads ∧ p < effectiveCacheLen dims.window c.currentPos) ↔
      InWindow c dims.window k p) ↔
      effectiveCacheLen dims.window c.currentPos = c.currentPos ∧ ∀ k < c.kvHeads,
        c.headStartOf k = 0 := by
  have hle := effectiveCacheLen_le dims.window c.currentPos
  have hstart := hc.starts
  unfold InWindow
  constructor
  · intro h
    rcases Nat.eq_zero_or_pos c.currentPos with h0 | hpos
    · exact ⟨by omega, fun k _ => by have := hstart k; omega⟩
    · have heff := effectiveCacheLen_pos hw hpos
      refine ⟨?_, fun k hk => ?_⟩
      · have := ((h 0 0).mp ⟨hkv, heff⟩).2.1
        omega
      · have := ((h k 0).mp ⟨hk, heff⟩).2.1
        omega
  · rintro ⟨hfull, hzero⟩ k p
    refine and_congr_right fun hk => ?_
    have := hzero k hk
    omega

/-- The slots from the window's start on are the window where no head starts inside it. -/
theorem tail_iff (hc : c.WF) (hw : ∀ w, dims.window = some w → 1 ≤ w) :
    (∀ k p, (k < c.kvHeads ∧ c.currentPos - effectiveCacheLen dims.window c.currentPos ≤ p ∧
    p < c.currentPos) ↔
      InWindow c dims.window k p) ↔
      ∀ k < c.kvHeads, c.headStartOf k ≤ c.currentPos -
        effectiveCacheLen dims.window c.currentPos := by
  have hle := effectiveCacheLen_le dims.window c.currentPos
  have hstart := hc.starts
  unfold InWindow
  constructor
  · intro h k hk
    rcases Nat.eq_zero_or_pos c.currentPos with h0 | hpos
    · have := hstart k
      omega
    · have heff := effectiveCacheLen_pos hw hpos
      have := ((h k _).mp ⟨hk, le_rfl, by omega⟩).2.1
      omega
  · intro h k p
    refine and_congr_right fun hk => ?_
    have := h k hk
    omega

theorem from_iff (hc : c.WF) (first : ℕ → ℕ) :
    (∀ k p, (k < c.kvHeads ∧ first k ≤ p ∧ p < c.currentPos) ↔ InWindow c dims.window k p) ↔
      ∀ k < c.kvHeads, min (first k) c.currentPos =
        max (c.headStartOf k) (c.currentPos - effectiveCacheLen dims.window c.currentPos) := by
  have hstart := hc.starts
  unfold InWindow
  constructor
  · intro h k hk
    have hs := hstart k
    have hlo : ∀ p, (first k ≤ p ∧ p < c.currentPos) ↔
        max (c.headStartOf k) (c.currentPos - effectiveCacheLen dims.window c.currentPos) ≤ p ∧
        p < c.currentPos :=
      fun p => (and_congr_right_iff.mp (h k p)) hk
    have h₁ := hlo (first k)
    have h₂ := hlo (max (c.headStartOf k)
      (c.currentPos - effectiveCacheLen dims.window c.currentPos))
    omega
  · intro h k p
    refine and_congr_right fun hk => ?_
    have := h k hk
    omega

theorem currentPos_le_derived (hc : c.WF) (hkv : 0 < c.kvHeads) (hdim : 0 < c.headDim)
    (hf : c.kvDtype = .f16 ∨ c.kvDtype = .f32) :
    c.currentPos ≤ c.kBuffer.size / c.kBuffer.dtype.size / (max c.kvHeads 1 * max c.headDim 1) := by
  have hsize : c.capacity * c.kvHeads * c.rowBytes ≤ c.kBuffer.size := hc.size .key
  have helem : 0 < c.kBuffer.dtype.size := by
    rcases hf with h | h
    · rw [show c.kBuffer.dtype = .f16 from h]; decide
    · rw [show c.kBuffer.dtype = .f32 from h]; decide
  rw [Nat.max_eq_left hkv, Nat.max_eq_left hdim, Nat.div_div_eq_div_mul,
    Nat.le_div_iff_mul_le (Nat.mul_pos helem (Nat.mul_pos hkv hdim))]
  refine le_trans (Nat.mul_le_mul_right _ hc.pos) (le_trans (le_of_eq ?_) hsize)
  rw [rowBytes_of_float hc.stored hf, show c.kvDtype = c.kBuffer.dtype from rfl]
  ring

/-- **The ragged branch** reads the window exactly when its kernel takes the cache. -/
theorem ragged_iff (hc : c.WF) (hkv : 0 < c.kvHeads) (hdim : 0 < c.headDim) (hq : 0 < dims.nHeadsQ)
    (hdvd : c.kvHeads ∣ dims.nHeadsQ) :
    (∃ reads, attentionGenRagged b c.kBuffer c.vBuffer dims.nHeadsQ c.kvHeads c.headDim
      ((List.range c.kvHeads).map fun h => max (c.headStartOf h)
        (c.currentPos - effectiveCacheLen dims.window c.currentPos)) c.headStartDevice.1
      (c.currentPos - effectiveCacheLen dims.window c.currentPos) c.currentPos = .ok reads ∧
        ∀ k p, ⟨0, k, p⟩ ∈ reads ↔ InWindow c dims.window k p) ↔
      RaggedTakes b c (c.currentPos - effectiveCacheLen dims.window c.currentPos) := by
  have hstart := hc.starts
  generalize hbase : c.currentPos - effectiveCacheLen dims.window c.currentPos = base
  have hget : ∀ k < c.kvHeads,
    ((List.range c.kvHeads).map fun h => max (c.headStartOf h) base).getD k 0 =
      max (c.headStartOf k) base := by
    intro k hk
    rw [List.getD_eq_getElem _ _ (by simpa using hk)]
    simp
  have hratio : max (dims.nHeadsQ / c.kvHeads) 1 = dims.nHeadsQ / c.kvHeads :=
    Nat.max_eq_left (Nat.div_pos (Nat.le_of_dvd hq hdvd) hkv)
  unfold attentionGenRagged RaggedTakes
  cases hk : b.raggedKernel with
  | none =>
    simp only [attentionGenRaggedDefault]
    by_cases hgpu : (c.kBuffer.buffer.isGpuBuffer || c.vBuffer.buffer.isGpuBuffer) = true
    · rw [if_pos hgpu]
      refine iff_of_false (fun ⟨_, h, _⟩ => by cases h) fun h => ?_
      simp [h.1, h.2.1] at hgpu
    rw [if_neg hgpu]
    rw [Bool.or_eq_true, not_or, Bool.not_eq_true, Bool.not_eq_true] at hgpu
    by_cases hdt : c.kBuffer.dtype ≠ .f32 ∧ c.kBuffer.dtype ≠ .f16
    · rw [if_pos hdt]
      exact iff_of_false (fun ⟨_, h, _⟩ => by cases h) fun h => h.2.2.elim hdt.1 hdt.2
    have hf : c.kvDtype = .f32 ∨ c.kvDtype = .f16 := by
      by_contra hne
      rw [not_or] at hne
      exact hdt hne
    have hcap := currentPos_le_derived hc hkv hdim hf.symm
    rw [if_neg hdt, if_neg (by simp only [List.length_map, List.length_range]; omega), hratio]
    refine iff_of_true ⟨_, rfl, ?_⟩ ⟨hgpu.1, hgpu.2, hf⟩
    simp only [mem_readsFrom hkv hq hdvd]
    refine (from_iff hc _).mpr fun k hk => ?_
    have := hstart k
    rw [hget k hk, hbase]
    omega
  | some refuses =>
    simp only
    cases href : refuses c.kBuffer c.headDim base with
    | error e => exact iff_of_false (fun ⟨_, h, _⟩ => by cases h) fun h => by cases h.1
    | ok u =>
      simp only [Except.ok.injEq, exists_eq_left', mem_readsFrom hkv hq hdvd, true_and,
        from_iff hc, hbase]
      cases hdev : c.headStartDevice.1 with
      | none =>
        refine iff_of_true (fun k hk => ?_) fun _ dev hd => by cases hd
        have := hstart k
        simp only
        rw [hget k hk]
        omega
      | some dev =>
        by_cases h0 : base = 0
        · simp only [h0, if_true, true_implies, Option.some.injEq, forall_eq', Nat.max_zero]
        · refine iff_of_true (fun k hk => ?_) fun h => absurd h h0
          have := hstart k
          simp only [if_neg h0]
          rw [hget k hk]
          omega

/-- **Decode reads the window** exactly under `DecodesWindow`. -/
theorem decode_iff (hc : c.WF) (hkv : 0 < c.kvHeads) (hdim : 0 < c.headDim) (hq : 0 < dims.nHeadsQ)
    (hdvd : c.kvHeads ∣ dims.nHeadsQ) (hw : ∀ w, dims.window = some w → 1 ≤ w) :
    (∃ a, (attentionInto b c dims 1 none).1 = .ok a ∧ ∀ k p, ⟨0, k, p⟩ ∈ a.out ↔
      InWindow c dims.window k p) ↔
      DecodesWindow b c dims := by
  have hle := effectiveCacheLen_le dims.window c.currentPos
  unfold attentionInto DecodesWindow attentionOpaque
  simp only [Nat.lt_irrefl, gt_iff_lt, if_false]
  split_ifs with ho hq4 hr
  · simp only [Except.ok.injEq, exists_eq_left', mem_attentionGen hkv hq hdvd]
    exact plain_iff hkv hc hw
  · simp only [Except.ok.injEq, exists_eq_left', mem_attentionQ4GpuFallback hkv hq hdvd]
    rw [Nat.sub_add_cancel hle]
    exact tail_iff hc hw
  · rw [← ragged_iff hc hkv hdim hq hdvd]
    generalize attentionGenRagged b _ _ _ _ _ _ _ _ _ = r
    cases r with
    | error e => exact iff_of_false (fun ⟨_, h, _⟩ => by cases h) fun ⟨_, h, _⟩ => by cases h
    | ok reads => simp only [Except.map, Except.ok.injEq, exists_eq_left']
  · simp only [Except.ok.injEq, exists_eq_left', mem_attentionGen hkv hq hdvd]
    rw [plain_iff hkv hc hw, and_iff_left]
    exact fun k _ => headStartOf_eq_zero (by simpa using hr) k

theorem inWindow_last (hw : ∀ w, dims.window = some w → 1 ≤ w) {n : ℕ} (hn : 0 < n)
    (hpos : c.currentPos = n) {kvStart : Option (List ℕ)}
    (hs : ∀ k < c.kvHeads, (kvStart.getD []).getD k 0 = c.headStartOf k) (k p : ℕ) :
    (k < c.kvHeads ∧ p < n ∧ InBand dims.window ((kvStart.getD []).getD k 0) (n - 1) p) ↔
      InWindow c dims.window k p := by
  unfold InWindow
  rw [hpos]
  refine and_congr_right fun hk => ?_
  rw [hs k hk, inBand_last hw hn]
  omega

/-- **The last query of a typed prefill reads the window** unless a device kernel takes the call and
some head starts in front of the window. -/
theorem prefill_iff (hc : c.WF) (hkv : 0 < c.kvHeads) (hq : 0 < dims.nHeadsQ)
    (hdvd : c.kvHeads ∣ dims.nHeadsQ) (hw : ∀ w, dims.window = some w → 1 ≤ w)
    (ho : c.isOpaque = false) {seqLen qWindow : ℕ} (hseq : 1 < seqLen) (hle : seqLen ≤ c.currentPos)
    (hqw : 1 ≤ qWindow) : (∃ a, (attentionInto b c dims seqLen (some qWindow)).1 = .ok a ∧
      ∀ k p, (⟨seqLen - 1, k, p⟩ ∈ a.out ↔ InWindow c dims.window k p) ∧
        (⟨seqLen - 1, k, p⟩ ∈ a.scores ↔ InWindow c dims.window k p)) ↔
    (b.isGpu && c.kBuffer.buffer.isGpuBuffer &&
      b.flashAttentionPrefill c.kBuffer c.headDim (if c.isRagged then some c.headStarts else none) →
      ∀ k < c.kvHeads, c.currentPos - effectiveCacheLen dims.window c.currentPos ≤
        c.headStartOf k) := by
  have hs : ∀ k < c.kvHeads, ((if c.isRagged then some c.headStarts else none).getD []).getD k 0 =
    c.headStartOf k := by
    intro k hk
    split_ifs with hr
    · exact headStarts_getD c hk
    · exact (headStartOf_eq_zero (by simpa using hr) k).symm
  have hlast : seqLen - 1 + (c.currentPos - seqLen) = c.currentPos - 1 := by omega
  have hpos : 0 < c.currentPos := by omega
  have hin := inWindow_last hw hpos rfl hs
  have hscores : ∀ k p, ⟨seqLen - 1, k, p⟩ ∈ prefillAttentionScores dims.nHeadsQ c.kvHeads seqLen
      (c.currentPos - seqLen) qWindow dims.window (if c.isRagged then some c.headStarts else none) ↔
      InWindow c dims.window k p := by
    intro k p
    rw [mem_prefillAttentionScores hkv hq hdvd hw, hlast, ← hin k p]
    refine and_congr_right fun _ => ⟨fun h => ⟨?_, h.2.2⟩, fun h => ⟨by omega, by omega, h.2⟩⟩
    have := h.2.2.1
    omega
  unfold attentionInto prefillAttention
  simp only [ho, Bool.false_eq_true, if_false, if_pos hseq, Except.ok.injEq, exists_eq_left',
    hscores, and_true]
  generalize hkv' : (if c.isRagged then some c.headStarts else none) = starts at *
  by_cases hd : (b.isGpu && c.kBuffer.buffer.isGpuBuffer && b.flashAttentionPrefill c.kBuffer
    c.headDim starts) = true
  · simp only [hd, if_true, true_implies, mem_flashAttentionForwardStrided hkv hq hdvd, hlast]
    have hnone : ∀ k p, (k < c.kvHeads ∧ seqLen - 1 < seqLen ∧ p < c.currentPos ∧
        InBand none ((starts.getD []).getD k 0) (c.currentPos - 1) p) ↔
        (k < c.kvHeads ∧ c.headStartOf k ≤ p ∧ p < c.currentPos) := by
      intro k p
      refine and_congr_right fun hk => ?_
      rw [hs k hk]
      simp only [InBand, reduceCtorEq, false_implies, implies_true, true_and]
      omega
    simp only [hnone]
    rw [from_iff hc]
    refine forall_congr' fun k => forall_congr' fun hk => ?_
    have := hc.starts k
    omega
  · rw [Bool.not_eq_true] at hd
    simp only [hd, Bool.false_eq_true, if_false,
      mem_flashAttentionForwardStrided hkv hq hdvd, hlast]
    refine iff_of_true (fun k p => ?_) fun h => h.elim
    rw [← hin k p]
    refine and_congr_right fun _ => ⟨fun h => h.2, fun h => ⟨by omega, h⟩⟩

/-- An opaque cache without holes and inside the window: the window is everything. -/
theorem prefill_opaque (hkv : 0 < c.kvHeads) (hq : 0 < dims.nHeadsQ)
    (hdvd : c.kvHeads ∣ dims.nHeadsQ) (hw : ∀ w, dims.window = some w → 1 ≤ w)
    (hfull : effectiveCacheLen dims.window c.currentPos = c.currentPos)
    (hzero : ∀ k < c.kvHeads, c.headStartOf k = 0) {seqLen qWindow : ℕ} (hseq : 1 < seqLen)
    (hle : seqLen ≤ c.currentPos) (hqw : 1 ≤ qWindow) (k p : ℕ) :
    (⟨seqLen - 1, k, p⟩ ∈ (attentionOpaque b c dims seqLen (some qWindow)).out ↔
      InWindow c dims.window k p) ∧
      (⟨seqLen - 1, k, p⟩ ∈ (attentionOpaque b c dims seqLen (some qWindow)).scores ↔
        InWindow c dims.window k p) := by
  have hlast : seqLen - 1 + (c.currentPos - seqLen) = c.currentPos - 1 := by omega
  have hpos : 0 < c.currentPos := by omega
  have hnone : ∀ k < c.kvHeads, ((none : Option (List ℕ)).getD []).getD k 0 = c.headStartOf k :=
    fun k hk => (hzero k hk).symm
  have hin := inWindow_last hw hpos rfl hnone k p
  have hall : ∀ window : Option ℕ, (window = none ∨ window = dims.window) →
      (⟨seqLen - 1, k, p⟩ ∈ flashAttentionForwardStrided dims.nHeadsQ c.kvHeads seqLen c.currentPos
        (c.currentPos - seqLen) window none ↔ InWindow c dims.window k p) := by
    rintro window (rfl | rfl)
    · rw [mem_flashAttentionForwardStrided hkv hq hdvd, hlast]
      unfold InWindow
      refine and_congr_right fun hk => ?_
      have := hzero k hk
      simp only [InBand, reduceCtorEq, false_implies, implies_true, true_and,
        Option.getD_none, List.getD_nil]
      omega
    · rw [mem_flashAttentionForwardStrided hkv hq hdvd, hlast, ← hin]
      refine and_congr_right fun _ => ⟨fun h => h.2, fun h => ⟨by omega, h⟩⟩
  have hscores : ⟨seqLen - 1, k, p⟩ ∈ prefillAttentionScores dims.nHeadsQ c.kvHeads seqLen
      (c.currentPos - seqLen) qWindow dims.window none ↔ InWindow c dims.window k p := by
    rw [mem_prefillAttentionScores hkv hq hdvd hw, hlast, ← hin]
    refine and_congr_right fun _ => ⟨fun h => ⟨?_, h.2.2⟩, fun h => ⟨by omega, by omega, h.2⟩⟩
    have := h.2.2.1
    omega
  unfold attentionOpaque
  simp only [gt_iff_lt, if_pos hseq]
  cases q2Mirror b c with
  | none => exact ⟨hall _ (.inr rfl), hscores⟩
  | some kDev =>
    unfold prefillAttention
    simp only
    refine ⟨?_, hscores⟩
    split_ifs
    · exact hall _ (.inl rfl)
    · exact hall _ (.inr rfl)

end Window

/-- **Windowed attention reads the most recent positions** exactly when `DecodesWindow` and
`PrefillsWindow` hold of the cache, the backend and the window. -/
theorem readsWindow_iff (b : Backend) {c : KVCache} (hc : c.WF) (hkv : 0 < c.kvHeads)
    (hdim : 0 < c.headDim) {dims : AttnDims} (hq : 0 < dims.nHeadsQ)
    (hdvd : c.kvHeads ∣ dims.nHeadsQ) (hw : ∀ w, dims.window = some w → 1 ≤ w) :
    ReadsWindow b c dims ↔ DecodesWindow b c dims ∧ PrefillsWindow b c dims := by
  have hdecode := decode_iff (b := b) hc hkv hdim hq hdvd hw
  constructor
  · intro h
    refine ⟨hdecode.mp h.decode, fun hn ho => ?_⟩
    exact (prefill_iff hc hkv hq hdvd hw ho (Nat.lt_succ_self 1) hn le_rfl).mp
      (h.prefill 2 1 (by omega) hn le_rfl)
  · rintro ⟨hd, hp⟩
    refine ⟨hdecode.mpr hd, fun seqLen qWindow hseq hle hqw => ?_⟩
    cases ho : c.isOpaque with
    | false => exact (prefill_iff hc hkv hq hdvd hw ho hseq hle hqw).mpr (hp (by omega) ho)
    | true =>
      unfold DecodesWindow at hd
      simp only [ho, if_true] at hd
      unfold attentionInto
      simp only [ho, if_true]
      exact ⟨_, rfl, prefill_opaque hkv hq hdvd hw hd.1 hd.2 hseq hle hqw⟩

/-- The CPU backend. -/
def cpuBackend : Backend := ⟨"CPU", false, none, false, false, fun _ _ _ => false, none⟩

/-- The ragged cache of three positions under a window of one: both heads read position `2` only. -/
theorem readsWindow_ragged : ReadsWindow cpuBackend raggedCache ⟨2, some 1⟩ := by
  refine (readsWindow_iff cpuBackend raggedCache_wf (by decide) (by decide) (by decide)
    (by decide) ?_).mpr ⟨?_, ?_⟩
  · rintro w ⟨⟩
    exact le_rfl
  · exact ⟨rfl, rfl, .inl rfl⟩
  · rintro - - ⟨⟩

/-- **A windowed decode reads the oldest position.** A uniform F32 cache of three positions on the
CPU, window one: the single query reads slot `0` where the window is slot `2`. -/
theorem decode_reads_oldest :
    ¬ ReadsWindow cpuBackend { raggedCache with headStart := [] } ⟨2, some 1⟩ := by
  rintro ⟨⟨a, ha, hreads⟩, -⟩
  cases ha
  have hin : InWindow { raggedCache with headStart := [] } (some 1) 0 0 :=
    (hreads 0 0).mp (by decide)
  exact absurd hin.2.1 (by decide)

end ArgusEngine
