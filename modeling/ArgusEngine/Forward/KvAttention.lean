import ArgusEngine.Attn.Ragged
import ArgusEngine.Forward.Ops
import ArgusEngine.Kv.Ledger
import ArgusEngine.Lib.Cursor
import Mathlib.Data.List.MinMax

/-!
# The cache of a layer, as a forward pass uses it

A layer writes the keys and values of its rows to the cache and attends over what the cache then
holds: several rows at once in a prefill, one in a decode step. The cache is the byte-level
`KVCache` of this development, F32 or F16; the values in it are those that the stores have rounded.

* `FloatCodec`: floats in memory;
* `writeKv`, `attentionInto`: the two calls on the host;
* `tokens_writeKv`: a write appends the tokens of its rows, or fails where the cache is full;
* `attended`: what a query head gets over a list of tokens;
* **`attentionInto_prefill`**, **`attentionInto_decode`**: each row of a prefill gets its own tokens
  and those before it; a decode step gets the first tokens of the cache, as many as its window
  holds.
-/

namespace ArgusEngine.Forward

open Attn RowMajor FlatMem SlotMem OnlineSoftmax KVCache

/-! ## Floats in memory -/

/-- The bytes of `f32` and `f16` values; a value that does not fit is rounded. -/
structure FloatCodec (K : Type*) where
  ofF32 : List UInt8 → K
  toF32 : K → List UInt8
  ofF16 : List UInt8 → K
  toF16 : K → List UInt8
  length_toF32 : ∀ x, (toF32 x).length = 4
  length_toF16 : ∀ x, (toF16 x).length = 2

variable {K : Type*}

namespace FloatCodec

variable (C : FloatCodec K)

def decode (dtype : DType) (b : List UInt8) : K :=
  match dtype with
  | .f16 => C.ofF16 b
  | _ => C.ofF32 b

def encode (dtype : DType) (x : K) : List UInt8 :=
  match dtype with
  | .f16 => C.toF16 x
  | _ => C.toF32 x

/-- A host tensor of `n` values, cast to `dtype`. -/
def tensor (dtype : DType) (shape : List ℕ) (n : ℕ) (f : ℕ → K) : Tensor :=
  ⟨shape, ⟨dtype, none, (List.range n).flatMap fun i => C.encode dtype (f i), 4096,
    false, true⟩, false⟩

/-- The values of a tensor, as the kernels read them. -/
def floats (dtype : DType) (t : Tensor) : ℕ → K :=
  fun i => C.decode dtype (slice t.bytes (i * dtype.size) dtype.size)

/-- The rows that a token gets from its key and its value, in a cache of `kvHeads` heads. -/
def token (dtype : DType) (kvHeads headDim : ℕ) (k v : ℕ → K) : Token := fun x h =>
  if h < kvHeads then
    (List.range headDim).flatMap fun d =>
      C.encode dtype ((match x with | .key => k | .value => v) (h * headDim + d))
  else []

/-- Entry `d` of head `h` of a token. -/
def element (dtype : DType) (t : Token) (x : Half) (h d : ℕ) : K :=
  C.decode dtype (slice (t x h) (d * dtype.size) dtype.size)

variable {C}

theorem length_encode {dtype : DType} (h : dtype = .f16 ∨ dtype = .f32) (x : K) :
    (C.encode dtype x).length = dtype.size := by
  rcases h with rfl | rfl
  · exact C.length_toF16 x
  · exact C.length_toF32 x

end FloatCodec

section Ieee

variable (expBits mantBits : ℕ)

/-- The value of a finite bit pattern. -/
noncomputable def ieeeValue (n : ℕ) : ℝ :=
  let mant := n % 2 ^ mantBits
  let e := n / 2 ^ mantBits % 2 ^ expBits
  let bias : ℤ := 2 ^ (expBits - 1) - 1
  let radix : ℝ := (2 : ℕ)
  let mag : ℝ :=
    if e = 0 then mant * radix ^ (1 - bias - mantBits)
    else (2 ^ mantBits + mant : ℕ) * radix ^ ((e : ℤ) - bias - mantBits)
  if n < 2 ^ (expBits + mantBits) then mag else -mag

/-- A finite bit pattern nearest to a number, the first of them where there are two. -/
noncomputable def ieeeNearest (x : ℝ) : ℕ :=
  (((List.range (2 ^ (1 + expBits + mantBits))).filter fun n => n / 2 ^ mantBits % 2 ^ expBits ≠
    2 ^ expBits - 1).argmin fun n => |ieeeValue expBits mantBits n - x|).getD 0

end Ieee

/-- The floats of IEEE 754 over the reals. -/
noncomputable def FloatCodec.real : FloatCodec ℝ where
  ofF32 b := ieeeValue 8 23 (ofLe b)
  toF32 x := toLe 4 (ieeeNearest 8 23 x)
  ofF16 b := ieeeValue 5 10 (ofLe b)
  toF16 x := toLe 2 (ieeeNearest 5 10 x)
  length_toF32 _ := length_toLe 4 _
  length_toF16 _ := length_toLe 2 _

/-! ## The two calls -/

section Calls

variable [Field K] [LinearOrder K]

/-- The machine of a forward pass: its functions, its floats, the order in which the heads and tasks
of a parallel loop run at a layer and a position, and what the workspace held before. -/
structure Host (K : Type*) [Field K] [LinearOrder K] where
  F : MathOps K
  codec : FloatCodec K
  platform : Platform
  aarch64 : Bool
  order : (layer pos n : ℕ) → List ℕ
  perm : ∀ layer pos n, (order layer pos n).Perm (List.range n)
  workspace : (layer pos : ℕ) → ℕ → K

variable (H : Host K)

/-- `write_kv` and `write_kv_batch` on the host: a cache that is not F32 needs an allocator for the
cast. -/
def writeKv (c : KVCache) (seqLen nHeadsKv headDim : ℕ) (newK newV : ℕ → K) : Option KVCache :=
  if c.kvDtype ≠ .f32 ∧ c.memory = none then none
  else
    let shape := [1, seqLen, nHeadsKv, headDim]
    let n := seqLen * (nHeadsKv * headDim)
    match c.update H.platform (H.codec.tensor c.kvDtype shape n newK)
      (H.codec.tensor c.kvDtype shape n newV) with
    | (.ok _, c) => some c
    | (.error _, _) => none

/-- What `prefill_attention` passes to the kernel. -/
def prefillArgs (c : KVCache) (nHeadsQ seqLen : ℕ) (window : Option ℕ) : ForwardArgs :=
  let headMajor := c.layout = .headMajor
  { nHeadsQ := nHeadsQ
    nHeadsKv := c.kvHeads
    qLen := seqLen
    kvLen := c.currentPos
    headDim := c.headDim
    qStride := nHeadsQ * c.headDim
    kStride := if headMajor then c.headDim else c.kvHeads * c.headDim
    vStride := if headMajor then c.headDim else c.kvHeads * c.headDim
    outStride := nHeadsQ * c.headDim
    kvHeadStride := if headMajor then c.capacity * c.headDim else c.headDim
    qStartPos := c.currentPos - seqLen
    windowSize := window
    kvStart := if c.isRagged then some c.headStarts else none }

/-- What a decode step passes to `attention_gen`. -/
def decodeArgs (c : KVCache) (nHeadsQ : ℕ) (window : Option ℕ) : DecodeArgs where
  numHeadsQ := nHeadsQ
  numHeadsKv := c.kvHeads
  headDim := c.headDim
  cacheSeqLen := effectiveCacheLen window c.currentPos
  kShape := c.kBuffer.shape
  scoresOut := none

/-- What a decode step over a ragged cache passes to `attention_gen_ragged`. -/
def raggedArgs (c : KVCache) (nHeadsQ : ℕ) (window : Option ℕ) : RaggedArgs where
  numHeadsQ := nHeadsQ
  numHeadsKv := c.kvHeads
  headDim := c.headDim
  capacity := c.capacity
  kvStart := (List.range c.kvHeads).map fun h =>
    max (c.headStartOf h) (c.currentPos - effectiveCacheLen window c.currentPos)
  kvBase := c.currentPos - effectiveCacheLen window c.currentPos
  cacheSeqLen := c.currentPos
  scoresOut := none

/-- `attention_into` on the host, over a cache that is not opaque. -/
def attentionInto (layer pos : ℕ) (c : KVCache) (seqLen nHeadsQ : ℕ) (window : Option ℕ)
    (q : ℕ → K) : Option (ℕ → K) :=
  let k := H.codec.floats c.kvDtype c.kBuffer
  let v := H.codec.floats c.kvDtype c.vBuffer
  let before : Attn.Written K := ⟨H.workspace layer pos, fun _ => 0⟩
  if seqLen > 1 then
    let a := prefillArgs c nHeadsQ seqLen window
    some (flashAttentionForward H.F.toFloatOps a q k v H.aarch64 32 32 (H.order layer pos nHeadsQ)
      (H.order layer pos (prefillTasks a)) fun _ => 0)
  else if c.isRagged then
    (Attn.attentionGenRagged H.F.toFloatOps q (numbers k) v (raggedArgs c nHeadsQ window)
      (H.order layer pos nHeadsQ) before).map Attn.Written.out
  else
    some (Attn.attentionGen H.F.toFloatOps q (numbers k) v (decodeArgs c nHeadsQ window)
      (H.order layer pos nHeadsQ) before).out

end Calls

/-! ## Writes -/

/-- A cache as a forward pass finds it: uniform, F32 or F16, grown on demand, and its shape not to
be taken for a SeqMajor one. -/
structure Serving (c : KVCache) : Prop where
  plain : c.Plain
  dynamic : c.memory.isSome = true
  shape : c.kBuffer.shape = [1, c.kvHeads, c.capacity, c.headDim]
  wide : c.kvHeads < c.capacity

section Writes

theorem slice_flatMap_run {α : Type*} {g : ℕ → List α} {L n a m : ℕ}
    (hg : ∀ h < n, (g h).length = L) (h : a + m ≤ n) :
    slice ((List.range n).flatMap g) (a * L) (m * L) = (List.range m).flatMap fun d =>
      g (a + d) := by
  obtain ⟨r, rfl⟩ := Nat.exists_eq_add_of_le h
  have hfront : ((List.range a).flatMap g).length = a * L := length_flatMap_range fun x hx =>
    hg x (by omega)
  have hmid : ((List.range m).flatMap fun d => g (a + d)).length = m * L :=
    length_flatMap_range fun x hx => hg _ (by omega)
  rw [Nat.add_assoc, List.range_add, List.range_add, List.flatMap_append, List.map_append,
    List.flatMap_append, List.flatMap_map]
  unfold slice
  rw [← hfront, List.drop_left, ← hmid]
  exact List.take_left

variable {C : FloatCodec K} {c : KVCache} {seqLen : ℕ} {newK newV : ℕ → K}

/-- The tokens that a write appends. -/
def newTokens (C : FloatCodec K) (c : KVCache) (seqLen : ℕ) (newK newV : ℕ → K) : List Token :=
  (List.range seqLen).map fun s =>
    C.token c.kvDtype c.kvHeads c.headDim (row (c.kvHeads * c.headDim) s newK)
      (row (c.kvHeads * c.headDim) s newV)

theorem inputRow_tensor (hc : c.Plain) {P : Platform} {f : ℕ → K} {s h : ℕ} (hs : s < seqLen)
    (hh : h < c.kvHeads) (shape : List ℕ) :
    c.inputRow P (C.tensor c.kvDtype shape (seqLen * (c.kvHeads * c.headDim)) f) s h =
      (List.range c.headDim).flatMap fun d =>
        C.encode c.kvDtype (row (c.kvHeads * c.headDim) s f (h * c.headDim + d)) := by
  have hdesc : c.kBuffer.buffer.desc = none := by
    have ho := hc.isOpaque
    unfold KVCache.isOpaque at ho
    cases hd : c.kBuffer.buffer.desc with
    | none => rfl
    | some d =>
      rw [hd] at ho
      exact absurd ho (by simp)
  have hrow := rowBytes_of_float hc.wf.stored hc.float
  have hbound : s * (c.kvHeads * c.headDim) + h * c.headDim + c.headDim ≤ seqLen *
    (c.kvHeads * c.headDim) := by
    calc s * (c.kvHeads * c.headDim) + h * c.headDim + c.headDim
        = s * (c.kvHeads * c.headDim) + (h + 1) * c.headDim := by rw [Nat.add_assoc, Nat.succ_mul]
      _ ≤ s * (c.kvHeads * c.headDim) + c.kvHeads * c.headDim :=
        Nat.add_le_add_left (Nat.mul_le_mul_right _ hh) _
      _ = (s + 1) * (c.kvHeads * c.headDim) := (Nat.succ_mul _ _).symm
      _ ≤ seqLen * (c.kvHeads * c.headDim) := Nat.mul_le_mul_right _ hs
  unfold inputRow
  rw [hdesc]
  change slice ((List.range _).flatMap _) ((s * c.kvHeads + h) * c.rowBytes) c.rowBytes = _
  have hoff : (s * c.kvHeads + h) * c.rowBytes = (s * (c.kvHeads * c.headDim) + h * c.headDim) *
    c.kvDtype.size := by
    rw [hrow]
    ring
  rw [hoff, hrow, slice_flatMap_run (fun i _ => FloatCodec.length_encode hc.float (f i)) hbound]
  unfold row
  simp only [Nat.add_assoc]

theorem inputTokens_tensor (hc : c.Plain) {P : Platform} :
    inputTokens P c (C.tensor c.kvDtype [1, seqLen, c.kvHeads, c.headDim]
      (seqLen * (c.kvHeads * c.headDim)) newK) (C.tensor c.kvDtype [1, seqLen, c.kvHeads, c.headDim]
      (seqLen * (c.kvHeads * c.headDim)) newV) = newTokens C c seqLen newK newV := by
  unfold inputTokens newTokens
  refine List.map_congr_left fun s hs => ?_
  have hs' : s < seqLen := List.mem_range.mp hs
  funext x h
  unfold FloatCodec.token
  split_ifs with hh
  · cases x
    · exact inputRow_tensor hc hs' hh _
    · exact inputRow_tensor hc hs' hh _
  · rfl

theorem input_tensor (hc : c.Plain) :
    c.Input (C.tensor c.kvDtype [1, seqLen, c.kvHeads, c.headDim]
      (seqLen * (c.kvHeads * c.headDim)) newK) (C.tensor c.kvDtype [1, seqLen, c.kvHeads, c.headDim]
      (seqLen * (c.kvHeads * c.headDim)) newV) seqLen where
  seqLen := rfl
  dtype _ x := by cases x <;> rfl
  size _ x := by
    have hsize : ∀ f : ℕ → K,
      (C.tensor c.kvDtype [1, seqLen, c.kvHeads, c.headDim]
        (seqLen * (c.kvHeads * c.headDim)) f).size = seqLen * (c.kvHeads * c.headDim) *
          c.kvDtype.size := fun f =>
      length_flatMap_range fun i _ => FloatCodec.length_encode hc.float (f i)
    have hrow := rowBytes_of_float hc.wf.stored hc.float
    have hsame : seqLen * c.kvHeads * c.rowBytes = seqLen * (c.kvHeads * c.headDim) *
      c.kvDtype.size := by
      rw [hrow]
      ring
    cases x
    · exact (hsame.trans (hsize newK).symm).le
    · exact (hsame.trans (hsize newV).symm).le

theorem shape_copyResident (c : KVCache) (cap : ℕ) (old new : Tensor) :
    (c.copyResident cap old new).shape = new.shape := by
  obtain ⟨b, -, hb⟩ := c.copyResident_eq cap old new
  rw [hb]
  rfl

theorem shape_reallocTo (c : KVCache) (m : Memory) (cap size : ℕ) :
    (c.reallocTo m cap size).kBuffer.shape = c.shapeAt cap := by
  have halloc : (c.allocTensor m size cap).1.shape = c.shapeAt cap := by
    unfold allocTensor
    split
    rfl
  exact (shape_copyResident c cap c.kBuffer _).trans halloc

/-- The room that is made keeps the shape of the buffers to the capacity, which only grows. -/
theorem serving_makeRoom (hc : Serving c) {c' : KVCache} (h : c.makeRoom seqLen = .ok c') :
    c'.memory.isSome = true ∧ c'.kBuffer.shape = [1, c'.kvHeads, c'.capacity, c'.headDim] ∧
    c.capacity ≤ c'.capacity := by
  unfold makeRoom at h
  split_ifs at h
  · have hcap := (keeps_grow hc.plain.wf h).2
    have hmax := hc.plain.wf.cap
    refine ⟨(congrArg Frame.dynamic (frame_grow h)).trans hc.dynamic, ?_, by omega⟩
    obtain ⟨m, hm⟩ := Option.isSome_iff_exists.mp hc.dynamic
    unfold grow at h
    rw [hm] at h
    simp only at h
    split at h
    · cases h
    · split_ifs at h
      cases h
      rw [shape_reallocTo]
      unfold shapeAt
      rw [hc.plain.headMajor]
      rfl
  · cases h
    exact ⟨hc.dynamic, hc.shape, le_rfl⟩

/-- **A write** appends the tokens of its rows to a cache that has room for them. -/
theorem tokens_writeKv [Field K] [LinearOrder K] (H : Host K) (newK newV : ℕ → K) (hc : Serving c)
    (hroom : c.currentPos + seqLen ≤ c.maxSeqLen) :
    ∃ c', writeKv H c seqLen c.kvHeads c.headDim newK newV = some c' ∧ Serving c' ∧
      c'.format = c.format ∧
      c'.maxSeqLen = c.maxSeqLen ∧ c'.tokens = c.tokens ++
        newTokens H.codec c seqLen newK newV := by
  obtain ⟨c₁, hmake, -⟩ := hc.plain.makeRoom hroom
  obtain ⟨hmem, hshape, hcap⟩ := serving_makeRoom hc hmake
  have hframe := (keeps_makeRoom hc.plain.wf hmake).1.frame
  have hop : c₁.isOpaque = false :=
    (isOpaque_of_format (congrArg Frame.format hframe)).trans hc.plain.isOpaque
  have hheads : c₁.kvHeads = c.kvHeads := congrArg (fun f => f.format.kvHeads) hframe
  set kt := H.codec.tensor c.kvDtype [1, seqLen, c.kvHeads, c.headDim]
    (seqLen * (c.kvHeads * c.headDim)) newK with hkt
  set vt := H.codec.tensor c.kvDtype [1, seqLen, c.kvHeads, c.headDim]
    (seqLen * (c.kvHeads * c.headDim)) newV with hvt
  have hbecomes : Becomes c (c.update H.platform kt vt).2
    (c.tokens ++ inputTokens H.platform c kt vt) :=
    tokens_update hc.plain (input_tensor hc.plain) hroom
  have hupdate : ∃ c', c.update H.platform kt vt = (.ok (), c') ∧ c'.memory.isSome = true ∧
      c'.kBuffer.shape = [1, c'.kvHeads, c'.capacity, c'.headDim] ∧ c.kvHeads < c'.capacity := by
    unfold KVCache.update
    simp only [show kt.shape.getD 1 0 = seqLen from rfl, hmake, hop, Bool.false_eq_true, if_false]
    refine ⟨_, rfl, hmem, ?_, lt_of_lt_of_le hc.wide hcap⟩
    obtain ⟨b, -, hb⟩ := appendTyped_eq c₁ (c₁.canDirectCopy kt) seqLen kt c₁.kBuffer
    change (c₁.appendTyped (c₁.canDirectCopy kt) seqLen kt c₁.kBuffer).shape = _
    rw [hb]
    exact hshape
  obtain ⟨c', hok, hmem', hshape', hwide'⟩ := hupdate
  rw [hok] at hbecomes
  refine ⟨c', ?_, ⟨hbecomes.plain, hmem', hshape', ?_⟩, hbecomes.format, hbecomes.maxSeqLen, ?_⟩
  · unfold writeKv
    rw [if_neg fun hno => by
      have := hc.dynamic
      rw [hno.2] at this
      exact absurd this (by simp)]
    simp only [← hkt, ← hvt, hok]
  · rw [show c'.kvHeads = c.kvHeads from congrArg Format.kvHeads hbecomes.format]
    exact hwide'
  · rw [hbecomes.tokens, hkt, hvt, inputTokens_tensor hc.plain]

/-- A cache that cannot hold the rows refuses them. -/
theorem writeKv_full [Field K] [LinearOrder K] (H : Host K) (hc : Serving c)
    (hfull : c.maxSeqLen < c.currentPos + seqLen) (nHeadsKv headDim : ℕ) :
    writeKv H c seqLen nHeadsKv headDim newK newV = none := by
  have hroom : c.makeRoom seqLen = .error (.err "KV Cache overflow") := by
    unfold makeRoom
    have := hc.plain.wf.cap
    rw [if_pos (by omega), if_pos hfull]
  unfold writeKv
  split_ifs
  · rfl
  · unfold KVCache.update
    simp only
    rw [show (H.codec.tensor c.kvDtype [1, seqLen, nHeadsKv, headDim]
      (seqLen * (nHeadsKv * headDim)) newK).shape.getD 1 0 = seqLen from rfl, hroom]

end Writes

/-! ## Attention over tokens -/

section Attention

variable [Field K] [LinearOrder K]

/-- A token as a query head sees it: its logit and its value row. -/
def scored (F : FloatOps K) (C : FloatCodec K) (f : Format) (nHeadsQ h : ℕ) (q : ℕ → K)
    (t : Token) : K × (ℕ → K) :=
  (dot q (C.element f.dtype t .key (h / (nHeadsQ / f.kvHeads))) f.headDim (h * f.headDim)
    0 * scale F f.headDim, C.element f.dtype t .value (h / (nHeadsQ / f.kvHeads)))

/-- **What a query head gets over a list of tokens**: the softmax average. -/
def attended (F : FloatOps K) (C : FloatCodec K) (f : Format) (nHeadsQ : ℕ) (q : ℕ → K)
    (ts : List Token) (h d : ℕ) : K :=
  F.average (ts.map (scored F C f nHeadsQ h q)) d

variable {F : FloatOps K} {C : FloatCodec K} {c : KVCache} {nHeadsQ h : ℕ} {q : ℕ → K}

theorem attended_congr {f : Format} {q' : ℕ → K} (hq : SameRow (nHeadsQ * f.headDim) 0 0 q q')
    (hh : h < nHeadsQ) (ts : List Token) (d : ℕ) :
    attended F C f nHeadsQ q ts h d = attended F C f nHeadsQ q' ts h d := by
  unfold attended
  refine congrArg (fun xs => F.average xs d) (List.map_congr_left fun t _ => ?_)
  unfold scored
  rw [dot_congr (fun l hl => ?_) fun _ _ => rfl]
  have hrow := hq.block hh l hl
  rwa [Nat.zero_mul, Nat.zero_add] at hrow

omit [Field K] [LinearOrder K] in
theorem floats_slot (hc : Serving c) (x : Half) {kvH p d : ℕ} (hh : kvH < c.kvHeads)
    (hp : p < c.tokens.length) (hd : d < c.headDim) :
    C.floats c.kvDtype (c.buffer x) ((kvH * c.capacity + p) * c.headDim + d) =
      C.element c.kvDtype c.tokens[p] x kvH d := by
  have hpos : p < c.capacity := lt_of_lt_of_le (c.length_tokens ▸ hp) hc.plain.wf.pos
  have hrow := rowBytes_of_float hc.plain.wf.stored hc.plain.float
  unfold FloatCodec.floats FloatCodec.element
  rw [getElem_tokens hc.plain.wf hp x hh, rowsOf, headRows_of_lt hpos,
    slot_headMajor hc.plain.headMajor, rows, hrow]
  have hle : d * c.kvDtype.size + c.kvDtype.size ≤ c.headDim * c.kvDtype.size := by
    rw [← Nat.succ_mul]
    exact Nat.mul_le_mul_right _ hd
  rw [slice_slice _ _ hle]
  congr 2
  ring

omit [Field K] [LinearOrder K] in
theorem kvHead_lt (hdvd : c.kvHeads ∣ nHeadsQ) (hh : h < nHeadsQ) :
    h / (nHeadsQ / c.kvHeads) < c.kvHeads := by
  refine Nat.div_lt_of_lt_mul ?_
  rwa [Nat.div_mul_cancel hdvd]

omit [Field K] [LinearOrder K] in
theorem forall₂_tokens {R : ℕ → Token → Prop} {n : ℕ} (hn : n ≤ c.currentPos)
    (h : ∀ p (hp : p < c.tokens.length), p < n → R p c.tokens[p]) :
    List.Forall₂ R (List.range n) (c.tokens.take n) := by
  refine List.forall₂_iff_get.mpr ⟨by simp [c.length_tokens, hn], fun p h₁ h₂ => ?_⟩
  have hp : p < n := by simpa using h₁
  have hlt : p < c.tokens.length := by
    rw [c.length_tokens]
    omega
  simpa using h p hlt hp

variable [IsStrictOrderedRing K]

/-- **A decode step** gets the first tokens of the cache, as many as its window holds. -/
theorem attentionInto_decode (H : Host K) (hc : Serving c) (hdvd : c.kvHeads ∣ nHeadsQ)
    (layer pos : ℕ) (window : Option ℕ) (q : ℕ → K) :
    ∃ out, attentionInto H layer pos c 1 nHeadsQ window q = some out ∧
      ∀ h < nHeadsQ, ∀ d < c.headDim, out (h * c.headDim + d) =
        attended H.F.toFloatOps H.codec c.format nHeadsQ q
          (c.tokens.take (effectiveCacheLen window c.currentPos)) h d := by
  set a := decodeArgs c nHeadsQ window with ha
  set k := H.codec.floats c.kvDtype c.kBuffer with hk
  set v := H.codec.floats c.kvDtype c.vBuffer with hv
  have hmajor : a.isHeadMajor = true := by
    have hne : c.kvHeads ≠ c.capacity := Nat.ne_of_lt hc.wide
    simp [ha, DecodeArgs.isHeadMajor, decodeArgs, hc.shape, hne]
  have hoff : ∀ kvH t, a.rowOff kvH t = (kvH * c.capacity + t) * c.headDim := fun kvH t => by
    have hcap : a.capacity = c.capacity := by
      unfold DecodeArgs.capacity
      rw [if_pos hmajor]
      simp [ha, decodeArgs, hc.shape]
    rw [rowOff_headMajor hmajor, hcap]
    rfl
  refine ⟨(Attn.attentionGen H.F.toFloatOps q (numbers k) v a (H.order layer pos nHeadsQ)
    ⟨H.workspace layer pos, fun _ => 0⟩).out, ?_, fun h hh d hd => ?_⟩
  · unfold attentionInto
    simp only
    rw [if_neg (by omega), if_neg (by rw [hc.plain.uniform]; exact Bool.false_ne_true)]
  rw [attentionGen_eq]
  refine Folds.foldl_only (fun st : Attn.Written K => st.out (h * c.headDim + d)) (x := h)
    ((H.perm layer pos nHeadsQ).mem_iff.mpr (List.mem_range.mpr hh)) (fun st => ?_)
      (fun h' _ hne st => ?_) _
  · -- the row of the head itself
    have hkvH := kvHead_lt hdvd hh
    unfold DecodeArgs.writeHead
    simp only
    rw [show a.headDim = c.headDim from rfl, place_of_mem (Nat.le_add_right _ _)
      (Nat.add_lt_add_left hd _), Nat.zero_add, Nat.add_sub_cancel_left, DecodeArgs.attendedRow,
      dif_pos (show d < a.headDim from hd), DecodeArgs.attended]
    refine (softmaxRow_coe (f := fun t => dot q k c.headDim (h * c.headDim)
      (a.rowOff (h / a.gqaRatio) t) * scale H.F.toFloatOps c.headDim)
        (fun t _ => logitAt_numbers _ _ _) _).trans ?_
    refine Exponential.average_congr (forall₂_tokens (effectiveCacheLen_le window c.currentPos)
      fun t ht _ => ⟨?_, ?_⟩)
    · refine congrArg (· * _) (dot_congr (fun _ _ => rfl) fun l hl => ?_)
      rw [hoff, Nat.zero_add]
      exact floats_slot hc .key hkvH ht hl
    · change v (a.rowOff _ t + d) = _
      rw [hoff]
      exact floats_slot hc .value hkvH ht hd
  · unfold DecodeArgs.writeHead
    simp only
    refine place_of_notMem ?_
    rw [show a.headDim = c.headDim from rfl]
    rintro ⟨h₁, h₂⟩
    obtain ⟨heq, -⟩ := block_inj (n := c.headDim) (a := h') (b := h)
      (i := h * c.headDim + d - h' * c.headDim) (j := d) (by omega) hd (by omega)
    exact hne heq

omit [IsStrictOrderedRing K] in
theorem band_eq_range {p : HeadArgs} {r : ℕ} (hr : r + p.qStartPos < p.kvLen)
    (hstart : p.kvStart = 0) (hwindow : ∀ w ∈ p.windowSize, p.kvLen ≤ w) :
    p.band r = List.range (r + p.qStartPos + 1) := by
  have hin : ∀ c < p.kvLen, p.inBand (r + p.qStartPos) c = true ↔
    c ≤ r + p.qStartPos := fun c hlt => by
    rw [inBand_iff, InBand, hstart]
    refine ⟨fun h => h.1, fun h => ⟨h, fun w hw => ?_, Nat.zero_le _⟩⟩
    have := hwindow w hw
    omega
  obtain ⟨n, hn⟩ := Nat.exists_eq_add_of_le (Nat.succ_le_of_lt hr)
  unfold HeadArgs.band
  rw [hn, List.range_add, List.filter_append, List.filter_eq_self.mpr fun c hc => ?_,
    List.filter_eq_nil_iff.mpr ?_, List.append_nil]
  · intro c hc
    obtain ⟨i, hi, rfl⟩ := List.mem_map.mp hc
    rw [hin _ (by have := List.mem_range.mp hi; omega)]
    omega
  · have hlt := List.mem_range.mp hc
    exact (hin c (by omega)).mpr (by omega)

omit [IsStrictOrderedRing K] in
/-- **A prefill**: each of its rows gets the tokens before it and its own. -/
theorem attentionInto_prefill (H : Host K) (hc : Serving c) (hdvd : c.kvHeads ∣ nHeadsQ)
    (layer pos : ℕ) {seqLen : ℕ} (hseq : 1 < seqLen) (hle : seqLen ≤ c.currentPos)
    {window : Option ℕ} (hwindow : ∀ w ∈ window, c.currentPos ≤ w ∧ w + 1 < 2 ^ 32) (q : ℕ → K) :
    ∃ out, attentionInto H layer pos c seqLen nHeadsQ window q = some out ∧
      ∀ h < nHeadsQ, ∀ r < seqLen, ∀ d < c.headDim,
        out (h * c.headDim + r * (nHeadsQ * c.headDim) + d) =
        attended H.F.toFloatOps H.codec c.format nHeadsQ (row (nHeadsQ * c.headDim) r q)
          (c.tokens.take (r + (c.currentPos - seqLen) + 1)) h d := by
  set a := prefillArgs c nHeadsQ seqLen window with ha
  set k := H.codec.floats c.kvDtype c.kBuffer with hk
  set v := H.codec.floats c.kvDtype c.vBuffer with hv
  refine ⟨_, if_pos hseq, fun h hh r hr d hd => ?_⟩
  rw [← ha, ← hk, ← hv]
  have htile : 0 < 32 := by omega
  have hrow := flashAttentionForward_row H.F.toFloatOps a q k v H.aarch64 htile htile
    (fun w hw => (hwindow w hw).2) le_rfl (H.perm layer pos nHeadsQ)
      (H.perm layer pos (prefillTasks a)) (fun _ => 0)
    hh hr ⟨d, hd⟩
  refine hrow.trans ?_
  have hkvH := kvHead_lt hdvd hh
  have hband : (a.head h).band r = List.range (r + (c.currentPos - seqLen) + 1) := by
    refine band_eq_range ?_ ?_ fun w hw => (hwindow w hw).1
    · change r + (c.currentPos - seqLen) < c.currentPos
      omega
    · simp [ha, prefillArgs, hc.plain.uniform]
  have hstride : a.kStride = c.headDim ∧ a.vStride = c.headDim ∧
    a.kvHeadStride = c.capacity * c.headDim := by
    simp [ha, prefillArgs, hc.plain.headMajor]
  have hoff : ∀ t x, a.kvHead h * a.kvHeadStride + t * c.headDim + x =
      (h / (nHeadsQ / c.kvHeads) * c.capacity + t) * c.headDim + x := fun t x => by
    rw [hstride.2.2, Nat.add_mul, Nat.mul_assoc]
    rfl
  unfold HeadArgs.attended HeadArgs.scored attended
  rw [hband]
  refine Exponential.average_congr (forall₂_tokens (by omega) fun t ht _ => ⟨?_, ?_⟩)
  · refine congrArg (· * _) (dot_congr (fun l hl => ?_) fun l hl => ?_)
    · change q (h * c.headDim + r * (nHeadsQ * c.headDim) + l) =
        q (r * (nHeadsQ * c.headDim) + (h * c.headDim + l))
      congr 1
      ring
    · change k (a.kvHead h * a.kvHeadStride + t * a.kStride + l) = _
      rw [hstride.1, hoff, Nat.zero_add]
      exact floats_slot hc .key hkvH ht hl
  · change v (a.kvHead h * a.kvHeadStride + t * a.vStride + d) = _
    rw [hstride.2.1, hoff]
    exact floats_slot hc .value hkvH ht hd

theorem effectiveCacheLen_of_le {window : Option ℕ} {n : ℕ} (h : ∀ w ∈ window, n ≤ w) :
    effectiveCacheLen window n = n := by
  unfold effectiveCacheLen
  cases window with
  | none => rfl
  | some w => exact min_eq_left (h w rfl)

/-- **Attention row by row**, where the window holds all that is cached: a row gets the tokens
before it and its own. -/
theorem attentionInto_rows (H : Host K) (hc : Serving c) (hdvd : c.kvHeads ∣ nHeadsQ)
    (layer pos : ℕ) {seqLen : ℕ} (hseq : 0 < seqLen) (hle : seqLen ≤ c.currentPos)
    {window : Option ℕ} (hwindow : ∀ w ∈ window, c.currentPos ≤ w ∧ w + 1 < 2 ^ 32) (q : ℕ → K) :
    ∃ out, attentionInto H layer pos c seqLen nHeadsQ window q = some out ∧
      ∀ r < seqLen, ∀ h < nHeadsQ, ∀ d < c.headDim,
        row (nHeadsQ * c.headDim) r out (h * c.headDim + d) =
        attended H.F.toFloatOps H.codec c.format nHeadsQ (row (nHeadsQ * c.headDim) r q)
          (c.tokens.take (c.currentPos - seqLen + (r + 1))) h d := by
  rcases Nat.lt_or_eq_of_le hseq with hmany | hone
  · obtain ⟨out, hout, hrows⟩ := attentionInto_prefill H hc hdvd layer pos hmany hle hwindow q
    refine ⟨out, hout, fun r hr h hh d hd => ?_⟩
    have hindex : r * (nHeadsQ * c.headDim) + (h * c.headDim + d) = h * c.headDim + r *
      (nHeadsQ * c.headDim) + d := by ring
    have htake : c.currentPos - seqLen + (r + 1) = r + (c.currentPos - seqLen) + 1 := by omega
    rw [row, hindex, htake]
    exact hrows h hh r hr d hd
  · obtain ⟨out, hout, hrows⟩ := attentionInto_decode H hc hdvd layer pos window q
    rw [← hone]
    refine ⟨out, hout, fun r hr h hh d hd => ?_⟩
    obtain rfl : r = 0 := by omega
    have htake : c.currentPos - 1 + (0 + 1) = effectiveCacheLen window c.currentPos := by
      rw [effectiveCacheLen_of_le fun w hw => (hwindow w hw).1]
      omega
    rw [htake, row_zero, row_zero]
    exact hrows h hh d hd

end Attention

end ArgusEngine.Forward
