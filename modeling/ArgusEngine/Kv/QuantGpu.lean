import Mathlib.Data.Nat.Log
import ArgusEngine.Kv.QuantWindow
import ArgusEngine.Lib.Effects

/-!
# The quantized-window cache on a device

`QuantizedRecentWindowCache` in its GPU mode, with the OpenCL paths. The device holds the residual
in `f32`, the attention view in `f16` and the quantized blocks as bytes; blocks are quantized on the
host, from a copy of the residual, and uploaded at the byte offset of the blocks already there. The
host keeps no blocks.

A field of the slab is a function of the `Side`: `q2 .key` is `q2k`. A block is its bytes. Every
allocation, transfer and kernel of the device is a `Site`, and `dev` says which of them fail; a
transfer out of range fails by itself. `uploads` records the block uploads the cache asked for.
-/

namespace ArgusEngine

open CellArray FlatMem Effects

inductive Side where
  | key | value
  deriving Repr, DecidableEq

def Side.pick {α : Type} (k v : α) : Side → α
  | .key => k
  | .value => v

/-- The calls of the device, by the place they stand at. -/
inductive Site where
  /-- `ensure_gpu_attn_capacity`. -/
  | attnAlloc (x : Side) | attnZero (x : Side) | attnCopy (x : Side)
  /-- `allocate_gpu_q_blocks`. -/
  | blockAlloc (x : Side) | blockZero (x : Side)
  /-- A flush to the tokens from `tokBase` on. -/
  | flushRead (x : Side) | upload (x : Side) (tokBase : ℕ) | dequant (x : Side) (tokBase : ℕ)
  | attnUpload (x : Side) (tokBase : ℕ) | shift (x : Side)
  /-- `assemble_view_gpu` and `update_gpu`. -/
  | scatter (x : Side) | gather (x : Side) | copyToken (x : Side)
  /-- `transition_bits`: to 16, from 16 and between quantized widths. -/
  | attnRead (x : Side) | regrowAlloc (x : Side) | regrowWrite (x : Side)
  | resRead (x : Side) | resOverwrite (x : Side) | resAlloc (x : Side) | resWrite (x : Side)
  | blockRead (x : Side) | blockRewrite (x : Side)
  deriving Repr, DecidableEq

/-- How a call stops: an `Err`, or a panic. -/
inductive GpuFault where
  /-- The device failed. -/
  | device (site : Site)
  | err (text : String)
  /-- `unwrap` of a buffer that is not there. -/
  | missing
  | panic (text : String)
  deriving Repr, DecidableEq

namespace GpuFault

/-- An `Err` value, not a panic. -/
def isErr : GpuFault → Bool
  | .device _ | .err _ => true
  | .missing | .panic _ => false

end GpuFault

/-- The size of `BlockQ2_0`, `BlockKVQ4` and `BlockKVQ8`. -/
def QuantBits.blockBytes : QuantBits → ℕ
  | .q2 => 12
  | .q4 => 20
  | .q8 => 36

/-- The block kernels, on blocks as bytes, and the conversions between `f32` and `f16`. -/
structure GpuCodec (V H : Type) extends BlockCodec V (List UInt8) where
  length_quantize : ∀ w vals, (quantize w vals).length = w.blockBytes
  narrow : V → H
  widen : H → V

/-- `GpuKvBuffers`, without the handles of the device. -/
structure GpuKvBuffers (V H : Type) where
  res : Side → Option (Cells V)
  attn : Side → Option (Cells H)
  attnCap : ℕ
  q2 : Side → Option (List UInt8)

/-- An upload of `length` bytes at `offset` into a block buffer of `size` bytes. -/
structure Upload where
  side : Side
  offset : ℕ
  length : ℕ
  size : ℕ
  deriving Repr, DecidableEq

structure GpuQuantCache (V H : Type) extends QuantizedRecentWindowCache V (List UInt8) where
  slab : GpuKvBuffers V H
  /-- `gpu_q2k_blocks` and `gpu_q2v_blocks`. -/
  gpuQ2Blocks : Side → ℕ
  uploads : List Upload

abbrev GpuM (V H : Type) := EStateM GpuFault (GpuQuantCache V H)

variable {V H α β : Type}

/-! ## The device -/

section Device

variable (dev : Site → Bool)

def request (site : Site) : GpuM V H Unit :=
  if dev site then throw (.device site) else pure ()

def unwrap : Option α → GpuM V H α
  | some x => pure x
  | none => throw .missing

def orPanic (text : String) : Option α → GpuM V H α
  | some x => pure x
  | none => throw (.panic text)

def orErr (text : String) : Option α → GpuM V H α
  | some x => pure x
  | none => throw (.err text)

/-- `alloc`. -/
def alloc (site : Site) (n : ℕ) (x : β) : GpuM V H (Cells β) := do
  request dev site
  pure (.filled n x)

/-- `write_buffer`: the whole buffer. -/
def writeBuffer (site : Site) (t src : Cells β) : GpuM V H (Cells β) :=
  if src.len = t.len then do
    request dev site
    pure src
  else throw (.panic "write_buffer: size mismatch")

/-- `read_buffer` of the first `n` cells. -/
def readBuffer (site : Site) (t : Cells β) (n : ℕ) : GpuM V H (Cells β) := do
  request dev site
  if n ≤ t.len then pure (t.truncate n) else throw (.err "read_buffer")

/-- `copy_slice`, and `write_buffer_range` of `n` cells. -/
def copySlice (site : Site) (src dst : Cells β) (s d n : ℕ) : GpuM V H (Cells β) := do
  request dev site
  orErr "out of bounds" (dst.copyFrom d n src s)

/-- `write_buffer_range` on bytes. -/
def writeBufferRange (site : Site) (t src : List UInt8) (offset : ℕ) : GpuM V H (List UInt8) :=
  if offset + src.length ≤ t.length then do
    request dev site
    pure (blit src 0 t offset src.length)
  else throw (.err "write_buffer_range: out of bounds")

end Device

namespace GpuQuantCache

/-- The host's copy of the residual. -/
def host (c : GpuQuantCache V H) : Side → Cells V
  | .key => c.resK
  | .value => c.resV

def setHost (x : Side) (r : Cells V) (c : GpuQuantCache V H) : GpuQuantCache V H :=
  match x with
  | .key => { c with resK := r }
  | .value => { c with resV := r }

def setRes (x : Side) (r : Cells V) (c : GpuQuantCache V H) : GpuQuantCache V H :=
  { c with slab := { c.slab with res := Function.update c.slab.res x (some r) } }

def setAttn (x : Side) (a : Cells H) (c : GpuQuantCache V H) : GpuQuantCache V H :=
  { c with slab := { c.slab with attn := Function.update c.slab.attn x (some a) } }

def setQ2 (x : Side) (q : List UInt8) (c : GpuQuantCache V H) : GpuQuantCache V H :=
  { c with slab := { c.slab with q2 := Function.update c.slab.q2 x (some q) } }

/-- The blocks of `tokens` flushed tokens. -/
def blockCount (c : GpuQuantCache V H) (x : Side) (tokens : ℕ) : ℕ :=
  match x with
  | .key => tokens / 32 * c.kvHeads * c.headDim
  | .value => tokens * c.kvHeads * (c.headDim / 32)

/-! ## Construction -/

/-- The blocks a buffer is allocated for: `max_k_blocks` and `max_v_blocks`. -/
def maxBlocks (maxSeqLen residualSize kvHeads headDim : ℕ) (x : Side) : ℕ :=
  let maxFlushes := (maxSeqLen + residualSize - 1) / residualSize
  match x with
  | .key => maxFlushes * (residualSize / 32) * kvHeads * headDim
  | .value => maxFlushes * kvHeads * residualSize * (headDim / 32)

/-- The bytes of a new block buffer. -/
def bufferBytes (maxSeqLen residualSize kvHeads headDim : ℕ) (w : QuantBits) (x : Side) : ℕ :=
  max (maxBlocks maxSeqLen residualSize kvHeads headDim x * w.blockBytes) w.blockBytes

/-- The device buffers of a new cache. -/
def newSlab [Zero V] [Zero H] (kvHeads headDim maxSeqLen residualSize : ℕ) :
    CacheBits → GpuKvBuffers V H
  | .sixteen =>
    { res := fun _ => some (.filled (kvHeads * maxSeqLen * headDim) 0)
      attn := fun _ => none, attnCap := 0, q2 := fun _ => none }
  | .quantized w =>
    { res := fun _ => some (.filled (kvHeads * residualSize * headDim) 0)
      attn := fun _ => some (.filled (maxSeqLen * kvHeads * headDim) 0), attnCap := maxSeqLen
      q2 := fun x => some (.replicate (bufferBytes maxSeqLen residualSize kvHeads headDim w x) 0) }

/-- `new_gpu` in GPU mode; a failed allocation there falls back to the CPU mode. -/
def newGpu [Zero V] [Zero H] (kvHeads headDim maxSeqLen residualSize : ℕ) (bits : CacheBits) :
    Option (GpuQuantCache V H) := do
  let cache ← QuantizedRecentWindowCache.newWithBits kvHeads headDim maxSeqLen residualSize bits
  some
    { toQuantizedRecentWindowCache := { cache with attnK := .filled 0 0, attnV := .filled 0 0 }
      slab := newSlab kvHeads headDim maxSeqLen residualSize bits
      gpuQ2Blocks := fun _ => 0, uploads := [] }

/-- `reset` in GPU mode. -/
def resetGpu [Zero V] (c : GpuQuantCache V H) : GpuQuantCache V H :=
  { c with
    qk := .new c.bits, qv := .new c.bits, q2Tokens := 0
    resK := .filled c.resK.len 0, resV := .filled c.resV.len 0
    resPos := 0, q2DeqTokens := 0, gpuQ2Blocks := fun _ => 0 }

/-! ## Buffers on demand -/

section Buffers

variable [Zero H] (dev : Site → Bool)

/-- Take over the cells of the old buffer. -/
def copyOld (x : Side) (old : Option (Cells H)) (new : Cells H) (n : ℕ) : GpuM V H (Cells H) :=
  match old with
  | some o => if 0 < n then copySlice dev (.attnCopy x) o new 0 0 n else pure new
  | none => pure new

/-- `ensure_gpu_attn_capacity`. -/
def ensureGpuAttnCapacity (needed : ℕ) : GpuM V H Unit := do
  let c ← get
  if needed ≤ c.slab.attnCap then pure ()
  else do
    let newCap := min (2 ^ Nat.clog 2 needed) c.maxSeqLen
    let newElems := newCap * c.kvHeads * c.headDim
    let oldElems := c.slab.attnCap * c.kvHeads * c.headDim
    let newK ← alloc dev (.attnAlloc .key) newElems 0
    let newV ← alloc dev (.attnAlloc .value) newElems 0
    let newK ← writeBuffer dev (.attnZero .key) newK (.filled newElems 0)
    let newV ← writeBuffer dev (.attnZero .value) newV (.filled newElems 0)
    let newK ← copyOld dev .key (c.slab.attn .key) newK oldElems
    let newV ← copyOld dev .value (c.slab.attn .value) newV oldElems
    modify fun c => { c with slab := { c.slab with
      attn := fun x => some (x.pick newK newV), attnCap := newCap } }

/-- `allocate_gpu_q_blocks`, which does nothing when there are block buffers. -/
def allocateGpuQBlocks (w : QuantBits) : GpuM V H Unit := do
  let c ← get
  if (c.slab.q2 .key).isSome then pure ()
  else do
    let bytes := bufferBytes c.maxSeqLen (max c.resCap 32) c.kvHeads c.headDim w
    request dev (.blockAlloc .key)
    request dev (.blockAlloc .value)
    request dev (.blockZero .key)
    request dev (.blockZero .value)
    modify fun c => { c with slab := { c.slab with q2 := fun x => some (.replicate (bytes x) 0) } }

end Buffers

/-! ## Flushing the residual -/

/-- `serialize_blocks`; `none` is a range out of bounds. -/
def serializeBlocks (q : QuantizedBlocks (List UInt8)) (start count : ℕ) : Option (List UInt8) :=
  match q with
  | .unquantized => some []
  | .blocks _ v => if start + count ≤ v.length then some (slice v start count).flatten else none

/-- `extract_sub_blocks`. -/
def extractSubBlocks (q : QuantizedBlocks (List UInt8)) (start count : ℕ) :
    Option (QuantizedBlocks (List UInt8)) :=
  match q with
  | .unquantized => some .unquantized
  | .blocks w v => if start + count ≤ v.length then some (.blocks w (slice v start count)) else none

/-- `deserialize_blocks`. -/
def deserializeBlocks (w : QuantBits) (raw : List UInt8) (count : ℕ) :
    QuantizedBlocks (List UInt8) :=
  .blocks w ((List.range count).map fun i => slice raw (i * w.blockBytes) w.blockBytes)

/-- Where the blocks of a flush go in an attention buffer, in the order they are stored. -/
def flushIdxs (c : GpuQuantCache V H) (x : Side) (nGroups flushTokens tokBase : ℕ) :
    List (Fin 32 → ℕ) :=
  match x with
  | .key => nest c.kvHeads nGroups c.headDim fun h g ch t => c.attnIdx (tokBase + g * 32 + t) h ch
  | .value =>
    nest c.kvHeads flushTokens (c.headDim / 32) fun h t b i =>
      c.attnIdx (tokBase + t) h (b * 32 + i)

/-- Dequantize the blocks one after the other and put their values at the given indices. -/
def dequantInto (blk : ℕ → Option (Fin 32 → V)) (conv : V → β) (idxs : List (Fin 32 → ℕ))
    (out : Cells β) : Option (Cells β) :=
  idxs.zipIdx.foldlM (fun out x => do
    let vals ← blk x.2
    writeBlock out x.1 fun t => conv (vals t)) out

section Flush

variable [Zero V] [Zero H] (codec : GpuCodec V H) (dev : Site → Bool)

/-- Upload serialized blocks at a byte offset. -/
def uploadBlocks (x : Side) (tokBase : ℕ) (bytes : List UInt8) (offset : ℕ) : GpuM V H Unit := do
  let c ← get
  let q ← unwrap (c.slab.q2 x)
  modify fun c => { c with uploads := c.uploads ++ [⟨x, offset, bytes.length, q.length⟩] }
  let q ← writeBufferRange dev (.upload x tokBase) q bytes offset
  modify (setQ2 x q)

/-- The `dequant_flush` kernel: from the 2-bit blocks of the device into an attention buffer. -/
def dequantFlush (x : Side) (nGroups flushTokens tokBase blockStart : ℕ) : GpuM V H Unit := do
  let c ← get
  let q ← unwrap (c.slab.q2 x)
  let attn ← unwrap (c.slab.attn x)
  request dev (.dequant x tokBase)
  let blk := fun i => some (codec.dequantize .q2 (slice q ((blockStart + i) * 12) 12))
  let attn ← orPanic "dequant_flush"
    (dequantInto blk codec.narrow (c.flushIdxs x nGroups flushTokens tokBase) attn)
  modify (setAttn x attn)

/-- The 4-bit and 8-bit blocks, dequantized on the host. -/
def dequantRows (x : Side) (nGroups flushTokens : ℕ) (tmp : QuantizedBlocks (List UInt8)) :
    GpuM V H (Cells V) := do
  let c ← get
  orPanic "dequantize_block" (dequantInto (tmp.dequantizeBlock codec.toBlockCodec) id
    (c.flushIdxs x nGroups flushTokens 0) (.filled (flushTokens * c.kvHeads * c.headDim) 0))

/-- Upload dequantized rows to an attention buffer. -/
def uploadRows (x : Side) (tokBase : ℕ) (rows : Cells V) : GpuM V H Unit := do
  let c ← get
  let attn ← unwrap (c.slab.attn x)
  let attn ← copySlice dev (.attnUpload x tokBase) ⟨rows.len, codec.narrow ∘ rows.cell⟩ attn 0
    (tokBase * c.kvHeads * c.headDim) rows.len
  modify (setAttn x attn)

/-- Fill the attention buffers from the blocks of a flush: with the kernel for 2 bits, else from the
host. -/
def dequantFlushed (w : QuantBits) (flushTokens nGroups tokBase kBlockStart vBlockStart : ℕ)
    (tmpQk tmpQv : QuantizedBlocks (List UInt8)) : GpuM V H Unit :=
  if w = .q2 then do
    dequantFlush codec dev .key nGroups flushTokens tokBase kBlockStart
    dequantFlush codec dev .value nGroups flushTokens tokBase vBlockStart
  else do
    let k ← dequantRows codec .key nGroups flushTokens tmpQk
    let v ← dequantRows codec .value nGroups flushTokens tmpQv
    uploadRows codec dev .key tokBase k
    uploadRows codec dev .value tokBase v

/-- The blocks of a flush: `new_k_blocks` and `new_v_blocks`. -/
def newBlocks (c : GpuQuantCache V H) (flushTokens nGroups : ℕ) : Side → ℕ
  | .key => nGroups * c.kvHeads * c.headDim
  | .value => c.kvHeads * flushTokens * (c.headDim / 32)

/-- `upload_and_dequant_flush_with`. -/
def uploadAndDequantFlushWith (flushTokens nGroups tokBase : ℕ)
    (tmpQk tmpQv : QuantizedBlocks (List UInt8)) : GpuM V H Unit := do
  let c ← get
  let new := c.newBlocks flushTokens nGroups
  match c.bits with
  | .sixteen => throw (.err "unsupported bits 16 for GPU upload")
  | .quantized w => do
    let kBytes ← orPanic "serialize_blocks" (serializeBlocks tmpQk 0 (new .key))
    let vBytes ← orPanic "serialize_blocks" (serializeBlocks tmpQv 0 (new .value))
    uploadBlocks dev .key tokBase kBytes (c.gpuQ2Blocks .key * w.blockBytes)
    uploadBlocks dev .value tokBase vBytes (c.gpuQ2Blocks .value * w.blockBytes)
    dequantFlushed codec dev w flushTokens nGroups tokBase (c.gpuQ2Blocks .key)
      (c.gpuQ2Blocks .value) tmpQk tmpQv
    modify fun c => { c with gpuQ2Blocks := fun x => c.gpuQ2Blocks x + new x }

/-- Read the device's residual into the host's copy. -/
def readResidual (site : Side → Site) (x : Side) : GpuM V H Unit := do
  let c ← get
  match c.slab.res x with
  | none => pure ()
  | some r => do
    let n := c.kvHeads * c.resCap * c.headDim
    let r ← readBuffer dev (site x) r n
    let host ← orPanic "read_buffer" ((c.host x).copyFrom 0 n r 0)
    modify (setHost x host)

/-- Move the tokens a flush leaves over to the front: on the device, or on the host when the
device's residual was released. -/
def shiftResidual (flushTokens remaining : ℕ) (x : Side) : GpuM V H Unit := do
  let c ← get
  if (c.slab.res .key).isSome then do
    let r ← unwrap (c.slab.res x)
    request dev (.shift x)
    let r ← orErr "buffer_shift" (c.shiftRemaining flushTokens remaining r)
    modify (setRes x r)
  else do
    let r ← orPanic "copy_within" (c.shiftRemaining flushTokens remaining (c.host x))
    modify (setHost x r)

/-- `flush_residual_gpu`. -/
def flushResidualGpu : GpuM V H Unit := do
  let c ← get
  let nGroups := c.resPos / 32
  let flushTokens := nGroups * 32
  if flushTokens = 0 then pure ()
  else do
    ensureGpuAttnCapacity dev (c.q2Tokens + flushTokens)
    let c ← get
    onlyIf ((c.slab.res .key).isSome ∧ (c.slab.res .value).isSome) do
      readResidual dev .flushRead .key
      readResidual dev .flushRead .value
    let c ← get
    let tmp := { c.toQuantizedRecentWindowCache with qk := .new c.bits, qv := .new c.bits }
    let tmpQk ← orPanic "flush_residual_gpu" (tmp.pushKeys codec.toBlockCodec nGroups)
    let tmpQv ← orPanic "flush_residual_gpu" (tmp.pushValues codec.toBlockCodec flushTokens)
    uploadAndDequantFlushWith codec dev flushTokens nGroups c.q2Tokens tmpQk tmpQv
    modify fun c => { c with q2Tokens := c.q2Tokens + flushTokens,
                             q2DeqTokens := c.q2Tokens + flushTokens }
    let remaining := c.resPos - flushTokens
    onlyIf (0 < remaining) do
      shiftResidual dev flushTokens remaining .key
      shiftResidual dev flushTokens remaining .value
    modify fun c => { c with resPos := remaining }

end Flush

/-! ## The attention view -/

section View

variable [Zero H] (codec : GpuCodec V H) (dev : Site → Bool)

/-- The `scatter_residual` kernel: the residual's tokens behind the flushed ones. -/
def scatterRows (c : GpuQuantCache V H) (res : Cells V) (attn : Cells H) : Option (Cells H) :=
  (List.range c.kvHeads).foldlM (fun attn h =>
    (List.range c.resPos).foldlM (fun attn t =>
      attn.copyFrom (c.attnIdx (c.q2Tokens + t) h 0) c.headDim ⟨res.len, codec.narrow ∘ res.cell⟩
        (h * c.resCap * c.headDim + t * c.headDim)) attn) attn

def scatterResidual (x : Side) : GpuM V H Unit := do
  let c ← get
  let res ← unwrap (c.slab.res x)
  let attn ← unwrap (c.slab.attn x)
  request dev (.scatter x)
  let attn ← orPanic "scatter_residual" (c.scatterRows codec res attn)
  modify (setAttn x attn)

/-- `assemble_view_gpu`. -/
def assembleViewGpu : GpuM V H Unit := do
  let c ← get
  ensureGpuAttnCapacity dev (c.q2Tokens + c.resPos)
  onlyIf (0 < c.resPos) do
    scatterResidual codec dev .key
    scatterResidual codec dev .value

/-- The views of `get_view`: none of no tokens, the residual at 16 bits, else the attention
buffers. -/
inductive GpuView (V H : Type) where
  | empty
  | residual (k v : Cells V)
  | attention (k v : Cells H)

/-- `get_view_gpu`; an error of the assembly is logged and dropped. -/
def getViewGpu : GpuM V H (GpuView V H) := do
  let c ← get
  if c.totalTokens = 0 then pure .empty
  else
    match c.bits with
    | .sixteen => do
      let k ← unwrap (c.slab.res .key)
      let v ← unwrap (c.slab.res .value)
      pure (.residual k v)
    | .quantized _ => do
      ignored GpuFault.isErr (assembleViewGpu codec dev)
      let c ← get
      let k ← unwrap (c.slab.attn .key)
      let v ← unwrap (c.slab.attn .value)
      pure (.attention k v)

end View

/-! ## Appending tokens -/

section Update

variable [Zero V] [Zero H] (codec : GpuCodec V H) (dev : Site → Bool)

/-- Copy a head's row of input token `s` to the residual's slot `t`. -/
def copyRow (x : Side) (input : Cells V) (s t h : ℕ) : GpuM V H Unit := do
  let c ← get
  let r ← unwrap (c.slab.res x)
  let r ← copySlice dev (.copyToken x) input r (s * c.kvHeads * c.headDim + h * c.headDim)
    (h * c.resCap * c.headDim + t * c.headDim) c.headDim
  modify (setRes x r)

/-- The `gather_update_quant` kernel: the whole input behind the residual's tokens. -/
def gatherRows (c : GpuQuantCache V H) (input : SeqTensor V) (res : Cells V) : Option (Cells V) :=
  (List.range input.tokens).foldlM (fun r s =>
    (List.range c.kvHeads).foldlM (fun r h =>
      r.copyFrom (h * c.resCap * c.headDim + (c.resPos + s) * c.headDim) c.headDim input.data
        (s * c.kvHeads * c.headDim + h * c.headDim)) r) res

def gatherUpdate (x : Side) (input : SeqTensor V) : GpuM V H Unit := do
  let c ← get
  let r ← unwrap (c.slab.res x)
  request dev (.gather x)
  let r ← orPanic "gather_update_quant" (c.gatherRows input r)
  modify (setRes x r)

/-- One batch of `update_gpu`: the kernel for the whole input, else token by token. -/
def writeBatch (newK newV : SeqTensor V) (written batch : ℕ) : GpuM V H Unit := do
  let c ← get
  if written = 0 ∧ batch = newK.tokens then do
    let _ ← unwrap (c.slab.res .key)
    let _ ← unwrap (c.slab.res .value)
    gatherUpdate dev .key newK
    gatherUpdate dev .value newV
  else
    (List.range batch).forM fun s => (List.range c.kvHeads).forM fun h => do
      copyRow dev .key newK.data (written + s) (c.resPos + s) h
      copyRow dev .value newV.data (written + s) (c.resPos + s) h

/-- The loop of `update_gpu`. A pass that writes nothing would be repeated for ever; the passes that
write are at most as many as the tokens. -/
def updateLoop (newK newV : SeqTensor V) : ℕ → ℕ → GpuM V H Unit
  | 0, written =>
    if written < newK.tokens then throw (.panic "update_gpu does not return") else pure ()
  | passes + 1, written =>
    if written < newK.tokens then do
      let c ← get
      onlyIf (c.resPos ≥ c.resCap) (flushResidualGpu codec dev)
      let c ← get
      let batch := min (newK.tokens - written) (c.resCap - c.resPos)
      writeBatch dev newK newV written batch
      modify fun c => { c with resPos := c.resPos + batch }
      updateLoop newK newV passes (written + batch)
    else pure ()

/-- `update` in GPU mode. -/
def updateGpu (newK newV : SeqTensor V) : GpuM V H Unit := do
  let c ← get
  if c.totalTokens + newK.tokens > c.maxSeqLen then
    throw (.err s!"QuantWindowCache overflow: {c.totalTokens} + {newK.tokens} > {c.maxSeqLen}")
  else updateLoop codec dev newK newV newK.tokens 0

end Update

/-! ## Changing the bit width -/

section Transition

variable [Zero V] [Zero H] (codec : GpuCodec V H) (dev : Site → Bool)

/-- Read the first `n` values of an attention buffer; without a buffer they stay zero. -/
def readAttn (x : Side) (n : ℕ) : GpuM V H (Cells V) := do
  let c ← get
  match c.slab.attn x with
  | none => pure (.filled n (codec.widen 0))
  | some a => do
    let a ← readBuffer dev (.attnRead x) a n
    pure ⟨a.len, codec.widen ∘ a.cell⟩

/-- The counters of the 16-bit mode, with all tokens in a residual of `max_seq_len` tokens. -/
def asSixteen (total : ℕ) (resK resV : Cells V) (c : GpuQuantCache V H) : GpuQuantCache V H :=
  { c with
    resK := resK, resV := resV, resPos := total, resCap := c.maxSeqLen, q2Tokens :=
      0, q2DeqTokens := 0,
    bits := .sixteen, qk := .unquantized, qv := .unquantized }

/-- A quantized width to 16: every token goes back into the residual. -/
def transitionToSixteenGpu : GpuM V H Unit := do
  let c ← get
  let total := c.q2Tokens + c.resPos
  let newElems := c.kvHeads * c.maxSeqLen * c.headDim
  -- the capacity before the assembly, which may grow the buffers
  let attnBufSize := c.slab.attnCap * c.kvHeads * c.headDim
  ignored GpuFault.isErr (assembleViewGpu codec dev)
  let attnK ← readAttn codec dev .key attnBufSize
  let attnV ← readAttn codec dev .value attnBufSize
  let resK ← orPanic "transition_bits"
    (c.restoreRows c.maxSeqLen total attnK (c.resK.resize newElems 0))
  let resV ← orPanic "transition_bits"
    (c.restoreRows c.maxSeqLen total attnV (c.resV.resize newElems 0))
  modify (asSixteen total resK resV)
  let gpuRk ← alloc dev (.regrowAlloc .key) newElems 0
  let gpuRk ← writeBuffer dev (.regrowWrite .key) gpuRk resK
  let gpuRv ← alloc dev (.regrowAlloc .value) newElems 0
  let gpuRv ← writeBuffer dev (.regrowWrite .value) gpuRv resV
  modify fun c => { c with
    slab :=
      { res := fun x => some (x.pick gpuRk gpuRv)
        attn := fun _ => none, attnCap := 0, q2 := fun _ => none }
    gpuQ2Blocks := fun _ => 0 }

/-- The cache at width `w`; the host keeps no blocks. -/
def switchBits (w : QuantBits) (c : GpuQuantCache V H) : GpuQuantCache V H :=
  { c with bits := .quantized w, qk := .new (.quantized w), qv := .new (.quantized w) }

/-- Overwrite the front of a device residual with the host's copy. -/
def overwriteResidual (x : Side) : GpuM V H Unit := do
  let c ← get
  match c.slab.res x with
  | none => pure ()
  | some r => do
    let src := c.host x
    if src.len ≤ r.len then do
      let r ← writeBuffer dev (.resOverwrite x) r ⟨r.len, fun i => if i < src.len
        then src.cell i else 0⟩
      modify (setRes x r)
    else throw (.panic "padded")

/-- A new device residual with the host's copy. -/
def uploadResidual (x : Side) (newElems : ℕ) : GpuM V H Unit := do
  let c ← get
  let r ← alloc dev (.resAlloc x) newElems 0
  let r ← writeBuffer dev (.resWrite x) r (c.host x)
  modify (setRes x r)

/-- A new device residual. -/
def emptyResidual (x : Side) (newElems : ℕ) : GpuM V H Unit := do
  let r ← alloc dev (.resAlloc x) newElems 0
  modify (setRes x r)

/-- Put the tokens left over, packed, into a residual of 32 tokens on the device. -/
def shrinkResidualGpu : GpuM V H Unit := do
  let c ← get
  let newElems := c.kvHeads * 32 * c.headDim
  let resK ← orPanic "copy_within" (c.compactResidual c.resK)
  let resV ← orPanic "copy_within" (c.compactResidual c.resV)
  modify fun c => { c with resK := resK, resV := resV, resCap := 32 }
  if 0 < c.resPos then
    if (c.slab.res .key).isSome then do
      overwriteResidual dev .key
      overwriteResidual dev .value
    else do
      uploadResidual dev .key newElems
      uploadResidual dev .value newElems
  else
    onlyIf ((c.slab.res .key).isNone) do
      emptyResidual dev .key newElems
      emptyResidual dev .value newElems

def releaseResidual (c : GpuQuantCache V H) : GpuQuantCache V H :=
  { c with slab := { c.slab with res := fun _ => none } }

/-- 16 to a quantized width. The device's residual is released before the block buffers are
allocated. -/
def transitionFromSixteenGpu (w : QuantBits) : GpuM V H Unit := do
  modify (switchBits w)
  readResidual dev .resRead .key
  readResidual dev .resRead .value
  modify releaseResidual
  allocateGpuQBlocks dev w
  let c ← get
  onlyIf (32 ≤ c.resPos) (flushResidualGpu codec dev)
  let c ← get
  onlyIf (32 < c.resCap) (shrinkResidualGpu dev)
  modify fun c => { c with q2DeqTokens := 0 }

/-- Read the first `n` bytes of a block buffer; without a buffer they stay zero. -/
def readBlocks (x : Side) (n : ℕ) : GpuM V H (List UInt8) := do
  let c ← get
  match c.slab.q2 x with
  | none => pure (.replicate n 0)
  | some q => do
    request dev (.blockRead x)
    if n ≤ q.length then pure (q.take n) else throw (.err "read_buffer")

/-- Overwrite a block buffer; what does not fit is cut off. -/
def rewriteBlocks (x : Side) (bytes : List UInt8) : GpuM V H Unit := do
  let c ← get
  match c.slab.q2 x with
  | none => pure ()
  | some q => do
    request dev (.blockRewrite x)
    modify (setQ2 x (bytes.take q.length ++ .replicate (q.length - bytes.length) 0))

/-- One pass of the loop that fills the attention buffers again, flush by flush. -/
def reflush (newQk newQv : QuantizedBlocks (List UInt8)) (flush : ℕ) : GpuM V H Unit := do
  let c ← get
  let nGroups := c.resCap / 32
  let new := c.newBlocks c.resCap nGroups
  let flushQk ← orPanic "extract_sub_blocks" (extractSubBlocks newQk (flush * new .key) (new .key))
  let flushQv ← orPanic "extract_sub_blocks"
    (extractSubBlocks newQv (flush * new .value) (new .value))
  modify fun c => { c with gpuQ2Blocks := fun x => flush * new x }
  uploadAndDequantFlushWith codec dev c.resCap nGroups (flush * c.resCap) flushQk flushQv
  modify fun c' => { c' with gpuQ2Blocks := c.gpuQ2Blocks }

/-- The blocks of one side at the new width: read, dequantized and quantized again. -/
def requantized (w₀ w : QuantBits) (raw : List UInt8) (count : ℕ) :
    GpuM V H (QuantizedBlocks (List UInt8)) :=
  orPanic "dequantize_block"
    (QuantizedRecentWindowCache.requantize codec.toBlockCodec (deserializeBlocks w₀ raw count)
      count (.new (.quantized w)))

/-- The cache at width `w`, the attention buffers to be filled again. -/
def asQuantized (w : QuantBits) (c : GpuQuantCache V H) : GpuQuantCache V H :=
  { c.switchBits w with q2DeqTokens := 0 }

/-- One quantized width to another. -/
def transitionQuantizedGpu (w₀ w : QuantBits) : GpuM V H Unit := do
  let c ← get
  if c.q2Tokens = 0 then modify (switchBits w)
  else do
    let kRaw ← readBlocks dev .key (c.blockCount .key c.q2Tokens * w₀.blockBytes)
    let vRaw ← readBlocks dev .value (c.blockCount .value c.q2Tokens * w₀.blockBytes)
    let newQk ← requantized codec w₀ w kRaw (c.blockCount .key c.q2Tokens)
    let newQv ← requantized codec w₀ w vRaw (c.blockCount .value c.q2Tokens)
    let kBytes ← orPanic "serialize_blocks" (serializeBlocks newQk 0 (c.blockCount .key c.q2Tokens))
    let vBytes ← orPanic "serialize_blocks"
      (serializeBlocks newQv 0 (c.blockCount .value c.q2Tokens))
    rewriteBlocks dev .key kBytes
    rewriteBlocks dev .value vBytes
    modify (asQuantized w)
    if c.resCap = 0 then throw (.panic "attempt to divide by zero")
    else do
      (List.range (c.q2Tokens / c.resCap)).forM (reflush codec dev newQk newQv)
      modify fun c' => { c' with gpuQ2Blocks := fun x => c.blockCount x c.q2Tokens }

/-- `transition_bits` in GPU mode. -/
def transitionBitsGpu (newBits : CacheBits) : GpuM V H Unit := do
  let c ← get
  if newBits = c.bits then pure ()
  else
    match newBits, c.bits with
    | .sixteen, _ => transitionToSixteenGpu codec dev
    | .quantized w, .sixteen => transitionFromSixteenGpu codec dev w
    | .quantized w, .quantized w₀ => transitionQuantizedGpu codec dev w₀ w

end Transition

/-! ## Runs -/

inductive GpuOp (V : Type) where
  | update (newK newV : SeqTensor V)
  | reset
  | transitionBits (newBits : CacheBits)
  | getView

variable [Zero V] [Zero H] (codec : GpuCodec V H)

/-- A device on which no call fails. -/
def healthy : Site → Bool := fun _ => false

/-- A call on a device that does what it is asked. -/
def exec : GpuOp V → GpuM V H Unit
  | .update newK newV => updateGpu codec healthy newK newV
  | .reset => modify resetGpu
  | .transitionBits newBits => transitionBitsGpu codec healthy newBits
  | .getView => do
    let _ ← getViewGpu codec healthy
    pure ()

/-- A call that returned, with a result or with an `Err`. -/
def GpuStep (op : GpuOp V) (c c' : GpuQuantCache V H) : Prop :=
  exec codec op c = .ok () c' ∨ ∃ e, e.isErr = true ∧ exec codec op c = .error e c'

end GpuQuantCache

end ArgusEngine
