import ArgusEngine.Kv.Tensor

/-!
# The KV cache of one layer

`KVCache` and its operations, over flat K and V buffers. The K and V buffers of a loop are separate
memories, so a loop that writes both is written once per buffer.

* geometry: `offset`, `q4BlockOffset`, `headUnits`, `posUnits` — the units of the three storage
  arms;
* allocation: `grow`, `ensureCapacity`, `shrinkToFit`, `releaseUnusedPages`;
* tokens: `update`, `updateOpaque`, `prunePrefix`, `shiftPositions`, `shiftPositionsForHead`,
  `compactKeepPositions`, `compactKeepPositionsForHead`;
* the per-head geometry: `headStartOf`, `isRagged`, `supportsRagged`, `setHeadStarts`,
  `clearHeadStarts`, `setCurrentPos`, and its device mirror `headStartDevice`.

An operation that returns `Err` before it changes the cache is an `Except` of the new cache;
`update` and `updateOpaque` can fail after writing and return the cache beside the result.
-/

namespace ArgusEngine

open FlatMem SlotMem

structure KVCache where
  kBuffer : Tensor
  vBuffer : Tensor
  currentPos : ℕ
  /-- The largest `currentPos` reached since the last release. -/
  highWaterPos : ℕ
  maxSeqLen : ℕ
  capacity : ℕ
  kvHeads : ℕ
  headDim : ℕ
  layout : KVLayout
  /-- First resident position of each KV head; empty when every head starts at `0`. -/
  headStart : List ℕ
  /-- The `i32` contents of the device mirror of `headStart`. -/
  headStartDev : Option (List (BitVec 32))
  headStartDirty : Bool
  memory : Option Memory

namespace KVCache

/-- `new_dynamic` with `with_layout`. -/
def newDynamic (k v : Tensor) (initialCapacity maxSeqLen kvHeads headDim : ℕ) (memory : Memory)
    (layout : KVLayout) : KVCache where
  kBuffer := k
  vBuffer := v
  currentPos := 0
  highWaterPos := 0
  maxSeqLen := maxSeqLen
  capacity := initialCapacity
  kvHeads := kvHeads
  headDim := headDim
  layout := layout
  headStart := []
  headStartDev := none
  headStartDirty := false
  memory := some memory

/-- `new_with_geometry`: fully allocated, no growth. -/
def newWithGeometry (k v : Tensor) (maxSeqLen kvHeads headDim : ℕ) (layout : KVLayout) :
    KVCache where
  kBuffer := k
  vBuffer := v
  currentPos := 0
  highWaterPos := 0
  maxSeqLen := maxSeqLen
  capacity := maxSeqLen
  kvHeads := kvHeads
  headDim := headDim
  layout := layout
  headStart := []
  headStartDev := none
  headStartDirty := false
  memory := none

/-! ## Geometry -/

section Geometry

variable (c : KVCache)

def kvDtype : DType := c.kBuffer.dtype

def isOpaque : Bool := c.kBuffer.buffer.desc.isSome

def isQ4 : Bool := c.kBuffer.dtype = .q4_0

/-- Raw bytes per `(head, position)` of an opaque store. A dense descriptor or an empty block panics
in the source; the allocator of opaque caches makes neither. -/
def opaqueBytesPerHead : ℕ :=
  match c.kBuffer.buffer.desc with
  | some d => c.headDim / d.blockElems * d.blockBytes.getD 0
  | none => 0

/-- Element offset of `(pos, head)`. -/
def offset (pos head : ℕ) : ℕ :=
  match c.layout with
  | .seqMajor => pos * c.kvHeads * c.headDim + head * c.headDim
  | .headMajor => head * c.capacity * c.headDim + pos * c.headDim

/-- Block offset of `(pos, head)` in a `Q4_0` buffer. -/
def q4BlockOffset (pos head blocksPerPos : ℕ) : ℕ :=
  match c.layout with
  | .seqMajor => (pos * c.kvHeads + head) * blocksPerPos
  | .headMajor => (head * c.capacity + pos) * blocksPerPos

/-- Units from one head to the next and units per `(head, position)` of a HeadMajor store at
capacity `cap`: raw bytes, `Q4_0` blocks or elements. -/
def headUnits (cap : ℕ) : ℕ × ℕ :=
  if c.isOpaque then (cap * c.opaqueBytesPerHead, c.opaqueBytesPerHead)
  else if c.isQ4 then (cap * c.headDim / QK4_0, c.headDim / QK4_0)
  else (cap * c.headDim, c.headDim)

/-- Units per position of a SeqMajor store. -/
def posUnits : ℕ :=
  if c.isQ4 then c.kvHeads * c.headDim / QK4_0 else c.kvHeads * c.headDim

/-! ## The per-head geometry -/

/-- First resident position of head `h`. -/
def headStartOf (h : ℕ) : ℕ := c.headStart.getD h 0

def headStarts : List ℕ := (List.range c.kvHeads).map c.headStartOf

def isRagged : Bool := c.headStart.any fun s => decide (s > 0)

/-- Resident positions of head `h`. -/
def headLen (h : ℕ) : ℕ := c.currentPos - c.headStartOf h

def supportsRagged : Bool :=
  c.layout = .headMajor && !c.isOpaque && (c.kvDtype = .f32 || c.kvDtype = .f16)

def setCurrentPos (pos : ℕ) : KVCache :=
  if pos = 0 then { c with currentPos := pos, highWaterPos := 0, headStart := [] }
  else { c with currentPos := pos, headStart := c.headStart.map (min · pos) }

def setHeadStarts (starts : List ℕ) : KVCache :=
  { c with
    headStart := if starts.all (· = 0) then [] else starts.map (min · c.currentPos)
    headStartDirty := true }

def clearHeadStarts : KVCache :=
  { c with
    headStart := []
    headStartDirty := if c.headStart.isEmpty then c.headStartDirty else true }

/-- `head_start_device`: the mirror handed to the GPU kernels, uploaded when it is new or dirty. -/
def headStartDevice : Option (List (BitVec 32)) × KVCache :=
  if !c.kBuffer.isGpu then (none, c)
  else if c.headStartDev.isNone && !c.isRagged then (none, c)
  else
    let upload := (List.range c.kvHeads).map fun h => BitVec.ofNat 32 (c.headStartOf h)
    let dev := match c.headStartDev with
      | none => upload
      | some dev => if c.headStartDirty then upload else dev
    (some dev, { c with headStartDev := some dev, headStartDirty := false })

/-! ## Allocation -/

/-- Byte size of a buffer of `n` values in the cache's storage. -/
def bufSize (n : ℕ) : Except Fail ℕ :=
  match c.kBuffer.buffer.desc with
  | some d => match d.bytesForElems n with
    | some b => .ok b
    | none => .error (.panic "opaque KV grow: block-aligned accounting")
  | none => .ok (if c.isQ4 then n / QK4_0 * blockQ4_0Size else n * c.kvDtype.size)

def shapeAt (cap : ℕ) : List ℕ :=
  match c.layout with
  | .seqMajor => [1, cap, c.kvHeads, c.headDim]
  | .headMajor => [1, c.kvHeads, cap, c.headDim]

/-- One fresh KV tensor: device memory, except that an opaque store stays on the host. -/
def allocTensor (m : Memory) (size cap : ℕ) : Tensor × Memory :=
  let (b, m') := if c.isOpaque && c.kBuffer.isGpu then m.allocShared size c.kvDtype
    else m.allocKv size c.kvDtype
  (⟨c.shapeAt cap, { b with desc := c.kBuffer.buffer.desc }, c.kBuffer.isGpu⟩, m')

/-- Copy the resident positions of one buffer into a fresh one of capacity `cap`. -/
def copyResident (cap : ℕ) (old new : Tensor) : Tensor :=
  if c.currentPos = 0 then new
  else match c.layout with
    | .seqMajor => old.copySlice new 0 0 (c.currentPos * c.posUnits)
    | .headMajor =>
      let oldStride := (c.headUnits c.capacity).1
      let newStride := (c.headUnits cap).1
      let count := (c.headUnits c.currentPos).1
      (List.range c.kvHeads).foldl
        (fun t h => old.copySlice t (h * oldStride) (h * newStride) count) new

/-- Move the cache to fresh buffers of capacity `cap`. -/
def reallocTo (m : Memory) (cap size : ℕ) : KVCache :=
  let (newK, m₁) := c.allocTensor m size cap
  let (newV, m₂) := c.allocTensor m₁ size cap
  { c with
    kBuffer := c.copyResident cap c.kBuffer newK
    vBuffer := c.copyResident cap c.vBuffer newV
    capacity := cap
    memory := some m₂ }

def grow (minCapacity : ℕ) : Except Fail KVCache :=
  match c.memory with
  | none => .error (.err "KVCache::grow() called on a non-dynamic cache (created with new())")
  | some m =>
    let newCap := min (max (c.capacity * 2) minCapacity) c.maxSeqLen
    match c.bufSize (newCap * c.kvHeads * c.headDim) with
    | .error e => .error e
    | .ok size =>
      if c.currentPos > 0 ∧ c.layout = .seqMajor ∧ c.isOpaque then
        .error (.err "opaque KV grow: SeqMajor unsupported (HeadMajor only)")
      else .ok (c.reallocTo m newCap size)

/-- `ensure_capacity`: whether the cache grew. -/
def ensureCapacity (minTokens : ℕ) : Except Fail (Bool × KVCache) :=
  let max := c.maxSeqLen
  if minTokens ≤ c.capacity then .ok (false, c)
  else if minTokens > c.maxSeqLen then
    .error (.err s!"KV Cache overflow: need {minTokens} tokens but max_seq_len={max}")
  else match c.grow minTokens with
    | .error e => .error e
    | .ok c' => .ok (true, c')

/-- `shrink_to_fit` and `shrink_to_fit_opaque`: the bytes freed. -/
def shrinkToFit : Except Fail (ℕ × KVCache) :=
  match c.memory with
  | none => .ok (0, c)
  | some m =>
    let newCap := max (andNot (c.currentPos * 3 / 2 + 63) 63) 64
    if c.isOpaque ∧ c.layout ≠ .headMajor then .ok (0, c)
    else if newCap ≥ c.capacity then .ok (0, c)
    else match c.bufSize (newCap * c.kvHeads * c.headDim),
      c.bufSize (c.capacity * c.kvHeads * c.headDim) with
      | .ok size, .ok oldSize =>
        .ok ((oldSize - size) * 2, { c.reallocTo m newCap size with highWaterPos := c.currentPos })
      | .error e, _ => .error e
      | _, .error e => .error e

end Geometry

/-! ## Tokens -/

section Tokens

variable (P : Platform) (c : KVCache)

/-- `release_unused_pages` on one host F32/F16 buffer: the bytes released and the buffer. -/
def releaseBuffer (typeSize : ℕ) (t : Tensor) : ℕ × Tensor :=
  match c.layout with
  | .seqMajor =>
    let rowBytes := c.kvHeads * c.headDim * typeSize
    madviseDontneed P t (c.currentPos * rowBytes) (c.highWaterPos * rowBytes)
  | .headMajor =>
    let headStrideBytes := c.capacity * c.headDim * typeSize
    let usedPerHead := c.currentPos * c.headDim * typeSize
    let hwmPerHead := c.highWaterPos * c.headDim * typeSize
    (List.range c.kvHeads).foldl (fun (acc : ℕ × Tensor) h =>
      let base := h * headStrideBytes
      let tail := madviseDontneed P acc.2 (base + usedPerHead) (base + hwmPerHead)
      -- a ragged head's hole sits in front of its resident run
      let holeBytes := c.headStartOf h * c.headDim * typeSize
      let hole := if holeBytes > 0 then madviseDontneed P tail.2 base (base + holeBytes)
        else (0, tail.2)
      (acc.1 + tail.1 + hole.1, hole.2)) (0, t)

/-- `release_unused_pages`: shrink an underused dynamic cache, else release the unused pages of a
host F32/F16 cache. -/
def releaseUnusedPages : Except Fail (ℕ × KVCache) :=
  if c.memory.isSome ∧ c.currentPos * 4 < c.capacity * 3 then
    match c.shrinkToFit with
    | .ok r => .ok r
    | .error (.err _) => .ok (0, c)
    | .error (.panic m) => .error (.panic m)
  else if !c.kBuffer.buffer.isHostManaged then .ok (0, c)
  else match c.kvDtype with
    | .f16 | .f32 =>
      let k := c.releaseBuffer P c.kvDtype.size c.kBuffer
      let v := c.releaseBuffer P c.kvDtype.size c.vBuffer
      .ok (k.1 + v.1, { c with kBuffer := k.2, vBuffer := v.2, highWaterPos := c.currentPos })
    | _ => .ok (0, c)

/-- Whether `update` writes a HeadMajor F32/F16 store through host pointers; decided on the K side
for both buffers. -/
def canDirectCopy (newK : Tensor) : Bool :=
  (c.kvDtype = .f16 || c.kvDtype = .f32) && c.kBuffer.buffer.ptr ≠ 0 && newK.buffer.ptr ≠ 0 &&
    !c.kBuffer.buffer.isGpuBuffer && !newK.buffer.isGpuBuffer

/-- The write loop of `update` on one typed buffer. -/
def appendTyped (direct : Bool) (seqLen : ℕ) (new buf : Tensor) : Tensor :=
  match c.layout with
  | .seqMajor => new.copySlice buf 0 (c.currentPos * c.posUnits) (seqLen * c.posUnits)
  | .headMajor =>
    let srcRow := c.posUnits
    let dstHeadStride := (c.headUnits c.capacity).1
    let perHead := (c.headUnits c.capacity).2
    let typeSize := c.kvDtype.size
    if !c.isQ4 && direct then
      (List.range seqLen ×ˢ List.range c.kvHeads).foldl (fun t (x : ℕ × ℕ) =>
        t.withBytes (blit new.bytes ((x.1 * srcRow + x.2 * c.headDim) * typeSize) t.bytes
          ((x.2 * dstHeadStride + (c.currentPos + x.1) * c.headDim) * typeSize)
          (c.headDim * typeSize))) buf
    else
      (List.range seqLen ×ˢ List.range c.kvHeads).foldl (fun t (x : ℕ × ℕ) =>
        new.copySlice t (x.1 * srcRow + x.2 * perHead)
          (x.2 * dstHeadStride + c.currentPos * perHead + x.1 * perHead) perHead) buf

/-- The encode loop of `update_opaque` on one buffer; on an error the buffer as far as written. -/
def appendOpaque (d : KVLayoutDesc) (src : List UInt8) :
    List (ℕ × ℕ) → Tensor → Except Fail Unit × Tensor
  | [], t => (.ok (), t)
  | (s, h) :: xs, t =>
    let bph := c.opaqueBytesPerHead
    let pos := c.currentPos + s
    let off := h * (c.capacity * bph) + pos * bph
    let cap := c.capacity
    if pos ≥ c.capacity then (.error (.err s!"opaque KV update: capacity {cap} exceeded"), t)
    else match P.encodeViaDescriptor d
      (P.f32s src (s * (c.kvHeads * c.headDim) + h * c.headDim) c.headDim)
        (slice t.bytes off bph) with
      | .error e => (.error e, t)
      | .ok enc => appendOpaque d src xs (t.withBytes (blit enc 0 t.bytes off bph))

/-- The position counters after `seqLen` appended tokens. -/
def advancePos (n : ℕ) : KVCache :=
  { c with currentPos := c.currentPos + n, highWaterPos := max c.highWaterPos (c.currentPos + n) }

def updateOpaque (newK newV : Tensor) : Except Fail Unit × KVCache :=
  let seqLen := newK.shape.getD 1 0
  match c.kBuffer.buffer.desc with
  | none => (.error (.panic "opaque_desc() is only called on opaque storage (is_opaque guard)"), c)
  | some d =>
    if c.layout ≠ .headMajor then (.error (.err "opaque KV update: HeadMajor only"), c)
    else
      let k := c.appendOpaque P d newK.bytes (List.range seqLen ×ˢ List.range c.kvHeads) c.kBuffer
      match k.1 with
      | .error e => (.error e, { c with kBuffer := k.2 })
      | .ok () =>
        let v := c.appendOpaque P d newV.bytes (List.range seqLen ×ˢ List.range c.kvHeads) c.vBuffer
        match v.1 with
        | .error e => (.error e, { c with kBuffer := k.2, vBuffer := v.2 })
        | .ok () => (.ok (), { c with kBuffer := k.2, vBuffer := v.2 }.advancePos seqLen)

/-- The room `update` makes for `seqLen` tokens. -/
def makeRoom (seqLen : ℕ) : Except Fail KVCache :=
  if c.currentPos + seqLen > c.capacity then
    if c.currentPos + seqLen > c.maxSeqLen then .error (.err "KV Cache overflow")
    else c.grow (c.currentPos + seqLen)
  else .ok c

/-- `update`: append the tokens of `newK` and `newV`, seq-major `[1, seqLen, kvHeads, headDim]`. -/
def update (newK newV : Tensor) : Except Fail Unit × KVCache :=
  let seqLen := newK.shape.getD 1 0
  match c.makeRoom seqLen with
  | .error e => (.error e, c)
  | .ok c₁ =>
    if c₁.isOpaque then c₁.updateOpaque P newK newV
    else (.ok (), { c₁ with
      kBuffer := c₁.appendTyped (c₁.canDirectCopy newK) seqLen newK c₁.kBuffer
      vBuffer := c₁.appendTyped (c₁.canDirectCopy newK) seqLen newV c₁.vBuffer }.advancePos seqLen)

/-- `shift_positions` on one buffer. -/
def shiftBuffer (r : Run) (t : Tensor) : Tensor :=
  match c.layout with
  | .seqMajor => t.bufferShift (r.src * c.posUnits) (r.dst * c.posUnits) (r.count * c.posUnits)
  | .headMajor =>
    let (stride, perHead) := c.headUnits c.capacity
    (List.range c.kvHeads).foldl (fun t h =>
      t.bufferShift (h * stride + r.src * perHead) (h * stride + r.dst * perHead)
        (r.count * perHead)) t

/-- `shift_positions_for_head` on one buffer. -/
def shiftBufferForHead (head : ℕ) (r : Run) (t : Tensor) : Tensor :=
  let (stride, perHead) := c.headUnits c.capacity
  t.bufferShift (head * stride + r.src * perHead) (head * stride + r.dst * perHead)
    (r.count * perHead)

/-- `prune_prefix`: drop the first `count` positions. -/
def prunePrefix (count : ℕ) : Except Fail KVCache :=
  let pos := c.currentPos
  if count = 0 then .ok c
  else if count > c.currentPos
    then .error (.err s!"Cannot prune {count} tokens, only {pos} in cache")
  else
    let remaining := c.currentPos - count
    if remaining = 0 then .ok { c with currentPos := 0, highWaterPos := 0, headStart := [] }
    else
      -- a ragged head's hole shrinks with the prefix
      let c₁ := if c.isRagged then c.setHeadStarts (c.headStarts.map (· - count)) else c
      if c.layout = .seqMajor ∧ c.isOpaque then
        .error (.err "opaque KV prune_prefix: SeqMajor unsupported (HeadMajor only)")
      else
        let r : Run := ⟨count, 0, remaining⟩
        match { c₁ with
          kBuffer := c₁.shiftBuffer r c₁.kBuffer
          vBuffer := c₁.shiftBuffer r c₁.vBuffer
          currentPos := remaining }.releaseUnusedPages P with
        | .error e => .error e
        | .ok (_, c₂) => .ok c₂

/-- `shift_positions`: move `count` positions of every head. -/
def shiftPositions (r : Run) : Except Fail KVCache :=
  if r.count = 0 ∨ r.src = r.dst then .ok c
  else if c.layout = .seqMajor ∧ c.isOpaque then
    .error (.err "opaque KV shift_positions: SeqMajor unsupported (HeadMajor only)")
  else .ok { c with kBuffer := c.shiftBuffer r c.kBuffer, vBuffer := c.shiftBuffer r c.vBuffer }

/-- `shift_positions_for_head`: move `count` positions of one head. -/
def shiftPositionsForHead (head : ℕ) (r : Run) : Except Fail KVCache :=
  if c.layout ≠ .headMajor then .error (.panic "shift_positions_for_head requires HeadMajor layout")
  else if r.count = 0 ∨ r.src = r.dst then .ok c
  else .ok { c with
    kBuffer := c.shiftBufferForHead head r c.kBuffer
    vBuffer := c.shiftBufferForHead head r c.vBuffer }

end Tokens

/-! ## Compaction -/

/-- The batching loop of `compact_keep_positions`: `r` is the batch being built, `writePos` the
slot of the next kept position. -/
def compactLoop (writePos : ℕ) (r : Run) : List ℕ → KVCache → Except Fail KVCache
  | [], c => if r.src ≠ r.dst then c.shiftPositions r else .ok c
  | p :: ps, c =>
    if p = r.src + r.count then compactLoop (writePos + 1) { r with count := r.count + 1 } ps c
    else
      match if r.src ≠ r.dst then c.shiftPositions r else .ok c with
      | .error e => .error e
      | .ok c' => compactLoop (writePos + 1) ⟨p, writePos, 1⟩ ps c'

/-- `compact_keep_positions`: the kept positions of every head, from `writeStart` on. -/
def compactKeepPositions (c : KVCache) (keep : List ℕ) (writeStart : ℕ) : Except Fail KVCache :=
  match keep with
  | [] => .ok c
  | p :: ps => compactLoop (writeStart + 1) ⟨p, writeStart, 1⟩ ps c

/-- Flush runs of one head in order. -/
def flushRuns (head : ℕ) : List Run → KVCache → Except Fail KVCache
  | [], c => .ok c
  | r :: rs, c => match c.shiftPositionsForHead head r with
    | .error e => .error e
    | .ok c' => flushRuns head rs c'

/-- `compact_keep_positions_for_head`: coalesce the keep-list into runs, flush the prefix of runs
that move up last-to-first and the rest first-to-last. -/
def compactKeepPositionsForHead (c : KVCache) (head : ℕ) (keep : List ℕ) (writeStart : ℕ) :
    Except Fail KVCache :=
  if keep.isEmpty then .ok c
  else
    let runs := coalesce writeStart keep
    let split := runs.findIdx fun r => decide (r.dst ≤ r.src)
    match flushRuns head (runs.take split).reverse c with
    | .error e => .error e
    | .ok c' => flushRuns head ((runs.drop split).filter fun r => decide (r.src ≠ r.dst)) c'

end KVCache

end ArgusEngine
