import ArgusEngine.Kv.Cache

/-!
# Rows as values: weighted merges and re-encoding

A row is read as `headDim` values (`dequantize`, for an opaque store `dequantizeOpaque`) and written
back in a stored type (`writeTypedRow`). Two operations work on values:

* `applyWeightedMerges` replaces the row of `into` by a weighted sum of rows, head by head;
* `applyFormatPlan` re-encodes the resident rows of a layer into fresh buffers of another type.

A merge loop of the source writes value by value; the rows it reads are the row it writes or
disjoint from it, so one row at a time is the same.
-/

namespace ArgusEngine

open FlatMem

/-! ## Values of a row -/

section Values

variable (P : Platform) (c : KVCache)

/-- `dequantize_k` and `dequantize_v`. Other stored types leave the caller's buffer alone. -/
def KVCache.dequantize (t : Tensor) (pos head : ℕ) : List P.F :=
  match t.dtype with
  | .f32 => P.f32s t.bytes (c.offset pos head) c.headDim
  | .f16 =>
    (List.range c.headDim).map fun d => P.ofF16 (slice t.bytes ((c.offset pos head + d) * 2) 2)
  | .q4_0 =>
    let blocksPerPos := c.headDim / QK4_0
    let blockOff := c.q4BlockOffset pos head blocksPerPos
    (List.range blocksPerPos).flatMap fun bi =>
      P.ofQ4 (slice t.bytes ((blockOff + bi) * blockQ4_0Size) blockQ4_0Size)
  | _ => []

/-- `write_typed_row`: the values of one row, at the offset the cache reads them from. -/
def KVCache.writeTypedRow (buf : Tensor) (pos head : ℕ) (dtype : DType) (row : List P.F) : Tensor :=
  match dtype with
  | .f32 =>
    buf.withBytes (blit (row.flatMap P.toF32) 0 buf.bytes (c.offset pos head * 4) (c.headDim * 4))
  | .f16 =>
    buf.withBytes (blit (row.flatMap P.toF16) 0 buf.bytes (c.offset pos head * 2) (c.headDim * 2))
  | .q4_0 =>
    let blocksPerPos := c.headDim / QK4_0
    let blockOff := c.q4BlockOffset pos head blocksPerPos
    let blocks := (List.range blocksPerPos).flatMap fun bi => P.toQ4 (slice row (bi * QK4_0) QK4_0)
    buf.withBytes (blit blocks 0 buf.bytes (blockOff * blockQ4_0Size)
      (blocksPerPos * blockQ4_0Size))
  | _ => buf

/-- The values of a row of an opaque store. -/
def KVCache.dequantizeOpaque (d : KVLayoutDesc) (t : Tensor) (pos head : ℕ) : List P.F :=
  let bph := c.opaqueBytesPerHead
  P.decodeViaDescriptor d (slice t.bytes ((head * c.capacity + pos) * bph) bph) c.headDim

end Values

/-! ## Weighted merges -/

inductive MergeAxis where
  | both | keyOnly | valueOnly
  deriving Repr, DecidableEq

/-- The half a merge applies to. -/
def MergeAxis.covers : MergeAxis → Half → Bool
  | .both, _ => true
  | .keyOnly, x => x = .key
  | .valueOnly, x => x = .value

/-- The position merged into with its own weight, and the positions and weights merged from. -/
structure WeightedMerge (F : Type) where
  into : ℕ
  intoWeight : F
  source : List (ℕ × F)
  applyTo : MergeAxis

/-- One value of a merged row: `scale` weights the `into` value, the others are added in order. -/
def Platform.mergeRow (P : Platform) (scale : P.F → P.F) (into : List P.F)
    (source : List (List P.F × P.F)) : List P.F :=
  into.mapIdx fun d x =>
    source.foldl (fun acc fw => P.add acc (P.mul fw.2 (fw.1.getD d x))) (scale x)

section Merge

variable (P : Platform) (c : KVCache)

/-- One head of one merge on one buffer: `merge_row_weighted_f32`, `_f16`, `_q4` and `_opaque`. -/
def mergeHead (m : WeightedMerge P.F) (head : ℕ) (t : Tensor) : Except Fail Tensor :=
  match c.kBuffer.buffer.desc with
  | some d =>
    let bph := c.opaqueBytesPerHead
    let off := (head * c.capacity + m.into) * bph
    let row := P.mergeRow (P.mul m.intoWeight) (c.dequantizeOpaque P d t m.into head)
      (m.source.map fun pw => (c.dequantizeOpaque P d t pw.1 head, pw.2))
    match P.encodeViaDescriptor d row (slice t.bytes off bph) with
    | .error _ => .error (.panic "opaque weighted-merge merge re-encode (q4_0 family descriptor)")
    | .ok enc => .ok (t.withBytes (blit enc 0 t.bytes off bph))
  | none =>
    -- the block kernel scales the unpacked value, the element kernels multiply by it
    let scale := if t.dtype = .q4_0 then fun v => P.mul v m.intoWeight else P.mul m.intoWeight
    let row := P.mergeRow scale (c.dequantize P t m.into head)
      (m.source.map fun pw => (c.dequantize P t pw.1 head, pw.2))
    .ok (c.writeTypedRow P t m.into head t.dtype row)

/-- The merges of one half, merge by merge and head by head; a merge from nothing is skipped. -/
def mergeBuffer (x : Half) (merges : List (WeightedMerge P.F)) (t : Tensor) : Except Fail Tensor :=
  ((merges.filter fun m => !m.source.isEmpty && m.applyTo.covers x) ×ˢ List.range c.kvHeads).foldlM
    (fun t mh => mergeHead P c mh.1 mh.2 t) t

def applyWeightedMerges (merges : List (WeightedMerge P.F)) : Except Fail KVCache := do
  let k ← mergeBuffer P c .key merges c.kBuffer
  let v ← mergeBuffer P c .value merges c.vBuffer
  return { c with kBuffer := k, vBuffer := v }

end Merge

/-! ## Re-encoding -/

inductive KeepSpec where
  | layerWide (positions : List ℕ)
  | perHead (positions : List (List ℕ))
  deriving Repr, DecidableEq

structure FormatOverride where
  region : KeepSpec
  format : String
  side : MergeAxis
  deriving Repr, DecidableEq

structure KVFormatPlan where
  base : String
  overrides : List FormatOverride
  deriving Repr, DecidableEq

inductive FormatApplyError where
  | heterogeneousUnsupported
  | unsupportedFormat (name : String)
  | uniformReencodeNotWired
  deriving Repr, DecidableEq

/-- The `Display` text. -/
def FormatApplyError.text : FormatApplyError → String
  | .heterogeneousUnsupported =>
    "KVFormatPlan assigns heterogeneous-within-layer precision (per-head or per-token); " ++
    "no current container can store it — needs a heterogeneous-membership store (L2)"
  | .unsupportedFormat name => s!"KVFormatPlan names a format the backend cannot decode: {name}"
  | .uniformReencodeNotWired =>
    "uniform-per-layer precision change is well-formed but per-layer re-encode is not yet " ++
    "wired (L1, deferred)"

section Reencode

variable (P : Platform) (c : KVCache)

def currentFormatName : String :=
  match c.kvDtype with
  | .f32 => "f32"
  | .f16 => "f16"
  | .q4_0 => "q4_0"
  | _ => "unknown"

def isTypedFloor : DType → Bool
  | .f32 | .f16 | .q4_0 => true
  | _ => false

def typedFloorDtype (name : String) : Option DType :=
  if name = "f32" then some .f32
  else if name = "f16" then some .f16
  else if name = "q4_0" then some .q4_0
  else none

def typedByteSize (nValues : ℕ) : DType → ℕ
  | .q4_0 => nValues / QK4_0 * blockQ4_0Size
  | dtype => nValues * dtype.size

/-- A fresh host tensor of another stored type, with the resident rows of `old` re-encoded. -/
def reencodeBuffer (target : DType) (old : Tensor) : Tensor :=
  let size := typedByteSize (c.capacity * c.kvHeads * c.headDim) target
  let fresh : Tensor := ⟨c.kBuffer.shape,
    ⟨target, none, List.replicate size 0, P.hostPtr, false, true⟩, c.kBuffer.isGpu⟩
  (List.range c.currentPos ×ˢ List.range c.kvHeads).foldl (fun t ph =>
    c.writeTypedRow P t ph.1 ph.2 target (c.dequantize P old ph.1 ph.2)) fresh

/-- `reencode_typed`, with the device path of `reencode_typed_device`: a device-resident cache is
re-encoded in a host mirror and uploaded to buffers of its allocator. -/
def reencodeTyped (target : DType) : Except FormatApplyError KVCache :=
  let qk := QK4_0
  let hd := c.headDim
  if target = .q4_0 ∧ c.headDim % QK4_0 ≠ 0 then
    .error (.unsupportedFormat s!"q4_0 re-encode needs head_dim a multiple of {qk}, got {hd}")
  else
    let newK := reencodeBuffer P c target c.kBuffer
    let newV := reencodeBuffer P c target c.vBuffer
    if !c.kBuffer.buffer.isGpuBuffer then .ok { c with kBuffer := newK, vBuffer := newV }
    else match c.memory with
      | none =>
        .error (.unsupportedFormat
          "device re-encode needs the cache's grow allocator (memory=None)")
      | some m =>
        let (devK, m₁) := m.allocKv newK.size target
        let (devV, m₂) := m₁.allocKv newV.size target
        .ok { c with
          kBuffer := { newK with buffer := { devK with bytes := newK.bytes } }
          vBuffer := { newV with buffer := { devV with bytes := newV.bytes } }
          memory := some m₂ }

def reencodeUniform (target : String) : Except FormatApplyError KVCache :=
  let source := currentFormatName c
  if !isTypedFloor c.kvDtype then .error (.unsupportedFormat
    s!"re-encode source '{source}' is not a typed floor format (f32/f16/q4_0)")
  else match typedFloorDtype target with
    | none => .error (.unsupportedFormat target)
    | some dtype => if c.kvDtype = dtype then .ok c else reencodeTyped P c dtype

/-- `apply_format_plan`: nothing to do, a bare base swap, or an honest refusal. -/
def applyFormatPlan (plan : KVFormatPlan) : Except FormatApplyError KVCache :=
  if plan.overrides.isEmpty ∧ plan.base = currentFormatName c then .ok c
  else if plan.overrides.any fun ov => match ov.region with
      | .perHead _ => true
      | .layerWide positions => decide (positions.length ≠ c.currentPos) then
    .error .heterogeneousUnsupported
  else if plan.overrides.isEmpty then reencodeUniform P c plan.base
  else .error .uniformReencodeNotWired

end Reencode

end ArgusEngine
