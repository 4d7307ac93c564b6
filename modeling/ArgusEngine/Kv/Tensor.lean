import Mathlib.Data.List.ProdSigma
import Mathlib.Tactic.Ring
import ArgusEngine.Lib.Cursor

/-!
# Buffers, tensors and the host backend

The storage under a KV cache: `DType`, the block-format descriptor `KVLayoutDesc` of an opaque
buffer, `Buffer`, `Tensor`, the allocator `Memory` and the host backend's byte operations
(`copySlice`, `bufferShift`, `madviseDontneed`). Offsets of `copySlice` and `bufferShift` count in
units of the stored type: elements, 18-byte `Q4_0` blocks, or raw bytes.

`Platform` holds what the engine takes from the machine: the page size and the `f32` arithmetic
with its conversions, which stay abstract.
-/

namespace ArgusEngine

open FlatMem

/-- An `anyhow` error with its text, or a panic. -/
inductive Fail where
  | err (text : String)
  | panic (text : String)
  deriving Repr, DecidableEq

/-! ## Stored types -/

inductive DType where
  | q4_0 | q4_1 | q8_0 | f16 | bf16 | f32 | u8
  deriving Repr, DecidableEq

/-- Values of one `Q4_0` block. -/
def QK4_0 : ℕ := 32

/-- Bytes of one `BlockQ4_0`: an `f16` scale and 32 nibbles. -/
def blockQ4_0Size : ℕ := 18

/-- `DType::size`. -/
def DType.size : DType → ℕ
  | .q4_0 | .q4_1 | .q8_0 => 1
  | .f16 | .bf16 => 2
  | .f32 => 4
  | .u8 => 1

/-- The `Debug` text of a variant, as error messages print it. -/
def DType.debug : DType → String
  | .q4_0 => "Q4_0"
  | .q4_1 => "Q4_1"
  | .q8_0 => "Q8_0"
  | .f16 => "F16"
  | .bf16 => "BF16"
  | .f32 => "F32"
  | .u8 => "U8"

/-- The unit of `copy_slice` and `buffer_shift`, in bytes. -/
def DType.typeSize : DType → ℕ
  | .f32 => 4
  | .f16 => 2
  | .u8 => 1
  | .q4_0 => blockQ4_0Size
  | _ => 1

/-- The two halves of a KV cache. -/
inductive Half where
  | key | value
  deriving Repr, DecidableEq

inductive KVLayout where
  | seqMajor | headMajor
  deriving Repr, DecidableEq

inductive ScaleLayout where
  | none | perBlockF16 | perBlockF16WithMin
  deriving Repr, DecidableEq

inductive Packing where
  | dense | nibble | byte | quad
  deriving Repr, DecidableEq

@[inherit_doc DType.debug]
def ScaleLayout.debug : ScaleLayout → String
  | .none => "None"
  | .perBlockF16 => "PerBlockF16"
  | .perBlockF16WithMin => "PerBlockF16WithMin"

@[inherit_doc DType.debug]
def Packing.debug : Packing → String
  | .dense => "Dense"
  | .nibble => "Nibble"
  | .byte => "Byte"
  | .quad => "Quad"

/-- The descriptor of a block format. -/
structure KVLayoutDesc where
  blockElems : ℕ
  bits : ℕ
  scaleLayout : ScaleLayout
  packing : Packing
  deriving Repr, DecidableEq

/-- Bytes of one block; `none` for a dense format. -/
def KVLayoutDesc.blockBytes (d : KVLayoutDesc) : Option ℕ :=
  let scaleBytes := match d.scaleLayout with
    | .none => 0
    | .perBlockF16 => 2
    | .perBlockF16WithMin => 4
  match d.packing with
  | .dense => none
  | .nibble => some (scaleBytes + d.blockElems / 2)
  | .byte => some (scaleBytes + d.blockElems)
  | .quad => some (scaleBytes + d.blockElems / 4)

/-- Bytes of `numel` elements; `none` when they do not fill whole blocks. -/
def KVLayoutDesc.bytesForElems (d : KVLayoutDesc) (numel : ℕ) : Option ℕ :=
  match d.blockBytes with
  | none => some (numel * (d.bits / 8))
  | some bb => if d.blockElems = 0 ∨ numel % d.blockElems ≠ 0 then none
    else some (numel / d.blockElems * bb)

/-! ## The platform -/

/-- The page size and the floating point of the machine. -/
structure Platform where
  pageShift : ℕ
  /-- Where a host buffer lands that is not made by a cache's allocator. -/
  hostPtr : ℕ
  /-- `f32` values. -/
  F : Type
  add : F → F → F
  mul : F → F → F
  ofF32 : List UInt8 → F
  toF32 : F → List UInt8
  ofF16 : List UInt8 → F
  toF16 : F → List UInt8
  /-- `BlockQ4_0::dequantize` and `quantize`. -/
  ofQ4 : List UInt8 → List F
  toQ4 : List F → List UInt8
  /-- One block of a descriptor format: `unpack_block_via_descriptor` and the block encoders. -/
  unpackBlock : KVLayoutDesc → List UInt8 → List F
  encodeBlock : KVLayoutDesc → List F → List UInt8
  length_toF32 : ∀ x, (toF32 x).length = 4
  length_toF16 : ∀ x, (toF16 x).length = 2
  length_toQ4 : ∀ x, (toQ4 x).length = blockQ4_0Size
  length_ofQ4 : ∀ b, (ofQ4 b).length = QK4_0
  length_encodeBlock : ∀ d x, (encodeBlock d x).length = d.blockBytes.getD 0
  length_unpackBlock : ∀ d b, (unpackBlock d b).length = d.blockElems

namespace Platform

variable (P : Platform)

def pageSize : ℕ := 2 ^ P.pageShift

/-- The `f32` values of a memory, four bytes each. -/
def f32s (b : List UInt8) (off n : ℕ) : List P.F :=
  (List.range n).map fun i => P.ofF32 (slice b ((off + i) * 4) 4)

/-- `encode_via_descriptor`: the new contents of `dst`. -/
def encodeViaDescriptor (d : KVLayoutDesc) (src : List P.F) (dst : List UInt8) :
    Except Fail (List UInt8) :=
  let writable := (d.scaleLayout = .perBlockF16 ∧ d.packing = .nibble) ∨
    (d.scaleLayout = .perBlockF16WithMin ∧ d.packing = .quad)
  let sl := d.scaleLayout.debug
  let pk := d.packing.debug
  let be := d.blockElems
  let bb := d.blockBytes.getD 0
  let len := src.length
  let blocks := len / be
  let room := dst.length
  let need := blocks * bb
  if ¬ writable then .error (.err (
    "encode_via_descriptor: only PerBlockF16/Nibble(q4_0) or PerBlockF16WithMin/Quad(q2_0) " ++
    s!"supported, got {sl}/{pk}"))
  else if be = 0 ∨ len % be ≠ 0 then .error (.err
    s!"encode_via_descriptor: src len {len} not a multiple of block_elems {be}")
  else if room < need then .error (.err
    s!"encode_via_descriptor: dst {room} < {need} ({blocks} blocks × {bb} bytes)")
  else
    let out := (List.range blocks).flatMap fun bi =>
      P.encodeBlock d (slice src (bi * d.blockElems) d.blockElems)
    .ok (out ++ dst.drop out.length)

/-- `decode_via_descriptor`: the `n` values of a run of blocks. -/
def decodeViaDescriptor (d : KVLayoutDesc) (src : List UInt8) (n : ℕ) : List P.F :=
  let bb := d.blockBytes.getD 0
  (List.range (n / d.blockElems)).flatMap fun bi => P.unpackBlock d (slice src (bi * bb) bb)

end Platform

/-! ## A concrete platform -/

namespace FixedPoint

/-- A binary float with `m` mantissa bits and sign bit `w`, in units of its smallest subnormal. -/
def decode (m w : ℕ) (b : List UInt8) : Int :=
  let n := ofLe b
  let e := n / 2 ^ m % 2 ^ (w - m)
  let f := n % 2 ^ m
  let a : ℕ := if e = 0 then f else (2 ^ m + f) * 2 ^ (e - 1)
  if n / 2 ^ w = 0 then a else -a

/-- The float at or below a value in magnitude. -/
def encode (m w k : ℕ) (x : Int) : List UInt8 :=
  let a := x.natAbs
  let e := a.log2 - m
  let n := if a < 2 ^ m then a else (e + 1) * 2 ^ m + (a / 2 ^ e - 2 ^ m)
  toLe k (if x < 0 then 2 ^ w + n else n)

/-- `quantize` of a block: an `f16` scale and two nibbles a byte, rounded half away from zero. -/
def quantize (src : List Int) : List UInt8 :=
  let maxAbs := (src.map Int.natAbs).foldl max 0
  let q (x : Int) : ℕ := ((if maxAbs = 0 then 0
    else max (-8) (min 7 (x.sign * ((14 * x.natAbs + maxAbs) / (2 * maxAbs) : ℕ)))) + 8 : Int).toNat
  encode 10 15 2 (maxAbs / 7 / 2 ^ 125 : ℕ) ++
    (List.range 16).map fun i => UInt8.ofNat (q (src.getD i 0) + 16 * q (src.getD (i + 16) 0))

/-- `dequantize` of a block. -/
def dequantize (b : List UInt8) : List Int :=
  let d := decode 10 15 (b.take 2) * 2 ^ 125
  let v (n : ℕ) : Int := ((n : Int) - 8) * d
  (List.range 32).map fun i =>
    v (((b.drop 2).getD (i % 16) 0).toNat / (if i < 16 then 1 else 16) % 16)

end FixedPoint

open FixedPoint in
/-- A platform with 4 KiB pages whose `f32` values are integers in units of `2 ^ -149`, exact
wherever no rounding is needed; every descriptor block encodes to zeros. -/
def Platform.fixedPoint : Platform where
  pageShift := 12
  hostPtr := 65536
  F := Int
  add := (· + ·)
  mul x y := x * y / 2 ^ 149
  ofF32 := decode 23 31
  toF32 := encode 23 31 4
  ofF16 b := decode 10 15 b * 2 ^ 125
  toF16 x := encode 10 15 2 (x / 2 ^ 125)
  ofQ4 := dequantize
  toQ4 := quantize
  unpackBlock d _ := List.replicate d.blockElems 0
  encodeBlock d _ := List.replicate (d.blockBytes.getD 0) 0
  length_toF32 _ := length_toLe _ _
  length_toF16 _ := length_toLe _ _
  length_toQ4 _ := by simp [quantize, encode, length_toLe, blockQ4_0Size]
  length_ofQ4 _ := by simp [dequantize, QK4_0]
  length_encodeBlock _ _ := List.length_replicate
  length_unpackBlock _ _ := List.length_replicate

/-! ## Buffers and tensors -/

/-- A buffer: stored type, the descriptor when it is an `OpaqueBuffer`, contents and address. -/
structure Buffer where
  dtype : DType
  desc : Option KVLayoutDesc
  bytes : List UInt8
  ptr : ℕ
  isGpuBuffer : Bool
  isHostManaged : Bool
  deriving Repr, DecidableEq

/-- A tensor: shape, buffer, and whether its backend is a GPU. -/
structure Tensor where
  shape : List ℕ
  buffer : Buffer
  isGpu : Bool
  deriving Repr, DecidableEq

namespace Tensor

def dtype (t : Tensor) : DType := t.buffer.dtype

def bytes (t : Tensor) : List UInt8 := t.buffer.bytes

def size (t : Tensor) : ℕ := t.buffer.bytes.length

def withBytes (t : Tensor) (b : List UInt8) : Tensor :=
  { t with buffer := { t.buffer with bytes := b } }

@[simp] theorem bytes_withBytes (t : Tensor) (b : List UInt8) : (t.withBytes b).bytes = b := rfl
@[simp] theorem dtype_withBytes (t : Tensor) (b : List UInt8) :
    (t.withBytes b).dtype = t.dtype := rfl
@[simp] theorem desc_withBytes (t : Tensor) (b : List UInt8) :
    (t.withBytes b).buffer.desc = t.buffer.desc := rfl
@[simp] theorem withBytes_withBytes (t : Tensor) (b b' : List UInt8) :
    (t.withBytes b).withBytes b' = t.withBytes b' := rfl
@[simp] theorem withBytes_bytes (t : Tensor) : t.withBytes t.bytes = t := rfl

/-- A host F32 tensor. -/
def host (shape : List ℕ) (bytes : List UInt8) : Tensor :=
  ⟨shape, ⟨.f32, none, bytes, 4096, false, true⟩, false⟩

/-- `copy_slice`: offsets and count in units of the source's type. -/
def copySlice (src dst : Tensor) (srcOffset dstOffset count : ℕ) : Tensor :=
  let typeSize := src.dtype.typeSize
  dst.withBytes (blit src.bytes (srcOffset * typeSize) dst.bytes (dstOffset * typeSize)
    (count * typeSize))

/-- `buffer_shift`: a move inside one buffer, in units of its type. -/
def bufferShift (t : Tensor) (srcOffset dstOffset count : ℕ) : Tensor :=
  copySlice t t srcOffset dstOffset count

/-- `write_buffer_range`. -/
def writeBufferRange (t : Tensor) (src : List UInt8) (dstOffset : ℕ) : Except Fail Tensor :=
  let len := src.length
  let size := t.size
  if dstOffset + len > size then
    .error (.err s!"write_buffer_range: out of bounds ({dstOffset} + {len} > {size})")
  else .ok (t.withBytes (blit src 0 t.bytes dstOffset src.length))

theorem foldl_withBytes {ι : Type*} (g : ι → List UInt8 → List UInt8) (l : List ι) (t : Tensor) :
    l.foldl (fun t x => t.withBytes (g x t.bytes)) t =
      t.withBytes (l.foldl (fun b x => g x b) t.bytes) := by
  induction l generalizing t with
  | nil => rfl
  | cons x l ih => rw [List.foldl_cons, List.foldl_cons, ih]; rfl

theorem foldl_bufferShift {ι : Type*} (a e n : ι → ℕ) (l : List ι) (t : Tensor) :
    l.foldl (fun t x => t.bufferShift (a x) (e x) (n x)) t =
      t.withBytes (l.foldl (fun b x => blit b (a x * t.dtype.typeSize) b (e x * t.dtype.typeSize)
        (n x * t.dtype.typeSize)) t.bytes) := by
  induction l generalizing t with
  | nil => rfl
  | cons x l ih => rw [List.foldl_cons, List.foldl_cons, ih]; rfl

end Tensor

/-! ## The allocator -/

/-- A `Memory`: whether it hands out device buffers, and where its `n`-th allocation lands. -/
structure Memory where
  isGpu : Bool
  address : ℕ → ℕ
  next : ℕ

/-- `alloc_kv`: a zeroed buffer. -/
def Memory.allocKv (m : Memory) (size : ℕ) (dtype : DType) : Buffer × Memory :=
  (⟨dtype, none, List.replicate size 0, m.address m.next, m.isGpu, !m.isGpu⟩,
    { m with next := m.next + 1 })

/-- `SharedBuffer::new`, at an address of the allocator's. -/
def Memory.allocShared (m : Memory) (size : ℕ) (dtype : DType) : Buffer × Memory :=
  (⟨dtype, none, List.replicate size 0, m.address m.next, false, true⟩,
    { m with next := m.next + 1 })

/-! ## Releasing pages -/

/-- `x & !mask`. -/
def andNot (x mask : ℕ) : ℕ := x ^^^ (x &&& mask)

def roundUp (x align : ℕ) : ℕ := andNot (x + align - 1) (align - 1)

def roundDown (x align : ℕ) : ℕ := andNot x (align - 1)

theorem andNot_two_pow (x k : ℕ) : andNot x (2 ^ k - 1) = x / 2 ^ k * 2 ^ k := by
  rw [andNot, Nat.and_two_pow_sub_one_eq_mod]
  refine Nat.eq_of_testBit_eq fun i => ?_
  rw [Nat.testBit_xor, Nat.testBit_mod_two_pow, Nat.testBit_mul_two_pow, Nat.testBit_div_two_pow]
  by_cases hi : i < k
  · simp [hi, Nat.not_le.mpr hi]
  · have hk : k ≤ i := Nat.not_lt.mp hi
    simp [hi, hk, Nat.sub_add_cancel hk]

theorem le_roundUp (x k : ℕ) : x ≤ roundUp x (2 ^ k) := by
  rw [roundUp, andNot_two_pow]
  have h := Nat.div_add_mod (x + 2 ^ k - 1) (2 ^ k)
  have h' := Nat.mod_lt (x + 2 ^ k - 1) (Nat.two_pow_pos k)
  rw [Nat.mul_comm] at h
  omega

theorem roundDown_le (x k : ℕ) : roundDown x (2 ^ k) ≤ x := by
  rw [roundDown, andNot_two_pow]
  exact Nat.div_mul_le_self x _

/-- `madvise_dontneed` on `[from, to)` of a buffer: the released pages read as zeros afterwards.
The result is the number of bytes advised and the buffer. -/
def madviseDontneed (P : Platform) (t : Tensor) (fromOffset toOffset : ℕ) : ℕ × Tensor :=
  let alignedStart := roundUp (t.buffer.ptr + fromOffset) P.pageSize
  let alignedEnd := roundDown (t.buffer.ptr + toOffset) P.pageSize
  if toOffset ≤ fromOffset ∨ t.buffer.ptr = 0 ∨ alignedEnd ≤ alignedStart then (0, t)
  else (alignedEnd - alignedStart,
    t.withBytes (fill t.bytes (alignedStart - t.buffer.ptr) (alignedEnd - t.buffer.ptr) 0))

/-- **Releasing `[from, to)` keeps the rows outside it**, whatever the page size and the address. -/
theorem rows_madviseDontneed (P : Platform) (t : Tensor) {w lo hi s : ℕ}
    (h : s * w + w ≤ lo ∨ hi ≤ s * w) :
    rows w (madviseDontneed P t lo hi).2.bytes s = rows w t.bytes s := by
  simp only [madviseDontneed]
  split_ifs
  · rfl
  · rw [Tensor.bytes_withBytes]
    have h₁ := le_roundUp (t.buffer.ptr + lo) P.pageShift
    have h₂ := roundDown_le (t.buffer.ptr + hi) P.pageShift
    refine rows_fill_of_notMem ?_
    simp only [Platform.pageSize]
    omega

end ArgusEngine
