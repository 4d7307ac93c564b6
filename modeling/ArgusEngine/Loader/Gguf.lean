import ArgusEngine.Lib.Checked
import ArgusEngine.Lib.Words

/-!
# The GGUF parser

`GgufFile.parseBytes` reads the header, the metadata and the list of tensors of a GGUF file with a
cursor; `GgufFile.tensorData` takes the bytes of one tensor. A string is kept as the bytes it is
decoded from. Sums and products are checked for overflow, and every container is made with the
capacity the file asks for.

* `stack`: the calls of `readValue` that may be active at once, one for each level of nested arrays;
* `bytesFor c n`: the bytes that container `c` takes for `n` entries; a request for more than the
  file holds is not met.
-/

namespace ArgusEngine.Gguf

open Checked
open FlatMem (slice ofLe)

def GGUF_MAGIC : ℕ := 0x46554747

def GGUF_VERSION_3 : ℕ := 3

def GGUF_DEFAULT_ALIGNMENT : ℕ := 32

def GGUF_TYPE_STRING : ℕ := 8

def GGUF_TYPE_ARRAY : ℕ := 9

/-- The values of the metadata; `f32` and `f64` by their bits. -/
inductive GgufValue where
  | u8 (n : UInt8)
  | i8 (n : Int8)
  | u16 (n : UInt16)
  | i16 (n : Int16)
  | u32 (n : UInt32)
  | i32 (n : Int32)
  | u64 (n : UInt64)
  | i64 (n : Int64)
  | f32 (bits : UInt32)
  | f64 (bits : UInt64)
  | bool (b : Bool)
  | string (bytes : List UInt8)
  | array (values : List GgufValue)

structure GgufTensorInfo where
  name : List UInt8
  /-- Innermost first. -/
  dims : List ℕ
  ggmlType : ℕ
  /-- From the start of the tensor data. -/
  offset : ℕ
  deriving Repr, DecidableEq

/-- The containers that are made with a capacity. -/
inductive Container where
  | metadata
  | values
  | tensors
  | tensorIndex
  | dims
  deriving Repr, DecidableEq

/-- A reader at a position. -/
abbrev Reader (α : Type) : Type := ℕ → Except (Fault String) (α × ℕ)

section Cursor

variable (bytesFor : Container → ℕ → ℕ) (data : List UInt8)

def readBytes (n : ℕ) : Reader (List UInt8) := fun pos => do
  let stop ← add pos n
  ensure (stop ≤ data.length)
    s!"GGUF: unexpected EOF at offset {pos} (need {n} bytes, {data.length - pos} remaining)"
  return (← index data pos stop, stop)

/-- `read_u8`, `read_u32` and so on: a number of `w` bytes. -/
def readLe (w : ℕ) : Reader ℕ := fun pos => do
  let (b, pos) ← readBytes data w pos
  return (ofLe b, pos)

/-- `read_string`: its length, then its bytes. -/
def readString : Reader (List UInt8) := fun pos => do
  let (len, pos) ← readLe data 8 pos
  readBytes data len pos

/-- `with_capacity(n)`. -/
def withCapacity (c : Container) (n : ℕ) : Except (Fault String) Unit :=
  if bytesFor c n ≤ data.length then .ok ()
  else .error (.panic s!"memory allocation of {bytesFor c n} bytes failed")

/-- The value types of fixed width, by their tags: the width and the value of a number read. -/
def scalarOf : ℕ → Option (ℕ × (ℕ → GgufValue))
  | 0 => some (1, fun n => .u8 (.ofNat n))
  | 1 => some (1, fun n => .i8 (UInt8.ofNat n).toInt8)
  | 2 => some (2, fun n => .u16 (.ofNat n))
  | 3 => some (2, fun n => .i16 (UInt16.ofNat n).toInt16)
  | 4 => some (4, fun n => .u32 (.ofNat n))
  | 5 => some (4, fun n => .i32 (UInt32.ofNat n).toInt32)
  | 6 => some (4, fun n => .f32 (.ofNat n))
  | 7 => some (1, fun n => .bool (n != 0))
  | 10 => some (8, fun n => .u64 (.ofNat n))
  | 11 => some (8, fun n => .i64 (UInt64.ofNat n).toInt64)
  | 12 => some (8, fun n => .f64 (.ofNat n))
  | _ => none

/-- The branch of arrays: the type and the number of the elements, then the elements. -/
def readArray (readValue : ℕ → Reader GgufValue) : Reader GgufValue := fun pos => do
  let (elemType, pos) ← readLe data 4 pos
  let (count, pos) ← readLe data 8 pos
  withCapacity bytesFor data .values count
  let (arr, pos) ← reads (readValue elemType) count pos
  return (.array arr, pos)

/-- `read_value`: an array calls it again for each of its elements, one frame deeper. -/
def readValue : (stack tag : ℕ) → Reader GgufValue
  | 0, _, _ => .error (.panic "stack overflow")
  | stack + 1, tag, pos =>
    match scalarOf tag with
    | some (w, value) => do
      let (n, pos) ← readLe data w pos
      return (value n, pos)
    | none =>
      if tag = GGUF_TYPE_STRING then do
        let (s, pos) ← readString data pos
        return (.string s, pos)
      else if tag = GGUF_TYPE_ARRAY then readArray bytesFor data (readValue stack) pos
      else .error (.err s!"GGUF: unknown value type tag {tag}")

/-- One entry of the metadata. -/
def readKv (stack : ℕ) : Reader (List UInt8 × GgufValue) := fun pos => do
  let (key, pos) ← readString data pos
  let (typeTag, pos) ← readLe data 4 pos
  let (value, pos) ← readValue bytesFor data stack typeTag pos
  return ((key, value), pos)

/-- One entry of the tensor list. -/
def readTensorInfo : Reader GgufTensorInfo := fun pos => do
  let (name, pos) ← readString data pos
  let (nDims, pos) ← readLe data 4 pos
  withCapacity bytesFor data .dims nDims
  let (dims, pos) ← reads (readLe data 8) nDims pos
  let (ggmlType, pos) ← readLe data 4 pos
  let (offset, pos) ← readLe data 8 pos
  return (⟨name, dims, ggmlType, offset⟩, pos)

/-- `align_to`: the position behind it. -/
def alignTo (alignment pos : ℕ) : Except (Fault String) ℕ := do
  let r ← rem pos alignment
  if r ≠ 0 then add pos (← sub alignment r) else .ok pos

end Cursor

structure GgufFile where
  mmap : List UInt8
  version : ℕ
  /-- In the order of the file; a later entry replaces an earlier one of the same key. -/
  metadata : List (List UInt8 × GgufValue)
  tensors : List GgufTensorInfo
  tensorDataOffset : ℕ

/-- `{:08X}` with the prefix `0x`. -/
def hex08 (n : ℕ) : String :=
  let digits := (Nat.toDigits 16 n).map Char.toUpper
  "0x" ++ String.ofList (List.replicate (8 - digits.length) '0' ++ digits)

/-- `metadata.get`. -/
def metadataGet (metadata : List (List UInt8 × GgufValue)) (key : String) : Option GgufValue :=
  (metadata.reverse.find? fun e => e.1 = asBytes key).map (·.2)

/-- `general.alignment`, or the default. -/
def alignmentOf (metadata : List (List UInt8 × GgufValue)) : ℕ :=
  match metadataGet metadata "general.alignment" with
  | some (.u32 a) => a.toNat
  | some (.u64 a) => a.toNat
  | _ => GGUF_DEFAULT_ALIGNMENT

namespace GgufFile

def parseBytes (bytesFor : Container → ℕ → ℕ) (stack : ℕ) (data : List UInt8) :
    Except (Fault String) GgufFile := do
  let (magic, pos) ← readLe data 4 0
  ensure (magic = GGUF_MAGIC)
    s!"GGUF: invalid magic number {hex08 magic} (expected {hex08 GGUF_MAGIC})"
  let (version, pos) ← readLe data 4 pos
  ensure (version = GGUF_VERSION_3) s!"GGUF: unsupported version {version} (only v3 supported)"
  let (tensorCount, pos) ← readLe data 8 pos
  let (kvCount, pos) ← readLe data 8 pos
  withCapacity bytesFor data .metadata kvCount
  let (metadata, pos) ← reads (readKv bytesFor data stack) kvCount pos
  let alignment := alignmentOf metadata
  withCapacity bytesFor data .tensors tensorCount
  withCapacity bytesFor data .tensorIndex tensorCount
  let (tensors, pos) ← reads (readTensorInfo bytesFor data) tensorCount pos
  let tensorDataOffset ← alignTo alignment pos
  return ⟨data, version, metadata, tensors, tensorDataOffset⟩

end GgufFile

/-- The elements and the bytes of a block, by `ggml_type`: `F32`, `F16`, `Q4_0`, `Q4_1`, `Q8_0` and
`Q4_K`. -/
def blockOf : ℕ → Option (ℕ × ℕ)
  | 0 => some (1, 4)
  | 1 => some (1, 2)
  | 2 => some (32, 18)
  | 3 => some (32, 20)
  | 8 => some (32, 34)
  | 12 => some (256, 144)
  | _ => none

/-- `tensor_byte_size`: no bytes for the other types. -/
def tensorByteSize (info : GgufTensorInfo) : Except (Fault String) ℕ := do
  let numElements ← info.dims.foldlM mul 1
  match blockOf info.ggmlType with
  | some (elements, bytes) => mul (numElements / elements) bytes
  | none => .ok 0

/-- `tensor_data`. -/
def GgufFile.tensorData (f : GgufFile) (info : GgufTensorInfo) :
    Except (Fault String) (List UInt8) := do
  let start ← add f.tensorDataOffset info.offset
  let size ← tensorByteSize info
  let stop ← add start size
  index f.mmap start stop

end ArgusEngine.Gguf
