import ArgusEngine.Kv.Cache

/-!
# The swap handler

`SwapHandler` moves the oldest tokens of a layer to disk and back. `offloadPrefix` dumps a prefix to
two files, registers a record and prunes the prefix (or only prunes it, without a swap directory or
where the dump is not supported); `recallOne` puts a record back in front of the resident tokens;
`recallLayer` takes the first record of its layer, `recallCaches` every record in turn.

A `Disk` holds the files of the swap directory and says which writes the file system accepts.
-/

namespace ArgusEngine

open FlatMem SlotMem

/-- `cache_L{layer}_s{seq}_0-{count}_{k,v}.bin`. -/
structure SwapPath where
  layerIdx : ℕ
  seq : ℕ
  count : ℕ
  half : Half
  deriving Repr, DecidableEq

structure SwapRecord where
  layerIdx : ℕ
  tokenCount : ℕ
  kPath : SwapPath
  vPath : SwapPath
  dtype : DType
  headStrideBytes : ℕ
  nHeads : ℕ
  headDim : ℕ
  deriving Repr, DecidableEq

/-- The swap directory: its files, whether it can be created, and which writes succeed. -/
structure Disk where
  files : SwapPath → Option (List UInt8)
  dirOk : Bool
  writeOk : SwapPath → Bool

namespace Disk

def write (d : Disk) (path : SwapPath) (b : List UInt8) : Disk :=
  { d with files := Function.update d.files path (some b) }

def remove (d : Disk) (path : SwapPath) : Disk :=
  { d with files := Function.update d.files path none }

end Disk

/-- A handler with the ledger of its outstanding records. -/
structure SwapHandler where
  /-- `(total as f32 * offload_ratio) as usize`. -/
  ratioCount : ℕ → ℕ
  swapDir : Option String
  records : List SwapRecord
  nextSeq : ℕ
  disk : Disk

namespace SwapHandler

variable (P : Platform)

/-- The bytes of the first `count` positions of every head, head after head. -/
def dumpPrefix (c : KVCache) (t : Tensor) (count : ℕ) : List UInt8 :=
  let elemBytes := c.kvDtype.size
  (List.range c.kvHeads).flatMap fun h =>
    slice t.bytes (h * (c.capacity * c.headDim * elemBytes)) (count * c.headDim * elemBytes)

/-- The lossy path: only prune. -/
def pruneOnly (s : SwapHandler) (c : KVCache) (count : ℕ) : Except Fail ℕ × SwapHandler × KVCache :=
  match c.prunePrefix P count with
  | .ok c' => (.ok count, s, c')
  | .error e => (.error e, s, c)

/-- `offload_prefix`: the tokens offloaded. -/
def offloadPrefix (s : SwapHandler) (layerIdx : ℕ) (c : KVCache) (count : ℕ) :
    Except Fail ℕ × SwapHandler × KVCache :=
  if c.currentPos = 0 ∨ count = 0 ∨ count ≥ c.currentPos then (.ok 0, s, c)
  else if s.swapDir.isNone then s.pruneOnly P c count
  else if c.kvDtype ≠ .f32 ∧ c.kvDtype ≠ .f16 then s.pruneOnly P c count
  else if c.layout ≠ .headMajor then s.pruneOnly P c count
  else if !s.disk.dirOk then s.pruneOnly P c count
  else
    let kPath : SwapPath := ⟨layerIdx, s.nextSeq, count, .key⟩
    let vPath : SwapPath := ⟨layerIdx, s.nextSeq, count, .value⟩
    let s₁ := { s with nextSeq := s.nextSeq + 1 }
    if !s.disk.writeOk kPath then s₁.pruneOnly P c count
    else
      let s₂ := { s₁ with disk := s₁.disk.write kPath (dumpPrefix c c.kBuffer count) }
      if !s.disk.writeOk vPath then { s₂ with disk := s₂.disk.remove kPath }.pruneOnly P c count
      else
        let s₃ := { s₂ with
          disk := s₂.disk.write vPath (dumpPrefix c c.vBuffer count)
          -- registered before the prune, so that a recall can find it
          records := s₂.records ++ [SwapRecord.mk layerIdx count kPath vPath c.kvDtype
            (count * c.headDim * c.kvDtype.size) c.kvHeads c.headDim] }
        s₃.pruneOnly P c count

/-- `offload_one`: the share of the resident tokens that the ratio names, at least one. -/
def offloadOne (s : SwapHandler) (layerIdx : ℕ) (c : KVCache) :
    Except Fail ℕ × SwapHandler × KVCache :=
  if c.currentPos = 0 then (.ok 0, s, c)
  else s.offloadPrefix P layerIdx c (max (s.ratioCount c.currentPos) 1)

/-- The write loop of `recall_one` on one buffer. -/
def writeHeads (nHeads perHeadBytes headStrideBytes : ℕ) (src : List UInt8) (t : Tensor) :
    Except Fail Tensor :=
  (List.range nHeads).foldlM (fun t h =>
    t.writeBufferRange (slice src (h * perHeadBytes) perHeadBytes) (h * headStrideBytes)) t

/-- `recall_one` from the reads on: load the record into the slots that the shift freed. -/
def loadRecord (disk : Disk) (c : KVCache) (rec : SwapRecord) : Except Fail ℕ × KVCache :=
  match disk.files rec.kPath, disk.files rec.vPath with
  | some kBytes, some vBytes =>
    let elemBytes := rec.dtype.size
    let perHeadBytes := rec.tokenCount * rec.headDim * elemBytes
    let headStrideBytes := c.capacity * rec.headDim * elemBytes
    let want := perHeadBytes * rec.nHeads
    let kLen := kBytes.length
    let vLen := vBytes.length
    if kLen ≠ want ∨ vLen ≠ want then (.error (.err
      s!"recall: file size mismatch (k={kLen}, v={vLen}, expected={want})"), c)
    else match writeHeads rec.nHeads perHeadBytes headStrideBytes kBytes c.kBuffer,
        writeHeads rec.nHeads perHeadBytes headStrideBytes vBytes c.vBuffer with
      | .ok k, .ok v => (.ok rec.tokenCount, { c with
          kBuffer := k
          vBuffer := v
          currentPos := c.currentPos + rec.tokenCount
          highWaterPos := max c.highWaterPos (c.currentPos + rec.tokenCount) })
      | .error e, _ => (.error e, c)
      | _, .error e => (.error e, c)
  | _, _ => (.error (.err "recall: file read failed"), c)

/-- `recall_one`: put the prefix of a record back in front; the tokens recalled. -/
def recallOne (disk : Disk) (c : KVCache) (rec : SwapRecord) : Except Fail ℕ × KVCache :=
  let kh := c.kvHeads
  let hd := c.headDim
  let rkh := rec.nHeads
  let rhd := rec.headDim
  let dt := c.kvDtype.debug
  let rdt := rec.dtype.debug
  if c.layout ≠ .headMajor then (.error (.err "recall requires HeadMajor layout"), c)
  else if c.headDim ≠ rec.headDim ∨ c.kvHeads ≠ rec.nHeads then (.error (.err
    s!"recall: head layout mismatch (cache {kh}x{hd}, record {rkh}x{rhd})"), c)
  else if c.kvDtype ≠ rec.dtype then (.error (.err
    s!"recall: dtype mismatch (cache {dt}, record {rdt})"), c)
  else
    let count := rec.tokenCount
    let existing := c.currentPos
    let room := if existing + count > c.capacity then c.ensureCapacity (existing + count)
      else .ok (false, c)
    match room with
    -- the record is given up, the tokens stay as they are
    | .error _ => (.ok 0, c)
    | .ok (_, c₁) =>
      match if existing > 0 then c₁.shiftPositions ⟨0, count, existing⟩ else .ok c₁ with
      | .error e => (.error e, c₁)
      | .ok c₂ => loadRecord disk c₂ rec

/-- `recall_layer`: recall the first outstanding record of the layer; its files go in any case. -/
def recallLayer (s : SwapHandler) (layerIdx : ℕ) (c : KVCache) :
    Except Fail ℕ × SwapHandler × KVCache :=
  match s.records.find? fun r => r.layerIdx = layerIdx with
  | none => (.ok 0, s, c)
  | some rec =>
    let r := recallOne s.disk c rec
    (r.1, { s with
      records := s.records.eraseP fun r => r.layerIdx = layerIdx
      disk := (s.disk.remove rec.kPath).remove rec.vPath }, r.2)

/-- The loop of `recall_caches` over the records taken out of the ledger. -/
def recallRecords : List SwapRecord → Disk → List KVCache → ℕ × Disk × List KVCache
  | [], disk, caches => (0, disk, caches)
  | rec :: recs, disk, caches =>
    match caches[rec.layerIdx]? with
    | none => recallRecords recs disk caches
    | some c =>
      let r := recallOne disk c rec
      let n := match r.1 with
        | .ok n => n
        | .error _ => 0
      let rest := recallRecords recs ((disk.remove rec.kPath).remove rec.vPath)
        (caches.set rec.layerIdx r.2)
      (n + rest.1, rest.2)

/-- `recall_caches`: every outstanding record, in the order of the ledger. -/
def recallCaches (s : SwapHandler) (caches : List KVCache) : ℕ × SwapHandler × List KVCache :=
  let r := recallRecords s.records s.disk caches
  (r.1, { s with records := [], disk := r.2.1 }, r.2.2)

end SwapHandler

end ArgusEngine
