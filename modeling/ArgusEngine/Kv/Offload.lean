import ArgusEngine.Kv.Tensor

/-!
# The offloaded KV cache

One layer's K and V bytes live in a store (`RawStore` in memory, `DiskStore` in two files, or any
other `OffloadStore`); `OffloadKVCache` stages them through attention buffers that exist only
between `preload` or `get_view` and `release_buffers`. Single tokens that arrive while the buffers
are trusted (`preloaded`) are deferred: they are written to the buffers only, and `store_behind`
counts them until `flush_deferred` gives them to the store.

`View` is what `get_view` hands to attention: the token count of its shape and the bytes under it.
The store's reads and writes succeed; a failure of the model is a check or an index of the code.
-/

namespace ArgusEngine

open FlatMem

/-- A byte buffer. -/
abbrev Bytes := List UInt8

/-- `vec![0u8; n]`. -/
def zeroed (n : ℕ) : Bytes := List.replicate n 0

/-- `&b[lo..lo + n]`. -/
def sliced (b : Bytes) (lo n : ℕ) : Except Fail Bytes :=
  if lo + n ≤ b.length then .ok (slice b lo n) else .error (.panic "range end index out of range")

/-- `b[lo..lo + src.len()].copy_from_slice(src)`. -/
def copiedInto (b : Bytes) (lo : ℕ) (src : Bytes) : Except Fail Bytes :=
  if lo + src.length ≤ b.length then .ok (blit src 0 b lo src.length)
  else .error (.panic "range end index out of range")

/-! ## Stores -/

/-- The trait `OffloadStore`; `loadInto` returns the two buffers it was lent. -/
class OffloadStore (S : Type) where
  store : S → Bytes → Bytes → ℕ → Except Fail S
  loadInto : S → Bytes → Bytes → Except Fail (Bytes × Bytes)
  appendToken : S → Bytes → Bytes → Except Fail S

structure RawStore where
  kData : Bytes
  vData : Bytes
  numTokens : ℕ
  tokenBytes : ℕ
  deriving Repr, DecidableEq

/-- `RawStore::new`. -/
def RawStore.new (tokenBytes : ℕ) : RawStore := ⟨[], [], 0, tokenBytes⟩

instance : OffloadStore RawStore where
  store s k v n :=
    if k.length ≠ n * s.tokenBytes then .error (.err "K data size mismatch")
    else if v.length ≠ n * s.tokenBytes then .error (.err "V data size mismatch")
    else .ok { s with kData := k, vData := v, numTokens := n }
  loadInto s kBuf vBuf :=
    if s.numTokens = 0 then .ok (kBuf, vBuf)
    else do
      let k ← sliced s.kData 0 (s.numTokens * s.tokenBytes)
      let kBuf ← copiedInto kBuf 0 k
      let v ← sliced s.vData 0 (s.numTokens * s.tokenBytes)
      let vBuf ← copiedInto vBuf 0 v
      .ok (kBuf, vBuf)
  appendToken s k v :=
    if k.length ≠ s.tokenBytes then .error (.err "K token size mismatch")
    else if v.length ≠ s.tokenBytes then .error (.err "V token size mismatch")
    else .ok { s with kData := s.kData ++ k, vData := s.vData ++ v, numTokens := s.numTokens + 1 }

/-- The two files of a layer and what the store knows of them. -/
structure DiskStore where
  kFile : Bytes
  vFile : Bytes
  storedTokens : ℕ
  bytesPerToken : ℕ
  deriving Repr, DecidableEq

/-- `DiskStore::new`: both files are truncated. -/
def DiskStore.new (bytesPerToken : ℕ) : DiskStore := ⟨[], [], 0, bytesPerToken⟩

/-- `read_exact` from the start of a file into the first `n` bytes of a buffer. -/
def readExactInto (file buf : Bytes) (n : ℕ) : Except Fail Bytes :=
  if n ≤ file.length then .ok (blit file 0 buf 0 n) else .error (.err "failed to fill whole buffer")

instance : OffloadStore DiskStore where
  store s k v n := .ok { s with kFile := k, vFile := v, storedTokens := n }
  loadInto s kBuf vBuf :=
    if kBuf.length < s.storedTokens * s.bytesPerToken ∨
      vBuf.length < s.storedTokens * s.bytesPerToken then
      .error (.err s!"buffer too small: need {s.storedTokens * s.bytesPerToken}, got k={kBuf.length} v={vBuf.length}")
    else do
      let kBuf ← readExactInto s.kFile kBuf (s.storedTokens * s.bytesPerToken)
      let vBuf ← readExactInto s.vFile vBuf (s.storedTokens * s.bytesPerToken)
      .ok (kBuf, vBuf)
  appendToken s k v :=
    .ok { s with kFile := s.kFile ++ k, vFile := s.vFile ++ v, storedTokens := s.storedTokens + 1 }

/-! ## The cache -/

structure OffloadKVCache (S : Type) where
  layerId : ℕ
  kvHeads : ℕ
  headDim : ℕ
  dtype : DType
  currentPos : ℕ
  maxSeqLen : ℕ
  tokenBytes : ℕ
  store : S
  attnKBuf : Option Bytes
  attnVBuf : Option Bytes
  preloaded : Bool
  outKBuf : Option Bytes
  outVBuf : Option Bytes
  /-- Whether `set_gpu_backend` was called. -/
  gpu : Bool
  gpuKBuf : Option Bytes
  gpuVBuf : Option Bytes
  storeBehind : ℕ

/-- The tensors `get_view` returns: the tokens of their shape and the bytes under it. -/
structure View where
  tokens : ℕ
  k : Bytes
  v : Bytes
  deriving Repr, DecidableEq

namespace OffloadKVCache

variable {S : Type} [OffloadStore S]

/-- `OffloadKVCache::new`. -/
def new (layerId kvHeads headDim : ℕ) (dtype : DType) (maxSeqLen : ℕ) (st : S) :
    OffloadKVCache S where
  layerId := layerId
  kvHeads := kvHeads
  headDim := headDim
  dtype := dtype
  currentPos := 0
  maxSeqLen := maxSeqLen
  tokenBytes := kvHeads * headDim * dtype.size
  store := st
  attnKBuf := none
  attnVBuf := none
  preloaded := false
  outKBuf := none
  outVBuf := none
  gpu := false
  gpuKBuf := none
  gpuVBuf := none
  storeBehind := 0

/-- `set_gpu_backend`. -/
def setGpuBackend (c : OffloadKVCache S) : OffloadKVCache S := { c with gpu := true }

/-- `migrate_from_raw`. -/
def migrateFromRaw (c : OffloadKVCache S) (k v : Bytes) (numTokens : ℕ) :
    Except Fail (OffloadKVCache S) := do
  let st ← OffloadStore.store c.store k v numTokens
  .ok { c with store := st, currentPos := numTokens }

/-- One round of the loop of `flush_deferred`: token `t` of the buffers goes to the store. -/
def flushToken (c : OffloadKVCache S) (k v : Bytes) (st : S) (t : ℕ) : Except Fail S := do
  let kTok ← sliced k (t * c.tokenBytes) c.tokenBytes
  let vTok ← sliced v (t * c.tokenBytes) c.tokenBytes
  OffloadStore.appendToken st kTok vTok

/-- `flush_deferred`; a `step_by` of 0 panics. -/
def flushDeferred (c : OffloadKVCache S) : Except Fail (OffloadKVCache S) :=
  if c.storeBehind = 0 then .ok c
  else
    match c.attnKBuf, c.attnVBuf with
    | some k, some v =>
      if c.tokenBytes = 0 then .error (.panic "assertion failed: step != 0")
      else do
        let st ← (List.range' (c.currentPos - c.storeBehind) c.storeBehind).foldlM
          (c.flushToken k v) c.store
        .ok { c with store := st, storeBehind := 0 }
    | _, _ =>
      .error (.err s!"OffloadKVCache[{c.layerId}] flush_deferred: attn_buf is None but store_behind={c.storeBehind}")

/-- The bytes of a full attention buffer. -/
def maxBytes (c : OffloadKVCache S) : ℕ := c.maxSeqLen * c.tokenBytes

/-- The bytes of the tokens held. -/
def totalBytes (c : OffloadKVCache S) : ℕ := c.currentPos * c.tokenBytes

/-- `load_into` on the first `total_bytes` of both attention buffers, which are created when
absent. -/
def loadAttn (c : OffloadKVCache S) : Except Fail (OffloadKVCache S) := do
  let kBuf := c.attnKBuf.getD (zeroed c.maxBytes)
  let vBuf := c.attnVBuf.getD (zeroed c.maxBytes)
  let kPart ← sliced kBuf 0 c.totalBytes
  let vPart ← sliced vBuf 0 c.totalBytes
  let (kPart, vPart) ← OffloadStore.loadInto c.store kPart vPart
  .ok { c with
    attnKBuf := some (blit kPart 0 kBuf 0 c.totalBytes)
    attnVBuf := some (blit vPart 0 vBuf 0 c.totalBytes) }

/-- `preload`. -/
def preload (c : OffloadKVCache S) : Except Fail (OffloadKVCache S) :=
  if c.preloaded then .ok c
  else do
    let c ← c.flushDeferred
    if c.totalBytes = 0 then .ok { c with preloaded := true }
    else do
      let c ← c.loadAttn
      .ok { c with preloaded := true }

/-- A flush whose error is only logged. -/
def flushLogged (c : OffloadKVCache S) : Except Fail (OffloadKVCache S) :=
  match c.flushDeferred with
  | .ok c' => .ok c'
  | .error (.err _) => .ok c
  | .error (.panic m) => .error (.panic m)

/-- `release_buffers`. -/
def releaseBuffers (c : OffloadKVCache S) : Except Fail (OffloadKVCache S) := do
  let c ← c.flushLogged
  .ok { c with attnKBuf := none, attnVBuf := none, preloaded := false }

/-- `reset_preload`. -/
def resetPreload (c : OffloadKVCache S) : OffloadKVCache S := { c with preloaded := false }

/-- `retain_preload`. -/
def retainPreload (c : OffloadKVCache S) : OffloadKVCache S :=
  if c.attnKBuf.isSome ∧ c.attnVBuf.isSome then { c with preloaded := true } else c

/-- The single-token branch of `update`. -/
def updateOne (c : OffloadKVCache S) (k v : Bytes) : Except Fail (OffloadKVCache S) :=
  match c.preloaded, c.attnKBuf, c.attnVBuf with
  | true, some kBuf, some vBuf => do
    let kBuf ← copiedInto kBuf c.totalBytes k
    let vBuf ← copiedInto vBuf c.totalBytes v
    .ok { c with attnKBuf := some kBuf, attnVBuf := some vBuf, storeBehind := c.storeBehind + 1 }
  | _, _, _ => do
    let st ← OffloadStore.appendToken c.store k v
    .ok { c with store := st }

/-- The batch branch of `update`. -/
def updateMany (c : OffloadKVCache S) (seqLen : ℕ) (k v : Bytes) : Except Fail (OffloadKVCache S) :=
  if c.currentPos = 0 then do
    let st ← OffloadStore.store c.store k v seqLen
    .ok { c with store := st }
  else do
    let st ← (List.range' 0 seqLen).foldlM (c.flushToken k v) c.store
    .ok { c with store := st }

/-- `update` with the host bytes of two tensors of `seqLen` tokens. -/
def update (c : OffloadKVCache S) (seqLen : ℕ) (k v : Bytes) : Except Fail (OffloadKVCache S) :=
  if c.maxSeqLen < c.currentPos + seqLen then
    .error (.err
      s!"OffloadKVCache[{c.layerId}] overflow: {c.currentPos} + {seqLen} > {c.maxSeqLen}")
  else do
    let c' ← (if seqLen = 1 then c.updateOne k v else c.updateMany seqLen k v)
    .ok { c' with currentPos := c.currentPos + seqLen }

/-- `reuse_or_alloc_out_buf`. -/
def reuseOrAllocOutBuf (slot : Option Bytes) (needed : ℕ) : Bytes :=
  match slot with
  | some b => if needed ≤ b.length then b else zeroed needed
  | none => zeroed needed

/-- The device buffers of `get_view`, allocated once for `max_bytes`. -/
def gpuBuffers (c : OffloadKVCache S) : Bytes × Bytes :=
  match c.gpuKBuf, c.gpuVBuf with
  | some gk, some gv =>
    if gk.length < c.maxBytes then (zeroed c.maxBytes, zeroed c.maxBytes) else (gk, gv)
  | _, _ => (zeroed c.maxBytes, zeroed c.maxBytes)

/-- The end of `get_view`: the staged bytes go to the GPU buffers or to the output buffers. -/
def stageOut (c : OffloadKVCache S) (k v : Bytes) : OffloadKVCache S × View :=
  let view (kOut vOut : Bytes) : View :=
    { tokens := c.currentPos, k := kOut.take c.totalBytes, v := vOut.take c.totalBytes }
  if c.gpu then
    let gk := blit k 0 c.gpuBuffers.1 0 c.totalBytes
    let gv := blit v 0 c.gpuBuffers.2 0 c.totalBytes
    ({ c with gpuKBuf := some gk, gpuVBuf := some gv }, view gk gv)
  else
    let ok := blit k 0 (reuseOrAllocOutBuf c.outKBuf c.totalBytes) 0 c.totalBytes
    let ov := blit v 0 (reuseOrAllocOutBuf c.outVBuf c.totalBytes) 0 c.totalBytes
    ({ c with outKBuf := some ok, outVBuf := some ov }, view ok ov)

/-- The attention buffers `get_view` reads: flushed when writes are pending on a cache that is not
preloaded, loaded from the store when there is neither. A failed load leaves an empty view. -/
def attnReady (c : OffloadKVCache S) : Except Fail (OffloadKVCache S) :=
  if !c.preloaded ∧ 0 < c.storeBehind then c.flushLogged
  else if c.preloaded then .ok c
  else c.loadAttn

/-- `get_view`. -/
def getView (c : OffloadKVCache S) : Except Fail (OffloadKVCache S × View) :=
  if c.currentPos = 0 then .ok (c, ⟨0, [], []⟩)
  else
    match c.attnReady with
    | .ok c =>
      let k := c.attnKBuf.getD (zeroed c.maxBytes)
      let v := c.attnVBuf.getD (zeroed c.maxBytes)
      let c := { c with attnKBuf := some k, attnVBuf := some v, preloaded := false }
      .ok (c.stageOut k v)
    | .error (.err _) =>
      .ok ({ c with
        attnKBuf := some (c.attnKBuf.getD (zeroed c.maxBytes))
        attnVBuf := some (c.attnVBuf.getD (zeroed c.maxBytes)) }, ⟨0, [], []⟩)
    | .error (.panic m) => .error (.panic m)

end OffloadKVCache

end ArgusEngine
