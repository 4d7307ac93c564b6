import ArgusEngine.Kv.Tensor
import ArgusEngine.Lib.Cells

/-!
# The quantized-window cache

`QuantizedRecentWindowCache` in its CPU mode: the newest tokens stand unquantized in a residual of
`res_cap` tokens a head; a flush turns whole groups of 32 tokens into quantized blocks, stored flat
in the order of the flush (`nest` lists the indices of three nested loops). Keys are quantized along
32 tokens of one channel, values along 32 channels of one token. `assemble_view` reads the blocks
back with the strides of the current `res_cap`, and `transition_bits` changes the bit width, 16
standing for no quantization.

`QKKV` and `group_size` are the literal `32`. Values and blocks are arbitrary types and `BlockCodec`
holds the block kernels of the three widths. `none` is a panic: a failed assertion, an index or a
range out of bounds. Debug assertions are left out.
-/

namespace ArgusEngine

open CellArray

/-- The widths of a quantized block. -/
inductive QuantBits where
  | q2 | q4 | q8
  deriving Repr, DecidableEq

/-- The `bits` of a cache: 2, 4, 8 or 16. -/
inductive CacheBits where
  | quantized (w : QuantBits)
  | sixteen
  deriving Repr, DecidableEq

/-- `quantize` and `dequantize` of `BlockQ2_0`, `BlockKVQ4` and `BlockKVQ8`. -/
structure BlockCodec (V B : Type) where
  quantize : QuantBits → (Fin 32 → V) → B
  dequantize : QuantBits → B → Fin 32 → V

variable {V B : Type}

inductive QuantizedBlocks (B : Type) where
  | unquantized
  | blocks (w : QuantBits) (v : List B)

namespace QuantizedBlocks

/-- `QuantizedBlocks::new`, `with_capacity` and `empty`. -/
def new : CacheBits → QuantizedBlocks B
  | .sixteen => .unquantized
  | .quantized w => .blocks w []

def clear : QuantizedBlocks B → QuantizedBlocks B
  | .unquantized => .unquantized
  | .blocks w _ => .blocks w []

def pushQuantized (codec : BlockCodec V B) : QuantizedBlocks B → (Fin 32 → V) →
    Option (QuantizedBlocks B)
  | .unquantized, _ => none
  | .blocks w v, src => some (.blocks w (v ++ [codec.quantize w src]))

def dequantizeBlock (codec : BlockCodec V B) : QuantizedBlocks B → ℕ → Option (Fin 32 → V)
  | .unquantized, _ => none
  | .blocks w v, idx => v[idx]?.map (codec.dequantize w)

end QuantizedBlocks

/-- The 32 values at the given indices. -/
def readBlock (a : Cells V) (idx : Fin 32 → ℕ) : Option (Fin 32 → V) :=
  if ∀ t, idx t < a.len then some fun t => a.cell (idx t) else none

/-- Put a block's 32 values at the given indices. -/
def writeBlock (a : Cells V) (idx : Fin 32 → ℕ) (block : Fin 32 → V) : Option (Cells V) :=
  (List.finRange 32).foldlM (fun a t => a.set (idx t) (block t)) a

structure QuantizedRecentWindowCache (V B : Type) where
  bits : CacheBits
  qk : QuantizedBlocks B
  qv : QuantizedBlocks B
  q2Tokens : ℕ
  resK : Cells V
  resV : Cells V
  resPos : ℕ
  resCap : ℕ
  attnK : Cells V
  attnV : Cells V
  q2DeqTokens : ℕ
  kvHeads : ℕ
  headDim : ℕ
  maxSeqLen : ℕ

/-- A SeqMajor tensor `[1, tokens, kv_heads, head_dim]`. -/
structure SeqTensor (V : Type) where
  tokens : ℕ
  data : Cells V

namespace QuantizedRecentWindowCache

variable (codec : BlockCodec V B) (c : QuantizedRecentWindowCache V B)

/-- `new_with_bits`. -/
def newWithBits [Zero V] (kvHeads headDim maxSeqLen residualSize : ℕ) (bits : CacheBits) :
    Option (QuantizedRecentWindowCache V B) :=
  if residualSize % 32 = 0 ∧ 0 < residualSize ∧ headDim % 32 = 0 then
    let resCap := if bits = .sixteen then maxSeqLen else residualSize
    some
      { bits := bits, qk := .new bits, qv := .new bits, q2Tokens := 0,
        resK := .filled (kvHeads * resCap * headDim) 0, resV :=
          .filled (kvHeads * resCap * headDim) 0,
        resPos := 0, resCap := resCap,
        attnK := .filled (maxSeqLen * kvHeads * headDim) 0, attnV :=
          .filled (maxSeqLen * kvHeads * headDim) 0,
        q2DeqTokens := 0, kvHeads := kvHeads, headDim := headDim, maxSeqLen := maxSeqLen }
  else none

def totalTokens : ℕ := c.q2Tokens + c.resPos

/-- `current_pos`. -/
def currentPos : ℕ := c.totalTokens

def reset [Zero V] : QuantizedRecentWindowCache V B :=
  { c with
    qk := c.qk.clear, qv := c.qv.clear
    attnK := .filled c.attnK.len 0, attnV := .filled c.attnV.len 0
    q2Tokens := 0
    resK := .filled c.resK.len 0, resV := .filled c.resV.len 0
    resPos := 0, q2DeqTokens := 0 }

/-! ## Flushing the residual -/

/-- Read the blocks at the given indices one after the other and push them. -/
def pushBlocks (res : Cells V) (idxs : List (Fin 32 → ℕ)) (q : QuantizedBlocks B) :
    Option (QuantizedBlocks B) :=
  idxs.foldlM (fun q idx => do
    let vals ← readBlock res idx
    q.pushQuantized codec vals) q

/-- The key loop of `flush_residual`: one block for each head, group and channel. -/
def pushKeys (nGroups : ℕ) : Option (QuantizedBlocks B) :=
  let idxs := nest c.kvHeads nGroups c.headDim fun h group ch (t : Fin 32) =>
    h * c.resCap * c.headDim + (group * 32 + t) * c.headDim + ch
  pushBlocks codec c.resK idxs c.qk

/-- The value loop of `flush_residual`: one block for each head, token and 32 channels. -/
def pushValues (flushTokens : ℕ) : Option (QuantizedBlocks B) :=
  let idxs := nest c.kvHeads flushTokens (c.headDim / 32) fun h t b (i : Fin 32) =>
    h * c.resCap * c.headDim + t * c.headDim + b * 32 + i
  pushBlocks codec c.resV idxs c.qv

/-- Shift the tokens a flush leaves over to the front of every head's residual. -/
def shiftRemaining (flushTokens remaining : ℕ) (res : Cells V) : Option (Cells V) :=
  (List.range c.kvHeads).foldlM (fun r h =>
    r.copyWithin (h * c.resCap * c.headDim + flushTokens * c.headDim) (remaining * c.headDim)
      (h * c.resCap * c.headDim)) res

/-- `flush_residual`. -/
def flushResidual : Option (QuantizedRecentWindowCache V B) :=
  match c.bits with
  | .sixteen => some c
  | .quantized _ =>
    if c.resPos < 32 then none
    else do
      let nGroups := c.resPos / 32
      let flushTokens := nGroups * 32
      let qk ← c.pushKeys codec nGroups
      let qv ← c.pushValues codec flushTokens
      let remaining := c.resPos - flushTokens
      let resK ← (if 0 < remaining then c.shiftRemaining flushTokens remaining c.resK
        else some c.resK)
      let resV ← (if 0 < remaining then c.shiftRemaining flushTokens remaining c.resV
        else some c.resV)
      some { c with
        qk := qk, qv := qv, q2Tokens := c.q2Tokens + flushTokens,
        resK := resK, resV := resV, resPos := remaining }

/-! ## Appending tokens -/

/-- Copy row `s` of the input behind the residual's tokens, head by head. -/
def putRow (input : Cells V) (s : ℕ) (res : Cells V) : Option (Cells V) :=
  (List.range c.kvHeads).foldlM (fun r h =>
    r.copyFrom (h * c.resCap * c.headDim + c.resPos * c.headDim) c.headDim input
      (s * c.kvHeads * c.headDim + h * c.headDim)) res

/-- One pass of the loop of `update`. -/
def appendToken (newK newV : Cells V) (s : ℕ) : Option (QuantizedRecentWindowCache V B) := do
  let c ← (if c.resPos ≥ c.resCap then c.flushResidual codec else some c)
  let resK ← c.putRow newK s c.resK
  let resV ← c.putRow newV s c.resV
  some { c with resK := resK, resV := resV, resPos := c.resPos + 1 }

/-- `update` on the host: an error when the tokens do not fit, else the loop over the new tokens. -/
def update (newK newV : SeqTensor V) : Except Fail (QuantizedRecentWindowCache V B) :=
  if c.totalTokens + newK.tokens > c.maxSeqLen then
    .error (.err s!"QuantWindowCache overflow: {c.totalTokens} + {newK.tokens} > {c.maxSeqLen}")
  else
    match (List.range newK.tokens).foldlM (fun c s =>
      c.appendToken codec newK.data newV.data s) c with
    | some c' => .ok c'
    | none => .error (.panic "update")

/-! ## The attention view -/

/-- Index of (token, head, channel) in the attention buffers. -/
def attnIdx (pos h ch : ℕ) : ℕ := pos * c.kvHeads * c.headDim + h * c.headDim + ch

/-- One pass of a block loop of `assemble_view`: dequantize block `x.2` and put its values where the
loop indices `x.1` (flush, head, row, column) say. -/
def assembleBlock (q : QuantizedBlocks B) (out : ℕ → ℕ → ℕ → ℕ → Fin 32 → ℕ) (attn : Cells V)
    (x : (ℕ × ℕ × ℕ × ℕ) × ℕ) : Option (Cells V) := do
  let vals ← q.dequantizeBlock codec x.2
  writeBlock attn (out x.1.1 x.1.2.1 x.1.2.2.1 x.1.2.2.2) vals

/-- A block loop of `assemble_view`: the new flushes' blocks in stored order, the block index
counting up from the first new flush. -/
def assembleBlocks (q : QuantizedBlocks B) (oldFlushes newFlushes blocksPerFlush rows cols : ℕ)
    (out : ℕ → ℕ → ℕ → ℕ → Fin 32 → ℕ) (attn : Cells V) : Option (Cells V) :=
  let blocks := (List.range' oldFlushes (newFlushes - oldFlushes)).flatMap fun flush =>
    nest c.kvHeads rows cols fun h r b => (flush, h, r, b)
  (blocks.zipIdx (oldFlushes * blocksPerFlush)).foldlM (assembleBlock codec q out) attn

/-- The keys: blocks by head, group and channel. -/
def assembleKeys (oldFlushes newFlushes : ℕ) : Option (Cells V) :=
  let groupsPerFlush := c.resCap / 32
  c.assembleBlocks codec c.qk oldFlushes newFlushes (groupsPerFlush * c.kvHeads * c.headDim)
    groupsPerFlush c.headDim (fun flush h g ch t =>
    c.attnIdx (flush * c.resCap + g * 32 + t) h ch) c.attnK

/-- The values: blocks by head, token and 32 channels. -/
def assembleValues (oldFlushes newFlushes : ℕ) : Option (Cells V) :=
  let blocksPerToken := c.headDim / 32
  c.assembleBlocks codec c.qv oldFlushes newFlushes (c.kvHeads * c.resCap * blocksPerToken)
    c.resCap blocksPerToken (fun flush h t b i => c.attnIdx (flush * c.resCap + t)
      h (b * 32 + i)) c.attnV

/-- The residual part of `assemble_view`, on one of the two buffers. -/
def copyResidual (res attn : Cells V) : Option (Cells V) :=
  (List.range c.kvHeads).foldlM (fun attn h =>
    (List.range c.resPos).foldlM (fun attn t =>
      attn.copyFrom (c.attnIdx (c.q2Tokens + t) h 0) c.headDim res
        (h * c.resCap * c.headDim + t * c.headDim)) attn) attn

/-- Dequantize the blocks flushed since the last view. -/
def assembleFlushed : Option (QuantizedRecentWindowCache V B) :=
  if c.q2Tokens > c.q2DeqTokens then
    if c.resCap = 0 then none
    else do
      let oldFlushes := c.q2DeqTokens / c.resCap
      let newFlushes := c.q2Tokens / c.resCap
      let attnK ← c.assembleKeys codec oldFlushes newFlushes
      let attnV ← c.assembleValues codec oldFlushes newFlushes
      some { c with attnK := attnK, attnV := attnV, q2DeqTokens := c.q2Tokens }
  else some c

/-- `assemble_view`. -/
def assembleView : Option (QuantizedRecentWindowCache V B) := do
  let c ← c.assembleFlushed codec
  let attnK ← c.copyResidual c.resK c.attnK
  let attnV ← c.copyResidual c.resV c.attnV
  some { c with attnK := attnK, attnV := attnV }

/-- `get_view`: the views cover the first `total` tokens of the attention buffers. -/
def getView [Zero V] : Option ((SeqTensor V × SeqTensor V) × QuantizedRecentWindowCache V B) :=
  let total := c.totalTokens
  if total = 0 then some ((⟨0, .filled 0 0⟩, ⟨0, .filled 0 0⟩), c)
  else do
    let c ← c.assembleView codec
    let valid := total * c.kvHeads * c.headDim
    if valid ≤ c.attnK.len ∧ valid ≤ c.attnV.len then
      some ((⟨total, c.attnK.truncate valid⟩, ⟨total, c.attnV.truncate valid⟩), c)
    else none

/-! ## Changing the bit width -/

/-- Fill a residual of `cap` tokens a head from the attention buffer. -/
def restoreRows (cap total : ℕ) (attn res : Cells V) : Option (Cells V) :=
  (List.range c.kvHeads).foldlM (fun r h =>
    (List.range total).foldlM (fun r t =>
      r.copyFrom (h * cap * c.headDim + t * c.headDim) c.headDim attn (c.attnIdx t h 0)) r) res

/-- A quantized width to 16. -/
def transitionToSixteen [Zero V] : Option (QuantizedRecentWindowCache V B) := do
  let total := c.q2Tokens + c.resPos
  let newElems := c.kvHeads * c.maxSeqLen * c.headDim
  let c ← c.assembleView codec
  let resK ← c.restoreRows c.maxSeqLen total c.attnK (c.resK.resize newElems 0)
  let resV ← c.restoreRows c.maxSeqLen total c.attnV (c.resV.resize newElems 0)
  some { c with
    resK := resK, resV := resV, resPos := total, resCap := c.maxSeqLen, q2Tokens :=
      0, q2DeqTokens := 0,
    bits := .sixteen, qk := .unquantized, qv := .unquantized }

/-- Move every head's leftover tokens together and cut the residual to 32 tokens a head. -/
def compactResidual (res : Cells V) : Option (Cells V) := do
  let res ← (if 0 < c.resPos ∧ 1 < c.kvHeads then
      (List.range' 1 (c.kvHeads - 1)).foldlM (fun r h =>
        r.copyWithin (h * c.resCap * c.headDim) (c.resPos * c.headDim) (h * (32 * c.headDim))) res
    else some res)
  some (res.truncate (c.kvHeads * 32 * c.headDim))

/-- The cache at width `w`, with no blocks. -/
def withBits (w : QuantBits) : QuantizedRecentWindowCache V B :=
  { c with bits := .quantized w, qk := .new (.quantized w), qv := .new (.quantized w) }

/-- Shrink the residual to the standard 32 tokens, if it is larger. -/
def shrinkResidual : Option (QuantizedRecentWindowCache V B) :=
  if 32 < c.resCap then do
    let resK ← c.compactResidual c.resK
    let resV ← c.compactResidual c.resV
    some { c with resK := resK, resV := resV, resCap := 32 }
  else some c

/-- 16 to a quantized width. -/
def transitionFromSixteen (w : QuantBits) : Option (QuantizedRecentWindowCache V B) := do
  let c := c.withBits w
  let c ← (if 32 ≤ c.resPos then c.flushResidual codec else some c)
  let c ← c.shrinkResidual
  some { c with q2DeqTokens := 0 }

/-- Dequantize the first `total` blocks and quantize them again at the width of `new`. -/
def requantize (old : QuantizedBlocks B) (total : ℕ) (new : QuantizedBlocks B) :
    Option (QuantizedBlocks B) :=
  (List.range total).foldlM (fun q i => do
    let buf ← old.dequantizeBlock codec i
    q.pushQuantized codec buf) new

/-- One quantized width to another. -/
def transitionQuantized (w : QuantBits) : Option (QuantizedRecentWindowCache V B) :=
  if c.q2Tokens = 0 then some (c.withBits w)
  else do
    let nGroupsTotal := c.q2Tokens / 32
    let qk ← requantize codec c.qk (nGroupsTotal * c.kvHeads * c.headDim) (.new (.quantized w))
    let qv ← requantize codec c.qv (c.q2Tokens * c.kvHeads * (c.headDim / 32)) (.new (.quantized w))
    some { c with qk := qk, qv := qv, bits := .quantized w, q2DeqTokens := 0 }

/-- `transition_bits`. -/
def transitionBits [Zero V] (newBits : CacheBits) : Option (QuantizedRecentWindowCache V B) :=
  if newBits = c.bits then some c
  else
    match newBits, c.bits with
    | .sixteen, _ => c.transitionToSixteen codec
    | .quantized w, .sixteen => c.transitionFromSixteen codec w
    | .quantized w, .quantized _ => c.transitionQuantized codec w

end QuantizedRecentWindowCache

end ArgusEngine
