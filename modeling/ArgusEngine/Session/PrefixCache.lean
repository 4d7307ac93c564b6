import ArgusEngine.Kv.Merge

/-!
# The prefix cache of a session

A file holds the KV rows of a prompt prefix with its token ids and last logits. `try_restore_prefix`
reads the header, compares it with the model, the format and the prompt, and hands every layer its
share of the payload; the session then takes the result or prefills afresh.

* `readSnapshot`: the header and its checks; everything that does not fit is a miss;
* `scatterPackedBytes`, `restorePrefix`: one layer;
* `tryRestorePrefix`, `restoreBlock`: all layers, and what the session makes of it;
* `restorePrefix_cases`: a layer takes its bytes, refuses them, or panics;
* **`restoreBlock_iff`**: when a restore is all or nothing;
* `short_payload_panics`: a file that ends the session.
-/

namespace ArgusEngine

open FlatMem KVCache

namespace PrefixCache

/-! ## The file -/

/-- `b"ARGUSKV1"`. -/
def MAGIC : List UInt8 := [0x41, 0x52, 0x47, 0x55, 0x53, 0x4b, 0x56, 0x31]

def VERSION : ℕ := 2

/-- Bytes in front of the token ids. -/
def FIXED_HEADER_BYTES : ℕ := 100

/-- The header of a file, as far as the token ids. -/
structure Header where
  modelHash : List UInt8
  formatId : ℕ
  tokenizerHash : List UInt8
  kvHeads : ℕ
  headDim : ℕ
  nLayers : ℕ
  tokenCount : ℕ
  deriving Repr, DecidableEq

/-- The fixed part of the header, and the offset behind it. -/
def readHeader (raw : List UInt8) : Option (Header × ℕ) := do
  let (magic, off) ← readBytes 8 raw 0
  guard (magic = MAGIC)
  let (version, off) ← readLe 4 raw off
  guard (version = VERSION)
  let (_, off) ← readLe 4 raw off
  let (modelHash, off) ← readBytes 32 raw off
  let (formatId, off) ← readLe 4 raw off
  let (tokenizerHash, off) ← readBytes 32 raw off
  let (kvHeads, off) ← readLe 4 raw off
  let (headDim, off) ← readLe 4 raw off
  let (nLayers, off) ← readLe 4 raw off
  let (tokenCount, off) ← readLe 4 raw off
  return (⟨modelHash, formatId, tokenizerHash, kvHeads, headDim, nLayers, tokenCount⟩, off)

/-- What a restore is made for: the hashes of the model and the tokenizer, the storage format, the
geometry and the prompt. -/
structure Target where
  modelHash : List UInt8
  tokenizerHash : List UInt8
  formatId : ℕ
  kvHeads : ℕ
  headDim : ℕ
  nLayers : ℕ
  prompt : List ℕ

/-- The buffer `save_prefix` writes for a whole prompt. -/
def saveBuffer (P : Platform) (target : Target) (lastLogits : List P.F) (payload : List UInt8) :
    List UInt8 :=
  let tokenCount := target.prompt.length
  let headerLen := FIXED_HEADER_BYTES - 8 - 4 - 4 + tokenCount * 4
  MAGIC ++ toLe 4 VERSION ++ toLe 4 headerLen ++ target.modelHash ++ toLe 4 target.formatId ++
    target.tokenizerHash ++ toLe 4 target.kvHeads ++ toLe 4 target.headDim ++
      toLe 4 target.nLayers ++
    toLe 4 tokenCount ++ target.prompt.flatMap (toLe 4) ++ toLe 4 lastLogits.length ++
    lastLogits.flatMap P.toF32 ++ payload

/-- What a file that matches holds. -/
structure Snapshot (F : Type) where
  tokenCount : ℕ
  lastLogits : List F
  payload : List UInt8

/-- The part of `try_restore_prefix` in front of the payload; `none` is a miss. The geometry goes
through `u32`. -/
def readSnapshot (P : Platform) (target : Target) (raw : List UInt8) : Option (Snapshot P.F) := do
  let (header, off) ← readHeader raw
  guard (header.kvHeads = target.kvHeads % 2 ^ 32 ∧ header.headDim = target.headDim % 2 ^ 32 ∧
    header.nLayers = target.nLayers % 2 ^ 32)
  guard (header.modelHash = target.modelHash)
  guard (header.formatId = target.formatId)
  guard (header.tokenizerHash = target.tokenizerHash)
  guard (off + header.tokenCount * 4 ≤ raw.length)
  let (savedTokenIds, off) ← readLes 4 raw header.tokenCount off
  guard (header.tokenCount ≤ target.prompt.length)
  guard (savedTokenIds = target.prompt.take header.tokenCount)
  let (logitsLen, off) ← readLe 4 raw off
  guard (off + logitsLen * 4 ≤ raw.length)
  return ⟨header.tokenCount, (List.range logitsLen).map fun i =>
    P.ofF32 (slice raw (off + i * 4) 4), raw.drop (off + logitsLen * 4)⟩

/-- The number of tokens and the token ids that a file names. -/
def savedTokenCount (raw : List UInt8) : ℕ := ofLe (slice raw 96 4)

@[inherit_doc savedTokenCount]
def savedTokenIds (raw : List UInt8) : List ℕ :=
  (List.range (savedTokenCount raw)).map fun i => ofLe (slice raw (FIXED_HEADER_BYTES + i * 4) 4)

/-! ## One layer -/

section Layer

/-- Why `write_buffer` refuses a tensor, if it does. -/
abbrev WriteError := Tensor → Option String

variable (w : WriteError)

/-- The host `write_buffer`. -/
def hostWriteError : WriteError := fun t =>
  if t.buffer.ptr = 0 then some "Cannot write to null buffer (not mapped)" else none

def writeBuffer (t : Tensor) (src : List UInt8) : Except Fail Tensor :=
  match w t with
  | some text => .error (.err text)
  | none =>
    let len := src.length
    let size := t.size
    if src.length ≠ t.size then .error (.panic s!"write_buffer: size mismatch ({len} vs {size})")
    else .ok (t.withBytes src)

/-- Bytes of one position of one head. -/
def posBytes (headDim : ℕ) : DType → Option ℕ
  | .f32 => some (headDim * 4)
  | .f16 => some (headDim * 2)
  | .q4_0 => some (headDim / QK4_0 * blockQ4_0Size)
  | _ => none

/-- The copy of one head; both ranges are checked. -/
def scatterHead (packed : List UInt8) (rowBytes headStrideBytes : ℕ) (raw : List UInt8) (h : ℕ) :
    Except Fail (List UInt8) :=
  let srcEnd := h * rowBytes + rowBytes
  let dstEnd := h * headStrideBytes + rowBytes
  let srcLen := packed.length
  let dstLen := raw.length
  if dstEnd > dstLen then
    .error (.panic s!"range end index {dstEnd} out of range for slice of length {dstLen}")
  else if srcEnd > srcLen then
    .error (.panic s!"range end index {srcEnd} out of range for slice of length {srcLen}")
  else .ok (blit packed (h * rowBytes) raw (h * headStrideBytes) rowBytes)

/-- `scatter_packed_bytes`: the packed rows of every head, at the head's stride. -/
def scatterPackedBytes (t : Tensor) (kvHeads tokenCount headDim capacity : ℕ) (dtype : DType)
    (packed : List UInt8) : Except Fail Tensor :=
  let dt := dtype.debug
  match posBytes headDim dtype with
  | none => .error (.err s!"SnapshotRestore: unsupported dtype {dt} (Tier 1 지원: F32/F16/Q4_0)")
  | some pos =>
    match (List.range kvHeads).foldlM (scatterHead packed (tokenCount * pos) (capacity * pos))
      (List.replicate t.size 0) with
    | .error e => .error e
    | .ok raw => writeBuffer w t raw

/-- `restore_prefix`: the result, and the layer as far as it was changed. -/
def restorePrefix (c : KVCache) (bytes : List UInt8) (tokenCount : ℕ) :
    Except Fail Unit × KVCache :=
  let pos := c.currentPos
  if c.currentPos ≠ 0 then
    (.error (.err s!"SnapshotRestore::restore_prefix: cache is not empty (current_pos={pos})"), c)
  else match c.ensureCapacity tokenCount with
    | .error e => (.error e, c)
    | .ok (_, c₁) =>
      let half := bytes.length / 2
      let scatter := fun t packed =>
        scatterPackedBytes w t c₁.kvHeads tokenCount c₁.headDim c₁.capacity c₁.kvDtype packed
      match scatter c₁.kBuffer (bytes.take half) with
      | .error e => (.error e, c₁)
      | .ok k => match scatter c₁.vBuffer (bytes.drop half) with
        | .error e => (.error e, { c₁ with kBuffer := k })
        | .ok v =>
          let c₂ := { c₁ with kBuffer := k, vBuffer := v }.setCurrentPos tokenCount
          (.ok (), { c₂ with highWaterPos := max c₂.highWaterPos tokenCount })

def snapshotFormatId (c : KVCache) : ℕ :=
  match c.kvDtype with
  | .f32 => 1
  | .f16 => 2
  | .q4_0 => 3
  | _ => 0

end Layer

/-! ## All layers -/

/-- What `std::fs::read` finds at the path. -/
inductive FileRead where
  | notFound
  | failed (text : String)
  | contents (raw : List UInt8)

structure RestoredPrefix (F : Type) where
  tokenCount : ℕ
  lastLogits : List F

section Block

variable (P : Platform) (w : WriteError)

/-- The loop over the layers; it stops at the first one that fails. -/
def restoreLayers (payload : List UInt8) (perLayer tokenCount : ℕ) :
    ℕ → List KVCache → Except Fail Unit × List KVCache
  | _, [] => (.ok (), [])
  | i, c :: cs => match restorePrefix w c (slice payload (i * perLayer) perLayer) tokenCount with
    | (.error e, c') => (.error e, c' :: cs)
    | (.ok (), c') =>
      let rest := restoreLayers payload perLayer tokenCount (i + 1) cs
      (rest.1, c' :: rest.2)

/-- `try_restore_prefix`. A partial restore gives no logits. -/
def tryRestorePrefix (file : FileRead) (target : Target) (formats : List KVCache) :
    Except Fail (Option (RestoredPrefix P.F)) × List KVCache :=
  match file with
  | .notFound => (.ok none, formats)
  | .failed text => (.error (.err text), formats)
  | .contents raw => match readSnapshot P target raw with
    | none => (.ok none, formats)
    | some s =>
      let lastLogits := if s.tokenCount < target.prompt.length then [] else s.lastLogits
      if formats.isEmpty then (.ok (some ⟨s.tokenCount, lastLogits⟩), formats)
      else
        let perLayer := s.payload.length / formats.length
        if perLayer * formats.length ≠ s.payload.length then (.ok none, formats)
        else match restoreLayers w s.payload perLayer s.tokenCount 0 formats with
          | (.error e, cs) => (.error e, cs)
          | (.ok (), cs) => (.ok (some ⟨s.tokenCount, lastLogits⟩), cs)

/-- Whether the layers cannot be snapshotted: opaque, or of several stored types. -/
def unsupported (kvCaches : List KVCache) : Bool :=
  match kvCaches with
  | [] => false
  | first :: _ => first.isOpaque || kvCaches.any fun c => decide (c.kvDtype ≠ first.kvDtype)

/-- What the session asks of the prefix cache. -/
structure Request where
  file : FileRead
  modelHash : List UInt8
  tokenizerHash : List UInt8
  kvHeads : ℕ
  headDim : ℕ
  vocabSize : ℕ
  tokens : List ℕ

def Request.target (q : Request) (kvCaches : List KVCache) : Target :=
  ⟨q.modelHash, q.tokenizerHash, (kvCaches.head?.map snapshotFormatId).getD 0, q.kvHeads, q.headDim,
    kvCaches.length, q.tokens⟩

/-- The `restore_result` block of the session; an error other than a panic is a fresh prefill. -/
def restoreBlock (q : Request) (kvCaches : List KVCache) :
    Except Fail (Option (RestoredPrefix P.F)) × List KVCache :=
  if unsupported kvCaches then (.ok none, kvCaches)
  else match tryRestorePrefix P w q.file (q.target kvCaches) kvCaches with
    | (.ok (some r), cs) =>
      if r.tokenCount = q.tokens.length ∧ r.lastLogits ≠ [] ∧ r.lastLogits.length ≠ q.vocabSize
        then (.ok none, cs)
      else (.ok (some r), cs)
    | (.ok none, cs) => (.ok none, cs)
    | (.error (.err _), cs) => (.ok none, cs)
    | (.error (.panic text), cs) => (.error (.panic text), cs)

end Block

/-! ## What an accepted file says -/

section Read

variable {raw : List UInt8}

theorem readHeader_eq_some {r : Header × ℕ} (h : readHeader raw = some r) :
    r.1.tokenCount = savedTokenCount raw ∧ r.2 = FIXED_HEADER_BYTES := by
  simp only [readHeader, Option.bind_eq_bind, Option.bind_eq_some_iff, Option.pure_def,
    Option.some.injEq] at h
  obtain ⟨r₁, h₁, -, -, r₂, h₂, -, -, r₃, h₃, r₄, h₄, r₅, h₅, r₆, h₆, r₇, h₇, r₈, h₈, r₉,
    h₉, r₁₀, h₁₀, rfl⟩ := h
  obtain rfl := readBytes_eq_some h₁
  obtain rfl := readLe_eq_some h₂
  obtain rfl := readLe_eq_some h₃
  obtain rfl := readBytes_eq_some h₄
  obtain rfl := readLe_eq_some h₅
  obtain rfl := readBytes_eq_some h₆
  obtain rfl := readLe_eq_some h₇
  obtain rfl := readLe_eq_some h₈
  obtain rfl := readLe_eq_some h₉
  obtain rfl := readLe_eq_some h₁₀
  exact ⟨rfl, rfl⟩

/-- **A file that is accepted** names a prefix of the prompt. -/
theorem readSnapshot_eq_some {P : Platform} {target : Target} {s : Snapshot P.F}
    (h : readSnapshot P target raw = some s) :
    s.tokenCount = savedTokenCount raw ∧ s.tokenCount ≤ target.prompt.length ∧
    savedTokenIds raw <+: target.prompt := by
  simp only [readSnapshot, Option.bind_eq_bind, Option.bind_eq_some_iff, Option.pure_def,
    Option.some.injEq, Option.guard_eq_some'] at h
  obtain ⟨r, hr, -, -, -, -, -, -, -, -, -, -, ids, hids, -, hle, -, htake, n, hn, -, -, rfl⟩ := h
  obtain ⟨hcount, hoff⟩ := readHeader_eq_some hr
  obtain rfl := readLes_eq_some hids
  rw [hcount] at hle
  simp only [hcount, hoff] at htake
  refine ⟨hcount, hcount.trans_le hle, ?_⟩
  rw [show savedTokenIds raw = _ from htake]
  exact List.take_prefix _ _

end Read

/-! ## What a layer does with its bytes -/

section Scatter

variable {w : WriteError} {t : Tensor} {packed : List UInt8}

theorem scatterHead_ok {row stride h : ℕ} {raw : List UInt8} (hdst : h * stride + row ≤ raw.length)
    (hsrc : h * row + row ≤ packed.length) :
    ∃ raw', raw'.length = raw.length ∧ scatterHead packed row stride raw h = .ok raw' := by
  refine ⟨blit packed (h * row) raw (h * stride) row, length_blit _ _ _ _ _, ?_⟩
  unfold scatterHead
  rw [if_neg (by omega), if_neg (by omega)]

theorem scatterHead_short {row stride h : ℕ} {raw : List UInt8}
    (hdst : h * stride + row ≤ raw.length) (hsrc : ¬ h * row + row ≤ packed.length) :
    ∃ text, scatterHead packed row stride raw h = .error (.panic text) := by
  unfold scatterHead
  rw [if_neg (by omega), if_pos (by omega)]
  exact ⟨_, rfl⟩

/-- The first `n` heads are copied while the packed bytes last. -/
theorem foldlM_scatterHead (packed : List UInt8) {row stride kvHeads size : ℕ} (hrow : row ≤ stride)
    (hsize : kvHeads * stride ≤ size) {n : ℕ} (hn : n ≤ kvHeads) :
    (n * row ≤ packed.length → ∃ raw, raw.length = size ∧
      (List.range n).foldlM (scatterHead packed row stride) (List.replicate size 0) = .ok raw) ∧
    (¬ n * row ≤ packed.length → ∃ text,
      (List.range n).foldlM (scatterHead packed row stride) (List.replicate size 0) =
        .error (.panic text)) := by
  induction n with
  | zero =>
    refine ⟨fun _ => ⟨_, List.length_replicate, rfl⟩, fun h => absurd ?_ h⟩
    rw [Nat.zero_mul]
    exact Nat.zero_le _
  | succ n ih =>
    obtain ⟨hok, hpanic⟩ := ih (by omega)
    rw [List.range_succ, List.foldlM_append, Nat.succ_mul]
    have hdst := row_bound (w := stride) (show n < kvHeads from hn)
    by_cases hprev : n * row ≤ packed.length
    · obtain ⟨raw, hlen, hfold⟩ := hok hprev
      have hstep : (Except.ok raw >>= fun raw => [n].foldlM (scatterHead packed row stride) raw) =
          scatterHead packed row stride raw n := by
        simp only [List.foldlM_cons, List.foldlM_nil, bind_pure]
        rfl
      have hroom : n * stride + row ≤ raw.length := by omega
      rw [hfold, hstep]
      constructor
      · intro hsrc
        obtain ⟨raw', hlen', hraw'⟩ := scatterHead_ok hroom hsrc
        exact ⟨raw', hlen'.trans hlen, hraw'⟩
      · exact scatterHead_short hroom
    · obtain ⟨text, hfold⟩ := hpanic hprev
      rw [hfold]
      exact ⟨fun h => absurd h (by omega), fun _ => ⟨text, rfl⟩⟩

theorem writeBuffer_cases {src : List UInt8} (hlen : src.length = t.size) :
    writeBuffer w t src = match w t with
      | some text => .error (.err text)
      | none => .ok (t.withBytes src) := by
  unfold writeBuffer
  cases w t with
  | some text => rfl
  | none => exact if_neg (not_not.mpr hlen)

/-- **Scattering** writes whole rows while the packed bytes last, and panics where they do not. -/
theorem scatterPackedBytes_cases (w : WriteError) (packed : List UInt8)
    {kvHeads tokenCount headDim capacity pos : ℕ} {dtype : DType}
    (hpos : posBytes headDim dtype = some pos) (hcount : tokenCount ≤ capacity)
    (hsize : capacity * kvHeads * pos ≤ t.size) :
    (tokenCount * kvHeads * pos ≤ packed.length → ∃ raw, raw.length = t.size ∧
      scatterPackedBytes w t kvHeads tokenCount headDim capacity dtype packed = match w t with
        | some text => .error (.err text)
        | none => .ok (t.withBytes raw)) ∧
    (¬ tokenCount * kvHeads * pos ≤ packed.length → ∃ text,
      scatterPackedBytes w t kvHeads tokenCount headDim capacity dtype packed =
        .error (.panic text)) := by
  have hswap : ∀ n, kvHeads * (n * pos) = n * kvHeads * pos := fun n => by ring
  obtain ⟨hok, hpanic⟩ := foldlM_scatterHead packed (Nat.mul_le_mul_right pos hcount)
    ((hswap capacity).trans_le hsize) le_rfl
  rw [hswap] at hok hpanic
  unfold scatterPackedBytes
  simp only [hpos]
  constructor
  · intro h
    obtain ⟨raw, hlen, hfold⟩ := hok h
    refine ⟨raw, hlen, ?_⟩
    rw [hfold]
    exact writeBuffer_cases hlen
  · intro h
    obtain ⟨text, hfold⟩ := hpanic h
    exact ⟨text, by rw [hfold]⟩

end Scatter

/-! ## When a layer takes its bytes -/

section Takes

variable (w : WriteError) (c : KVCache) (tokenCount len : ℕ)

/-- The layer holds `tokenCount` positions, or can grow to hold them. -/
def HasRoom : Prop := tokenCount ≤ c.capacity ∨ (c.memory.isSome = true ∧ tokenCount ≤ c.maxSeqLen)

/-- `len` bytes hold the rows of both halves. -/
def Covers : Prop := 2 * (tokenCount * c.kvHeads * c.rowBytes) ≤ len

/-- Both buffers can be written, once there is room. -/
def Writable : Prop :=
  ∀ b c', c.ensureCapacity tokenCount = .ok (b, c') → ∀ x, w (c'.buffer x) = none

/-- The layer is restored from `len` bytes. -/
def Takes : Prop := HasRoom c tokenCount ∧ Covers c tokenCount len ∧ Writable w c tokenCount

/-- The layer answers with an error. -/
def Refuses : Prop := ¬ HasRoom c tokenCount ∨ (Covers c tokenCount len ∧ ¬ Writable w c tokenCount)

variable {w c tokenCount len}

theorem not_refuses_of_takes (h : Takes w c tokenCount len) : ¬ Refuses w c tokenCount len := by
  rintro (hno | ⟨-, hno⟩)
  · exact hno h.1
  · exact hno h.2.2

theorem ensureCapacity_of_hasRoom (hc : c.WF) (h : HasRoom c tokenCount) :
    ∃ b c', c.ensureCapacity tokenCount = .ok (b, c') := by
  rcases h with h | ⟨hm, h⟩
  · exact ⟨_, _, if_pos h⟩
  · exact ensureCapacity_ok hc hm h

theorem ensureCapacity_of_not_hasRoom (h : ¬ HasRoom c tokenCount) :
    ∃ text, c.ensureCapacity tokenCount = .error (.err text) := by
  unfold HasRoom at h
  rw [not_or, not_and] at h
  unfold ensureCapacity
  rw [if_neg h.1]
  by_cases hmax : tokenCount > c.maxSeqLen
  · rw [if_pos hmax]
    exact ⟨_, rfl⟩
  · have hm : c.memory = none := by
      cases hm : c.memory with
      | none => rfl
      | some m => exact absurd (Nat.not_lt.mp hmax) (h.2 (by rw [hm]; rfl))
    rw [if_neg hmax, grow, hm]
    exact ⟨_, rfl⟩

theorem posBytes_eq (hs : c.IsStored) (hd : c.kBuffer.buffer.desc = none) :
    posBytes c.headDim c.kvDtype = some c.rowBytes := by
  rcases stored_cases hs hd with h | h | ⟨h, -⟩
  · rw [rowBytes_of_float hs (.inr h), h]; rfl
  · rw [rowBytes_of_float hs (.inl h), h]; rfl
  · simp [rowBytes, perHead, headUnits, isOpaque, isQ4, hd, show c.kBuffer.dtype = .q4_0 from h,
      h, posBytes, DType.typeSize]

theorem currentPos_setCurrentPos (c : KVCache) (n : ℕ) : (c.setCurrentPos n).currentPos = n := by
  unfold setCurrentPos
  split_ifs <;> rfl

/-- **A layer takes its bytes, refuses them, or panics**; an error leaves it empty. -/
theorem restorePrefix_cases (hc : c.WF) (h0 : c.currentPos = 0) (hd : c.kBuffer.buffer.desc = none)
    (bytes : List UInt8) (tokenCount : ℕ) :
    (Takes w c tokenCount bytes.length ∧
      ∃ c', restorePrefix w c bytes tokenCount = (.ok (), c') ∧ c'.currentPos = tokenCount) ∨
    (Refuses w c tokenCount bytes.length ∧
      ∃ text c', restorePrefix w c bytes tokenCount = (.error (.err text), c') ∧
      c'.currentPos = 0) ∨
    (HasRoom c tokenCount ∧ ¬ Covers c tokenCount bytes.length ∧
      ∃ text c', restorePrefix w c bytes tokenCount = (.error (.panic text), c')) := by
  unfold restorePrefix
  rw [if_neg (not_not.mpr h0)]
  by_cases hroom : HasRoom c tokenCount
  swap
  · obtain ⟨text, he⟩ := ensureCapacity_of_not_hasRoom hroom
    rw [he]
    exact .inr (.inl ⟨.inl hroom, _, _, rfl, h0⟩)
  obtain ⟨b, c₁, he⟩ := ensureCapacity_of_hasRoom hc hroom
  obtain ⟨hk, hcap⟩ := keeps_ensureCapacity hc he
  have hframe := frame_ensureCapacity he
  have hfmt : c₁.format = c.format := congrArg Frame.format hframe
  have hpos0 : c₁.currentPos = 0 := (congrArg Frame.currentPos hframe).trans h0
  have hheads : c₁.kvHeads = c.kvHeads := congrArg Format.kvHeads hfmt
  have hd₁ : c₁.kBuffer.buffer.desc = none := (congrArg Format.desc hfmt).trans hd
  have hunit := posBytes_eq hk.wf.stored hd₁
  have hcover : Covers c tokenCount bytes.length ↔
      tokenCount * c₁.kvHeads * c₁.rowBytes ≤ bytes.length / 2 := by
    rw [hheads, rowBytes_of_format hfmt, Covers]
    omega
  have htake : (bytes.take (bytes.length / 2)).length = bytes.length / 2 := by
    rw [List.length_take]
    omega
  have hdrop : bytes.length / 2 ≤ (bytes.drop (bytes.length / 2)).length := by
    rw [List.length_drop]
    omega
  have hrefused : ∀ x, w (c₁.buffer x) ≠ none → ¬ Writable w c tokenCount :=
    fun x hx hw => hx (hw _ _ he x)
  obtain ⟨hkok, hkshort⟩ := scatterPackedBytes_cases w (bytes.take (bytes.length / 2)) hunit
    hcap (hk.wf.size .key)
  obtain ⟨hvok, -⟩ := scatterPackedBytes_cases w (bytes.drop (bytes.length / 2)) hunit
    hcap (hk.wf.size .value)
  rw [he]
  simp only
  by_cases hcov : Covers c tokenCount bytes.length
  swap
  · obtain ⟨text, hshort⟩ := hkshort (by rw [htake, ← hcover]; exact hcov)
    rw [show c₁.buffer .key = c₁.kBuffer from rfl] at hshort
    rw [hshort]
    exact .inr (.inr ⟨hroom, hcov, _, _, rfl⟩)
  obtain ⟨kraw, -, hkeq⟩ := hkok (by rw [htake, ← hcover]; exact hcov)
  obtain ⟨vraw, -, hveq⟩ := hvok ((hcover.mp hcov).trans hdrop)
  rw [show c₁.buffer .key = c₁.kBuffer from rfl] at hkeq
  rw [show c₁.buffer .value = c₁.vBuffer from rfl] at hveq
  rw [hkeq]
  cases hwk : w c₁.kBuffer with
  | some text =>
    exact .inr (.inl ⟨.inr ⟨hcov, hrefused .key (by simp [buffer, hwk])⟩, _, _, rfl, hpos0⟩)
  | none =>
    simp only
    rw [hveq]
    cases hwv : w c₁.vBuffer with
    | some text =>
      exact .inr (.inl ⟨.inr ⟨hcov, hrefused .value (by simp [buffer, hwv])⟩, _, _, rfl, hpos0⟩)
    | none =>
      refine .inl ⟨⟨hroom, hcov, fun b' c₁' he' x => ?_⟩, _, rfl, currentPos_setCurrentPos _ _⟩
      rw [he] at he'
      cases he'
      cases x
      · exact hwk
      · exact hwv

end Takes

/-! ## All layers -/

/-- An empty layer with typed buffers. -/
structure Blank (c : KVCache) : Prop where
  wf : c.WF
  empty : c.currentPos = 0
  typed : c.kBuffer.buffer.desc = none

section Layers

variable (w : WriteError) {payload : List UInt8} {perLayer : ℕ}

theorem length_share {i n : ℕ} (h : i < n) (hp : perLayer * n = payload.length) :
    (slice payload (i * perLayer) perLayer).length = perLayer := by
  refine length_slice ?_
  rw [← hp, Nat.mul_comm perLayer]
  exact row_bound h

/-- **The loop over the layers goes through exactly when every layer takes its share**, and then
every layer is restored. -/
theorem restoreLayers_ok (tokenCount : ℕ) {n : ℕ} (hp : perLayer * n = payload.length)
    (cs : List KVCache) : ∀ i, i + cs.length ≤ n → (∀ c ∈ cs, Blank c) →
    (restoreLayers w payload perLayer tokenCount i cs).2.length = cs.length ∧
    ((restoreLayers w payload perLayer tokenCount i cs).1 = .ok () ↔ ∀ c ∈ cs,
      Takes w c tokenCount perLayer) ∧
    ((restoreLayers w payload perLayer tokenCount i cs).1 = .ok () →
      ∀ c ∈ (restoreLayers w payload perLayer tokenCount i cs).2, c.currentPos = tokenCount) := by
  induction cs with
  | nil =>
    exact fun i _ _ => ⟨rfl, iff_of_true rfl (List.forall_mem_nil _), fun _ =>
      List.forall_mem_nil _⟩
  | cons c cs ih =>
    intro i hi hcs
    rw [List.length_cons] at hi
    have hc := hcs c List.mem_cons_self
    have hlen := length_share (show i < n by omega) hp
    obtain ⟨hrest, hiff, hpos⟩ := ih (i + 1) (by omega) fun c hc =>
      hcs c (List.mem_cons_of_mem _ hc)
    have hcases := restorePrefix_cases (w := w) hc.wf hc.empty hc.typed
      (slice payload (i * perLayer) perLayer) tokenCount
    rw [hlen] at hcases
    unfold restoreLayers
    simp only [List.forall_mem_cons]
    rcases hcases with ⟨htakes, c', hr, hc'⟩ | ⟨hno, text, c', hr, -⟩ | ⟨-, hno, text, c', hr⟩
    · rw [hr]
      simp only [List.length_cons, hrest, List.forall_mem_cons, true_and]
      exact ⟨⟨fun h => ⟨htakes, hiff.mp h⟩, fun h => hiff.mpr h.2⟩, fun h => ⟨hc', hpos h⟩⟩
    · rw [hr]
      exact ⟨rfl, iff_of_false (fun h => by cases h) fun h => not_refuses_of_takes h.1 hno,
        fun h => by cases h⟩
    · rw [hr]
      exact ⟨rfl, iff_of_false (fun h => by cases h) fun h => hno h.1.2.1, fun h => by cases h⟩

theorem restoreLayers_zero {tokenCount : ℕ} (h0 : tokenCount = 0) (cs : List KVCache) :
    ∀ i, (∀ c ∈ cs, Blank c) →
    (∀ text, (restoreLayers w payload perLayer tokenCount i cs).1 ≠ .error (.panic text)) ∧
    ∀ c ∈ (restoreLayers w payload perLayer tokenCount i cs).2, c.currentPos = 0 := by
  subst h0
  induction cs with
  | nil => exact fun i _ => ⟨fun text h => (by cases h), List.forall_mem_nil _⟩
  | cons c cs ih =>
    intro i hcs
    have hc := hcs c List.mem_cons_self
    have hcs' : ∀ c ∈ cs, Blank c := fun c hc => hcs c (List.mem_cons_of_mem _ hc)
    obtain ⟨hpanic, hpos⟩ := ih (i + 1) hcs'
    unfold restoreLayers
    rcases restorePrefix_cases (w := w) hc.wf hc.empty hc.typed
      (slice payload (i * perLayer) perLayer) 0 with
      ⟨-, c', hr, hc'⟩ | ⟨-, text, c', hr, hc'⟩ | ⟨-, hno, -⟩
    · rw [hr]
      exact ⟨hpanic, List.forall_mem_cons.mpr ⟨hc', hpos⟩⟩
    · rw [hr]
      exact ⟨fun text h => (by cases h),
        List.forall_mem_cons.mpr ⟨hc', fun c hc => (hcs' c hc).empty⟩⟩
    · refine absurd ?_ hno
      rw [Covers, Nat.zero_mul, Nat.zero_mul]
      exact Nat.zero_le _

theorem restoreLayers_head (tokenCount : ℕ) {i n : ℕ} (hi : i < n)
    (hp : perLayer * n = payload.length) {c : KVCache} (hc : Blank c) (cs : List KVCache) :
    (Refuses w c tokenCount perLayer → ∃ text c',
      restoreLayers w payload perLayer tokenCount i (c :: cs) = (.error (.err text), c' :: cs) ∧
      c'.currentPos = 0) ∧
    (Takes w c tokenCount perLayer → ∃ c' cs',
      (restoreLayers w payload perLayer tokenCount i (c :: cs)).2 = c' :: cs' ∧
      c'.currentPos = tokenCount) ∧
    (¬ Takes w c tokenCount perLayer → ¬ Refuses w c tokenCount perLayer → ∃ text cs',
      restoreLayers w payload perLayer tokenCount i (c :: cs) = (.error (.panic text), cs')) := by
  have hcases := restorePrefix_cases (w := w) hc.wf hc.empty hc.typed
    (slice payload (i * perLayer) perLayer) tokenCount
  rw [length_share hi hp] at hcases
  unfold restoreLayers
  rcases hcases with ⟨htakes, c', hr, hc'⟩ | ⟨hrefuses, text, c', hr, hc'⟩ |
    ⟨hroom, hno, text, c', hr⟩
  · rw [hr]
    exact ⟨fun h => absurd h (not_refuses_of_takes htakes), fun _ => ⟨_, _, rfl, hc'⟩,
      fun h => absurd htakes h⟩
  · rw [hr]
    exact ⟨fun _ => ⟨_, _, rfl, hc'⟩, fun h => absurd hrefuses (not_refuses_of_takes h), fun _ h =>
      absurd hrefuses h⟩
  · rw [hr]
    refine ⟨fun h => ?_, fun h => absurd h.2.1 hno, fun _ _ => ⟨_, _, rfl⟩⟩
    rcases h with h | h
    · exact absurd hroom h
    · exact absurd h.1 hno

end Layers

/-! ## All or nothing -/

section AllOrNothing

/-- A restored prefix of the prompt in every one of `n` layers, or every layer empty; never a
panic. -/
def AllOrNothing {F : Type} (q : Request) (n : ℕ) :
    Except Fail (Option (RestoredPrefix F)) × List KVCache → Prop
  | (.ok (some r), cs) => cs.length = n ∧ (∀ c ∈ cs, c.currentPos = r.tokenCount) ∧
      ∃ raw, q.file = .contents raw ∧ r.tokenCount = savedTokenCount raw ∧
      savedTokenIds raw <+: q.tokens
  | (.ok none, cs) => cs.length = n ∧ ∀ c ∈ cs, c.currentPos = 0
  | (.error _, _) => False

variable (P : Platform) (w : WriteError) (q : Request) (kvCaches : List KVCache)

/-- The session keeps what was restored: a partial restore, no logits, or logits of the
vocabulary. -/
def LogitsFit (s : Snapshot P.F) : Prop :=
  s.tokenCount < q.tokens.length ∨ s.lastLogits = [] ∨ s.lastLogits.length = q.vocabSize

/-- The block gets as far as the loop over the layers: there are layers that can be snapshotted, the
file is accepted, and its payload divides evenly between them. -/
structure Loops (raw : List UInt8) (s : Snapshot P.F) : Prop where
  supported : unsupported kvCaches = false
  layers : kvCaches ≠ []
  file : q.file = .contents raw
  snapshot : readSnapshot P (q.target kvCaches) raw = some s
  even : s.payload.length / kvCaches.length * kvCaches.length = s.payload.length

/-- Where the loop is reached with tokens to restore, the first layer refuses its share, or every
layer takes its share and the session keeps the result. -/
def RestoresCleanly : Prop :=
  ∀ raw s, Loops P q kvCaches raw s → 0 < s.tokenCount →
    (∃ c, kvCaches.head? = some c ∧ Refuses w c s.tokenCount (s.payload.length / kvCaches.length)) ∨
    ((∀ c ∈ kvCaches, Takes w c s.tokenCount (s.payload.length / kvCaches.length)) ∧
    LogitsFit P q s)

variable {P w q kvCaches}

theorem blank_of_supported (hs : unsupported kvCaches = false)
    (hwf : ∀ c ∈ kvCaches, c.WF ∧ c.currentPos = 0) : ∀ c ∈ kvCaches, Blank c := by
  cases kvCaches with
  | nil => exact List.forall_mem_nil _
  | cons first rest =>
    simp only [unsupported, Bool.or_eq_false_iff, List.any_eq_false,
      decide_eq_true_eq, not_not] at hs
    obtain ⟨hno, hsame⟩ := hs
    have hfirst : first.kBuffer.buffer.desc = none := by simpa [isOpaque] using hno
    intro c hc
    refine ⟨(hwf c hc).1, (hwf c hc).2, ?_⟩
    have hstored := (hwf c hc).1.stored
    unfold IsStored at hstored
    cases hdesc : c.kBuffer.buffer.desc with
    | none => rfl
    | some d =>
      -- a block format is stored as raw bytes, the first layer is not
      rw [hdesc] at hstored
      have hu : first.kvDtype = .u8 := (hsame c hc).symm.trans hstored.1
      rcases stored_cases (hwf first List.mem_cons_self).1.stored hfirst with h | h | ⟨h, -⟩ <;>
        rw [hu] at h <;> cases h

/-- A block that does not reach the loop leaves the layers alone. -/
theorem allOrNothing_of_no_loop (hwf : ∀ c ∈ kvCaches, c.WF ∧ c.currentPos = 0)
    (h : ∀ raw s, ¬ Loops P q kvCaches raw s) :
    AllOrNothing q kvCaches.length (restoreBlock P w q kvCaches) := by
  have hmiss : AllOrNothing (F := P.F) q kvCaches.length (.ok none, kvCaches) :=
    ⟨rfl, fun c hc => (hwf c hc).2⟩
  unfold restoreBlock
  cases hsup : unsupported kvCaches with
  | true => exact hmiss
  | false =>
    simp only [Bool.false_eq_true, if_false]
    unfold tryRestorePrefix
    cases hfile : q.file with
    | notFound => exact hmiss
    | failed text => exact hmiss
    | contents raw =>
      cases hs : readSnapshot P (q.target kvCaches) raw with
      | none => simp only [hs]; exact hmiss
      | some s =>
        simp only [hs]
        by_cases hne : kvCaches = []
        · subst hne
          obtain ⟨hcount, -, hids⟩ := readSnapshot_eq_some hs
          simp only [List.isEmpty_nil, if_true]
          generalize (if s.tokenCount < _ then [] else s.lastLogits) = logits
          split_ifs
          · exact ⟨rfl, List.forall_mem_nil _⟩
          · exact ⟨rfl, List.forall_mem_nil _, raw, hfile, hcount, hids⟩
        · have hodd : s.payload.length / kvCaches.length * kvCaches.length ≠ s.payload.length :=
            fun heven => h raw s ⟨hsup, hne, hfile, hs, heven⟩
          rw [if_neg (by simpa using hne), if_pos hodd]
          exact hmiss

section Loop

variable {raw : List UInt8} {s : Snapshot P.F}

theorem Loops.unique (h : Loops P q kvCaches raw s) {raw' : List UInt8} {s' : Snapshot P.F}
    (h' : Loops P q kvCaches raw' s') : s' = s := by
  have hraw := h'.file
  rw [h.file] at hraw
  cases hraw
  have hs := h'.snapshot
  rw [h.snapshot] at hs
  exact (Option.some.inj hs).symm

/-- What the session makes of the loop over the layers. -/
theorem restoreBlock_eq (h : Loops P q kvCaches raw s) {r : Except Fail Unit} {cs : List KVCache}
    (hr : restoreLayers w s.payload (s.payload.length / kvCaches.length)
      s.tokenCount 0 kvCaches = (r, cs)) :
    (∀ text, r = .error (.err text) → restoreBlock P w q kvCaches = (.ok none, cs)) ∧
    (∀ text, r = .error (.panic text) → restoreBlock P w q kvCaches = (.error (.panic text), cs)) ∧
    (r = .ok () → LogitsFit P q s → ∃ logits, restoreBlock P w q kvCaches =
      (.ok (some ⟨s.tokenCount, logits⟩), cs)) ∧
    (r = .ok () → ¬ LogitsFit P q s → restoreBlock P w q kvCaches = (.ok none, cs)) := by
  have hle : s.tokenCount ≤ q.tokens.length := (readSnapshot_eq_some h.snapshot).2.1
  have hprompt : (q.target kvCaches).prompt = q.tokens := rfl
  have hempty : kvCaches.isEmpty = false := by simpa using h.layers
  unfold restoreBlock tryRestorePrefix
  simp only [h.supported, Bool.false_eq_true, if_false, h.file, h.snapshot, hempty,
    if_neg (not_not.mpr h.even), hr, hprompt]
  refine ⟨?_, ?_, ?_, ?_⟩
  · rintro text rfl
    rfl
  · rintro text rfl
    rfl
  · rintro rfl hfit
    simp only
    rw [if_neg]
    · exact ⟨_, rfl⟩
    · rintro ⟨hfull, hlogits, hvocab⟩
      rw [if_neg (by omega)] at hlogits hvocab
      rcases hfit with h | h | h
      · omega
      · exact hlogits h
      · exact hvocab h
  · rintro rfl hfit
    unfold LogitsFit at hfit
    rw [not_or, not_or] at hfit
    simp only
    rw [if_neg hfit.1, if_pos ⟨by omega, hfit.2.1, hfit.2.2⟩]

theorem Loops.restored (h : Loops P q kvCaches raw s) {cs : List KVCache}
    (hlen : cs.length = kvCaches.length) (hall : ∀ c ∈ cs, c.currentPos = s.tokenCount)
    (logits : List P.F) : AllOrNothing q kvCaches.length
      (.ok (some ⟨s.tokenCount, logits⟩), cs) := by
  obtain ⟨hcount, -, hids⟩ := readSnapshot_eq_some h.snapshot
  exact ⟨hlen, hall, raw, h.file, hcount, hids⟩

/-- A file without tokens: the layers stay empty, whatever becomes of the result. -/
theorem allOrNothing_of_no_tokens (h : Loops P q kvCaches raw s) (hblank : ∀ c ∈ kvCaches, Blank c)
    (h0 : s.tokenCount = 0) : AllOrNothing q kvCaches.length (restoreBlock P w q kvCaches) := by
  obtain ⟨hlen, -, hpos⟩ := restoreLayers_ok w s.tokenCount h.even kvCaches 0 (by omega) hblank
  obtain ⟨hnopanic, hzero⟩ := restoreLayers_zero w h0 kvCaches 0 hblank
  generalize hr : restoreLayers w s.payload (s.payload.length / kvCaches.length)
    s.tokenCount 0 kvCaches = out at *
  obtain ⟨r, cs⟩ := out
  obtain ⟨herr, -, hsome, hnone⟩ := restoreBlock_eq h hr
  have hmiss : AllOrNothing (F := P.F) q kvCaches.length (.ok none, cs) := ⟨hlen, hzero⟩
  cases r with
  | ok u =>
    by_cases hfit : LogitsFit P q s
    · obtain ⟨logits, hblock⟩ := hsome rfl hfit
      rw [hblock]
      exact h.restored hlen (hpos rfl) logits
    · rw [hnone rfl hfit]
      exact hmiss
  | error e =>
    cases e with
    | err text => rw [herr text rfl]; exact hmiss
    | panic text => exact absurd rfl (hnopanic text)

/-- A file with tokens: the first layer decides between an error and a partial restore. -/
theorem allOrNothing_iff_of_tokens (h : Loops P q kvCaches raw s) (hblank : ∀ c ∈ kvCaches, Blank c)
    (hpos0 : 0 < s.tokenCount) : AllOrNothing q kvCaches.length (restoreBlock P w q kvCaches) ↔
      (∃ c, kvCaches.head? = some c ∧
      Refuses w c s.tokenCount (s.payload.length / kvCaches.length)) ∨
      ((∀ c ∈ kvCaches, Takes w c s.tokenCount (s.payload.length / kvCaches.length)) ∧
      LogitsFit P q s) := by
  obtain ⟨hlen, hiff, hpos⟩ := restoreLayers_ok w s.tokenCount h.even kvCaches 0 (by omega) hblank
  obtain ⟨c, rest, rfl⟩ := List.exists_cons_of_ne_nil h.layers
  obtain ⟨hrefuses, htakes, hpanics⟩ :=
    restoreLayers_head w s.tokenCount (Nat.succ_pos rest.length)
      h.even (hblank c List.mem_cons_self) rest
  generalize hr : restoreLayers w s.payload (s.payload.length / (c :: rest).length)
    s.tokenCount 0 (c :: rest) = out at *
  obtain ⟨r, cs⟩ := out
  obtain ⟨herr, hpanic, hsome, hnone⟩ := restoreBlock_eq h hr
  simp only at hlen hiff hpos
  simp only [List.head?_cons, Option.some.injEq, exists_eq_left']
  -- a layer that was restored is not empty
  have hleft : Takes w c s.tokenCount (s.payload.length / (c :: rest).length) →
      ¬ AllOrNothing (F := P.F) q (c :: rest).length (.ok none, cs) := by
    rintro htake ⟨-, hall⟩
    obtain ⟨c', cs', hcs, hc'⟩ := htakes htake
    simp only at hcs
    have := hall c' (by rw [hcs]; exact List.mem_cons_self)
    omega
  cases r with
  | ok u =>
    have hall := hiff.mp rfl
    have hhead := hall c List.mem_cons_self
    by_cases hfit : LogitsFit P q s
    · obtain ⟨logits, hblock⟩ := hsome rfl hfit
      rw [hblock]
      exact iff_of_true (h.restored hlen (hpos rfl) logits) (.inr ⟨hall, hfit⟩)
    · rw [hnone rfl hfit]
      refine iff_of_false (hleft hhead) fun hor => ?_
      rcases hor with href | ⟨-, hfit'⟩
      · exact not_refuses_of_takes hhead href
      · exact hfit hfit'
  | error e =>
    have hnotall : ¬ ∀ c' ∈ c :: rest,
      Takes w c' s.tokenCount (s.payload.length / (c :: rest).length) :=
      fun hall => by cases hiff.mpr hall
    cases e with
    | panic text =>
      rw [hpanic text rfl]
      refine iff_of_false (fun h => h) fun hor => ?_
      rcases hor with href | ⟨hall, -⟩
      · obtain ⟨_, _, hne, -⟩ := hrefuses href
        cases hne
      · exact hnotall hall
    | err text =>
      rw [herr text rfl]
      by_cases href : Refuses w c s.tokenCount (s.payload.length / (c :: rest).length)
      · obtain ⟨_, c', heq, hc'⟩ := hrefuses href
        cases heq
        refine iff_of_true ⟨rfl, List.forall_mem_cons.mpr ⟨hc', fun d hd => ?_⟩⟩ (.inl href)
        exact (hblank d (List.mem_cons_of_mem _ hd)).empty
      · refine iff_of_false ?_ fun hor => ?_
        · by_cases htake : Takes w c s.tokenCount (s.payload.length / (c :: rest).length)
          · exact hleft htake
          · obtain ⟨_, _, hne⟩ := hpanics htake href
            cases hne
        · rcases hor with href' | ⟨hall, -⟩
          · exact href href'
          · exact hnotall hall

end Loop

end AllOrNothing

/-- **A restore is all or nothing** exactly when, wherever it reaches the layers with tokens to
restore, the first layer refuses its share, or every layer takes its share and the session keeps the
result. -/
theorem restoreBlock_iff (P : Platform) (w : WriteError) (q : Request) {kvCaches : List KVCache}
    (hwf : ∀ c ∈ kvCaches, c.WF ∧ c.currentPos = 0) :
    AllOrNothing q kvCaches.length (restoreBlock P w q kvCaches) ↔
      RestoresCleanly P w q kvCaches := by
  by_cases hloop : ∃ raw s, Loops P q kvCaches raw s
  swap
  · have hno : ∀ raw s, ¬ Loops P q kvCaches raw s := fun raw s h => hloop ⟨raw, s, h⟩
    exact iff_of_true (allOrNothing_of_no_loop hwf hno) fun raw s h => absurd h (hno raw s)
  obtain ⟨raw, s, h⟩ := hloop
  have hblank := blank_of_supported h.supported hwf
  constructor
  · intro hall raw' s' h' hpos
    rw [h.unique h'] at hpos ⊢
    exact (allOrNothing_iff_of_tokens h hblank hpos).mp hall
  · intro hclean
    rcases Nat.eq_zero_or_pos s.tokenCount with h0 | hpos
    · exact allOrNothing_of_no_tokens h hblank h0
    · exact (allOrNothing_iff_of_tokens h hblank hpos).mpr (hclean raw s h hpos)

/-- An empty HeadMajor F32 layer of one head and four positions. -/
def blankLayer : KVCache :=
  newWithGeometry (.host [1, 1, 4, 1] (List.replicate 16 0))
    (.host [1, 1, 4, 1] (List.replicate 16 0)) 4 1 1 .headMajor

theorem blankLayer_wf : blankLayer.WF := by
  refine ⟨by decide, rfl, rfl, ?_, by decide, by decide, by decide, fun h => ?_, by decide⟩
  · rintro (_ | _) <;> decide
  · exact (List.getD_nil ..).trans_le (Nat.zero_le _)

/-- A session with one layer and the prompt `[7]`, and a file saved for it with this payload. -/
def oneToken (payload : List UInt8) : Request :=
  let hash := List.replicate 32 0
  ⟨.contents (saveBuffer .fixedPoint ⟨hash, hash, 1, 1, 1, 1, [7]⟩ [] payload), hash,
    hash, 1, 1, 32, [7]⟩

/-- The row of each half: the layer takes it. -/
theorem allOrNothing_oneToken : AllOrNothing (oneToken [1, 0, 0, 0, 2, 0, 0, 0]) 1
    (restoreBlock .fixedPoint hostWriteError (oneToken [1, 0, 0, 0, 2, 0, 0, 0]) [blankLayer]) := by
  have hwf : ∀ c ∈ [blankLayer], c.WF ∧ c.currentPos = 0 :=
    List.forall_mem_singleton.mpr ⟨blankLayer_wf, rfl⟩
  refine (restoreBlock_iff .fixedPoint hostWriteError _ hwf).mpr fun raw s h hpos => .inr ?_
  obtain rfl := FileRead.contents.inj h.file
  have hs : some ⟨1, [], [1, 0, 0, 0, 2, 0, 0, 0]⟩ = some s := h.snapshot
  cases hs
  refine ⟨List.forall_mem_singleton.mpr ⟨.inl (by decide), (by decide : _ ≤ 8),
    fun b c' he x => ?_⟩, .inr (.inl rfl)⟩
  cases he
  cases x <;> rfl

/-- **A file that stops after its header ends the session**: the copy of the first head of the first
layer indexes past the end of the payload. -/
theorem short_payload_panics :
    ¬ AllOrNothing (oneToken [])
      1 (restoreBlock .fixedPoint hostWriteError (oneToken []) [blankLayer]) := by
  have hpanic : ∃ text cs, restoreBlock .fixedPoint hostWriteError (oneToken []) [blankLayer] =
      (.error (.panic text), cs) := ⟨_, _, rfl⟩
  obtain ⟨text, cs, hpanic⟩ := hpanic
  rw [hpanic]
  exact fun h => h

end PrefixCache

end ArgusEngine
