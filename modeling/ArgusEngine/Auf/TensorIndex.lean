import ArgusEngine.Auf.Format

/-!
# The TENSOR_INDEX section

For each tensor its layer, kind, dtype and shape, and for each backend variant the offset and size
of its bytes in the variant's WEIGHTS section.

* **`noPanic_tensorIndexFromBytes`**: reading an index never panics;
* **`fromBytes_tensorIndexToBytes`**: an index with one offset and one size for each variant is read
  back.
-/

namespace ArgusEngine.Auf

open FlatMem Checked

/-- `"ARGUS_TIDX"`, NUL-padded. -/
def TENSOR_INDEX_MAGIC : List UInt8 := [65, 82, 71, 85, 83, 95, 84, 73, 68, 88, 0, 0, 0, 0, 0, 0]

def TENSOR_INDEX_FIXED_HEADER : ℕ := 32

/-- The layer index of the tensors that belong to no layer. -/
def LAYER_IDX_CROSS : UInt32 := 0xffffffff

inductive TensorDType where
  | f32 | f16 | bf16 | q4_0 | q4_1 | q8_0 | u8
  deriving Repr, DecidableEq

def TensorDType.fromU32 : UInt32 → Option TensorDType
  | 0 => some f32
  | 1 => some f16
  | 2 => some bf16
  | 3 => some q4_0
  | 4 => some q4_1
  | 5 => some q8_0
  | 6 => some u8
  | _ => none

def TensorDType.asU32 : TensorDType → UInt32
  | f32 => 0
  | f16 => 1
  | bf16 => 2
  | q4_0 => 3
  | q4_1 => 4
  | q8_0 => 5
  | u8 => 6

inductive TensorKind where
  | attnQ | attnK | attnV | attnO | ffnGate | ffnUp | ffnDown | attnNorm | ffnNorm |
    embedding | finalNorm | lmHead
  | attnQBias | attnKBias | attnVBias
  deriving Repr, DecidableEq

def TensorKind.asU32 : TensorKind → UInt32
  | attnQ => 0
  | attnK => 1
  | attnV => 2
  | attnO => 3
  | ffnGate => 4
  | ffnUp => 5
  | ffnDown => 6
  | attnNorm => 7
  | ffnNorm => 8
  | embedding => 9
  | finalNorm => 10
  | lmHead => 11
  | attnQBias => 12
  | attnKBias => 13
  | attnVBias => 14

structure TensorEntry where
  layerIdx : UInt32
  kind : UInt32
  dtype : UInt32
  shape : List UInt64
  alignment : UInt64
  variantOffsets : List UInt64
  variantSizes : List UInt64
  deriving DecidableEq

/-- The offset and size in a variant's column; `u64::MAX` and 0 where there is none. -/
def TensorEntry.column (e : TensorEntry) (variantIdx : ℕ) : UInt64 × UInt64 :=
  (e.variantOffsets.getD variantIdx (.ofNat (2 ^ 64 - 1)), e.variantSizes.getD variantIdx 0)

/-- `require!`. -/
def require (bytes : List UInt8) (pos need : ℕ) (ctx : String) : AufResult Unit := do
  let stop ← add pos need
  ensure (stop ≤ bytes.length)
    (.tensorIndexFormat s!"{ctx}: need {need} bytes at pos {pos}, have {bytes.length}")

/-- `n` numbers from `pos` on. -/
def readU64s (bytes : List UInt8) : (n pos : ℕ) → AufResult (List UInt64) :=
  readMany 8 (u64At bytes)

/-- `TensorEntry::from_bytes`: the entry and the number of its bytes. A `u32` count of numbers fits
a `usize`. -/
def TensorEntry.fromBytes (bytes : List UInt8) (variantCount : ℕ) :
    AufResult (TensorEntry × ℕ) := do
  require bytes 0 16 "entry fixed header"
  let layerIdx ← u32At bytes 0
  let kind ← u32At bytes 4
  let dtype ← u32At bytes 8
  let shapeRank := (← u32At bytes 12).toNat
  require bytes 16 (shapeRank * 8) "shape"
  let shape ← readU64s bytes shapeRank 16
  let pos := 16 + shapeRank * 8
  require bytes pos 8 "alignment"
  let alignment ← u64At bytes pos
  require bytes (pos + 8) (variantCount * 8) "variant_offsets"
  let variantOffsets ← readU64s bytes variantCount (pos + 8)
  require bytes (pos + 8 + variantCount * 8) (variantCount * 8) "variant_sizes"
  let variantSizes ← readU64s bytes variantCount (pos + 8 + variantCount * 8)
  return ({ layerIdx, kind, dtype, shape, alignment, variantOffsets, variantSizes },
    pos + 8 + variantCount * 8 + variantCount * 8)

def TensorEntry.parts (e : TensorEntry) : List (List UInt8) :=
  [le32 e.layerIdx, le32 e.kind, le32 e.dtype, le32 (.ofNat e.shape.length), e.shape.flatMap le64,
    le64 e.alignment,
   e.variantOffsets.flatMap le64, e.variantSizes.flatMap le64]

/-- `TensorEntry::to_bytes`. -/
def TensorEntry.toBytes (e : TensorEntry) : List UInt8 := e.parts.flatten

structure TensorIndex where
  variantTags : List (Raw 24)
  entries : List TensorEntry
  deriving DecidableEq

namespace TensorIndex

/-- The tags of the variants, from `pos` on. -/
def readTags (payload : List UInt8) : (n pos : ℕ) → AufResult (List (Raw 24)) :=
  readMany 24 (array payload · 24)

/-- The tensor entries, from number `i` at `pos` on. -/
def readEntries (payload : List UInt8) (variantCount : ℕ) :
    (n i pos : ℕ) → AufResult (List TensorEntry)
  | 0, _, _ => .ok []
  | n + 1, i, pos => do
    ensure (pos < payload.length) (.tensorIndexFormat s!"tensor entry {i} out of bounds")
    let bytes ← indexFrom payload pos
    let (entry, consumed) ← mapErr (fun e => .tensorIndexFormat s!"tensor entry {i}: {e.display}")
      (TensorEntry.fromBytes bytes variantCount)
    return entry :: (← readEntries payload variantCount n (i + 1) (← add pos consumed))

/-- `TensorIndex::from_bytes`. -/
def fromBytes (payload : List UInt8) : AufResult TensorIndex := do
  ensure (TENSOR_INDEX_FIXED_HEADER ≤ payload.length)
    (.tensorIndexFormat "payload too small for header")
  ensure ((← index payload 0 16) = TENSOR_INDEX_MAGIC) (.tensorIndexFormat "magic mismatch")
  let schemaVersion ← u32At payload 16
  ensure (schemaVersion = 1) (.tensorIndexFormat s!"unsupported schema_version={schemaVersion}")
  let variantCount := (← u32At payload 20).toNat
  let tensorCount := (← u32At payload 24).toNat
  ensure (32 + variantCount * 24 ≤ payload.length)
    (.tensorIndexFormat "variant tags extend beyond payload")
  let variantTags ← readTags payload variantCount 32
  let entries ← readEntries payload variantCount tensorCount 0 (32 + variantCount * 24)
  return { variantTags, entries }

def parts (idx : TensorIndex) : List (List UInt8) :=
  [TENSOR_INDEX_MAGIC, le32 1, le32 (.ofNat idx.variantTags.length),
    le32 (.ofNat idx.entries.length), le32 0,
   idx.variantTags.flatMap (·.1), idx.entries.flatMap TensorEntry.toBytes]

/-- `TensorIndex::to_bytes`. -/
def toBytes (idx : TensorIndex) : List UInt8 := idx.parts.flatten

/-- `find_lm_head_entry`. -/
def findLmHeadEntry (idx : TensorIndex) : Option TensorEntry :=
  idx.entries.find? fun e => e.kind == TensorKind.lmHead.asU32 && e.layerIdx == LAYER_IDX_CROSS

/-- `variant_index_for_tag`. -/
def variantIndexForTag (idx : TensorIndex) (weightsTag : String) : Option ℕ :=
  idx.variantTags.findIdx? fun t => nulText t == some weightsTag

/-- `entries_for`. -/
def entriesFor (idx : TensorIndex) (layerIdx kind : UInt32) : List TensorEntry :=
  idx.entries.filter fun e => e.layerIdx == layerIdx && e.kind == kind

/-- `find_entry_by_dtype`. -/
def findEntryByDtype (idx : TensorIndex) (layerIdx kind dtype : UInt32) : Option TensorEntry :=
  idx.entries.find? fun e => e.layerIdx == layerIdx && e.kind == kind && e.dtype == dtype

end TensorIndex

/-! ## No panics -/

section Total

variable {bytes payload : List UInt8}

theorem ok_require {pos need : ℕ} {ctx : String} {u : Unit} :
    require bytes pos need ctx = .ok u ↔ pos + need < 2 ^ 64 ∧ pos + need ≤ bytes.length := by
  simp only [require, ok_bind, ok_add, ok_ensure]
  constructor
  · rintro ⟨_, ⟨h, rfl⟩, hle⟩
    exact ⟨h, hle⟩
  · rintro ⟨h, hle⟩
    exact ⟨_, ⟨h, rfl⟩, hle⟩

theorem require_of_le {pos need : ℕ} {ctx : String} (hlen : bytes.length < 2 ^ 63)
    (h : pos + need ≤ bytes.length) : require bytes pos need ctx = .ok () :=
  ok_require.mpr ⟨by omega, h⟩

theorem noPanic_require {pos need : ℕ} {ctx : String} : NoPanic (require bytes pos need ctx) ↔
    pos + need < 2 ^ 64 := by
  simp [require]

theorem noPanic_readU64s {n pos : ℕ} (h : pos + n * 8 ≤ bytes.length) :
    NoPanic (readU64s bytes n pos) := by
  refine noPanic_readMany fun i hi => noPanic_readAt.mpr ?_
  have := Nat.mul_le_mul_right 8 (Nat.succ_le_of_lt hi)
  omega

theorem noPanic_entryFromBytes (hlen : bytes.length < 2 ^ 63) {variantCount : ℕ}
    (hv : variantCount < 2 ^ 32) : NoPanic (TensorEntry.fromBytes bytes variantCount) := by
  simp only [TensorEntry.fromBytes, noPanic_bind, noPanic_require, ok_require,
    noPanic_readAt, noPanic_pure, implies_true, and_true]
  refine ⟨by omega, fun _ h₀ => ⟨by
    omega, fun _ _ => ⟨by omega, fun _ _ => ⟨by omega, fun _ _ => ⟨by omega, ?_⟩⟩⟩⟩⟩
  intro rank _
  have hrank := rank.toNat_lt
  refine ⟨by omega, fun _ h₁ => ⟨noPanic_readU64s h₁.2, fun _ _ => ⟨by
    omega, fun _ h₂ => ⟨h₂.2, fun _ _ => ?_⟩⟩⟩⟩
  exact ⟨by omega, fun _ h₃ => ⟨noPanic_readU64s h₃.2, fun _ _ => ⟨by
    omega, fun _ h₄ => noPanic_readU64s h₄.2⟩⟩⟩

theorem consumed_le {variantCount : ℕ} {r : TensorEntry × ℕ}
    (h : TensorEntry.fromBytes bytes variantCount = .ok r) : r.2 ≤ bytes.length := by
  simp only [TensorEntry.fromBytes, ok_bind, ok_require] at h
  obtain ⟨-, -, _, -, _, -, _, -, rank, -, -, -, _, -, -, -, _, -, -, -, _, -, -,
    ⟨-, hle⟩, _, -, hr⟩ := h
  cases hr
  exact hle

theorem noPanic_readEntries (hlen : payload.length < 2 ^ 63) {variantCount : ℕ}
    (hv : variantCount < 2 ^ 32) {n i pos : ℕ} :
    NoPanic (TensorIndex.readEntries payload variantCount n i pos) := by
  induction n generalizing i pos with
  | zero => exact noPanic_ok _
  | succ n ih =>
    simp only [TensorIndex.readEntries, noPanic_bind, noPanic_ensure, noPanic_indexFrom,
      noPanic_mapErr, noPanic_add, noPanic_pure, ok_ensure, ok_indexFrom, ok_mapErr, ih, true_and,
      implies_true, and_true]
    rintro - hpos
    refine ⟨Nat.le_of_lt hpos, ?_⟩
    rintro _ ⟨-, rfl⟩
    have hb : (payload.drop pos).length = payload.length - pos := List.length_drop
    refine ⟨noPanic_entryFromBytes (by omega) hv, fun r hr => ?_⟩
    have hle := consumed_le hr
    omega

/-- **Reading a tensor index never panics.** -/
theorem noPanic_tensorIndexFromBytes (hlen : payload.length < 2 ^ 63) :
    NoPanic (TensorIndex.fromBytes payload) := by
  simp only [TensorIndex.fromBytes, noPanic_bind, noPanic_ensure, noPanic_index,
    noPanic_readAt, noPanic_pure, ok_ensure, true_and, implies_true, and_true]
  rintro - hfixed
  have hfixed' : 32 ≤ payload.length := hfixed
  refine ⟨by omega, fun _ _ _ _ => ⟨by
    omega, fun _ _ _ _ => ⟨by omega, fun v _ => ⟨by omega, fun n _ _ htags => ?_⟩⟩⟩⟩
  refine ⟨noPanic_readMany fun i hi => noPanic_array.mpr ?_, fun _ _ =>
    noPanic_readEntries hlen v.toNat_lt⟩
  have := Nat.mul_le_mul_right 24 (Nat.succ_le_of_lt hi)
  omega

end Total

/-! ## The round trip -/

theorem length_le64s (xs : List UInt64) : (xs.flatMap le64).length = xs.length * 8 :=
  length_blocks length_le64 xs

theorem readU64s_build (xs : List UInt64) (pre post : List UInt8) :
    readU64s (pre ++ xs.flatMap le64 ++ post) xs.length pre.length = .ok xs := by
  refine readMany_eq_ok fun i hi => ?_
  have hstop : pre.length + i * 8 + 8 ≤ (pre ++ xs.flatMap le64 ++ post).length := by
    have := Nat.mul_le_mul_right 8 (Nat.succ_le_of_lt hi)
    rw [List.length_append, List.length_append, length_le64s]
    omega
  rw [show u64At _ _ = _ from readAt_of_le hstop, slice_blocks length_le64 hi, ofLe64_le64]

namespace TensorEntry

/-- One offset and one size for each of `v` variants, and a rank that fits its field. -/
structure Fits (e : TensorEntry) (v : ℕ) : Prop where
  rank : e.shape.length < 2 ^ 32
  offsets : e.variantOffsets.length = v
  sizes : e.variantSizes.length = v

variable {e : TensorEntry} {v : ℕ}

theorem length_toBytes (hfits : e.Fits v) :
    e.toBytes.length = 16 + e.shape.length * 8 + 8 + v * 8 + v * 8 := by
  simp only [toBytes, parts, List.length_flatten, List.map_cons, List.map_nil,
    List.sum_cons, List.sum_nil, length_le32, length_le64, length_le64s, hfits.offsets, hfits.sizes]
  omega

/-- **A tensor entry is read back**, whatever stands behind it. -/
theorem fromBytes_toBytes (hfits : e.Fits v) (rest : List UInt8)
    (hlen : (e.toBytes ++ rest).length < 2 ^ 63) :
    fromBytes (e.toBytes ++ rest) v = .ok (e, e.toBytes.length) := by
  have htotal := length_toBytes hfits
  have hbytes : (e.toBytes ++ rest).length = e.toBytes.length + rest.length := List.length_append
  have hparts : e.toBytes ++ rest = (e.parts ++ [rest]).flatten := by simp [toBytes]
  have hlayer : slice (e.toBytes ++ rest) 0 4 = le32 e.layerIdx := by
    rw [hparts]; exact slice_flatten (i := 0) rfl rfl rfl
  have hkind : slice (e.toBytes ++ rest) 4 4 = le32 e.kind := by
    rw [hparts]; exact slice_flatten (i := 1) rfl rfl rfl
  have hdtype : slice (e.toBytes ++ rest) 8 4 = le32 e.dtype := by
    rw [hparts]; exact slice_flatten (i := 2) rfl rfl rfl
  have hrank : slice (e.toBytes ++ rest) 12 4 = le32 (.ofNat e.shape.length) := by
    rw [hparts]; exact slice_flatten (i := 3) rfl rfl rfl
  have halign : slice (e.toBytes ++ rest) (16 + e.shape.length * 8) 8 = le64 e.alignment := by
    rw [hparts]; exact slice_flatten (i := 5) rfl (by simp [parts]; omega) (length_le64 _)
  have hshape : readU64s (e.toBytes ++ rest) e.shape.length 16 = .ok e.shape := by
    rw [hparts, flatten_split (i := 4) rfl]
    exact readU64s_build e.shape _ _
  have hoffsets : readU64s (e.toBytes ++ rest) v (16 + e.shape.length * 8 + 8) =
    .ok e.variantOffsets := by
    have hpre : ((e.parts ++ [rest]).take 6).flatten.length = 16 + e.shape.length * 8 + 8 := by
      simp [parts]; omega
    rw [← hpre, ← hfits.offsets, hparts, flatten_split (i := 6) rfl]
    exact readU64s_build e.variantOffsets _ _
  have hsizes : readU64s (e.toBytes ++ rest) v (16 + e.shape.length * 8 + 8 + v * 8) =
    .ok e.variantSizes := by
    have hpre : ((e.parts ++ [rest]).take 7).flatten.length =
      16 + e.shape.length * 8 + 8 + v * 8 := by
      simp [parts, hfits.offsets]; omega
    rw [← hpre, ← hfits.sizes, hparts, flatten_split (i := 7) rfl]
    exact readU64s_build e.variantSizes _ _
  have hnum : (UInt32.ofNat e.shape.length).toNat = e.shape.length := by
    rw [UInt32.toNat_ofNat', Nat.mod_eq_of_lt hfits.rank]
  unfold fromBytes
  rw [bind_of_ok (require_of_le hlen (by omega))]
  simp (disch := omega) only [readAt_of_le, ok_seq]
  rw [hlayer, hkind, hdtype, hrank]
  simp only [ofLe32_le32, hnum]
  rw [bind_of_ok (require_of_le hlen (by omega)), bind_of_ok hshape,
    bind_of_ok (require_of_le hlen (by omega))]
  simp (disch := omega) only [readAt_of_le, ok_seq]
  rw [halign, ofLe64_le64, bind_of_ok (require_of_le hlen (by omega)), bind_of_ok hoffsets,
    bind_of_ok (require_of_le hlen (by omega)), bind_of_ok hsizes, htotal]
  rfl

end TensorEntry

namespace TensorIndex

/-- Every count of the index fits its field, and each entry has one offset and one size for each
variant. -/
structure Fits (idx : TensorIndex) : Prop where
  tags : idx.variantTags.length < 2 ^ 32
  count : idx.entries.length < 2 ^ 32
  entry : ∀ e ∈ idx.entries, e.Fits idx.variantTags.length

theorem readEntries_build {entries : List TensorEntry} {v : ℕ} {pre : List UInt8} {i : ℕ}
    (hfits : ∀ e ∈ entries, e.Fits v)
    (hlen : (pre ++ entries.flatMap TensorEntry.toBytes).length < 2 ^ 63) :
    readEntries (pre ++ entries.flatMap TensorEntry.toBytes) v entries.length i pre.length =
      .ok entries := by
  induction entries generalizing pre i with
  | nil => rfl
  | cons e entries ih =>
    have he := hfits e List.mem_cons_self
    have hsplit : pre ++ (e :: entries).flatMap TensorEntry.toBytes =
        (pre ++ e.toBytes) ++ entries.flatMap TensorEntry.toBytes := by
      rw [List.flatMap_cons, List.append_assoc]
    have hpos : pre.length < (pre ++ (e :: entries).flatMap TensorEntry.toBytes).length := by
      rw [hsplit, List.length_append, List.length_append, TensorEntry.length_toBytes he]
      omega
    have hbytes : (pre ++ (e :: entries).flatMap TensorEntry.toBytes).drop pre.length =
        e.toBytes ++ entries.flatMap TensorEntry.toBytes := by
      rw [List.flatMap_cons, List.drop_left]
    have hentry : TensorEntry.fromBytes (e.toBytes ++ entries.flatMap TensorEntry.toBytes) v =
        .ok (e, e.toBytes.length) := by
      refine TensorEntry.fromBytes_toBytes he _ (Nat.lt_of_le_of_lt ?_ hlen)
      rw [List.flatMap_cons, List.length_append, List.length_append, List.length_append]
      omega
    have hrest : readEntries (pre ++ (e :: entries).flatMap TensorEntry.toBytes)
      v entries.length (i + 1)
        (pre.length + e.toBytes.length) = .ok entries := by
      rw [hsplit] at hlen ⊢
      rw [← List.length_append]
      exact ih (fun x hx => hfits x (List.mem_cons_of_mem _ hx)) hlen
    rw [List.length_cons, readEntries, bind_of_ok (ensure_of hpos),
      bind_of_ok (ok_indexFrom.mpr ⟨Nat.le_of_lt hpos, rfl⟩), hbytes,
      bind_of_ok (ok_mapErr.mpr hentry)]
    simp only
    have hsum : pre.length + e.toBytes.length ≤
      (pre ++ (e :: entries).flatMap TensorEntry.toBytes).length := by
      rw [hsplit, List.length_append, List.length_append]
      exact Nat.le_add_right _ _
    rw [bind_of_ok (ok_add.mpr ⟨by omega, rfl⟩), bind_of_ok hrest]
    rfl

/-- **A tensor index is read back from its bytes.** -/
theorem fromBytes_tensorIndexToBytes {idx : TensorIndex} (hfits : idx.Fits)
    (hlen : idx.toBytes.length < 2 ^ 63) : fromBytes idx.toBytes = .ok idx := by
  have hraw : ∀ t : Raw 24, t.1.length = 24 := length_raw
  have htags : (idx.variantTags.flatMap (·.1)).length = idx.variantTags.length * 24 :=
    length_blocks hraw _
  have hpre : (idx.parts.take 6).flatten.length = 32 + idx.variantTags.length * 24 := by
    simp only [parts, TENSOR_INDEX_MAGIC, List.take_succ_cons, List.take_zero, List.flatten_cons,
      List.flatten_nil, List.length_append, List.length_cons, List.length_nil, length_le32, htags]
    omega
  have hsplit : idx.toBytes = (idx.parts.take 6).flatten ++
    idx.entries.flatMap TensorEntry.toBytes := by
    rw [toBytes, flatten_split (i := 6) rfl]
    exact List.append_nil _
  have htotal : idx.toBytes.length =
      32 + idx.variantTags.length * 24 + (idx.entries.flatMap TensorEntry.toBytes).length := by
    rw [hsplit, List.length_append, hpre]
  have hmagic : slice idx.toBytes 0 (16 - 0) = TENSOR_INDEX_MAGIC :=
    slice_flatten (i := 0) rfl rfl rfl
  have hschema : slice idx.toBytes 16 4 = le32 1 := slice_flatten (i := 1) rfl rfl rfl
  have hvariants : slice idx.toBytes 20 4 = le32 (.ofNat idx.variantTags.length) :=
    slice_flatten (i := 2) rfl rfl rfl
  have hcount : slice idx.toBytes 24 4 = le32 (.ofNat idx.entries.length) :=
    slice_flatten (i := 3) rfl rfl rfl
  have hreadTags : readTags idx.toBytes idx.variantTags.length 32 = .ok idx.variantTags := by
    refine readMany_eq_ok fun i hi => ?_
    have hstop : 32 + i * 24 + 24 ≤ idx.toBytes.length := by
      have := Nat.mul_le_mul_right 24 (Nat.succ_le_of_lt hi)
      omega
    refine ok_array.mpr ⟨hstop, ?_⟩
    rw [toBytes, flatten_split (i := 5) rfl]
    exact (slice_blocks hraw hi _ _).symm
  have hentries : readEntries idx.toBytes idx.variantTags.length idx.entries.length 0
      (32 + idx.variantTags.length * 24) = .ok idx.entries := by
    rw [← hpre, hsplit]
    exact readEntries_build hfits.entry (hsplit ▸ hlen)
  unfold fromBytes
  rw [bind_of_ok (ensure_of (show TENSOR_INDEX_FIXED_HEADER ≤
    _ by unfold TENSOR_INDEX_FIXED_HEADER; omega)),
    bind_of_ok (ok_index.mpr ⟨⟨Nat.zero_le _, by omega⟩, rfl⟩), bind_of_ok (ensure_of hmagic)]
  simp (disch := omega) only [readAt_of_le, ok_seq]
  rw [hschema, hvariants, hcount]
  simp only [ofLe32_le32, UInt32.toNat_ofNat', Nat.mod_eq_of_lt hfits.tags,
    Nat.mod_eq_of_lt hfits.count]
  rw [bind_of_ok (ensure_of trivial), bind_of_ok (ensure_of (by omega)), bind_of_ok hreadTags,
    bind_of_ok hentries]
  rfl

end TensorIndex

end ArgusEngine.Auf
