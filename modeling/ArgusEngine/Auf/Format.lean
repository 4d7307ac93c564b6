import Mathlib.Data.List.TakeWhile
import ArgusEngine.Lib.Words

/-!
# The AUF container

An AUF file is a header of 256 bytes, a section table and the payloads of the sections. `AufHeader`,
`SectionEntry` and `SectionTable` are read and written here, little-endian, and the table is
checked: unique tags, no contradictory flags, no compression, ranges inside the file that do not
overlap.

* `ok_headerFromBytes`, `fromBytes_headerToBytes`: the header is its bytes;
* `ok_tableFromBytes`, `fromBytes_tableToBytes`: the table is its entries in order;
* **`ok_validateRanges`**: an accepted table has disjoint ranges inside the payload area.
-/

namespace ArgusEngine.Auf

open FlatMem Checked

/-- `AufError`. -/
inductive AufError where
  | magicMismatch
  | unsupportedFormatMajor (found maxSupported : UInt16)
  | unknownRequiredCapability (bit : ℕ)
  | requiredSectionMissing (tag : String)
  | weightsSectionMissing (weightsTag : String)
  | sectionRangeInvalid (tag detail : String)
  | sectionOverlap (tagA tagB : String)
  | duplicateSectionTag (tag : String)
  | contradictoryFlags (tag : String)
  | compressedSectionUnsupported (tag : String)
  | sectionTableTruncated
  | fileTooSmall
  | tokenizerFormat (detail : String)
  | tensorIndexFormat (detail : String)
  | tensorIndexMissingVariant (weightsTag : String)
  | lmHeadEntryMissing
  | lmHeadDtypeMismatch (foundDtype : UInt32)
  | lmHeadShapeMismatch (expected : ℕ × ℕ) (found : List UInt64)
  | lmHeadVariantPayloadMissing (variantTag : String)
  | dtypeNotAvailable (layerIdx kind dtype : UInt32)
  | other (msg : String)
  deriving Repr, DecidableEq

/-- `Display`. -/
def AufError.display : AufError → String
  | magicMismatch => "Not an AUF file (magic mismatch)"
  | unsupportedFormatMajor found maxSupported =>
    s!"AUF format_major={found} but reader supports up to {maxSupported}. Update argus_engine."
  | unknownRequiredCapability bit =>
    s!"AUF requires capability bit {bit} which is not understood by this reader"
  | requiredSectionMissing tag => s!"{tag} section missing — file is not a valid AUF"
  | weightsSectionMissing weightsTag =>
    s!"AUF does not contain {weightsTag}. Run 'auf-tool repack --add {weightsTag}' to add it from source GGUF."
  | sectionRangeInvalid tag detail => s!"Section {tag} has invalid offset/size: {detail}"
  | sectionOverlap tagA tagB => s!"Section {tagA} overlaps with {tagB} (offset/size invalid)"
  | duplicateSectionTag tag => s!"Duplicate section tag: {tag}"
  | contradictoryFlags tag => s!"Section {tag} has contradictory flags REQUIRED+STRIPPABLE"
  | compressedSectionUnsupported tag =>
    s!"Section {tag} uses compression which is not supported in format_minor=1"
  | sectionTableTruncated => "AUF section table extends beyond file size"
  | fileTooSmall => "AUF file is too small to contain a valid header"
  | tokenizerFormat detail => s!"TOKENIZER section format error: {detail}"
  | tensorIndexFormat detail => s!"TENSOR_INDEX section format error: {detail}"
  | tensorIndexMissingVariant weightsTag =>
    s!"AUF file invariant violation: TENSOR_INDEX does not list variant '{weightsTag}' — " ++
      "empty index detected. Rebuild with 'auf-tool build'."
  | lmHeadEntryMissing =>
    "AUF invariant violation (INV-135): capability_optional bit 2 is set but " ++
      "TENSOR_INDEX contains no lm_head entry (kind=11, layer_idx=u32::MAX, dtype=Q4_0)"
  | lmHeadDtypeMismatch foundDtype =>
    s!"AUF invariant violation (INV-135): lm_head entry dtype={foundDtype} (expected Q4_0=3)"
  | lmHeadShapeMismatch expected found =>
    s!"AUF invariant violation (INV-135): lm_head entry shape={found} " ++
      s!"does not match model config [vocab_size={expected.1}, hidden_dim={expected.2}]"
  | lmHeadVariantPayloadMissing variantTag =>
    s!"AUF invariant violation (INV-135): lm_head entry has no payload for variant '{variantTag}'"
  | dtypeNotAvailable layerIdx kind dtype =>
    s!"AUF tensor not available: layer_idx={layerIdx}, kind={kind}, dtype={dtype} " ++
      "not found in TENSOR_INDEX (ENG-ALG-225)"
  | other msg => s!"AUF error: {msg}"

abbrev AufResult (α : Type) : Type := Except (Fault AufError) α

/-! ## The header -/

def READER_MAX_FORMAT_MAJOR : UInt16 := 0
def CAPABILITY_BIT_LM_HEAD_Q4_0 : UInt64 := 4
def CAPABILITY_BIT_MULTI_DTYPE : UInt64 := 8
def READER_KNOWN_CAPABILITIES : UInt64 := CAPABILITY_BIT_LM_HEAD_Q4_0 ||| CAPABILITY_BIT_MULTI_DTYPE

/-- `"ARGUS_W\0"`. -/
def AUF_MAGIC : Raw 8 := ⟨[65, 82, 71, 85, 83, 95, 87, 0], rfl⟩

def HEADER_SIZE : ℕ := 256

structure AufHeader where
  magic : Raw 8
  formatMajor : UInt16
  formatMinor : UInt16
  formatPatch : UInt16
  createdBy : Raw 32
  sourceHash : Raw 32
  sourceSize : UInt64
  sourceMtime : UInt64
  capabilityRequired : UInt64
  capabilityOptional : UInt64
  sectionCount : UInt32
  sectionTableOffset : UInt64
  payloadStartOffset : UInt64
  deriving DecidableEq

/-- Where the file has the fields of the header. -/
structure AufHeader.Reads (h : AufHeader) (bytes : List UInt8) : Prop where
  magic : h.magic.1 = slice bytes 0 8
  formatMajor : h.formatMajor = ofLe16 (slice bytes 8 2)
  formatMinor : h.formatMinor = ofLe16 (slice bytes 10 2)
  formatPatch : h.formatPatch = ofLe16 (slice bytes 12 2)
  createdBy : h.createdBy.1 = slice bytes 16 32
  sourceHash : h.sourceHash.1 = slice bytes 48 32
  sourceSize : h.sourceSize = ofLe64 (slice bytes 80 8)
  sourceMtime : h.sourceMtime = ofLe64 (slice bytes 88 8)
  capabilityRequired : h.capabilityRequired = ofLe64 (slice bytes 96 8)
  capabilityOptional : h.capabilityOptional = ofLe64 (slice bytes 104 8)
  sectionCount : h.sectionCount = ofLe32 (slice bytes 112 4)
  sectionTableOffset : h.sectionTableOffset = ofLe64 (slice bytes 120 8)
  payloadStartOffset : h.payloadStartOffset = ofLe64 (slice bytes 128 8)

/-- `AufHeader::from_bytes`. -/
def AufHeader.fromBytes (bytes : List UInt8) : AufResult AufHeader := do
  ensure (HEADER_SIZE ≤ bytes.length) .fileTooSmall
  let b ← index bytes 0 HEADER_SIZE
  let magic ← array b 0 8
  let formatMajor ← u16At b 8
  let formatMinor ← u16At b 10
  let formatPatch ← u16At b 12
  let createdBy ← array b 16 32
  let sourceHash ← array b 48 32
  let sourceSize ← u64At b 80
  let sourceMtime ← u64At b 88
  let capabilityRequired ← u64At b 96
  let capabilityOptional ← u64At b 104
  let sectionCount ← u32At b 112
  let sectionTableOffset ← u64At b 120
  let payloadStartOffset ← u64At b 128
  return { magic, formatMajor, formatMinor, formatPatch, createdBy, sourceHash,
           sourceSize, sourceMtime, capabilityRequired, capabilityOptional, sectionCount,
           sectionTableOffset, payloadStartOffset }

/-- The fields of the header in the order of the file, with its paddings. -/
def AufHeader.parts (h : AufHeader) : List (List UInt8) :=
  [h.magic.1, le16 h.formatMajor, le16 h.formatMinor, le16 h.formatPatch, [0, 0],
    h.createdBy.1, h.sourceHash.1,
   le64 h.sourceSize, le64 h.sourceMtime, le64 h.capabilityRequired, le64 h.capabilityOptional,
   le32 h.sectionCount, [0, 0, 0, 0], le64 h.sectionTableOffset, le64 h.payloadStartOffset,
   List.replicate 120 0]

/-- `AufHeader::to_bytes`. -/
def AufHeader.toBytes (h : AufHeader) : List UInt8 := h.parts.flatten

/-- `u64::trailing_zeros`. -/
def trailingZeros (x : UInt64) : ℕ := ((List.range 64).find? fun i => x.toNat.testBit i).getD 64

/-- `AufHeader::validate`. -/
def AufHeader.validate (h : AufHeader) : AufResult Unit := do
  ensure (h.magic = AUF_MAGIC) .magicMismatch
  ensure (h.formatMajor ≤ READER_MAX_FORMAT_MAJOR)
    (.unsupportedFormatMajor h.formatMajor READER_MAX_FORMAT_MAJOR)
  ensure (h.capabilityRequired &&& ~~~READER_KNOWN_CAPABILITIES = 0)
    (.unknownRequiredCapability
      (trailingZeros (h.capabilityRequired &&& ~~~READER_KNOWN_CAPABILITIES)))

def AufHeader.hasLmHeadQ40 (h : AufHeader) : Bool :=
  h.capabilityOptional &&& CAPABILITY_BIT_LM_HEAD_Q4_0 != 0

def AufHeader.hasMultiDtype (h : AufHeader) : Bool :=
  h.capabilityOptional &&& CAPABILITY_BIT_MULTI_DTYPE != 0

/-- `set_lm_head_q4_0_capability`: the capability bit and `format_patch`. -/
def AufHeader.setLmHeadQ40Capability (h : AufHeader) (enabled : Bool) : AufHeader :=
  if enabled then
    { h with capabilityOptional := h.capabilityOptional ||| CAPABILITY_BIT_LM_HEAD_Q4_0,
             formatPatch := 1 }
  else
    { h with capabilityOptional := h.capabilityOptional &&& ~~~CAPABILITY_BIT_LM_HEAD_Q4_0,
             formatPatch := 0 }

/-- `set_multi_dtype_capability`: the capability bit, and `format_minor` where it is set. -/
def AufHeader.setMultiDtypeCapability (h : AufHeader) (enabled : Bool) : AufHeader :=
  if enabled then
    { h with capabilityOptional := h.capabilityOptional ||| CAPABILITY_BIT_MULTI_DTYPE,
             formatMinor := 2 }
  else { h with capabilityOptional := h.capabilityOptional &&& ~~~CAPABILITY_BIT_MULTI_DTYPE }

/-- `AufHeader::new_v01`. -/
def AufHeader.newV01 (createdBy : String) (sourceHash : Raw 32) (sourceSize sourceMtime : UInt64)
    (sectionCount : UInt32) (sectionTableOffset payloadStartOffset : UInt64) : AufHeader where
  magic := AUF_MAGIC
  formatMajor := 0
  formatMinor := 1
  formatPatch := 0
  createdBy := padded 32 (asBytes createdBy)
  sourceHash := sourceHash
  sourceSize := sourceSize
  sourceMtime := sourceMtime
  capabilityRequired := 0
  capabilityOptional := 0
  sectionCount := sectionCount
  sectionTableOffset := sectionTableOffset
  payloadStartOffset := payloadStartOffset

theorem AufHeader.Reads.unique {h h' : AufHeader} {bytes : List UInt8} (hr : h.Reads bytes)
    (hr' : h'.Reads bytes) : h = h' := by
  obtain ⟨m, a₁, a₂, a₃, cb, sh, a₄, a₅, a₆, a₇, a₈, a₉, a₁₀⟩ := h
  obtain ⟨m', b₁, b₂, b₃, cb', sh', b₄, b₅, b₆, b₇, b₈, b₉, b₁₀⟩ := h'
  obtain ⟨hm, rfl, rfl, rfl, hc, hs, rfl, rfl, rfl, rfl, rfl, rfl, rfl⟩ := hr
  obtain ⟨hm', rfl, rfl, rfl, hc', hs', rfl, rfl, rfl, rfl, rfl, rfl, rfl⟩ := hr'
  obtain rfl : m = m' := Subtype.ext (hm.trans hm'.symm)
  obtain rfl : cb = cb' := Subtype.ext (hc.trans hc'.symm)
  obtain rfl : sh = sh' := Subtype.ext (hs.trans hs'.symm)
  rfl

theorem exists_headerFromBytes {bytes : List UInt8} (hlen : HEADER_SIZE ≤ bytes.length) :
    ∃ h, AufHeader.fromBytes bytes = .ok h ∧ h.Reads bytes := by
  have hb : (slice bytes 0 HEADER_SIZE).length = 256 := length_slice (by simpa using hlen)
  have hslice (n k : ℕ) (hk : n + k ≤ 256) :
    slice (slice bytes 0 HEADER_SIZE) n k = slice bytes n k := by
    rw [slice_slice _ _ (show n + k ≤ HEADER_SIZE from hk), Nat.zero_add]
  unfold AufHeader.fromBytes
  rw [bind_of_ok (ensure_of hlen), bind_of_ok (ok_index.mpr ⟨⟨Nat.zero_le _, hlen⟩, rfl⟩),
    Nat.sub_zero]
  simp (disch := omega) only [array_of_le, readAt_of_le, ok_seq]
  refine ⟨_, rfl, ?_⟩
  constructor <;> simp (disch := omega) only [hslice]

theorem ok_headerFromBytes {bytes : List UInt8} {h : AufHeader} :
    AufHeader.fromBytes bytes = .ok h ↔ HEADER_SIZE ≤ bytes.length ∧ h.Reads bytes := by
  constructor
  · intro hok
    have hlen : HEADER_SIZE ≤ bytes.length := by
      obtain ⟨u, hu, -⟩ := ok_bind.mp hok
      exact ok_ensure.mp hu
    obtain ⟨h', hok', hr⟩ := exists_headerFromBytes hlen
    obtain rfl : h = h' := Except.ok.inj (hok.symm.trans hok')
    exact ⟨hlen, hr⟩
  · rintro ⟨hlen, hr⟩
    obtain ⟨h', hok', hr'⟩ := exists_headerFromBytes hlen
    rw [hok', hr.unique hr']

theorem noPanic_headerFromBytes (bytes : List UInt8) : NoPanic (AufHeader.fromBytes bytes) := by
  by_cases hlen : HEADER_SIZE ≤ bytes.length
  · obtain ⟨h, hok, -⟩ := exists_headerFromBytes hlen
    rw [hok]
    exact noPanic_ok h
  · rw [AufHeader.fromBytes, ensure, if_neg hlen]
    exact noPanic_err _

@[simp] theorem length_headerToBytes (h : AufHeader) : h.toBytes.length = HEADER_SIZE := by
  simp [AufHeader.toBytes, AufHeader.parts, HEADER_SIZE]

/-- **The header is read back from its bytes.** -/
theorem reads_headerToBytes (h : AufHeader) (rest : List UInt8) : h.Reads (h.toBytes ++ rest) := by
  have hparts : h.toBytes ++ rest = (h.parts ++ [rest]).flatten := by simp [AufHeader.toBytes]
  rw [hparts]
  constructor
  · exact (slice_flatten (i := 0) rfl rfl (by simp)).symm
  · rw [slice_flatten (i := 1) rfl (by simp [AufHeader.parts]) (length_le16 _), ofLe16_le16]
  · rw [slice_flatten (i := 2) rfl (by simp [AufHeader.parts]) (length_le16 _), ofLe16_le16]
  · rw [slice_flatten (i := 3) rfl (by simp [AufHeader.parts]) (length_le16 _), ofLe16_le16]
  · exact (slice_flatten (i := 5) rfl (by simp [AufHeader.parts]) (length_raw _)).symm
  · exact (slice_flatten (i := 6) rfl (by simp [AufHeader.parts]) (length_raw _)).symm
  · rw [slice_flatten (i := 7) rfl (by simp [AufHeader.parts]) (length_le64 _), ofLe64_le64]
  · rw [slice_flatten (i := 8) rfl (by simp [AufHeader.parts]) (length_le64 _), ofLe64_le64]
  · rw [slice_flatten (i := 9) rfl (by simp [AufHeader.parts]) (length_le64 _), ofLe64_le64]
  · rw [slice_flatten (i := 10) rfl (by simp [AufHeader.parts]) (length_le64 _), ofLe64_le64]
  · rw [slice_flatten (i := 11) rfl (by simp [AufHeader.parts]) (length_le32 _), ofLe32_le32]
  · rw [slice_flatten (i := 13) rfl (by simp [AufHeader.parts]) (length_le64 _), ofLe64_le64]
  · rw [slice_flatten (i := 14) rfl (by simp [AufHeader.parts]) (length_le64 _), ofLe64_le64]

/-! ## The section table -/

def SECTION_ENTRY_SIZE : ℕ := 48
def SECTION_TAG_SIZE : ℕ := 24
def SECTION_REQUIRED : UInt32 := 1
def SECTION_STRIPPABLE : UInt32 := 2
def SECTION_COMPRESSED : UInt32 := 4

def TAG_META : String := "META"
def TAG_TOKENIZER : String := "TOKENIZER"
def TAG_TENSOR_INDEX : String := "TENSOR_INDEX"
def TAG_WEIGHTS_ADRENO_SOA : String := "WEIGHTS_ADRENO_SOA"
def TAG_WEIGHTS_CUDA_AOS : String := "WEIGHTS_CUDA_AOS"
def TAG_WEIGHTS_CPU_AOS : String := "WEIGHTS_CPU_AOS"

structure SectionEntry where
  tagRaw : Raw 24
  offset : UInt64
  size : UInt64
  flags : UInt32
  version : UInt32
  deriving DecidableEq

/-- The text before the first NUL of a field. -/
def nulText {n : ℕ} (raw : Raw n) : Option String := fromUtf8 (raw.1.takeWhile (· ≠ 0))

namespace SectionEntry

/-- `SectionEntry::from_bytes`. -/
def fromBytes (b : List UInt8) : AufResult SectionEntry := do
  ensure (SECTION_ENTRY_SIZE ≤ b.length) .sectionTableTruncated
  let tagRaw ← array b 0 24
  let offset ← u64At b 24
  let size ← u64At b 32
  let flags ← u32At b 40
  let version ← u32At b 44
  return { tagRaw, offset, size, flags, version }

def parts (e : SectionEntry) : List (List UInt8) :=
  [e.tagRaw.1, le64 e.offset, le64 e.size, le32 e.flags, le32 e.version]

/-- `SectionEntry::to_bytes`. -/
def toBytes (e : SectionEntry) : List UInt8 := e.parts.flatten

/-- `SectionEntry::tag`. -/
def tag (e : SectionEntry) : String := (nulText e.tagRaw).getD ""

def isRequired (e : SectionEntry) : Bool := e.flags &&& SECTION_REQUIRED != 0
def isStrippable (e : SectionEntry) : Bool := e.flags &&& SECTION_STRIPPABLE != 0
def isCompressed (e : SectionEntry) : Bool := e.flags &&& SECTION_COMPRESSED != 0

/-- `SectionEntry::new`. -/
def new (tag : String) (offset size : UInt64) (flags version : UInt32) :
    AufResult SectionEntry := do
  ensure ((asBytes tag).length ≤ SECTION_TAG_SIZE)
    (.other s!"Section tag too long (max {SECTION_TAG_SIZE}B): {tag}")
  return { tagRaw := padded 24 (asBytes tag), offset, size, flags, version }

/-- Behind the last byte of the payload. -/
def stop (e : SectionEntry) : ℕ := e.offset.toNat + e.size.toNat

end SectionEntry

structure SectionTable where
  entries : List SectionEntry
  deriving DecidableEq

namespace SectionTable

/-- `SectionTable::from_bytes`. A `u32` count of 48-byte entries fits a `usize`. -/
def fromBytes (bytes : List UInt8) (count : UInt32) : AufResult SectionTable := do
  ensure (count.toNat * SECTION_ENTRY_SIZE ≤ bytes.length) .sectionTableTruncated
  let entries ← (List.range count.toNat).mapM fun i => do
    SectionEntry.fromBytes (← index bytes (i * SECTION_ENTRY_SIZE)
      (i * SECTION_ENTRY_SIZE + SECTION_ENTRY_SIZE))
  return { entries }

/-- `SectionTable::to_bytes`. -/
def toBytes (t : SectionTable) : List UInt8 := t.entries.flatMap SectionEntry.toBytes

/-- `SectionTable::find`. -/
def find (t : SectionTable) (tag : String) : Option SectionEntry :=
  t.entries.find? fun e => e.tag == tag

/-- `validate_flags`. -/
def validateFlags (t : SectionTable) : AufResult Unit :=
  t.entries.forM fun e => ensure (¬ (e.isRequired ∧ e.isStrippable)) (.contradictoryFlags e.tag)

/-- `validate_no_compressed`. -/
def validateNoCompressed (t : SectionTable) : AufResult Unit :=
  t.entries.forM fun e => ensure (¬ e.isCompressed) (.compressedSectionUnsupported e.tag)

/-- The loop of `validate_unique_tags`, with the tags seen so far. -/
def uniqueTags (seen : List String) : List SectionEntry → AufResult Unit
  | [] => .ok ()
  | e :: entries => do
    ensure (e.tag ∉ seen) (.duplicateSectionTag e.tag)
    uniqueTags (e.tag :: seen) entries

/-- `validate_unique_tags`. -/
def validateUniqueTags (t : SectionTable) : AufResult Unit := uniqueTags [] t.entries

/-- One entry in the first loop of `validate_ranges`. -/
def checkRange (payloadStartOffset : UInt64) (fileSize : ℕ) (e : SectionEntry) :
    AufResult Unit := do
  ensure (payloadStartOffset ≤ e.offset)
    (.sectionRangeInvalid e.tag s!"offset={e.offset} < payload_start_offset={payloadStartOffset}")
  -- `checked_add`
  ensure (e.stop < 2 ^ 64) (.sectionRangeInvalid e.tag "offset+size overflow")
  ensure (e.stop ≤ fileSize)
    (.sectionRangeInvalid e.tag s!"offset+size={e.stop} > file_size={fileSize}")

/-- The pairs of `validate_ranges`. -/
def checkOverlap : List SectionEntry → AufResult Unit
  | [] => .ok ()
  | a :: entries => do
    entries.forM fun b => do
      let aEnd ← add a.offset.toNat a.size.toNat
      let bEnd ← add b.offset.toNat b.size.toNat
      ensure (¬ (a.offset.toNat < bEnd ∧ b.offset.toNat < aEnd)) (.sectionOverlap a.tag b.tag)
    checkOverlap entries

/-- `validate_ranges`. -/
def validateRanges (t : SectionTable) (payloadStartOffset : UInt64) (fileSize : ℕ) :
    AufResult Unit := do
  t.entries.forM (checkRange payloadStartOffset fileSize)
  checkOverlap t.entries

end SectionTable

/-! ## Reading the table back -/

/-- The entry in 48 bytes. -/
def SectionEntry.ofBytes (b : List UInt8) : SectionEntry where
  tagRaw := padded 24 (slice b 0 24)
  offset := ofLe64 (slice b 24 8)
  size := ofLe64 (slice b 32 8)
  flags := ofLe32 (slice b 40 4)
  version := ofLe32 (slice b 44 4)

theorem entryFromBytes_of_le {b : List UInt8} (h : SECTION_ENTRY_SIZE ≤ b.length) :
    SectionEntry.fromBytes b = .ok (.ofBytes b) := by
  have hb : 48 ≤ b.length := h
  unfold SectionEntry.fromBytes
  rw [bind_of_ok (ensure_of h)]
  simp (disch := omega) only [array_of_le, readAt_of_le, ok_seq]
  rw [SectionEntry.ofBytes, padded_of_length (length_slice (by omega))]
  rfl

@[simp] theorem length_entryToBytes (e : SectionEntry) : e.toBytes.length = SECTION_ENTRY_SIZE := by
  simp [SectionEntry.toBytes, SectionEntry.parts, SECTION_ENTRY_SIZE]

theorem ofBytes_entryToBytes (e : SectionEntry) : SectionEntry.ofBytes e.toBytes = e := by
  have htag : slice e.toBytes 0 24 = e.tagRaw.1 := slice_flatten (i := 0) rfl rfl (by simp)
  have hoffset : slice e.toBytes 24 8 = le64 e.offset :=
    slice_flatten (i := 1) rfl (by simp [SectionEntry.parts]) (length_le64 _)
  have hsize : slice e.toBytes 32 8 = le64 e.size :=
    slice_flatten (i := 2) rfl (by simp [SectionEntry.parts]) (length_le64 _)
  have hflags : slice e.toBytes 40 4 = le32 e.flags :=
    slice_flatten (i := 3) rfl (by simp [SectionEntry.parts]) (length_le32 _)
  have hversion : slice e.toBytes 44 4 = le32 e.version :=
    slice_flatten (i := 4) rfl (by simp [SectionEntry.parts]) (length_le32 _)
  rw [SectionEntry.ofBytes, htag, hoffset, hsize, hflags, hversion, padded_of_length (length_raw _)]
  simp

/-- The table in the bytes. -/
def SectionTable.ofBytes (bytes : List UInt8) (count : ℕ) : SectionTable :=
  ⟨(List.range count).map fun i =>
    .ofBytes (slice bytes (i * SECTION_ENTRY_SIZE) SECTION_ENTRY_SIZE)⟩

theorem tableFromBytes_of_le {bytes : List UInt8} {count : UInt32}
    (h : count.toNat * SECTION_ENTRY_SIZE ≤ bytes.length) :
    SectionTable.fromBytes bytes count = .ok (.ofBytes bytes count.toNat) := by
  unfold SectionTable.fromBytes
  rw [bind_of_ok (ensure_of h)]
  refine bind_of_ok (ok_mapM.mpr
    (List.forall₂_map_right_iff.mpr (List.forall₂_same.mpr fun i hi => ?_)))
  have hle : i * SECTION_ENTRY_SIZE + SECTION_ENTRY_SIZE ≤ bytes.length :=
    Nat.le_trans (row_bound (List.mem_range.mp hi)) h
  rw [bind_of_ok (ok_index.mpr ⟨⟨Nat.le_add_right _ _, hle⟩, rfl⟩), Nat.add_sub_cancel_left]
  exact entryFromBytes_of_le (Nat.le_of_eq (length_slice hle).symm)

theorem ok_tableFromBytes {bytes : List UInt8} {count : UInt32} {t : SectionTable} :
    SectionTable.fromBytes bytes count = .ok t ↔
      count.toNat * SECTION_ENTRY_SIZE ≤ bytes.length ∧ t = .ofBytes bytes count.toNat := by
  constructor
  · intro hok
    have hle : count.toNat * SECTION_ENTRY_SIZE ≤ bytes.length := by
      obtain ⟨u, hu, -⟩ := ok_bind.mp hok
      exact ok_ensure.mp hu
    exact ⟨hle, Except.ok.inj (hok.symm.trans (tableFromBytes_of_le hle))⟩
  · rintro ⟨hle, rfl⟩
    exact tableFromBytes_of_le hle

theorem noPanic_tableFromBytes (bytes : List UInt8) (count : UInt32) :
    NoPanic (SectionTable.fromBytes bytes count) := by
  by_cases hle : count.toNat * SECTION_ENTRY_SIZE ≤ bytes.length
  · rw [tableFromBytes_of_le hle]
    exact noPanic_ok _
  · rw [SectionTable.fromBytes, ensure, if_neg hle]
    exact noPanic_err _

theorem length_tableToBytes (t : SectionTable) :
    t.toBytes.length = t.entries.length * SECTION_ENTRY_SIZE :=
  length_blocks length_entryToBytes t.entries

/-- **The table is read back from its bytes.** -/
theorem ofBytes_tableToBytes (t : SectionTable) (rest : List UInt8) :
    SectionTable.ofBytes (t.toBytes ++ rest) t.entries.length = t := by
  obtain ⟨entries⟩ := t
  refine congrArg SectionTable.mk (List.ext_getElem? fun i => ?_)
  rw [List.getElem?_map]
  by_cases hi : i < entries.length
  · have hslice := slice_blocks length_entryToBytes hi [] rest
    rw [List.nil_append, List.length_nil, Nat.zero_add] at hslice
    rw [List.getElem?_range hi, Option.map_some, SectionTable.toBytes, hslice, ofBytes_entryToBytes,
      List.getElem?_eq_getElem hi]
  · rw [List.getElem?_eq_none (by simpa using hi), List.getElem?_eq_none (by simpa using hi)]
    rfl

/-! ## Tags -/

theorem nulText_padded {n : ℕ} {text : String} (hlen : (asBytes text).length ≤ n)
    (hnul : 0 ∉ asBytes text) : nulText (padded n (asBytes text)) = some text := by
  have htake : (padded n (asBytes text)).1.takeWhile (· ≠ 0) = asBytes text := by
    rw [show (padded n (asBytes text)).1 = (asBytes text ++ List.replicate n 0).take n from rfl,
      List.take_append, List.take_of_length_le hlen, List.take_replicate,
      List.takeWhile_append_of_pos]
    · rw [List.takeWhile_replicate]
      simp
    · intro b hb
      simp only [ne_eq, decide_not, Bool.not_eq_eq_eq_not, Bool.not_true, decide_eq_false_iff_not]
      rintro rfl
      exact hnul hb
  rw [nulText, htake, fromUtf8_asBytes]

theorem asBytes_nulText {n : ℕ} (raw : Raw n) :
    (asBytes ((nulText raw).getD "")).length ≤ n ∧ 0 ∉ asBytes ((nulText raw).getD "") := by
  cases htext : nulText raw with
  | none => exact ⟨Nat.zero_le _, List.not_mem_nil⟩
  | some s =>
    rw [nulText, fromUtf8_eq_some] at htext
    rw [Option.getD_some, htext]
    refine ⟨Nat.le_trans (List.takeWhile_sublist _).length_le (Nat.le_of_eq raw.2), fun hmem => ?_⟩
    simpa using List.mem_takeWhile_imp hmem

theorem nulText_padded_nulText {n : ℕ} (raw : Raw n) :
    nulText (padded n (asBytes ((nulText raw).getD ""))) = some ((nulText raw).getD "") :=
  nulText_padded (asBytes_nulText raw).1 (asBytes_nulText raw).2

theorem ok_entryNew {tag : String} {offset size : UInt64} {flags version : UInt32}
    {e : SectionEntry} : SectionEntry.new tag offset size flags version = .ok e ↔
    (asBytes tag).length ≤ SECTION_TAG_SIZE ∧
      e = { tagRaw := padded 24 (asBytes tag), offset, size, flags, version } := by
  simp only [SectionEntry.new, ok_bind, ok_ensure, exists_and_left, pure,
    Except.pure, Except.ok.injEq]
  simp only [exists_const, eq_comm]

/-! ## Accepted tables -/

variable {entries : List SectionEntry}

theorem ok_uniqueTags {seen : List String} {u : Unit} :
    SectionTable.uniqueTags seen entries = .ok u ↔ (entries.map SectionEntry.tag).Nodup ∧
    ∀ e ∈ entries, e.tag ∉ seen := by
  induction entries generalizing seen with
  | nil => simp [SectionTable.uniqueTags]
  | cons e entries ih =>
    simp only [SectionTable.uniqueTags, ok_bind, ok_ensure, exists_and_left, exists_const,
      ih, List.map_cons, List.nodup_cons, List.mem_map, List.mem_cons, not_or]
    constructor
    · rintro ⟨he, hnodup, hseen⟩
      refine ⟨⟨?_, hnodup⟩, ?_⟩
      · rintro ⟨x, hx, htag⟩
        exact (hseen x hx).1 htag
      · rintro x (rfl | hx)
        · exact he
        · exact (hseen x hx).2
    · rintro ⟨⟨hnot, hnodup⟩, hseen⟩
      exact ⟨hseen e (.inl rfl), hnodup, fun x hx =>
        ⟨fun htag => hnot ⟨x, hx, htag⟩, hseen x (.inr hx)⟩⟩

theorem ok_validateUniqueTags {t : SectionTable} {u : Unit} :
    t.validateUniqueTags = .ok u ↔ (t.entries.map SectionEntry.tag).Nodup := by
  simp [SectionTable.validateUniqueTags, ok_uniqueTags]

theorem noPanic_uniqueTags (seen : List String) :
    NoPanic (SectionTable.uniqueTags seen entries) := by
  induction entries generalizing seen with
  | nil => exact noPanic_ok _
  | cons e entries ih => exact noPanic_bind.mpr ⟨noPanic_ensure, fun _ _ => ih _⟩

/-- The ranges of two sections do not overlap. -/
def SectionEntry.Apart (a b : SectionEntry) : Prop :=
  ¬ (a.offset.toNat < b.stop ∧ b.offset.toNat < a.stop)

theorem ok_checkRange {start : UInt64} {fileSize : ℕ} {e : SectionEntry} {u : Unit} :
    SectionTable.checkRange start fileSize e = .ok u ↔ start ≤ e.offset ∧ e.stop < 2 ^ 64 ∧
    e.stop ≤ fileSize := by
  simp [SectionTable.checkRange, ok_bind]

theorem ok_checkOverlap {u : Unit} (hstop : ∀ e ∈ entries, e.stop < 2 ^ 64) :
    SectionTable.checkOverlap entries = .ok u ↔ entries.Pairwise SectionEntry.Apart := by
  induction entries with
  | nil => simp [SectionTable.checkOverlap]
  | cons a entries ih =>
    have ha := hstop a List.mem_cons_self
    have hrest := fun e he => hstop e (List.mem_cons_of_mem _ he)
    unfold SectionTable.checkOverlap
    simp only [ok_bind, ok_forM, ok_add, ok_ensure, exists_and_left, List.pairwise_cons,
      exists_const, ih hrest]
    refine and_congr_left fun _ => forall₂_congr fun b hb => ?_
    constructor
    · rintro ⟨x, ⟨-, rfl⟩, y, ⟨-, rfl⟩, h⟩
      exact h
    · intro h
      exact ⟨_, ⟨ha, rfl⟩, _, ⟨hrest b hb, rfl⟩, h⟩

/-- **Accepted ranges** lie in the payload area, and no two of them overlap. -/
theorem ok_validateRanges {t : SectionTable} {start : UInt64} {fileSize : ℕ} {u : Unit} :
    t.validateRanges start fileSize = .ok u ↔
      (∀ e ∈ t.entries, start ≤ e.offset ∧ e.stop < 2 ^ 64 ∧ e.stop ≤ fileSize) ∧
        t.entries.Pairwise SectionEntry.Apart := by
  simp only [SectionTable.validateRanges, ok_bind, ok_forM, ok_checkRange,
    exists_and_left, exists_const]
  exact and_congr_right fun h => ok_checkOverlap fun e he => (h e he).2.1

theorem noPanic_checkOverlap (hstop : ∀ e ∈ entries, e.stop < 2 ^ 64) :
    NoPanic (SectionTable.checkOverlap entries) := by
  induction entries with
  | nil => exact noPanic_ok _
  | cons a entries ih =>
    have ha := hstop a List.mem_cons_self
    have hrest := fun e he => hstop e (List.mem_cons_of_mem _ he)
    refine noPanic_bind.mpr ⟨noPanic_forM fun b hb => ?_, fun _ _ => ih hrest⟩
    simp only [noPanic_bind, noPanic_add, noPanic_ensure, implies_true, and_true]
    exact ⟨ha, fun _ _ => hrest b hb⟩

theorem noPanic_validateRanges (t : SectionTable) (start : UInt64) (fileSize : ℕ) :
    NoPanic (t.validateRanges start fileSize) := by
  refine noPanic_bind.mpr ⟨noPanic_forM fun e _ => ?_, fun _ hranges =>
    noPanic_checkOverlap fun e he => ?_⟩
  · simp [SectionTable.checkRange]
  · exact (ok_checkRange.mp (ok_forM.mp hranges e he)).2.1

end ArgusEngine.Auf
