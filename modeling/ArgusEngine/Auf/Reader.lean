import Mathlib.Data.List.Nodup
import ArgusEngine.Auf.TensorIndex
import ArgusEngine.Auf.Tokenizer

/-!
# Opening an AUF file

`openFromMmap` checks the header and the section table, finds the required sections and the WEIGHTS
section of the backend, and parses META, TOKENIZER and TENSOR_INDEX. The JSON codec of META is a
parameter, `MetaJson`.

* `AufView.weightsBytes`, `AufView.lookupTensor`, `AufView.lmHeadQ40Payload`: what a view gives out;
* **`Opened`**, `ok_openSections`: what the checks establish;
* `ok_openFromMmap`: when a file is accepted.
-/

namespace ArgusEngine.Auf

open FlatMem Checked

/-- `AufMeta`; the floats are their bits. -/
structure AufMeta where
  architecture : String
  nLayers : UInt32
  nHeadsQ : UInt32
  nKvHeads : UInt32
  headDim : UInt32
  hiddenDim : UInt32
  ffnDim : UInt32
  vocabSize : UInt32
  maxSeqLen : UInt32
  ropeTheta : UInt64
  rotaryDim : UInt32
  ropeScaling : UInt64
  rmsNormEpsilon : UInt64
  defaultDtype : Option String
  deriving DecidableEq

/-- `serde_json` on `AufMeta`. -/
structure MetaJson where
  fromSlice : List UInt8 → Except String AufMeta
  toVec : AufMeta → Except String (List UInt8)

/-- `AufMeta::from_json_bytes`. -/
def MetaJson.fromJsonBytes (json : MetaJson) (bytes : List UInt8) : AufResult AufMeta :=
  match json.fromSlice bytes with
  | .ok m => .ok m
  | .error e => .error (.err (.other s!"META JSON parse: {e}"))

/-- `AufMeta::to_json_bytes`. -/
def MetaJson.toJsonBytes (json : MetaJson) (m : AufMeta) : AufResult (List UInt8) :=
  match json.toVec m with
  | .ok b => .ok b
  | .error e => .error (.err (.other s!"META JSON serialize: {e}"))

inductive BackendTag where
  | adrenoSoa | cudaAos | cpuAos | any
  deriving Repr, DecidableEq

def BackendTag.weightsSectionTag : BackendTag → Option String
  | adrenoSoa => some TAG_WEIGHTS_ADRENO_SOA
  | cudaAos => some TAG_WEIGHTS_CUDA_AOS
  | cpuAos => some TAG_WEIGHTS_CPU_AOS
  | any => none

/-! ## Opening -/

/-- What the checks on the sections find. -/
structure Sections where
  header : AufHeader
  sectionTable : SectionTable
  metaEntry : SectionEntry
  tokEntry : SectionEntry
  tidxEntry : SectionEntry
  weightsRange : Option (UInt64 × UInt64)
  deriving DecidableEq

/-- The WEIGHTS section of the backend. -/
def findWeights (t : SectionTable) (backend : BackendTag) : AufResult (Option (UInt64 × UInt64)) :=
  match backend.weightsSectionTag with
  | some weightsTag => do
    let e ← okOr (.weightsSectionMissing weightsTag) (t.find weightsTag)
    return some (e.offset, e.size)
  | none => .ok none

/-- Steps (1) to (5) of `open_from_mmap`. -/
def openSections (bytes : List UInt8) (backend : BackendTag) : AufResult Sections := do
  let header ← AufHeader.fromBytes bytes
  header.validate
  -- `checked_add`
  let sectionTableEnd := header.sectionTableOffset.toNat + header.sectionCount.toNat * 48
  ensure (sectionTableEnd < 2 ^ 64) (.other "section_table_offset overflow")
  ensure (sectionTableEnd ≤ bytes.length) .sectionTableTruncated
  let sectionTable ← SectionTable.fromBytes (← indexFrom bytes header.sectionTableOffset.toNat)
    header.sectionCount
  sectionTable.validateUniqueTags
  sectionTable.validateFlags
  sectionTable.validateNoCompressed
  sectionTable.validateRanges header.payloadStartOffset bytes.length
  let metaEntry ← okOr (.requiredSectionMissing TAG_META) (sectionTable.find TAG_META)
  let tokEntry ← okOr (.requiredSectionMissing TAG_TOKENIZER) (sectionTable.find TAG_TOKENIZER)
  let tidxEntry ← okOr (.requiredSectionMissing TAG_TENSOR_INDEX)
    (sectionTable.find TAG_TENSOR_INDEX)
  let weightsRange ← findWeights sectionTable backend
  return { header, sectionTable, metaEntry, tokEntry, tidxEntry, weightsRange }

/-- `&bytes[offset..][..size]`. -/
def sectionBytes (bytes : List UInt8) (offset size : UInt64) : AufResult (List UInt8) := do
  index (← indexFrom bytes offset.toNat) 0 size.toNat

structure AufView where
  mmap : List UInt8
  header : AufHeader
  sectionTable : SectionTable
  aufMeta : AufMeta
  tokenizer : AufTokenizer
  tensorIndex : TensorIndex
  weightsRange : Option (UInt64 × UInt64)
  deriving DecidableEq

/-- `open_from_mmap`. -/
def openFromMmap (json : MetaJson) (bytes : List UInt8) (backend : BackendTag) :
    AufResult AufView := do
  let s ← openSections bytes backend
  let aufMeta ← json.fromJsonBytes (← sectionBytes bytes s.metaEntry.offset s.metaEntry.size)
  let tokenizer ← AufTokenizer.fromBytes (← sectionBytes bytes s.tokEntry.offset s.tokEntry.size)
  let tensorIndex ← TensorIndex.fromBytes (← sectionBytes bytes s.tidxEntry.offset s.tidxEntry.size)
  return { mmap := bytes, header := s.header, sectionTable := s.sectionTable, aufMeta,
           tokenizer, tensorIndex,
           weightsRange := s.weightsRange }

/-! ## A view -/

/-- `dtype_str_to_tensor_dtype`. -/
def dtypeStrToTensorDtype (s : String) : Option TensorDType :=
  if s = "F32" then some .f32
  else if s = "F16" then some .f16
  else if s = "BF16" then some .bf16
  else if s = "Q4_0" then some .q4_0
  else if s = "Q4_1" then some .q4_1
  else if s = "Q8_0" then some .q8_0
  else if s = "U8" then some .u8
  else none

/-- `LmHeadPayload`. -/
structure LmHeadPayload where
  bytes : List UInt8
  shape : UInt64 × UInt64
  dtype : TensorDType
  alignment : ℕ
  variantTag : String
  deriving DecidableEq

/-- `WEIGHTS_ALIGNMENT`. -/
def WEIGHTS_ALIGNMENT : ℕ := 65536

namespace AufView

/-- `weights_bytes`. -/
def weightsBytes (v : AufView) : AufResult (Option (List UInt8)) :=
  match v.weightsRange with
  | some (offset, size) => do return some (← sectionBytes v.mmap offset size)
  | none => .ok none

/-- `resolve_variant_tag`: the tag of the first section at the offset. -/
def resolveVariantTag (v : AufView) (weightsOffset : UInt64) : AufResult String :=
  match v.sectionTable.entries.find? fun e => e.offset == weightsOffset with
  | some e =>
    if e.tag = TAG_WEIGHTS_ADRENO_SOA ∨ e.tag = TAG_WEIGHTS_CUDA_AOS ∨
      e.tag = TAG_WEIGHTS_CPU_AOS then .ok e.tag
    else .error (.err (.other s!"resolve_variant_tag: unknown WEIGHTS tag '{e.tag}'"))
  | none =>
    .error (.err (.other "resolve_variant_tag: no section entry matches weights_range offset"))

/-- `lm_head_q4_0_payload`. -/
def lmHeadQ40Payload (v : AufView) (vocabSize hiddenDim : UInt64) :
    AufResult (Option LmHeadPayload) :=
  if v.header.hasLmHeadQ40 then do
    let entry ← okOr .lmHeadEntryMissing v.tensorIndex.findLmHeadEntry
    ensure (entry.dtype = TensorDType.q4_0.asU32) (.lmHeadDtypeMismatch entry.dtype)
    ensure (entry.shape = [vocabSize, hiddenDim])
      (.lmHeadShapeMismatch (vocabSize.toNat, hiddenDim.toNat) entry.shape)
    let (weightsOffset, _) ← okOr
      (.other "lm_head_q4_0_payload: BackendTag::Any does not support lm_head accessor")
        v.weightsRange
    let variantTag ← v.resolveVariantTag weightsOffset
    let variantIdx ← okOr (.lmHeadVariantPayloadMissing variantTag)
      (v.tensorIndex.variantIndexForTag variantTag)
    let (varOffset, varSize) := entry.column variantIdx
    ensure (¬ (varOffset = .ofNat (2 ^ 64 - 1) ∨ varSize = 0))
      (.lmHeadVariantPayloadMissing variantTag)
    -- `weights_bytes` is there, as the range is
    let weights := (← v.weightsBytes).getD []
    let stop ← add varOffset.toNat varSize.toNat
    ensure (stop ≤ weights.length)
      (.other s!"lm_head payload [{varOffset}..{stop}) exceeds WEIGHTS section size {weights.length}")
    let bytes ← index weights varOffset.toNat stop
    return some { bytes, shape := (vocabSize, hiddenDim), dtype := .q4_0,
                  alignment := WEIGHTS_ALIGNMENT, variantTag }
  else .ok none

/-- `lookup_tensor`: the dtype asked for, else the default of META, else the first entry. -/
def lookupTensor (v : AufView) (layerIdx kind : UInt32) (requestedDtype : Option TensorDType) :
    AufResult TensorEntry :=
  match requestedDtype with
  | some dtype =>
    okOr (.dtypeNotAvailable layerIdx kind dtype.asU32)
      (v.tensorIndex.findEntryByDtype layerIdx kind dtype.asU32)
  | none =>
    match v.tensorIndex.entriesFor layerIdx kind with
    | [] => .error (.err (.dtypeNotAvailable layerIdx kind 0xffffffff))
    | first :: _ =>
      let preferred := do
        let dtype ← dtypeStrToTensorDtype (← v.aufMeta.defaultDtype)
        v.tensorIndex.findEntryByDtype layerIdx kind dtype.asU32
      .ok (preferred.getD first)

end AufView

/-! ## What is checked -/

section Checks

variable {bytes : List UInt8} {backend : BackendTag} {s : Sections}

/-- The header was checked. -/
structure AufHeader.Valid (h : AufHeader) : Prop where
  magic : h.magic = AUF_MAGIC
  major : h.formatMajor ≤ READER_MAX_FORMAT_MAJOR
  required : h.capabilityRequired &&& ~~~READER_KNOWN_CAPABILITIES = 0

theorem ok_validate {h : AufHeader} {u : Unit} : h.validate = .ok u ↔ h.Valid := by
  simp only [AufHeader.validate, ok_bind, ok_ensure, exists_and_left, exists_const]
  exact ⟨fun ⟨h₁, h₂, h₃⟩ => ⟨h₁, h₂, h₃⟩, fun h => ⟨h.1, h.2, h.3⟩⟩

theorem noPanic_validate (h : AufHeader) : NoPanic h.validate := by
  simp [AufHeader.validate]

/-- The table was checked against a file of `fileSize` bytes. -/
structure SectionTable.Valid (t : SectionTable) (start : UInt64) (fileSize : ℕ) : Prop where
  nodup : (t.entries.map SectionEntry.tag).Nodup
  flags : ∀ e ∈ t.entries, ¬ (e.isRequired ∧ e.isStrippable)
  range : ∀ e ∈ t.entries, start ≤ e.offset ∧ e.stop < 2 ^ 64 ∧ e.stop ≤ fileSize
  apart : t.entries.Pairwise SectionEntry.Apart

/-- The header and the table that the file has, checked. -/
structure Parsed (bytes : List UInt8) (h : AufHeader) (t : SectionTable) : Prop where
  length : HEADER_SIZE ≤ bytes.length
  reads : h.Reads bytes
  header : h.Valid
  tableFits : h.sectionTableOffset.toNat + h.sectionCount.toNat * 48 < 2 ^ 64
  tableEnd : h.sectionTableOffset.toNat + h.sectionCount.toNat * 48 ≤ bytes.length
  table : t = .ofBytes (bytes.drop h.sectionTableOffset.toNat) h.sectionCount.toNat
  valid : t.Valid h.payloadStartOffset bytes.length

/-- **What opening a file establishes of its sections.** -/
structure Opened (bytes : List UInt8) (backend : BackendTag) (s : Sections) : Prop where
  parsed : Parsed bytes s.header s.sectionTable
  compressed : ∀ e ∈ s.sectionTable.entries, ¬ e.isCompressed
  metaEntry : s.sectionTable.find TAG_META = some s.metaEntry
  tokEntry : s.sectionTable.find TAG_TOKENIZER = some s.tokEntry
  tidxEntry : s.sectionTable.find TAG_TENSOR_INDEX = some s.tidxEntry
  weights : findWeights s.sectionTable backend = .ok s.weightsRange

theorem Parsed.tableStart_le {h : AufHeader} {t : SectionTable} (hp : Parsed bytes h t) :
    h.sectionTableOffset.toNat ≤ bytes.length :=
  Nat.le_trans (Nat.le_add_right _ _) hp.tableEnd

theorem Parsed.tableCount_le {h : AufHeader} {t : SectionTable} (hp : Parsed bytes h t) :
    h.sectionCount.toNat * SECTION_ENTRY_SIZE ≤ (bytes.drop h.sectionTableOffset.toNat).length := by
  have hend := hp.tableEnd
  rw [List.length_drop]
  unfold SECTION_ENTRY_SIZE
  omega

theorem ok_openSections : openSections bytes backend = .ok s ↔ Opened bytes backend s := by
  simp only [openSections, ok_bind, ok_headerFromBytes, ok_validate, ok_ensure, ok_indexFrom,
    ok_tableFromBytes, ok_validateUniqueTags, SectionTable.validateFlags,
    SectionTable.validateNoCompressed, ok_forM, ok_validateRanges, ok_okOr]
  constructor
  · rintro ⟨h, ⟨hlen, hr⟩, -, hv, -, hfits, -, hend, _, ⟨-, rfl⟩, _, ⟨-, rfl⟩, -, hnodup, -,
      hflags, -, hcomp, -, ⟨hrange, hapart⟩, m, hm, t, ht, x, hx, w, hw, hs⟩
    cases hs
    exact ⟨⟨hlen, hr, hv, hfits, hend, rfl, ⟨hnodup, hflags, hrange, hapart⟩⟩,
      hcomp, hm, ht, hx, hw⟩
  · rintro ⟨hp, hcomp, hm, ht, hx, hw⟩
    exact ⟨_, ⟨hp.length, hp.reads⟩, (), hp.header, (), hp.tableFits, (), hp.tableEnd, _,
      ⟨hp.tableStart_le, rfl⟩, _, ⟨hp.tableCount_le, hp.table⟩, (), hp.valid.nodup, (),
      hp.valid.flags, (), hcomp, (), ⟨hp.valid.range, hp.valid.apart⟩, _, hm, _,
      ht, _, hx, _, hw, rfl⟩

theorem ok_sectionBytes {offset size : UInt64} {b : List UInt8} :
    sectionBytes bytes offset size = .ok b ↔ offset.toNat + size.toNat ≤ bytes.length ∧
    b = slice bytes offset.toNat size.toNat := by
  simp only [sectionBytes, ok_bind, ok_indexFrom, ok_index]
  constructor
  · rintro ⟨_, ⟨hoff, rfl⟩, ⟨-, hsize⟩, rfl⟩
    rw [List.length_drop] at hsize
    exact ⟨by omega, rfl⟩
  · rintro ⟨hle, rfl⟩
    refine ⟨_, ⟨by omega, rfl⟩, ⟨Nat.zero_le _, ?_⟩, rfl⟩
    rw [List.length_drop]
    omega

theorem noPanic_sectionBytes {offset size : UInt64} (h : offset.toNat + size.toNat ≤ bytes.length) :
    NoPanic (sectionBytes bytes offset size) := by
  rw [ok_sectionBytes.mpr ⟨h, rfl⟩]
  exact noPanic_ok _

theorem mem_of_find {t : SectionTable} {tag : String} {e : SectionEntry} (h : t.find tag = some e) :
    e ∈ t.entries ∧ e.tag = tag :=
  ⟨List.mem_of_find?_eq_some h, by simpa using List.find?_some h⟩

theorem find_eq_some {t : SectionTable} (hnodup : (t.entries.map SectionEntry.tag).Nodup)
    {tag : String} {e : SectionEntry} : t.find tag = some e ↔ e ∈ t.entries ∧ e.tag = tag := by
  refine ⟨mem_of_find, fun ⟨he, htag⟩ => ?_⟩
  have hsome : (t.find tag).isSome := List.find?_isSome.mpr ⟨e, he, beq_iff_eq.mpr htag⟩
  obtain ⟨e', hfind⟩ := Option.isSome_iff_exists.mp hsome
  obtain ⟨he', htag'⟩ := mem_of_find hfind
  obtain rfl : e' = e := List.inj_on_of_nodup_map hnodup he' he (htag'.trans htag.symm)
  exact hfind

theorem findWeights_of_find {table : SectionTable} {tag : String} {e : SectionEntry}
    (htag : backend.weightsSectionTag = some tag) (he : table.find tag = some e) :
    findWeights table backend = .ok (some (e.offset, e.size)) := by
  unfold findWeights
  rw [htag]
  simp only
  rw [bind_of_ok (ok_okOr.mpr he)]
  rfl

theorem Parsed.unique {h h' : AufHeader} {t t' : SectionTable} (hp : Parsed bytes h t)
    (hp' : Parsed bytes h' t') : h = h' ∧ t = t' := by
  obtain rfl := hp.reads.unique hp'.reads
  exact ⟨rfl, hp.table.trans hp'.table.symm⟩

theorem Opened.stop_le (ho : Opened bytes backend s) {tag : String} {e : SectionEntry}
    (he : s.sectionTable.find tag = some e) : e.offset.toNat + e.size.toNat ≤ bytes.length :=
  (ho.parsed.valid.range e (mem_of_find he).1).2.2

/-- The payload of an entry. -/
def SectionEntry.payload (e : SectionEntry) (bytes : List UInt8) : List UInt8 :=
  slice bytes e.offset.toNat e.size.toNat

/-- **When a file is accepted.** -/
theorem ok_openFromMmap {json : MetaJson} {v : AufView} : openFromMmap json bytes backend = .ok v ↔
    ∃ s, Opened bytes backend s ∧ json.fromJsonBytes (s.metaEntry.payload bytes) = .ok v.aufMeta ∧
      AufTokenizer.fromBytes (s.tokEntry.payload bytes) = .ok v.tokenizer ∧
      TensorIndex.fromBytes (s.tidxEntry.payload bytes) = .ok v.tensorIndex ∧
      v = ⟨bytes, s.header, s.sectionTable, v.aufMeta, v.tokenizer, v.tensorIndex,
      s.weightsRange⟩ := by
  simp only [openFromMmap, ok_bind, ok_openSections, ok_sectionBytes]
  constructor
  · rintro ⟨s, ho, _, ⟨-, rfl⟩, m, hm, _, ⟨-, rfl⟩, t, ht, _, ⟨-, rfl⟩, x, hx, hv⟩
    cases hv
    exact ⟨s, ho, hm, ht, hx, rfl⟩
  · rintro ⟨s, ho, hm, ht, hx, hv⟩
    exact ⟨s, ho, _, ⟨ho.stop_le ho.metaEntry, rfl⟩, _, hm, _,
      ⟨ho.stop_le ho.tokEntry, rfl⟩, _, ht, _, ⟨ho.stop_le ho.tidxEntry, rfl⟩, _, hx,
      congrArg Except.ok hv.symm⟩

theorem noPanic_findWeights (t : SectionTable) : NoPanic (findWeights t backend) := by
  unfold findWeights
  split
  · exact noPanic_bind.mpr ⟨noPanic_okOr, fun _ _ => noPanic_pure _⟩
  · exact noPanic_ok _

theorem noPanic_openSections : NoPanic (openSections bytes backend) := by
  simp only [openSections, noPanic_bind, noPanic_headerFromBytes, noPanic_validate, noPanic_ensure,
    noPanic_indexFrom, noPanic_tableFromBytes, SectionTable.validateUniqueTags, noPanic_uniqueTags,
    noPanic_validateRanges, noPanic_okOr, noPanic_pure, ok_ensure, true_and, implies_true, and_true]
  intro h _ _ _ _ _ _ hend
  refine ⟨by omega, fun _ _ _ _ _ _ =>
    ⟨noPanic_forM fun _ _ => noPanic_ensure, fun _ _ => ⟨?_, ?_⟩⟩⟩
  · exact noPanic_forM fun _ _ => noPanic_ensure
  · exact fun _ _ _ _ _ _ _ _ _ _ => noPanic_findWeights _

end Checks

end ArgusEngine.Auf
