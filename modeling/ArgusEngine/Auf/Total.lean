import Mathlib.Order.CompletePartialOrder
import ArgusEngine.Auf.Stripper

/-!
# The reader on arbitrary files

Which files make the reader or the stripper panic. Three sums of file fields are not checked before
they are used: the end of the section table in `strip_bytes`, the offsets that the tokenizer header
points to, and the end of the lm_head payload.

* `NoReachedOverflow`: none of the sums that are reached overflows;
* `Total`: no access panics, and the sections of an accepted file lie apart in its payload area;
* **`total_iff_noReachedOverflow`**: the two are the same.
-/

namespace ArgusEngine.Auf

open FlatMem Checked

/-- The lm_head entry in the column of the resolved variant ends below `2^64`. -/
def LmHeadEndFits (v : AufView) : Prop :=
  v.header.hasLmHeadQ40 → ∀ entry, v.tensorIndex.findLmHeadEntry = some entry →
    entry.dtype = TensorDType.q4_0.asU32 → entry.shape.length = 2 → ∀ offset size,
      v.weightsRange = some (offset, size) →
      ∀ tag, v.resolveVariantTag offset = .ok tag → ∀ i,
        v.tensorIndex.variantIndexForTag tag = some i →
        ¬ ((entry.column i).1 = .ofNat (2 ^ 64 - 1) ∨ (entry.column i).2 = 0) →
          (entry.column i).1.toNat + (entry.column i).2.toNat < 2 ^ 64

/-- No unchecked sum of file fields that the reader or the stripper reaches overflows. -/
structure NoReachedOverflow (json : MetaJson) (bytes : List UInt8) : Prop where
  table : ∀ h : AufHeader, HEADER_SIZE ≤ bytes.length → h.Reads bytes → h.Valid →
    h.sectionTableOffset.toNat + h.sectionCount.toNat * 48 < 2 ^ 64
  tokenizer : ∀ s m, Opened bytes .any s → json.fromJsonBytes (s.metaEntry.payload bytes) = .ok m →
    OffsetsFit (s.tokEntry.payload bytes)
  lmHead : ∀ backend v, openFromMmap json bytes backend = .ok v → LmHeadEndFits v

/-- No access to the file panics, and the sections of an accepted file lie apart in its payload
area. -/
structure Total (json : MetaJson) (bytes : List UInt8) : Prop where
  opening : ∀ backend, NoPanic (openFromMmap json bytes backend)
  strip : ∀ keepTags, NoPanic (stripBytes bytes keepTags)
  weights : ∀ backend v, openFromMmap json bytes backend = .ok v → NoPanic v.weightsBytes
  lmHead : ∀ backend v, openFromMmap json bytes backend = .ok v →
    ∀ vocabSize hiddenDim, NoPanic (v.lmHeadQ40Payload vocabSize hiddenDim)
  range : ∀ backend v, openFromMmap json bytes backend = .ok v → ∀ e ∈ v.sectionTable.entries,
    v.header.payloadStartOffset.toNat ≤ e.offset.toNat ∧ e.stop ≤ bytes.length
  disjoint : ∀ backend v, openFromMmap json bytes backend = .ok v →
    v.sectionTable.entries.Pairwise fun a b =>
    Disjoint (Set.Ico a.offset.toNat a.stop) (Set.Ico b.offset.toNat b.stop)

variable {json : MetaJson} {bytes : List UInt8} {backend : BackendTag} {s : Sections} {v : AufView}

theorem noPanic_fromJsonBytes (b : List UInt8) : NoPanic (json.fromJsonBytes b) := by
  unfold MetaJson.fromJsonBytes
  split <;> simp

theorem Opened.toAny (ho : Opened bytes backend s) :
    Opened bytes .any { s with weightsRange := none } :=
  ⟨ho.parsed, ho.compressed, ho.metaEntry, ho.tokEntry, ho.tidxEntry, rfl⟩

theorem length_payload_lt (hlen : bytes.length < 2 ^ 63) (e : SectionEntry) :
    (e.payload bytes).length < 2 ^ 63 := by
  rw [SectionEntry.payload, slice, List.length_take, List.length_drop]
  omega

/-- **Opening panics exactly where an offset of the tokenizer overflows.** -/
theorem noPanic_openFromMmap (hlen : bytes.length < 2 ^ 63) :
    NoPanic (openFromMmap json bytes backend) ↔ ∀ s m, Opened bytes backend s →
    json.fromJsonBytes (s.metaEntry.payload bytes) = .ok m →
      OffsetsFit (s.tokEntry.payload bytes) := by
  have hpayload {s : Sections} (ho : Opened bytes backend s) {tag : String} {e : SectionEntry}
      (he : s.sectionTable.find tag = some e) :
      sectionBytes bytes e.offset e.size = .ok (e.payload bytes) :=
    ok_sectionBytes.mpr ⟨ho.stop_le he, rfl⟩
  simp only [openFromMmap, noPanic_bind, noPanic_openSections, ok_openSections,
    noPanic_fromJsonBytes, noPanic_pure, true_and, implies_true, and_true]
  constructor
  · intro hno s m ho hm
    obtain ⟨-, hno⟩ := hno s ho
    obtain ⟨-, hno⟩ := hno _ (hpayload ho ho.metaEntry) m hm
    exact (noPanic_tokenizerFromBytes (length_payload_lt hlen _)).mp
      (hno _ (hpayload ho ho.tokEntry)).1
  · intro hfits s ho
    rw [hpayload ho ho.metaEntry, hpayload ho ho.tokEntry, hpayload ho ho.tidxEntry]
    refine ⟨noPanic_ok _, ?_⟩
    rintro _ ⟨⟩ m hm
    refine ⟨noPanic_ok _, ?_⟩
    rintro _ ⟨⟩
    refine ⟨(noPanic_tokenizerFromBytes (length_payload_lt hlen _)).mpr (hfits s m ho hm),
      fun _ _ => ⟨noPanic_ok _, ?_⟩⟩
    rintro _ ⟨⟩
    exact noPanic_tensorIndexFromBytes (length_payload_lt hlen _)

theorem weightsRange_le (hv : openFromMmap json bytes backend = .ok v) {offset size : UInt64}
    (hrange : v.weightsRange = some (offset, size)) :
    ∃ e ∈ v.sectionTable.entries, backend.weightsSectionTag = some e.tag ∧
      e.offset = offset ∧ e.size = size ∧
      offset.toNat + size.toNat ≤ bytes.length := by
  obtain ⟨s, ho, -, -, -, hview⟩ := ok_openFromMmap.mp hv
  rw [hview] at hrange ⊢
  have hweights := ho.weights
  rw [show s.weightsRange = some (offset, size) from hrange] at hweights
  unfold findWeights at hweights
  split at hweights
  · next weightsTag htag =>
    obtain ⟨e, he, hr⟩ := ok_bind.mp hweights
    cases hr
    obtain ⟨hmem, rfl⟩ := mem_of_find (ok_okOr.mp he)
    exact ⟨e, hmem, htag, rfl, rfl, ho.stop_le (ok_okOr.mp he)⟩
  · cases hweights

theorem mmap_of_open (hv : openFromMmap json bytes backend = .ok v) : v.mmap = bytes := by
  obtain ⟨s, -, -, -, -, hview⟩ := ok_openFromMmap.mp hv
  rw [hview]

theorem noPanic_weightsBytes (hv : openFromMmap json bytes backend = .ok v) :
    NoPanic v.weightsBytes := by
  unfold AufView.weightsBytes
  split
  · next offset size hrange =>
    obtain ⟨-, -, -, -, -, hle⟩ := weightsRange_le hv hrange
    rw [mmap_of_open hv]
    exact noPanic_bind.mpr ⟨noPanic_sectionBytes hle, fun _ _ => noPanic_pure _⟩
  · exact noPanic_ok _

theorem noPanic_resolveVariantTag (offset : UInt64) : NoPanic (v.resolveVariantTag offset) := by
  unfold AufView.resolveVariantTag
  split
  · split_ifs <;> simp
  · simp

/-- **The lm_head accessor panics exactly where the end of the payload overflows.** -/
theorem noPanic_lmHeadQ40Payload (hv : openFromMmap json bytes backend = .ok v) :
    (∀ vocabSize hiddenDim, NoPanic (v.lmHeadQ40Payload vocabSize hiddenDim)) ↔
      LmHeadEndFits v := by
  unfold AufView.lmHeadQ40Payload LmHeadEndFits
  by_cases hbit : v.header.hasLmHeadQ40
  · simp only [hbit, ↓reduceIte, noPanic_bind, noPanic_okOr, noPanic_ensure,
      noPanic_resolveVariantTag, noPanic_weightsBytes hv, noPanic_add, noPanic_index, noPanic_pure,
      ok_okOr, ok_ensure, ok_add, true_and, true_implies, implies_true, and_true]
    constructor
    · intro hno entry hentry hdtype hrank offset size hrange tag htag i hi hnone
      obtain ⟨vocab, hidden, hshape⟩ := List.length_eq_two.mp hrank
      obtain ⟨w, hw⟩ : ∃ w, v.weightsBytes = .ok w := by
        obtain ⟨-, -, -, -, -, hle⟩ := weightsRange_le hv hrange
        refine ⟨some (slice bytes offset.toNat size.toNat), ?_⟩
        unfold AufView.weightsBytes
        rw [hrange]
        simp only
        rw [mmap_of_open hv, bind_of_ok (ok_sectionBytes.mpr ⟨hle, rfl⟩)]
        rfl
      exact (hno vocab hidden entry hentry () hdtype () hshape _ hrange tag htag i hi ()
        hnone w hw).1
    · intro hfits vocab hidden entry hentry _ hdtype _ hshape range hrange tag
        htag i hi _ hnone w hw
      refine ⟨hfits entry hentry hdtype (by rw [hshape]; rfl) range.1 range.2 hrange tag
        htag i hi hnone, ?_⟩
      rintro _ ⟨-, rfl⟩ - hle
      exact ⟨Nat.le_add_right _ _, hle⟩
  · simp [hbit]

/-- **A file is handled without a panic exactly where no unchecked sum that is reached
overflows.** -/
theorem total_iff_noReachedOverflow (json : MetaJson) (bytes : List UInt8)
    (hlen : bytes.length < 2 ^ 63) : Total json bytes ↔ NoReachedOverflow json bytes := by
  constructor
  · intro ht
    refine ⟨(noPanic_stripBytes hlen).mp (ht.strip []), ?_, fun backend v hv => ?_⟩
    · exact fun s m ho hm => (noPanic_openFromMmap hlen).mp (ht.opening .any) s m ho hm
    · exact (noPanic_lmHeadQ40Payload hv).mp (ht.lmHead backend v hv)
  · intro hno
    refine ⟨fun backend => ?_, fun keepTags => ?_, fun backend v hv => ?_, fun backend v hv => ?_,
      fun backend v hv => ?_, fun backend v hv => ?_⟩
    · exact (noPanic_openFromMmap hlen).mpr fun s m ho hm =>
        hno.tokenizer { s with weightsRange := none } m ho.toAny hm
    · exact (noPanic_stripBytes hlen).mpr hno.table
    · exact noPanic_weightsBytes hv
    · exact (noPanic_lmHeadQ40Payload hv).mpr (hno.lmHead backend v hv)
    · obtain ⟨s, ho, -, -, -, hview⟩ := ok_openFromMmap.mp hv
      rw [hview]
      intro e he
      obtain ⟨hstart, -, hstop⟩ := ho.parsed.valid.range e he
      exact ⟨UInt64.le_iff_toNat_le.mp hstart, hstop⟩
    · obtain ⟨s, ho, -, -, -, hview⟩ := ok_openFromMmap.mp hv
      rw [hview]
      refine ho.parsed.valid.apart.imp fun hapart => Set.disjoint_left.mpr fun x ha hb => hapart ?_
      exact ⟨Nat.lt_of_le_of_lt ha.1 hb.2, Nat.lt_of_le_of_lt hb.1 ha.2⟩

/-! ## A tokenizer offset that overflows -/

/-- A META of zeroes. -/
def zeroMeta : AufMeta := ⟨"llama", 0, 0, 0, 0, 0, 0, 0, 0, 0, 0, 0, 0, none⟩

/-- A codec of that META alone. -/
def zeroJson : MetaJson where
  fromSlice b := if b = [] then .ok zeroMeta else .error "expected value"
  toVec _ := .ok []

/-- The three required sections of a file, with the bytes of its tokenizer. -/
def requiredFile (tok : List UInt8) : List UInt8 :=
  let entries : List SectionEntry := [
    ⟨padded 24 (asBytes TAG_META), 400, 0, SECTION_REQUIRED, 1⟩,
    ⟨padded 24 (asBytes TAG_TOKENIZER), 400, .ofNat tok.length, SECTION_REQUIRED, 1⟩,
    ⟨padded 24 (asBytes TAG_TENSOR_INDEX), .ofNat (400 + tok.length), 32, SECTION_REQUIRED, 1⟩]
  (AufHeader.newV01 "argus_engine" (padded 32 []) 0 0 3 256 400).toBytes ++
    (SectionTable.mk entries).toBytes ++ tok ++ (TensorIndex.mk [] []).toBytes

/-- A tokenizer header whose special tokens lie at `special`. -/
def emptyTokenizer (special : UInt64) : List UInt8 :=
  TOKENIZER_MAGIC ++ le32 1 ++ le32 0 ++ le32 0 ++ le32 0 ++ le64 special ++ le64 0 ++
    le64 64 ++ le64 0 ++ List.replicate 16 0

theorem length_requiredFile :
    (requiredFile (emptyTokenizer 64)).length < 2 ^ 63 := by decide +kernel

theorem hasLmHeadQ40_requiredFile :
    ∀ backend v, openFromMmap zeroJson (requiredFile (emptyTokenizer 64)) backend = .ok v →
    v.header.hasLmHeadQ40 = false := by
  have hall : ∀ backend ∈ [BackendTag.adrenoSoa, .cudaAos, .cpuAos, .any],
      ((openFromMmap zeroJson (requiredFile (emptyTokenizer 64)) backend).toOption.all
        fun v => !v.header.hasLmHeadQ40) = true := by decide +kernel
  intro backend v hv
  have hbackend : backend ∈ [BackendTag.adrenoSoa, .cudaAos, .cpuAos, .any] := by
    cases backend <;> decide
  simpa [hv, Except.toOption] using hall backend hbackend

/-- A file of the required sections is handled without a panic. -/
theorem total_requiredFile : Total zeroJson (requiredFile (emptyTokenizer 64)) := by
  refine (total_iff_noReachedOverflow zeroJson _ length_requiredFile).mpr ⟨fun h _ hr _ => ?_, ?_,
    fun backend v hv => ?_⟩
  · unfold requiredFile at hr
    rw [List.append_assoc, List.append_assoc] at hr
    rw [hr.unique (reads_headerToBytes _ _)]
    decide
  · have hopen : (openFromMmap zeroJson (requiredFile (emptyTokenizer 64)) .any).isOk =
      true := by decide +kernel
    refine fun s m ho hm =>
      (noPanic_openFromMmap length_requiredFile).mp (fun text herr => ?_) s m ho hm
    rw [herr] at hopen
    cases hopen
  · intro hbit
    rw [hasLmHeadQ40_requiredFile backend v hv] at hbit
    cases hbit

/-- A file with its special tokens at `2^64 - 8` panics on opening. -/
theorem special_tokens_offset_overflows :
    ¬ Total zeroJson (requiredFile (emptyTokenizer (.ofNat (2 ^ 64 - 8)))) :=
  fun h => h.opening .any "attempt to add with overflow" (by decide +kernel)

end ArgusEngine.Auf
