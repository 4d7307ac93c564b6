import ArgusEngine.Auf.Layout

/-!
# Building an AUF file

`AufWriter.build` places META, TOKENIZER and TENSOR_INDEX and then the WEIGHTS sections behind the
table, and copies the header, the table and the payloads into a zeroed buffer.

* `AufWriter.sections`, `AufWriter.entries`, `AufWriter.fileSize`: what is placed, and where;
* `ok_build`: when building succeeds, and the copies it makes;
* **`exists_build`**: the file that is built, put together as `Assembled`.
-/

namespace ArgusEngine.Auf

open FlatMem Checked

structure AufWriter where
  aufMeta : AufMeta
  tokenizer : AufTokenizer
  sourceHash : Raw 32
  sourceSize : UInt64
  sourceMtime : UInt64
  weightsSections : List (String × List UInt8)
  tensorIndex : Option TensorIndex
  createdBy : String
  lmHeadQ40Present : Bool
  multiDtypeEnabled : Bool

namespace AufWriter

/-- `AufWriter::new`. -/
def new (aufMeta : AufMeta) (tokenizer : AufTokenizer) (sourceHash : Raw 32)
    (sourceSize sourceMtime : UInt64) : AufWriter where
  aufMeta := aufMeta
  tokenizer := tokenizer
  sourceHash := sourceHash
  sourceSize := sourceSize
  sourceMtime := sourceMtime
  weightsSections := []
  tensorIndex := none
  createdBy := "argus_engine v0.1.0"
  lmHeadQ40Present := false
  multiDtypeEnabled := false

def withMultiDtype (w : AufWriter) (enabled : Bool) : AufWriter :=
  { w with multiDtypeEnabled := enabled }

def withLmHeadQ40 (w : AufWriter) (enabled : Bool) : AufWriter :=
  { w with lmHeadQ40Present := enabled }

def withCreatedBy (w : AufWriter) (s : String) : AufWriter := { w with createdBy := s }

def withTensorIndex (w : AufWriter) (idx : TensorIndex) : AufWriter :=
  { w with tensorIndex := some idx }

def addWeightsSection (w : AufWriter) (tag : String) (payload : List UInt8) : AufWriter :=
  { w with weightsSections := w.weightsSections ++ [(tag, payload)] }

/-- The index that is written: an empty one where none was set. -/
def index (w : AufWriter) : TensorIndex := w.tensorIndex.getD ⟨[], []⟩

end AufWriter

/-- A section that every file has. -/
def requiredPiece (tag : String) (payload : List UInt8) (align : ℕ) : Piece where
  tag := tag
  size := payload.length
  flags := SECTION_REQUIRED
  version := 1
  align := align

/-- A section that can be stripped. -/
def weightsPiece (s : String × List UInt8) : Piece where
  tag := s.1
  size := s.2.length
  flags := SECTION_STRIPPABLE
  version := 1
  align := WEIGHTS_ALIGNMENT

/-- META and TOKENIZER at multiples of 8, and what follows TENSOR_INDEX at a multiple of 64 KiB. -/
def requiredPieces (metaBytes tokBytes tidxBytes : List UInt8) : List Piece :=
  [requiredPiece TAG_META metaBytes META_ALIGNMENT,
    requiredPiece TAG_TOKENIZER tokBytes META_ALIGNMENT,
   requiredPiece TAG_TENSOR_INDEX tidxBytes WEIGHTS_ALIGNMENT]

/-- No tag is added twice. -/
def uniqueWeightsTags : (seen : List String) → List (String × List UInt8) → AufResult Unit
  | _, [] => .ok ()
  | seen, (tag, _) :: sections => do
    ensure (tag ∉ seen) (.other s!"Duplicate WEIGHTS section tag: {tag}")
    uniqueWeightsTags (tag :: seen) sections

namespace AufWriter

/-- The header: `new_v01` and the capabilities. -/
def header (w : AufWriter) (sectionCount payloadStartOffset : ℕ) : AufHeader :=
  let header := AufHeader.newV01 w.createdBy w.sourceHash w.sourceSize w.sourceMtime
    (.ofNat sectionCount) (.ofNat HEADER_SIZE) (.ofNat payloadStartOffset)
  (header.setLmHeadQ40Capability w.lmHeadQ40Present).setMultiDtypeCapability w.multiDtypeEnabled

/-- `AufWriter::build`. -/
def build (w : AufWriter) (json : MetaJson) : AufResult (List UInt8) := do
  let sectionCount := 3 + w.weightsSections.length
  let metaBytes ← json.toJsonBytes w.aufMeta
  let tokBytes := w.tokenizer.toBytes
  let tidxBytes := w.index.toBytes
  let afterTable ← add HEADER_SIZE (← mul sectionCount 48)
  let payloadStartOffset ← alignUpChecked afterTable WEIGHTS_ALIGNMENT
  let (required, cursor) ← layOut payloadStartOffset (requiredPieces metaBytes tokBytes tidxBytes)
  uniqueWeightsTags [] w.weightsSections
  let (weights, totalSize) ← layOut cursor (w.weightsSections.map weightsPiece)
  let header := w.header sectionCount payloadStartOffset
  let out ← vec 0 totalSize
  -- the header, the table, then each payload at the offset of its entry
  copies (blocks header (required ++ weights)
    (metaBytes :: tokBytes :: tidxBytes :: w.weightsSections.map Prod.snd)) out

/-! ## What is placed -/

/-- The sections of the file: tag and payload. -/
def sections (w : AufWriter) (metaBytes : List UInt8) : List (String × List UInt8) :=
  (TAG_META, metaBytes) :: (TAG_TOKENIZER, w.tokenizer.toBytes) ::
    (TAG_TENSOR_INDEX, w.index.toBytes) :: w.weightsSections

/-- The number of sections. -/
def count (w : AufWriter) : ℕ := 3 + w.weightsSections.length

/-- Where the first WEIGHTS section begins. -/
def weightsStart (w : AufWriter) (metaBytes : List UInt8) : ℕ :=
  endOf (payloadStart w.count) (requiredPieces metaBytes w.tokenizer.toBytes w.index.toBytes)

/-- The entries of META, TOKENIZER and TENSOR_INDEX. -/
def requiredEntries (w : AufWriter) (metaBytes : List UInt8) : List SectionEntry :=
  entriesOf (payloadStart w.count) (requiredPieces metaBytes w.tokenizer.toBytes w.index.toBytes)

/-- The entries of the WEIGHTS sections. -/
def weightsEntries (w : AufWriter) (metaBytes : List UInt8) : List SectionEntry :=
  entriesOf (w.weightsStart metaBytes) (w.weightsSections.map weightsPiece)

def entries (w : AufWriter) (metaBytes : List UInt8) : List SectionEntry :=
  w.requiredEntries metaBytes ++ w.weightsEntries metaBytes

/-- The length of the file: each section up to the alignment of the next. -/
def fileSize (w : AufWriter) (metaBytes : List UInt8) : ℕ :=
  endOf (w.weightsStart metaBytes) (w.weightsSections.map weightsPiece)

/-- The pieces of the file. -/
def pieces (w : AufWriter) (metaBytes : List UInt8) : List Piece :=
  requiredPieces metaBytes w.tokenizer.toBytes w.index.toBytes ++ w.weightsSections.map weightsPiece

variable {w : AufWriter} {json : MetaJson} {metaBytes out : List UInt8}

theorem entries_eq : w.entries metaBytes = entriesOf (payloadStart w.count) (w.pieces metaBytes) :=
  (entriesOf_append _ _ _).symm

theorem fileSize_eq : w.fileSize metaBytes = endOf (payloadStart w.count) (w.pieces metaBytes) :=
  (endOf_append _ _ _).symm

@[simp] theorem length_pieces : (w.pieces metaBytes).length = w.count := by
  rw [pieces, List.length_append, List.length_map]
  rfl

@[simp] theorem length_entries : (w.entries metaBytes).length = w.count := by
  rw [entries_eq, length_entriesOf, length_pieces]

end AufWriter

/-! ## Building -/

theorem ok_uniqueWeightsTags {seen : List String}
    {sections : List (String × List UInt8)} {u : Unit} : uniqueWeightsTags seen sections = .ok u ↔
    (∀ s ∈ sections, s.1 ∉ seen) ∧ (sections.map Prod.fst).Nodup := by
  induction sections generalizing seen with
  | nil => simp [uniqueWeightsTags]
  | cons s sections ih =>
    obtain ⟨tag, payload⟩ := s
    rw [List.forall_mem_cons, List.map_cons, List.nodup_cons]
    simp only [uniqueWeightsTags, ok_bind, ok_ensure, ih, List.mem_cons, not_or, List.mem_map,
      not_exists, not_and, exists_and_left, exists_const]
    constructor
    · rintro ⟨htag, hseen, hnodup⟩
      exact ⟨⟨htag, fun s hs => (hseen s hs).2⟩, fun s hs heq => (hseen s hs).1 heq, hnodup⟩
    · rintro ⟨⟨htag, hseen⟩, hnot, hnodup⟩
      exact ⟨htag, fun s hs => ⟨fun heq => hnot s hs heq, hseen s hs⟩, hnodup⟩

section Build

variable {w : AufWriter} {json : MetaJson} {metaBytes out : List UInt8}

theorem tag_requiredPieces (a b c : List UInt8) :
    ∀ p ∈ requiredPieces a b c, (asBytes p.tag).length ≤ SECTION_TAG_SIZE := by
  have htags : ∀ tag ∈ [TAG_META, TAG_TOKENIZER, TAG_TENSOR_INDEX],
    (asBytes tag).length ≤ SECTION_TAG_SIZE := by
    decide +kernel
  intro p hp
  refine htags p.tag ?_
  simp only [requiredPieces, List.mem_cons, List.not_mem_nil, or_false] at hp
  rcases hp with rfl | rfl | rfl <;> simp [requiredPiece]

/-- **When building succeeds**: the tags fit and are distinct, and the file has less than `2^63`
bytes. -/
theorem ok_build (hjson : json.toJsonBytes w.aufMeta = .ok metaBytes) :
    w.build json = .ok out ↔ (w.weightsSections.map Prod.fst).Nodup ∧
      (∀ s ∈ w.weightsSections, (asBytes s.1).length ≤ SECTION_TAG_SIZE) ∧
      w.fileSize metaBytes < 2 ^ 63 ∧ copies (ε := AufError)
      (blocks (w.header w.count (payloadStart w.count)) (w.entries metaBytes)
        ((w.sections metaBytes).map Prod.snd)) (List.replicate (w.fileSize metaBytes) 0) =
          .ok out := by
  have htable := le_payloadStart w.count
  have hstart : payloadStart w.count ≤ w.weightsStart metaBytes := le_endOf _ _
  have hend : w.weightsStart metaBytes ≤ w.fileSize metaBytes := le_endOf _ _
  rw [AufWriter.build, bind_of_ok hjson]
  simp only [ok_bind, ok_mul, ok_add, ok_uniqueWeightsTags, ok_vec]
  constructor
  · rintro ⟨_, ⟨-, rfl⟩, _, ⟨hadd, rfl⟩, start, halign, r₁, hr₁, -, ⟨-, hnodup⟩, r₂, hr₂, hout⟩
    obtain ⟨hfits, rfl⟩ := (ok_alignUpChecked hadd).mp halign
    obtain ⟨-, hcursor, rfl⟩ := (ok_layOut hfits).mp hr₁
    obtain ⟨htags, hsize, rfl⟩ := (ok_layOut hcursor).mp hr₂
    obtain ⟨_, ⟨hsize, rfl⟩, hcopies⟩ := hout
    exact ⟨hnodup, fun s hs => htags _ (List.mem_map_of_mem hs), hsize, hcopies⟩
  · rintro ⟨hnodup, htags, hsize, hcopies⟩
    have hcursor : w.weightsStart metaBytes < 2 ^ 64 := by omega
    have hadd : HEADER_SIZE + w.count * 48 < 2 ^ 64 := by omega
    have hfits : payloadStart w.count < 2 ^ 64 := by omega
    refine ⟨w.count * 48, ⟨?_, rfl⟩, _, ⟨hadd, rfl⟩, _,
      (ok_alignUpChecked hadd).mpr ⟨hfits, rfl⟩, _,
      (ok_layOut hfits).mpr ⟨tag_requiredPieces _ _ _, hcursor, rfl⟩, (),
      ⟨fun s _ => List.not_mem_nil, hnodup⟩, _,
      (ok_layOut hcursor).mpr ⟨fun p hp => ?_, show w.fileSize metaBytes < 2 ^ 64 by omega, rfl⟩,
      _, ⟨hsize, rfl⟩, hcopies⟩
    · show w.count * 48 < 2 ^ 64
      omega
    · obtain ⟨s, hs, rfl⟩ := List.mem_map.mp hp
      exact htags s hs

theorem sizes_pieces : (w.pieces metaBytes).map Piece.size = (w.sections metaBytes).map fun s =>
    s.2.length := by
  rw [AufWriter.pieces, List.map_append, List.map_map]
  rfl

/-- **A file that fits memory is built.** -/
theorem exists_build (hjson : json.toJsonBytes w.aufMeta = .ok metaBytes)
    (hnodup : (w.weightsSections.map Prod.fst).Nodup)
    (htags : ∀ s ∈ w.weightsSections, (asBytes s.1).length ≤ SECTION_TAG_SIZE)
    (hsize : w.fileSize metaBytes < 2 ^ 63) :
    ∃ out, w.build json = .ok out ∧ out.length = w.fileSize metaBytes ∧
      Assembled out (w.header w.count (payloadStart w.count)) (w.entries metaBytes)
        ((w.sections metaBytes).map Prod.snd) := by
  have hend : endOf (payloadStart w.count) (w.pieces metaBytes) < 2 ^ 64 := by
    rw [← AufWriter.fileSize_eq]
    omega
  have hbounds := bounds_entriesOf hend
  have hstacked := stacked_entriesOf hend
  have hsizes := sizes_entriesOf hend
  have hstart := le_payloadStart w.count
  rw [← AufWriter.entries_eq] at hbounds hstacked hsizes
  rw [← List.forall₂_map_right_iff (f := Piece.size), sizes_pieces,
    List.forall₂_map_right_iff] at hsizes
  have hpayloads : List.Forall₂ (fun e b => e.size.toNat = List.length b) (w.entries metaBytes)
      ((w.sections metaBytes).map Prod.snd) := List.forall₂_map_right_iff.mpr hsizes
  have hbegin : ∀ e ∈ w.entries metaBytes, HEADER_SIZE + (w.entries metaBytes).length * 48 ≤
    e.offset.toNat := by
    intro e he
    rw [AufWriter.length_entries]
    exact Nat.le_trans hstart (hbounds e he).1
  have hstop : ∀ e ∈ w.entries metaBytes, e.stop ≤ w.fileSize metaBytes := by
    intro e he
    rw [AufWriter.fileSize_eq]
    exact (hbounds e he).2
  have htable : HEADER_SIZE + (w.entries metaBytes).length * 48 ≤ w.fileSize metaBytes := by
    rw [AufWriter.length_entries, AufWriter.fileSize_eq]
    exact Nat.le_trans hstart (le_endOf _ _)
  obtain ⟨out, hout, hlen, hfile⟩ := exists_assembled (h := w.header w.count (payloadStart w.count))
    hpayloads hstacked hbegin hstop htable
  exact ⟨out, (ok_build hjson).mpr ⟨hnodup, htags, hsize, hout⟩, hlen, hfile⟩

end Build

end ArgusEngine.Auf
