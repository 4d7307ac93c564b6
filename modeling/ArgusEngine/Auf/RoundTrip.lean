import ArgusEngine.Auf.Total
import ArgusEngine.Auf.Writer

/-!
# Writing and reading back

What `AufWriter::build` writes is read back, with one exception. The reader recovers the column of
the lm_head from the offset of the WEIGHTS section, and an empty section begins where the next one
begins: the reader then takes the column of the first of them.

* `firstAt`, `find_weightsEntries`: the first section at the offset of a WEIGHTS section;
* `opened_built`: the sections of a built file are found;
* **`round_trip_iff`**: a file is read back exactly where it fits memory and the lm_head columns
  agree.
-/

namespace ArgusEngine.Auf

open FlatMem Checked

/-! ## Sections at one offset -/

/-- The tag of the first section of the run of empty sections that ends at `tag`; `head` is the
first section of the run so far. -/
def firstAt (tag : String) : (head : Option String) → List (String × List UInt8) → Option String
  | _, [] => none
  | head, (t, payload) :: sections =>
    if t = tag then some (head.getD t)
    else firstAt tag (if payload = [] then some (head.getD t) else none) sections

theorem alignUp_of_dvd {val align : ℕ} (hpos : 0 < align) (h : align ∣ val) :
    alignUp val align = val := by
  obtain ⟨k, rfl⟩ := h
  have hdiv : (align * k + align - 1) / align = k := by
    rw [Nat.add_sub_assoc hpos, Nat.mul_add_div hpos,
      Nat.div_eq_of_lt (Nat.sub_lt hpos Nat.one_pos), Nat.add_zero]
  rw [alignUp, if_neg (Nat.ne_of_gt hpos), hdiv, Nat.mul_comm]

theorem dvd_alignUp {val align : ℕ} (hpos : 0 < align) : align ∣ alignUp val align := by
  rw [alignUp, if_neg (Nat.ne_of_gt hpos)]
  exact Nat.dvd_mul_left _ _

/-- A tag that the table gives back: no NUL, at most 24 bytes. -/
def TagFits (tag : String) : Prop := (asBytes tag).length ≤ SECTION_TAG_SIZE ∧ 0 ∉ asBytes tag

instance (tag : String) : Decidable (TagFits tag) := inferInstanceAs (Decidable (_ ∧ _))

theorem tag_entry {p : Piece} (htag : TagFits p.tag) (cursor : ℕ) :
    (p.entry cursor).tag = p.tag := by
  rw [SectionEntry.tag, show (p.entry cursor).tagRaw = padded 24 (asBytes p.tag) from rfl,
    show nulText (padded 24 (asBytes p.tag)) = some p.tag from nulText_padded htag.1 htag.2]
  rfl

theorem tags_entriesOf {ps : List Piece} (htags : ∀ p ∈ ps, TagFits p.tag) (cursor : ℕ) :
    (entriesOf cursor ps).map SectionEntry.tag = ps.map Piece.tag := by
  induction ps generalizing cursor with
  | nil => rfl
  | cons p ps ih =>
    rw [entriesOf, List.map_cons, List.map_cons, tag_entry (htags p List.mem_cons_self),
      ih fun x hx => htags x (List.mem_cons_of_mem _ hx)]

theorem tags_weightsEntries {ws : List (String × List UInt8)} (htags : ∀ s ∈ ws, TagFits s.1)
    (cursor : ℕ) : (entriesOf cursor (ws.map weightsPiece)).map SectionEntry.tag =
    ws.map Prod.fst := by
  rw [tags_entriesOf (List.forall_mem_map.mpr htags), List.map_map]
  rfl

theorem find_offset_pos {x : SectionEntry} {o : UInt64} (h : x.offset = o)
    (xs : List SectionEntry) : ((x :: xs).find? fun y => y.offset == o) = some x :=
    List.find?_cons_of_pos (by simpa using h)

theorem find_offset_neg {x : SectionEntry} {o : UInt64} (h : x.offset ≠ o)
    (xs : List SectionEntry) :
    ((x :: xs).find? fun y => y.offset == o) = xs.find? fun y => y.offset == o :=
  List.find?_cons_of_neg (by simpa using h)

/-- **The first WEIGHTS section at the offset of `e`** is the first of the run of empty sections
before it. -/
theorem find_weightsEntries {ws : List (String × List UInt8)} (htags : ∀ s ∈ ws, TagFits s.1)
    (hnodup : (ws.map Prod.fst).Nodup) {cursor : ℕ} (haligned : WEIGHTS_ALIGNMENT ∣ cursor)
    (hend : endOf cursor (ws.map weightsPiece) < 2 ^ 64) {e : SectionEntry}
    (he : e ∈ entriesOf cursor (ws.map weightsPiece)) (head : Option String) :
    firstAt e.tag head ws = (if e.offset.toNat = cursor then head else none).or
      (((entriesOf cursor (ws.map weightsPiece)).find? fun x => x.offset == e.offset).map
        SectionEntry.tag) := by
  induction ws generalizing cursor head with
  | nil => cases he
  | cons s ws ih =>
    obtain ⟨tag, payload⟩ := s
    have htags' := fun x hx => htags x (List.mem_cons_of_mem (tag, payload) hx)
    rw [List.map_cons, List.nodup_cons] at hnodup
    obtain ⟨hfresh, hnodup'⟩ := hnodup
    have hle := le_endOf ((weightsPiece (tag, payload)).next cursor) (ws.map weightsPiece)
    have hnext := (weightsPiece (tag, payload)).le_next cursor
    rw [List.map_cons, endOf] at hend
    rw [List.map_cons, entriesOf] at he
    have hoff : ((weightsPiece (tag, payload)).entry cursor).offset.toNat = cursor :=
      offset_entry (by omega)
    have htag : ((weightsPiece (tag, payload)).entry cursor).tag = tag :=
      tag_entry (htags _ List.mem_cons_self) cursor
    rw [List.map_cons, entriesOf, firstAt]
    rcases List.mem_cons.mp he with rfl | he
    · rw [if_pos htag.symm, if_pos hoff, find_offset_pos rfl, Option.map_some, htag]
      cases head <;> rfl
    · have htags'' := tags_weightsEntries htags' ((weightsPiece (tag, payload)).next cursor)
      have hne : tag ≠ e.tag := by
        rintro rfl
        exact hfresh (htags'' ▸ List.mem_map_of_mem he)
      have hdvd : WEIGHTS_ALIGNMENT ∣ (weightsPiece (tag, payload)).next cursor :=
        dvd_alignUp (show 0 < WEIGHTS_ALIGNMENT by decide)
      have hbound := (bounds_entriesOf hend e he).1
      rw [if_neg hne, ih htags' hnodup' hdvd hend he]
      by_cases hempty : payload = []
      · -- an empty section: the next one begins at the same offset
        have hsame : (weightsPiece (tag, payload)).next cursor = cursor := by
          rw [hempty]
          exact alignUp_of_dvd (show 0 < WEIGHTS_ALIGNMENT by decide) haligned
        rw [if_pos hempty, hsame]
        by_cases hat : e.offset.toNat = cursor
        · have hmatch : ((weightsPiece (tag, payload)).entry cursor).offset = e.offset :=
            UInt64.toNat_inj.mp (hoff.trans hat.symm)
          rw [if_pos hat, if_pos hat, find_offset_pos hmatch, Option.map_some, htag]
          cases head <;> rfl
        · have hmatch : ((weightsPiece (tag, payload)).entry cursor).offset ≠ e.offset :=
            fun heq => hat (heq ▸ hoff)
          rw [if_neg hat, if_neg hat, find_offset_neg hmatch]
      · have hpos : 0 < (weightsPiece (tag, payload)).size := List.length_pos_iff.mpr hempty
        have hat : e.offset.toNat ≠ cursor := by omega
        have hmatch : ((weightsPiece (tag, payload)).entry cursor).offset ≠ e.offset :=
          fun heq => hat (heq ▸ hoff)
        rw [if_neg hempty, if_neg hat, find_offset_neg hmatch, ite_self]

/-! ## The built file -/

/-- What the writer is given: a META that its JSON gives back, lengths that fit their fields, and
distinct tags. -/
structure AufWriter.WellFormed (w : AufWriter) (json : MetaJson)
    (metaBytes : List UInt8) : Prop where
  toJson : json.toVec w.aufMeta = .ok metaBytes
  fromJson : json.fromSlice metaBytes = .ok w.aufMeta
  tokenizer : w.tokenizer.Fits
  index : w.index.Fits
  count : w.weightsSections.length < 2 ^ 32
  nodup : (w.weightsSections.map Prod.fst).Nodup
  tag : ∀ s ∈ w.weightsSections, TagFits s.1 ∧ s.1 ∉ [TAG_META, TAG_TOKENIZER, TAG_TENSOR_INDEX]

/-- The file that was built. -/
structure Built (w : AufWriter) (metaBytes out : List UInt8) : Prop where
  count : w.count < 2 ^ 32
  size : w.fileSize metaBytes < 2 ^ 63
  length : out.length = w.fileSize metaBytes
  file : Assembled out (w.header w.count (payloadStart w.count)) (w.entries metaBytes)
    ((w.sections metaBytes).map Prod.snd)

section Built

variable {w : AufWriter} {json : MetaJson} {metaBytes out : List UInt8} {backend : BackendTag}

theorem valid_header (w : AufWriter) (count start : ℕ) : (w.header count start).Valid := by
  unfold AufWriter.header AufHeader.setLmHeadQ40Capability AufHeader.setMultiDtypeCapability
  refine ⟨?_, ?_, ?_⟩
  · split_ifs <;> rfl
  · split_ifs <;> exact UInt16.le_refl 0
  · split_ifs <;> exact UInt64.zero_and

theorem place_header (w : AufWriter) (count start : ℕ) :
    (w.header count start).sectionTableOffset = .ofNat HEADER_SIZE ∧
    (w.header count start).sectionCount = .ofNat count ∧
    (w.header count start).payloadStartOffset = .ofNat start := by
  unfold AufWriter.header AufHeader.setLmHeadQ40Capability AufHeader.setMultiDtypeCapability
  split_ifs <;> exact ⟨rfl, rfl, rfl⟩

theorem optional_header (w : AufWriter) (count start : ℕ) :
    (w.header count start).capabilityOptional =
    (if w.lmHeadQ40Present then CAPABILITY_BIT_LM_HEAD_Q4_0 else 0) |||
      (if w.multiDtypeEnabled then CAPABILITY_BIT_MULTI_DTYPE else 0) := by
  unfold AufWriter.header AufHeader.setLmHeadQ40Capability AufHeader.setMultiDtypeCapability
    AufHeader.newV01
  cases w.lmHeadQ40Present <;> cases w.multiDtypeEnabled <;>
    simp only [↓reduceIte, Bool.false_eq_true] <;> decide

theorem capabilities_header (w : AufWriter) (count start : ℕ) :
    (w.header count start).hasLmHeadQ40 = w.lmHeadQ40Present ∧
      (w.header count start).hasMultiDtype = w.multiDtypeEnabled := by
  unfold AufHeader.hasLmHeadQ40 AufHeader.hasMultiDtype
  rw [optional_header]
  cases w.lmHeadQ40Present <;> cases w.multiDtypeEnabled <;> decide

theorem source_header (w : AufWriter) (count start : ℕ) :
    (w.header count start).sourceHash = w.sourceHash ∧
    (w.header count start).sourceSize = w.sourceSize ∧
    (w.header count start).sourceMtime = w.sourceMtime := by
  unfold AufWriter.header AufHeader.setLmHeadQ40Capability AufHeader.setMultiDtypeCapability
  split_ifs <;> exact ⟨rfl, rfl, rfl⟩

theorem tagFits_sections (hw : w.WellFormed json metaBytes) :
    ∀ s ∈ w.sections metaBytes, TagFits s.1 := by
  have hrequired : ∀ tag ∈ [TAG_META, TAG_TOKENIZER, TAG_TENSOR_INDEX],
    TagFits tag := by decide +kernel
  intro s hs
  simp only [AufWriter.sections, List.mem_cons] at hs
  rcases hs with rfl | rfl | rfl | hs
  · exact hrequired _ (by simp)
  · exact hrequired _ (by simp)
  · exact hrequired _ (by simp)
  · exact (hw.tag s hs).1

theorem tags_pieces : (w.pieces metaBytes).map Piece.tag = (w.sections metaBytes).map Prod.fst := by
  rw [AufWriter.pieces, List.map_append, List.map_map]
  rfl

theorem tags_entries (hw : w.WellFormed json metaBytes) :
    (w.entries metaBytes).map SectionEntry.tag = (w.sections metaBytes).map Prod.fst := by
  rw [AufWriter.entries_eq, tags_entriesOf, tags_pieces]
  rw [← List.forall_mem_map (f := Piece.tag) (P := TagFits), tags_pieces, List.forall_mem_map]
  exact tagFits_sections hw

theorem nodup_sections (hw : w.WellFormed json metaBytes) :
    ((w.sections metaBytes).map Prod.fst).Nodup := by
  have hfresh : ∀ tag ∈ [TAG_META, TAG_TOKENIZER, TAG_TENSOR_INDEX],
    tag ∉ w.weightsSections.map Prod.fst := by
    intro tag htag hmem
    obtain ⟨s, hs, rfl⟩ := List.mem_map.mp hmem
    exact (hw.tag s hs).2 htag
  show ([TAG_META, TAG_TOKENIZER, TAG_TENSOR_INDEX] ++ w.weightsSections.map Prod.fst).Nodup
  exact List.Nodup.append (by decide) hw.nodup fun tag htag => hfresh tag htag

theorem flags_entries : ∀ e ∈ w.entries metaBytes, e.flags = SECTION_REQUIRED ∨
    e.flags = SECTION_STRIPPABLE := by
  have hpieces : ∀ cursor ps, ∀ e ∈ entriesOf cursor ps, ∃ p ∈ ps, e.flags = p.flags := by
    intro cursor ps
    induction ps generalizing cursor with
    | nil => exact fun e he => absurd he List.not_mem_nil
    | cons p ps ih =>
      intro e he
      rcases List.mem_cons.mp he with rfl | he
      · exact ⟨p, List.mem_cons_self, rfl⟩
      · obtain ⟨q, hq, hflags⟩ := ih _ e he
        exact ⟨q, List.mem_cons_of_mem _ hq, hflags⟩
  intro e he
  rcases List.mem_append.mp he with he | he
  · obtain ⟨p, hp, hflags⟩ := hpieces _ _ e he
    refine .inl (hflags.trans ?_)
    simp only [requiredPieces, List.mem_cons, List.not_mem_nil, or_false] at hp
    rcases hp with rfl | rfl | rfl <;> rfl
  · obtain ⟨p, hp, hflags⟩ := hpieces _ _ e he
    obtain ⟨s, -, rfl⟩ := List.mem_map.mp hp
    exact .inr hflags

/-- **The reader finds the header and the sections.** -/
theorem parsed_built (hw : w.WellFormed json metaBytes) (hb : Built w metaBytes out) :
    Parsed out (w.header w.count (payloadStart w.count)) ⟨w.entries metaBytes⟩ := by
  have hsize := hb.size
  have hend : endOf (payloadStart w.count) (w.pieces metaBytes) < 2 ^ 64 := by
    rw [← AufWriter.fileSize_eq]
    omega
  have hbounds := bounds_entriesOf hend
  have hstart := le_endOf (payloadStart w.count) (w.pieces metaBytes)
  obtain ⟨hoffset, hcount, hpayload⟩ := place_header w w.count (payloadStart w.count)
  refine parsed_of_assembled hb.file (valid_header _ _ _) (by rw [hoffset]; rfl) ?_ ?_ ?_ ?_ ?_ ?_
  · rw [hcount, toNat_ofNat32 hb.count, AufWriter.length_entries]
  · rw [hb.length]
    omega
  · intro e he
    rw [AufWriter.entries_eq] at he
    rw [hpayload, UInt64.le_iff_toNat_le, toNat_ofNat64 (by omega)]
    exact (hbounds e he).1
  · rw [AufWriter.entries_eq]
    exact stacked_entriesOf hend
  · rw [tags_entries hw]
    exact nodup_sections hw
  · intro e he
    unfold SectionEntry.isRequired SectionEntry.isStrippable
    rcases flags_entries e he with hflags | hflags <;> rw [hflags] <;> decide

theorem sections_built (hw : w.WellFormed json metaBytes) (hb : Built w metaBytes out) :
    List.Forall₂ (fun e s => e.tag = s.1 ∧ e.payload out = s.2) (w.entries metaBytes)
      (w.sections metaBytes) := by
  have hpayload := List.forall₂_map_right_iff.mp hb.file.payload
  have htags := tags_entries hw
  rw [← List.forall₂_eq_eq_eq, List.forall₂_map_left_iff, List.forall₂_map_right_iff] at htags
  obtain ⟨hlen, hpayload⟩ := List.forall₂_iff_zip.mp hpayload
  obtain ⟨-, htags⟩ := List.forall₂_iff_zip.mp htags
  exact List.forall₂_iff_zip.mpr ⟨hlen, fun hmem => ⟨htags hmem, hpayload hmem⟩⟩

theorem exists_entry {entries : List SectionEntry} {sections : List (String × List UInt8)}
    (h : List.Forall₂ (fun e s => e.tag = s.1 ∧ e.payload out = s.2) entries sections)
    {s : String × List UInt8} (hs : s ∈ sections) :
    ∃ e ∈ entries, e.tag = s.1 ∧ e.payload out = s.2 := by
  induction h with
  | nil => cases hs
  | @cons e s' entries sections he _ ih =>
    rcases List.mem_cons.mp hs with rfl | hs
    · exact ⟨e, List.mem_cons_self, he⟩
    · obtain ⟨x, hx, hrest⟩ := ih hs
      exact ⟨x, List.mem_cons_of_mem _ hx, hrest⟩

theorem find_section (hw : w.WellFormed json metaBytes) (hb : Built w metaBytes out)
    {s : String × List UInt8} (hs : s ∈ w.sections metaBytes) :
    ∃ e, (SectionTable.mk (w.entries metaBytes)).find s.1 = some e ∧ e.payload out = s.2 := by
  obtain ⟨e, he, htag, hpayload⟩ := exists_entry (sections_built hw hb) hs
  exact ⟨e, (find_eq_some (parsed_built hw hb).valid.nodup).mpr ⟨he, htag⟩, hpayload⟩

/-- The view of the built file with the WEIGHTS range `range`. -/
def AufWriter.view (w : AufWriter) (metaBytes out : List UInt8) (range : Option (UInt64 × UInt64)) :
    AufView where
  mmap := out
  header := w.header w.count (payloadStart w.count)
  sectionTable := ⟨w.entries metaBytes⟩
  aufMeta := w.aufMeta
  tokenizer := w.tokenizer
  tensorIndex := w.index
  weightsRange := range

theorem length_section_le (hw : w.WellFormed json metaBytes) (hb : Built w metaBytes out)
    {s : String × List UInt8} (hs : s ∈ w.sections metaBytes) : s.2.length < 2 ^ 63 := by
  obtain ⟨e, -, hpayload⟩ := find_section hw hb hs
  have hsize := hb.size
  have hlen := hb.length
  rw [← hpayload, SectionEntry.payload, slice, List.length_take, List.length_drop]
  omega

/-- **The built file is opened** for a backend whose section is there. -/
theorem open_built (hw : w.WellFormed json metaBytes) (hb : Built w metaBytes out)
    {range : Option (UInt64 × UInt64)}
    (hrange : findWeights ⟨w.entries metaBytes⟩ backend = .ok range) :
    openFromMmap json out backend = .ok (w.view metaBytes out range) := by
  have hmem₁ : (TAG_META, metaBytes) ∈ w.sections metaBytes := List.mem_cons_self
  have hmem₂ : (TAG_TOKENIZER, w.tokenizer.toBytes) ∈ w.sections metaBytes :=
    List.mem_cons_of_mem _ List.mem_cons_self
  have hmem₃ : (TAG_TENSOR_INDEX, w.index.toBytes) ∈ w.sections metaBytes :=
    List.mem_cons_of_mem _ (List.mem_cons_of_mem _ List.mem_cons_self)
  obtain ⟨m, hm, hmeta⟩ := find_section hw hb hmem₁
  obtain ⟨t, ht, htok⟩ := find_section hw hb hmem₂
  obtain ⟨x, hx, htidx⟩ := find_section hw hb hmem₃
  have hcompressed : ∀ e ∈ w.entries metaBytes, ¬ e.isCompressed := by
    intro e he
    unfold SectionEntry.isCompressed
    rcases flags_entries e he with hflags | hflags <;> rw [hflags] <;> decide
  refine ok_openFromMmap.mpr ⟨⟨_, _, m, t, x, range⟩,
    ⟨parsed_built hw hb, hcompressed, hm, ht, hx, hrange⟩, ?_, ?_, ?_, rfl⟩
  · rw [hmeta, MetaJson.fromJsonBytes, hw.fromJson]
    rfl
  · rw [htok]
    exact fromBytes_tokenizerToBytes hw.tokenizer (length_section_le hw hb hmem₂)
  · rw [htidx]
    exact TensorIndex.fromBytes_tensorIndexToBytes hw.index (length_section_le hw hb hmem₃)

theorem find_weights (hw : w.WellFormed json metaBytes) (hb : Built w metaBytes out)
    {s : String × List UInt8} (hs : s ∈ w.weightsSections) : ∃ e ∈ w.weightsEntries metaBytes,
      (SectionTable.mk (w.entries metaBytes)).find s.1 = some e ∧ e.tag = s.1 ∧
      e.payload out = s.2 := by
  have hmem : s ∈ w.sections metaBytes :=
    List.mem_cons_of_mem _ (List.mem_cons_of_mem _ (List.mem_cons_of_mem _ hs))
  obtain ⟨e, hfind, hpayload⟩ := find_section hw hb hmem
  obtain ⟨he, htag⟩ := mem_of_find hfind
  refine ⟨e, ?_, hfind, htag, hpayload⟩
  have hall : s.1 ∈ (w.weightsEntries metaBytes).map SectionEntry.tag := by
    rw [AufWriter.weightsEntries, tags_weightsEntries fun x hx => (hw.tag x hx).1]
    exact List.mem_map_of_mem hs
  obtain ⟨e', he', htag'⟩ := List.mem_map.mp hall
  obtain rfl : e' = e := List.inj_on_of_nodup_map (parsed_built hw hb).valid.nodup
    (List.mem_append_right _ he') he (htag'.trans htag.symm)
  exact he'

theorem offset_requiredEntries_lt (hsize : w.fileSize metaBytes < 2 ^ 63) :
    ∀ e ∈ w.requiredEntries metaBytes, e.offset.toNat < w.weightsStart metaBytes := by
  let m := requiredPiece TAG_META metaBytes META_ALIGNMENT
  let t := requiredPiece TAG_TOKENIZER w.tokenizer.toBytes META_ALIGNMENT
  let x := requiredPiece TAG_TENSOR_INDEX w.index.toBytes WEIGHTS_ALIGNMENT
  have h₁ := m.le_next (payloadStart w.count)
  have h₂ := t.le_next (m.next (payloadStart w.count))
  have h₃ := x.le_next (t.next (m.next (payloadStart w.count)))
  have hend : w.weightsStart metaBytes = x.next (t.next (m.next (payloadStart w.count))) := rfl
  have hle : w.weightsStart metaBytes ≤ w.fileSize metaBytes := le_endOf _ _
  -- the index has a header, so the WEIGHTS sections begin behind it
  have hpos : 0 < x.size := by
    have hlen : 0 < w.index.toBytes.length := by
      rw [TensorIndex.toBytes, TensorIndex.parts, List.flatten_cons, List.length_append]
      exact Nat.add_pos_left (by decide) _
    exact hlen
  have hm : (m.entry (payloadStart w.count)).offset.toNat = payloadStart w.count :=
    offset_entry (by omega)
  have ht : (t.entry (m.next (payloadStart w.count))).offset.toNat =
    m.next (payloadStart w.count) :=
    offset_entry (by omega)
  have hx : (x.entry (t.next (m.next (payloadStart w.count)))).offset.toNat =
    t.next (m.next (payloadStart w.count)) :=
    offset_entry (by omega)
  have hentries : w.requiredEntries metaBytes = [m.entry (payloadStart w.count),
    t.entry (m.next (payloadStart w.count)), x.entry (t.next (m.next (payloadStart w.count)))] :=
    rfl
  rw [hentries]
  simp only [List.mem_cons, List.not_mem_nil, or_false]
  rintro e (rfl | rfl | rfl) <;> omega

theorem backendTag_iff {tag : String} : (tag = TAG_WEIGHTS_ADRENO_SOA ∨ tag = TAG_WEIGHTS_CUDA_AOS ∨
    tag = TAG_WEIGHTS_CPU_AOS) ↔ ∃ backend : BackendTag, backend.weightsSectionTag = some tag := by
  constructor
  · rintro (rfl | rfl | rfl)
    · exact ⟨.adrenoSoa, rfl⟩
    · exact ⟨.cudaAos, rfl⟩
    · exact ⟨.cpuAos, rfl⟩
  · rintro ⟨backend, h⟩
    cases backend <;> simp_all [BackendTag.weightsSectionTag]

theorem ok_resolveVariantTag {v : AufView} {offset : UInt64} {tag : String} :
    v.resolveVariantTag offset = .ok tag ↔
      ((v.sectionTable.entries.find? fun e => e.offset == offset).map SectionEntry.tag = some tag ∧
        ∃ b : BackendTag, b.weightsSectionTag = some tag) := by
  rw [← backendTag_iff]
  unfold AufView.resolveVariantTag
  cases v.sectionTable.entries.find? fun e => e.offset == offset with
  | none => simp
  | some x =>
    simp only [Option.map_some, Option.some.injEq]
    split_ifs with hknown
    · simp only [Except.ok.injEq]
      exact ⟨fun h => ⟨h, h ▸ hknown⟩, fun h => h.1⟩
    · simp only [false_iff]
      rintro ⟨rfl, h⟩
      exact hknown h

theorem dvd_weightsStart (w : AufWriter) (metaBytes : List UInt8) :
    WEIGHTS_ALIGNMENT ∣ w.weightsStart metaBytes := by
  rw [AufWriter.weightsStart, requiredPieces, endOf, endOf, endOf, endOf, Piece.next]
  exact dvd_alignUp (show 0 < WEIGHTS_ALIGNMENT by decide)

/-- **The variant that the offset of a WEIGHTS section resolves to.** -/
theorem resolve_built (hw : w.WellFormed json metaBytes) (hb : Built w metaBytes out)
    {e : SectionEntry} (he : e ∈ w.weightsEntries metaBytes) {range : Option (UInt64 × UInt64)}
    {tag : String} : (w.view metaBytes out range).resolveVariantTag e.offset = .ok tag ↔
      firstAt e.tag none w.weightsSections = some tag ∧ ∃ b : BackendTag,
        b.weightsSectionTag = some tag := by
  have hsize := hb.size
  have hend : endOf (w.weightsStart metaBytes) (w.weightsSections.map weightsPiece) < 2 ^ 64 := by
    have : w.fileSize metaBytes < 2 ^ 64 := by omega
    exact this
  have hfirst : firstAt e.tag none w.weightsSections =
      ((w.weightsEntries metaBytes).find? fun x => x.offset == e.offset).map SectionEntry.tag := by
    have hfind := find_weightsEntries (fun s hs => (hw.tag s hs).1)
      hw.nodup (dvd_weightsStart w metaBytes) hend he none
    rwa [ite_self, Option.none_or] at hfind
  have hskip : (w.requiredEntries metaBytes).find? (fun x => x.offset == e.offset) = none := by
    refine List.find?_eq_none.mpr fun x hx => ?_
    have hlt := offset_requiredEntries_lt hsize x hx
    have hle := (bounds_entriesOf hend e he).1
    simp only [beq_iff_eq]
    rintro heq
    rw [heq] at hlt
    omega
  have hentries : (w.view metaBytes out range).sectionTable.entries =
      w.requiredEntries metaBytes ++ w.weightsEntries metaBytes := rfl
  rw [ok_resolveVariantTag, hentries, List.find?_append, hskip, Option.none_or, hfirst]

/-- The column names bytes of the section. -/
def InSection (c : UInt64 × UInt64) (payload : List UInt8) : Prop :=
  c.2 ≠ 0 ∧ c.1.toNat + c.2.toNat ≤ payload.length

/-- **When a view gives out the lm_head.** -/
theorem ok_lmHeadQ40Payload {v : AufView} {range : UInt64 × UInt64} {payload : List UInt8}
    (hrange : v.weightsRange = some range) (hbytes : v.weightsBytes = .ok (some payload))
    (hlen : payload.length < 2 ^ 63) {vocabSize hiddenDim : UInt64} {p : LmHeadPayload} :
    v.lmHeadQ40Payload vocabSize hiddenDim = .ok (some p) ↔
      v.header.hasLmHeadQ40 ∧ ∃ entry, v.tensorIndex.findLmHeadEntry = some entry ∧
        entry.dtype = TensorDType.q4_0.asU32 ∧ entry.shape = [vocabSize, hiddenDim] ∧
        ∃ tag, v.resolveVariantTag range.1 = .ok tag ∧ ∃ i,
          v.tensorIndex.variantIndexForTag tag = some i ∧
          InSection (entry.column i) payload ∧
          p = ⟨slice payload (entry.column i).1.toNat (entry.column i).2.toNat,
          (vocabSize, hiddenDim), .q4_0,
            WEIGHTS_ALIGNMENT, tag⟩ := by
  unfold AufView.lmHeadQ40Payload
  by_cases hbit : v.header.hasLmHeadQ40
  · simp only [hbit, ↓reduceIte, hrange, hbytes, ok_bind, ok_okOr, ok_ensure, ok_add, ok_index,
      Option.some.injEq, true_and]
    constructor
    · rintro ⟨entry, hentry, -, hdtype, -, hshape, _, rfl, tag, htag, i, hi, -, hnone, _, hw, _,
        ⟨-, rfl⟩, -, hstop, _, ⟨-, rfl⟩, hp⟩
      cases hw
      cases hp
      refine ⟨entry, hentry, hdtype, hshape, tag, htag, i, hi, ⟨fun h => hnone (.inr h), hstop⟩, ?_⟩
      rw [Nat.add_sub_cancel_left]
      rfl
    · rintro ⟨entry, hentry, hdtype, hshape, tag, htag, i, hi, ⟨hpos, hstop⟩, rfl⟩
      refine ⟨entry, hentry, (), hdtype, (), hshape, range, rfl, tag, htag, i,
        hi, (), ?_, _, rfl, _, ⟨by omega, rfl⟩, (), hstop, _,
        ⟨⟨Nat.le_add_right _ _, hstop⟩, rfl⟩, ?_⟩
      · rintro (hmax | hzero)
        · rw [hmax, UInt64.toNat_ofNat'] at hstop
          omega
        · exact hpos hzero
      · rw [Nat.add_sub_cancel_left]
        rfl
  · simp [hbit]

/-! ## The round trip -/

/-- The view has what the writer was given. -/
structure SameView (w : AufWriter) (v : AufView) : Prop where
  aufMeta : v.aufMeta = w.aufMeta
  tokenizer : v.tokenizer = w.tokenizer
  tensorIndex : v.tensorIndex = w.index
  sourceHash : v.header.sourceHash = w.sourceHash
  sourceSize : v.header.sourceSize = w.sourceSize
  sourceMtime : v.header.sourceMtime = w.sourceMtime
  lmHead : v.header.hasLmHeadQ40 = w.lmHeadQ40Present
  multiDtype : v.header.hasMultiDtype = w.multiDtypeEnabled

/-- The lm_head that is given out is the slice of the section `s` that the lm_head entry names in
its column. -/
def LmHeadOfColumn (w : AufWriter) (v : AufView) (s : String × List UInt8) : Prop :=
  ∀ vocabSize hiddenDim p, v.lmHeadQ40Payload vocabSize hiddenDim = .ok (some p) →
    ∃ entry i, w.index.findLmHeadEntry = some entry ∧ w.index.variantIndexForTag s.1 = some i ∧
      InSection (entry.column i) s.2 ∧
      p.bytes = slice s.2 (entry.column i).1.toNat (entry.column i).2.toNat

/-- The file is built, and opened without a backend and for each backend whose section was added. -/
def RoundTrips (json : MetaJson) (w : AufWriter) : Prop :=
  ∃ out, w.build json = .ok out ∧ (∃ v, openFromMmap json out .any = .ok v ∧ SameView w v) ∧
    ∀ backend, ∀ s ∈ w.weightsSections, BackendTag.weightsSectionTag backend = some s.1 →
      ∃ v, openFromMmap json out backend = .ok v ∧ SameView w v ∧ v.weightsBytes = .ok (some s.2) ∧
      LmHeadOfColumn w v s

/-- The first section at the offset of `s` has for the lm_head the column of `s`, or one that names
the same bytes. -/
def AufWriter.ColumnAgrees (w : AufWriter) (s : String × List UInt8) : Prop :=
  w.lmHeadQ40Present → ∀ entry, w.index.findLmHeadEntry = some entry →
    entry.dtype = TensorDType.q4_0.asU32 → entry.shape.length = 2 → ∀ tag,
    firstAt s.1 none w.weightsSections = some tag →
      (∃ b : BackendTag, b.weightsSectionTag = some tag) → ∀ j,
        w.index.variantIndexForTag tag = some j →
        InSection (entry.column j) s.2 → ∃ i, w.index.variantIndexForTag s.1 = some i ∧
          InSection (entry.column i) s.2 ∧
          slice s.2 (entry.column j).1.toNat (entry.column j).2.toNat =
            slice s.2 (entry.column i).1.toNat (entry.column i).2.toNat

/-- The file has less than `2^32` sections and less than `2^63` bytes, and the lm_head columns
agree. -/
structure AufWriter.Lossless (w : AufWriter) (metaBytes : List UInt8) : Prop where
  count : w.count < 2 ^ 32
  size : w.fileSize metaBytes < 2 ^ 63
  columns : ∀ s ∈ w.weightsSections, (∃ b : BackendTag, b.weightsSectionTag = some s.1) →
    w.ColumnAgrees s

theorem sameView_view (w : AufWriter) (metaBytes out : List UInt8)
    (range : Option (UInt64 × UInt64)) : SameView w (w.view metaBytes out range) := by
  obtain ⟨hhash, hsize, hmtime⟩ := source_header w w.count (payloadStart w.count)
  obtain ⟨hlm, hmulti⟩ := capabilities_header w w.count (payloadStart w.count)
  exact ⟨rfl, rfl, rfl, hhash, hsize, hmtime, hlm, hmulti⟩

theorem exists_view (hw : w.WellFormed json metaBytes) (hb : Built w metaBytes out)
    {s : String × List UInt8} (hs : s ∈ w.weightsSections)
    (htag : backend.weightsSectionTag = some s.1) : ∃ e ∈ w.weightsEntries metaBytes, e.tag = s.1 ∧
      openFromMmap json out backend = .ok (w.view metaBytes out (some (e.offset, e.size))) ∧
      (w.view metaBytes out (some (e.offset, e.size))).weightsBytes = .ok (some s.2) := by
  obtain ⟨e, he, hfind, hetag, hpayload⟩ := find_weights hw hb hs
  refine ⟨e, he, hetag, open_built hw hb (findWeights_of_find htag hfind), ?_⟩
  have hstop := ((parsed_built hw hb).valid.range e (mem_of_find hfind).1).2.2
  unfold AufView.weightsBytes
  simp only [AufWriter.view]
  rw [bind_of_ok (ok_sectionBytes.mpr ⟨hstop, rfl⟩), ← hpayload]
  rfl

/-- The lm_head of a section comes from its column exactly where the columns agree. -/
theorem lmHeadOfColumn_iff (hw : w.WellFormed json metaBytes) (hb : Built w metaBytes out)
    {s : String × List UInt8} (hs : s ∈ w.weightsSections) {e : SectionEntry}
    (he : e ∈ w.weightsEntries metaBytes) (htag : e.tag = s.1)
    (hbytes : (w.view metaBytes out (some (e.offset, e.size))).weightsBytes = .ok (some s.2)) :
    LmHeadOfColumn w (w.view metaBytes out (some (e.offset, e.size))) s ↔ w.ColumnAgrees s := by
  have hmem : s ∈ w.sections metaBytes :=
    List.mem_cons_of_mem _ (List.mem_cons_of_mem _ (List.mem_cons_of_mem _ hs))
  have hlen := length_section_le hw hb hmem
  have hcap := (capabilities_header w w.count (payloadStart w.count)).1
  have hresolve {tag : String} :
    (w.view metaBytes out (some (e.offset, e.size))).resolveVariantTag e.offset = .ok tag ↔
      firstAt s.1 none w.weightsSections = some tag ∧ ∃ b : BackendTag,
        b.weightsSectionTag = some tag :=
    htag ▸ resolve_built hw hb he
  constructor
  · intro hcolumn hpresent entry hentry hdtype hrank tag hfirst hknown j hj hin
    obtain ⟨vocab, hidden, hshape⟩ := List.length_eq_two.mp hrank
    obtain ⟨entry', i, hentry', hi, hin', heq⟩ :=
      hcolumn vocab hidden _
        ((ok_lmHeadQ40Payload rfl hbytes hlen).mpr ⟨hcap.trans hpresent, entry, hentry, hdtype,
        hshape, tag, hresolve.mpr ⟨hfirst, hknown⟩, j, hj, hin, rfl⟩)
    obtain rfl : entry = entry' := Option.some.inj (hentry.symm.trans hentry')
    exact ⟨i, hi, hin', heq⟩
  · intro hagrees vocab hidden p hp
    obtain ⟨hbit, entry, hentry, hdtype, hshape, tag, htag, j, hj, hin, rfl⟩ :=
      (ok_lmHeadQ40Payload rfl hbytes hlen).mp hp
    obtain ⟨hfirst, hknown⟩ := hresolve.mp htag
    obtain ⟨i, hi, hin', heq⟩ :=
      hagrees (hcap.symm.trans hbit) entry hentry hdtype (by rw [hshape]; rfl) tag hfirst
      hknown j hj hin
    exact ⟨entry, i, hentry, hi, hin', heq⟩

theorem toJsonBytes_of (hw : w.WellFormed json metaBytes) :
    json.toJsonBytes w.aufMeta = .ok metaBytes := by
  rw [MetaJson.toJsonBytes, hw.toJson]

/-- A table whose count does not fit its field lacks a required section. -/
theorem count_lt_of_open (hw : w.WellFormed json metaBytes) {v : AufView}
    (hfile : Assembled out (w.header w.count (payloadStart w.count)) (w.entries metaBytes)
      ((w.sections metaBytes).map Prod.snd)) (hv : openFromMmap json out backend = .ok v) :
      w.count < 2 ^ 32 := by
  by_contra hge
  have hn := hw.count
  obtain ⟨s, ho, -⟩ := ok_openFromMmap.mp hv
  have hreads : (w.header w.count (payloadStart w.count)).Reads out := reads_of_assembled hfile
  have hcount := ho.parsed.count
  rw [ho.parsed.reads.unique hreads, (place_header _ _ _).2.1, UInt32.toNat_ofNat'] at hcount
  have hshort : s.sectionTable.entries.length ≤ 2 := by
    rw [hcount]
    unfold AufWriter.count at *
    omega
  have hsub : [TAG_META, TAG_TOKENIZER, TAG_TENSOR_INDEX] ⊆
    s.sectionTable.entries.map SectionEntry.tag := by
    intro tag htag
    simp only [List.mem_cons, List.not_mem_nil, or_false] at htag
    rcases htag with rfl | rfl | rfl
    · exact List.mem_map.mpr ⟨_, mem_of_find ho.metaEntry⟩
    · exact List.mem_map.mpr ⟨_, mem_of_find ho.tokEntry⟩
    · exact List.mem_map.mpr ⟨_, mem_of_find ho.tidxEntry⟩
  have hnodup : [TAG_META, TAG_TOKENIZER, TAG_TENSOR_INDEX].Nodup := by decide
  have hlong := (hnodup.subperm hsub).length_le
  rw [List.length_map] at hlong
  exact absurd hlong (by simp only [List.length_cons, List.length_nil]; omega)

theorem lossless_of_roundTrips (hw : w.WellFormed json metaBytes) (h : RoundTrips json w) :
    w.Lossless metaBytes := by
  have hjson := toJsonBytes_of hw
  obtain ⟨out, hout, ⟨v, hv, -⟩, hbackends⟩ := h
  obtain ⟨-, htags, hsize, -⟩ := (ok_build hjson).mp hout
  obtain ⟨out', hout', hlen, hfile⟩ := exists_build hjson hw.nodup htags hsize
  obtain rfl : out = out' := Except.ok.inj (hout.symm.trans hout')
  have hb : Built w metaBytes out := ⟨count_lt_of_open hw hfile hv, hsize, hlen, hfile⟩
  refine ⟨hb.count, hsize, ?_⟩
  rintro s hs ⟨backend, htag⟩
  obtain ⟨e, he, hetag, hopen, hbytes⟩ := exists_view hw hb hs htag
  obtain ⟨v', hv', -, -, hcolumn⟩ := hbackends backend s hs htag
  obtain rfl := Except.ok.inj (hopen.symm.trans hv')
  exact (lmHeadOfColumn_iff hw hb hs he hetag hbytes).mp hcolumn

theorem roundTrips_of_lossless (hw : w.WellFormed json metaBytes) (h : w.Lossless metaBytes) :
    RoundTrips json w := by
  have htags : ∀ s ∈ w.weightsSections, (asBytes s.1).length ≤ SECTION_TAG_SIZE :=
    fun s hs => (hw.tag s hs).1.1
  obtain ⟨out, hout, hlen, hfile⟩ := exists_build (toJsonBytes_of hw) hw.nodup htags h.size
  have hb : Built w metaBytes out := ⟨h.count, h.size, hlen, hfile⟩
  refine ⟨out, hout, ⟨_, open_built hw hb rfl, sameView_view _ _ _ _⟩, fun backend s hs htag => ?_⟩
  obtain ⟨e, he, hetag, hopen, hbytes⟩ := exists_view hw hb hs htag
  refine ⟨_, hopen, sameView_view _ _ _ _, hbytes, ?_⟩
  exact (lmHeadOfColumn_iff hw hb hs he hetag hbytes).mpr (h.columns s hs ⟨backend, htag⟩)

end Built

/-- **What is written is read back exactly where the file fits and the lm_head columns agree.** -/
theorem round_trip_iff (json : MetaJson) (w : AufWriter) (metaBytes : List UInt8)
    (hw : w.WellFormed json metaBytes) : RoundTrips json w ↔ w.Lossless metaBytes :=
  ⟨lossless_of_roundTrips hw, roundTrips_of_lossless hw⟩

/-! ## An empty section before another -/

/-- The lm_head is byte 0 of the CPU section and byte 1 of the Adreno section. -/
def lmHeadIndex : TensorIndex where
  variantTags := [padded 24 (asBytes TAG_WEIGHTS_CPU_AOS),
    padded 24 (asBytes TAG_WEIGHTS_ADRENO_SOA)]
  entries := [⟨LAYER_IDX_CROSS, TensorKind.lmHead.asU32, TensorDType.q4_0.asU32, [1, 32],
    64, [0, 1], [1, 1]⟩]

/-- Two tokens and no merges. -/
def twoTokens : AufTokenizer := ⟨TOKENIZER_KIND_BPE, [[97], [98]], [], 0, 1, 0, 0, none⟩

/-- A writer of a CPU and an Adreno section. -/
def lmHeadWriter (cpu : List UInt8) : AufWriter :=
  ((((AufWriter.new zeroMeta twoTokens (padded 32 []) 0 0).withLmHeadQ40 true).withTensorIndex
    lmHeadIndex).addWeightsSection TAG_WEIGHTS_CPU_AOS cpu).addWeightsSection
      TAG_WEIGHTS_ADRENO_SOA [4, 5]

theorem fits_twoTokens : twoTokens.Fits :=
  ⟨rfl, by decide, by decide, by decide, by decide, fun ct hct => nomatch hct⟩

theorem fits_lmHeadIndex : lmHeadIndex.Fits := by
  refine ⟨by decide, by decide, fun e he => ?_⟩
  obtain rfl := List.mem_singleton.mp he
  exact ⟨by decide, rfl, rfl⟩

theorem wellFormed_lmHeadWriter (cpu : List UInt8) : (lmHeadWriter cpu).WellFormed zeroJson [] := by
  have htags : ∀ tag ∈ [TAG_WEIGHTS_CPU_AOS, TAG_WEIGHTS_ADRENO_SOA],
      TagFits tag ∧ tag ∉ [TAG_META, TAG_TOKENIZER, TAG_TENSOR_INDEX] := by decide +kernel
  refine ⟨rfl, rfl, fits_twoTokens, fits_lmHeadIndex,
    show 2 < 2 ^ 32 by decide, ?_, fun s hs => htags s.1 ?_⟩
  · show [TAG_WEIGHTS_CPU_AOS, TAG_WEIGHTS_ADRENO_SOA].Nodup
    decide
  · exact List.mem_map_of_mem (f := Prod.fst) hs

/-- With a byte in the CPU section both sections are read back. -/
theorem round_trip_lmHeadWriter : RoundTrips zeroJson (lmHeadWriter [7]) := by
  refine (round_trip_iff zeroJson _ [] (wellFormed_lmHeadWriter [7])).mpr
    ⟨by decide, by decide +kernel, ?_⟩
  intro s hs _ _ entry _ _ _ tag hfirst _ j hj hin
  have hself : ∀ s ∈ (lmHeadWriter [7]).weightsSections,
      firstAt s.1 none (lmHeadWriter [7]).weightsSections = some s.1 := by decide
  obtain rfl : s.1 = tag := Option.some.inj ((hself s hs).symm.trans hfirst)
  exact ⟨j, hj, hin, rfl⟩

/-- An empty CPU section gives the Adreno section its column: the lm_head is the byte 4 instead of
5. -/
theorem round_trip_empty_section : ¬ RoundTrips zeroJson (lmHeadWriter []) := by
  intro h
  have hcolumns := (lossless_of_roundTrips (wellFormed_lmHeadWriter []) h).columns
  obtain ⟨i, hi, -, heq⟩ := hcolumns (TAG_WEIGHTS_ADRENO_SOA, [4, 5]) (by decide)
    ⟨.adrenoSoa, rfl⟩ rfl ⟨LAYER_IDX_CROSS, TensorKind.lmHead.asU32, TensorDType.q4_0.asU32,
    [1, 32], 64, [0, 1], [1, 1]⟩ rfl rfl rfl TAG_WEIGHTS_CPU_AOS (by decide) ⟨.cpuAos, rfl⟩
      0 (by decide +kernel) (by unfold InSection; decide)
  have hone : (lmHeadWriter []).index.variantIndexForTag TAG_WEIGHTS_ADRENO_SOA =
    some 1 := by decide +kernel
  obtain rfl : 1 = i := Option.some.inj (hone.symm.trans hi)
  exact absurd heq (by decide)

end ArgusEngine.Auf
