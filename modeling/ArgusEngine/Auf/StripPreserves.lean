import ArgusEngine.Auf.Total

/-!
# What stripping preserves

A stripped file has the kept sections with their tags, flags, versions and payloads, and stripping
it again changes nothing. The header is a new `v0.1` header: it has the source fields of the
original, but no capability and format version `0.1.0`. The kept sections need not be those that the
reader requires.

* `Moved`, `moved_strippedEntries`: the sections of the stripped file;
* `strip_twice`: stripping is idempotent;
* **`strip_preserves_iff`**: the stripped file means the same exactly for a `0.1.0` original without
  capabilities whose mandatory sections stay.
-/

namespace ArgusEngine.Auf

open FlatMem Checked

variable {json : MetaJson} {original out : List UInt8} {keepTags : List String}
  {keep : List SectionEntry}

/-- The section `k` of `original` is the section `e` of `out`. -/
structure Moved (original out : List UInt8) (k e : SectionEntry) : Prop where
  tag : e.tag = k.tag
  flags : e.flags = k.flags
  version : e.version = k.version
  size : e.size = k.size
  payload : e.payload out = k.payload original

/-! ## The sections -/

theorem tag_entry_piece (k : SectionEntry) (cursor : ℕ) : (k.piece.entry cursor).tag = k.tag := by
  have htext : nulText (padded 24 (asBytes k.tag)) = some k.tag := nulText_padded_nulText k.tagRaw
  rw [SectionEntry.tag, show (k.piece.entry cursor).tagRaw =
    padded 24 (asBytes k.tag) from rfl, htext]
  rfl

theorem attributes_strippedEntries (cursor : ℕ) (keep : List SectionEntry) :
    List.Forall₂ (fun k e : SectionEntry => e.tag = k.tag ∧ e.flags = k.flags ∧
    e.version = k.version ∧ e.size = k.size)
      keep (entriesOf cursor (keep.map SectionEntry.piece)) := by
  induction keep generalizing cursor with
  | nil => exact .nil
  | cons k keep ih =>
    refine .cons ⟨tag_entry_piece k cursor, rfl, rfl, ?_⟩ (ih _)
    exact UInt64.ofNat_toNat

/-- **The kept sections are found in the stripped file.** -/
theorem moved_strippedEntries {h : AufHeader}
    (hfile : Assembled out h (strippedEntries keep) (keep.map (·.payload original))) :
    List.Forall₂ (Moved original out) keep (strippedEntries keep) := by
  have hpayload := hfile.payload
  rw [List.forall₂_map_right_iff] at hpayload
  obtain ⟨hlen, hattr⟩ :=
    List.forall₂_iff_zip.mp (attributes_strippedEntries (payloadStart keep.length) keep)
  obtain ⟨-, hslice⟩ := List.forall₂_iff_zip.mp hpayload.flip
  refine List.forall₂_iff_zip.mpr ⟨hlen, fun hmem => ?_⟩
  obtain ⟨htag, hflags, hversion, hsize⟩ := hattr hmem
  exact ⟨htag, hflags, hversion, hsize, hslice hmem⟩

theorem exists_moved {entries : List SectionEntry}
    (hmoved : List.Forall₂ (Moved original out) keep entries) {k : SectionEntry} (hk : k ∈ keep) :
    ∃ e ∈ entries, Moved original out k e := by
  induction hmoved with
  | nil => cases hk
  | @cons k' e' keep entries hm _ ih =>
    rcases List.mem_cons.mp hk with rfl | hk
    · exact ⟨e', List.mem_cons_self, hm⟩
    · obtain ⟨e, he, hm⟩ := ih hk
      exact ⟨e, List.mem_cons_of_mem _ he, hm⟩

theorem exists_origin {entries : List SectionEntry}
    (hmoved : List.Forall₂ (Moved original out) keep entries) {e : SectionEntry}
    (he : e ∈ entries) : ∃ k ∈ keep, Moved original out k e := by
  induction hmoved with
  | nil => cases he
  | @cons k' e' keep entries hm _ ih =>
    rcases List.mem_cons.mp he with rfl | he
    · exact ⟨k', List.mem_cons_self, hm⟩
    · obtain ⟨k, hk, hm⟩ := ih he
      exact ⟨k, List.mem_cons_of_mem _ hk, hm⟩

theorem Moved.isRequired {k e : SectionEntry} (hm : Moved original out k e) :
    e.isRequired = k.isRequired := by
  rw [SectionEntry.isRequired, SectionEntry.isRequired, hm.flags]

theorem Moved.isStrippable {k e : SectionEntry} (hm : Moved original out k e) :
    e.isStrippable = k.isStrippable := by
  rw [SectionEntry.isStrippable, SectionEntry.isStrippable, hm.flags]

theorem Moved.isCompressed {k e : SectionEntry} (hm : Moved original out k e) :
    e.isCompressed = k.isCompressed := by
  rw [SectionEntry.isCompressed, SectionEntry.isCompressed, hm.flags]

theorem Moved.kept {k e : SectionEntry} (hm : Moved original out k e) :
    e.Kept keepTags ↔ k.Kept keepTags := by
  rw [SectionEntry.Kept, SectionEntry.Kept, hm.isRequired, hm.tag]

theorem Moved.piece {k e : SectionEntry} (hm : Moved original out k e) : e.piece = k.piece := by
  unfold SectionEntry.piece SectionEntry.alignment
  rw [hm.tag, hm.flags, hm.version, hm.size]

theorem tags_of_moved {entries : List SectionEntry}
    (hmoved : List.Forall₂ (Moved original out) keep entries) :
    entries.map SectionEntry.tag = keep.map SectionEntry.tag := by
  induction hmoved with
  | nil => rfl
  | cons hm _ ih => rw [List.map_cons, List.map_cons, hm.tag, ih]

theorem pieces_of_moved {entries : List SectionEntry}
    (hmoved : List.Forall₂ (Moved original out) keep entries) :
    entries.map SectionEntry.piece = keep.map SectionEntry.piece := by
  induction hmoved with
  | nil => rfl
  | cons hm _ ih => rw [List.map_cons, List.map_cons, hm.piece, ih]

theorem payloads_of_moved {entries : List SectionEntry}
    (hmoved : List.Forall₂ (Moved original out) keep entries) :
    entries.map (·.payload out) = keep.map (·.payload original) := by
  induction hmoved with
  | nil => rfl
  | cons hm _ ih => rw [List.map_cons, List.map_cons, hm.payload, ih]

/-! ## The header -/

theorem valid_strippedHeader (h : AufHeader) (n start : ℕ) : (strippedHeader h n start).Valid := by
  refine ⟨rfl, ?_, ?_⟩
  · show (0 : UInt16) ≤ 0
    decide
  · show (0 : UInt64) &&& ~~~READER_KNOWN_CAPABILITIES = 0
    decide

theorem strippedHeader_twice (h : AufHeader) (n start : ℕ) :
    strippedHeader (strippedHeader h n start) n start = strippedHeader h n start := by
  have hcreated : createdByStr (strippedHeader h n start) = createdByStr h := by
    have htext : nulText (padded 32 (asBytes (createdByStr h))) = some (createdByStr h) :=
      nulText_padded_nulText h.createdBy
    rw [createdByStr, show (strippedHeader h n start).createdBy =
      padded 32 (asBytes (createdByStr h)) from rfl, htext]
    rfl
  unfold strippedHeader at hcreated ⊢
  rw [hcreated]
  rfl

/-! ## The stripped file -/

variable {h : AufHeader} {t : SectionTable}

theorem Stripped.moved (hs : Stripped original out keepTags h t keep) :
    List.Forall₂ (Moved original out) keep (strippedEntries keep) :=
  moved_strippedEntries hs.file

theorem Stripped.sublist (hs : Stripped original out keepTags h t keep) :
    keep.Sublist t.entries := by
  rw [hs.kept]
  exact List.filter_sublist

/-- **The reader finds the new header and the kept sections.** -/
theorem Stripped.parsed_out (hs : Stripped original out keepTags h t keep) :
    Parsed out (strippedHeader h keep.length (payloadStart keep.length))
      ⟨strippedEntries keep⟩ := by
  have hsize := hs.size
  have hstart : payloadStart keep.length ≤ strippedSize keep := le_endOf _ _
  have hsize' : strippedSize keep < 2 ^ 64 := by omega
  have hbounds := bounds_entriesOf hsize'
  have hcount : keep.length < 2 ^ 32 := by
    rw [hs.kept]
    exact hs.parsed.length_kept_lt
  refine parsed_of_assembled hs.file (valid_strippedHeader _ _ _) rfl ?_ ?_ ?_ ?_ ?_ ?_
  · rw [strippedEntries, length_entriesOf, List.length_map]
    exact toNat_ofNat32 hcount
  · rw [hs.length]
    omega
  · intro e he
    refine UInt64.le_iff_toNat_le.mpr ?_
    rw [show (strippedHeader h keep.length (payloadStart keep.length)).payloadStartOffset =
      .ofNat (payloadStart keep.length) from rfl, toNat_ofNat64 (by omega)]
    exact (hbounds e he).1
  · exact stacked_entriesOf hsize'
  · rw [tags_of_moved hs.moved]
    exact hs.parsed.valid.nodup.sublist (hs.sublist.map _)
  · intro e he
    obtain ⟨k, hk, hm⟩ := exists_origin hs.moved he
    rw [hm.isRequired, hm.isStrippable]
    exact hs.parsed.valid.flags k (hs.sublist.subset hk)

theorem Stripped.kept_self (hs : Stripped original out keepTags h t keep) :
    keptEntries keepTags (strippedEntries keep) = strippedEntries keep := by
  refine List.filter_eq_self.mpr fun e he => decide_eq_true ?_
  obtain ⟨k, hk, hm⟩ := exists_origin hs.moved he
  rw [hs.kept] at hk
  exact hm.kept.mpr (of_decide_eq_true (List.mem_filter.mp hk).2)

/-- **Stripping a stripped file changes nothing.** -/
theorem strip_twice (hs : Stripped original out keepTags h t keep) :
    stripBytes out keepTags = .ok out := by
  have hsize := hs.size
  have hp := hs.parsed_out
  have hlength : (strippedEntries keep).length = keep.length := by
    rw [strippedEntries, length_entriesOf, List.length_map]
  have hpieces := pieces_of_moved hs.moved
  have hsize' : strippedSize (strippedEntries keep) = strippedSize keep := by
    rw [strippedSize, hlength, hpieces, strippedSize]
  have hentries : strippedEntries (strippedEntries keep) = strippedEntries keep := by
    rw [strippedEntries, hlength, hpieces, strippedEntries]
  refine ok_stripBytes.mpr ⟨_, _, hp, fun e he hnot => ?_, ?_⟩
  · have hmem : e ∈ keptEntries keepTags (strippedEntries keep) := by rwa [hs.kept_self]
    exact absurd (of_decide_eq_true (List.mem_filter.mp hmem).2) hnot
  · have hrange : ∀ k ∈ strippedEntries keep, k.stop < 2 ^ 64 ∧ k.stop ≤ out.length := fun k hk =>
      (hp.valid.range k hk).2
    rw [hs.kept_self, rewrite_eq hrange (by rw [hsize']; omega), hsize', hlength,
      strippedHeader_twice, hentries, payloads_of_moved hs.moved,
      bind_of_ok (ok_vec.mpr ⟨hs.size, rfl⟩)]
    exact hs.copied

/-! ## The meaning of the stripped file -/

/-- The source fields, the format version and the capabilities of two headers are the same. -/
structure SameHeader (h h' : AufHeader) : Prop where
  sourceHash : h'.sourceHash = h.sourceHash
  sourceSize : h'.sourceSize = h.sourceSize
  sourceMtime : h'.sourceMtime = h.sourceMtime
  major : h'.formatMajor = h.formatMajor
  minor : h'.formatMinor = h.formatMinor
  patch : h'.formatPatch = h.formatPatch
  required : h'.capabilityRequired = h.capabilityRequired
  optional : h'.capabilityOptional = h.capabilityOptional

/-- The section of the backend stays. -/
def KeepsBackend (keepTags : List String) (t : SectionTable) (backend : BackendTag) : Prop :=
  ∃ tag, backend.weightsSectionTag = some tag ∧ ∃ e ∈ t.entries, e.tag = tag ∧ e.Kept keepTags

/-- The stripped file `out` means for every kept backend what the file of the view `v` means. -/
structure StripPreserves (json : MetaJson) (original : List UInt8)
    (keepTags : List String) (v : AufView) (out : List UInt8) : Prop where
  accepted : ∀ backend, KeepsBackend keepTags v.sectionTable backend →
    ∃ v₁ v₂, openFromMmap json original backend = .ok v₁ ∧ openFromMmap json out backend = .ok v₂ ∧
      (∀ layerIdx kind dtype, v₂.lookupTensor layerIdx kind dtype =
      v₁.lookupTensor layerIdx kind dtype) ∧ ∀ vocabSize hiddenDim,
      v₂.lmHeadQ40Payload vocabSize hiddenDim = v₁.lmHeadQ40Payload vocabSize hiddenDim
  content : ∃ h t, Parsed out h t ∧ SameHeader v.header h ∧
    List.Forall₂ (Moved original out) (keptEntries keepTags v.sectionTable.entries) t.entries
  twice : stripBytes out keepTags = .ok out

/-- A `0.1.0` file without capabilities whose mandatory sections stay with those of a backend. -/
structure StripSafe (keepTags : List String) (v : AufView) : Prop where
  minor : v.header.formatMinor = 1
  patch : v.header.formatPatch = 0
  required : v.header.capabilityRequired = 0
  optional : v.header.capabilityOptional = 0
  mandatory : (∃ backend, KeepsBackend keepTags v.sectionTable backend) →
    ∀ e ∈ v.sectionTable.entries, e.tag ∈ [TAG_META, TAG_TOKENIZER, TAG_TENSOR_INDEX] →
    e.Kept keepTags

theorem Stripped.find {tag : String} {k : SectionEntry}
    (hs : Stripped original out keepTags h t keep) (hk : t.find tag = some k)
    (hkept : k.Kept keepTags) : ∃ e, (SectionTable.mk (strippedEntries keep)).find tag = some e ∧
    Moved original out k e := by
  obtain ⟨hmem, htag⟩ := mem_of_find hk
  have hkeep : k ∈ keep := by
    rw [hs.kept]
    exact List.mem_filter.mpr ⟨hmem, decide_eq_true hkept⟩
  obtain ⟨e, he, hm⟩ := exists_moved hs.moved hkeep
  exact ⟨e, (find_eq_some hs.parsed_out.valid.nodup).mpr ⟨he, hm.tag.trans htag⟩, hm⟩

theorem Stripped.kept_of_find {tag : String} {e k : SectionEntry}
    (hs : Stripped original out keepTags h t keep)
    (he : (SectionTable.mk (strippedEntries keep)).find tag = some e) (hk : k ∈ t.entries)
    (htag : k.tag = tag) : k.Kept keepTags := by
  obtain ⟨hmem, htag'⟩ := mem_of_find he
  obtain ⟨k', hk', hm⟩ := exists_origin hs.moved hmem
  rw [hs.kept, keptEntries, List.mem_filter] at hk'
  obtain rfl : k' = k :=
    List.inj_on_of_nodup_map hs.parsed.valid.nodup hk'.1 hk
      (hm.tag.symm.trans (htag'.trans htag.symm))
  exact of_decide_eq_true hk'.2

variable {v : AufView} {b₀ : BackendTag}

/-- The views of both files for a backend that stays. -/
theorem Stripped.accepted (hs : Stripped original out keepTags h t keep)
    (hv : openFromMmap json original b₀ = .ok v) (hsafe : StripSafe keepTags v)
    {backend : BackendTag} (hkeeps : KeepsBackend keepTags v.sectionTable backend) :
    ∃ v₁ v₂, openFromMmap json original backend = .ok v₁ ∧ openFromMmap json out backend = .ok v₂ ∧
      v₁.header = v.header ∧ v₂.header = strippedHeader h keep.length (payloadStart keep.length) ∧
      v₂.aufMeta = v₁.aufMeta ∧ v₂.tensorIndex = v₁.tensorIndex := by
  obtain ⟨s, ho, hmeta, htok, htidx, hview⟩ := ok_openFromMmap.mp hv
  obtain ⟨rfl, rfl⟩ := hs.parsed.unique ho.parsed
  have htable : v.sectionTable = s.sectionTable := by rw [hview]
  have hheader : v.header = s.header := by rw [hview]
  have hmandatory := hsafe.mandatory ⟨backend, hkeeps⟩
  rw [htable] at hkeeps hmandatory
  obtain ⟨tag, htag, w, hw, rfl, hwkept⟩ := hkeeps
  have hnodup := ho.parsed.valid.nodup
  have hfindW := (find_eq_some hnodup).mpr ⟨hw, rfl⟩
  obtain ⟨hmemM, htagM⟩ := mem_of_find ho.metaEntry
  obtain ⟨hmemT, htagT⟩ := mem_of_find ho.tokEntry
  obtain ⟨hmemX, htagX⟩ := mem_of_find ho.tidxEntry
  obtain ⟨w', hw', -⟩ := hs.find hfindW hwkept
  obtain ⟨m', hm', hmovedM⟩ := hs.find ho.metaEntry (hmandatory _ hmemM (by rw [htagM]; decide))
  obtain ⟨t', ht', hmovedT⟩ := hs.find ho.tokEntry (hmandatory _ hmemT (by rw [htagT]; decide))
  obtain ⟨x', hx', hmovedX⟩ := hs.find ho.tidxEntry (hmandatory _ hmemX (by rw [htagX]; decide))
  have hcompressed : ∀ e ∈ strippedEntries keep, ¬ e.isCompressed := by
    intro e he
    obtain ⟨k, hk, hm⟩ := exists_origin hs.moved he
    rw [hm.isCompressed]
    exact ho.compressed k (hs.sublist.subset hk)
  have ho₁ : Opened original backend { s with weightsRange := some (w.offset, w.size) } :=
    ⟨ho.parsed, ho.compressed, ho.metaEntry, ho.tokEntry, ho.tidxEntry,
      findWeights_of_find htag hfindW⟩
  have ho₂ : Opened out backend ⟨_, _, m', t', x', some (w'.offset, w'.size)⟩ :=
    ⟨hs.parsed_out, hcompressed, hm', ht', hx', findWeights_of_find htag hw'⟩
  refine ⟨⟨original, s.header, s.sectionTable, v.aufMeta, v.tokenizer, v.tensorIndex,
    some (w.offset, w.size)⟩, ⟨out, strippedHeader s.header keep.length (payloadStart keep.length),
    ⟨strippedEntries keep⟩, v.aufMeta,
      v.tokenizer, v.tensorIndex, some (w'.offset, w'.size)⟩, ?_, ?_, hheader.symm, rfl, rfl, rfl⟩
  · exact ok_openFromMmap.mpr ⟨_, ho₁, hmeta, htok, htidx, rfl⟩
  · refine ok_openFromMmap.mpr ⟨_, ho₂, ?_, ?_, ?_, rfl⟩
    · rw [hmovedM.payload]; exact hmeta
    · rw [hmovedT.payload]; exact htok
    · rw [hmovedX.payload]; exact htidx

theorem lmHeadQ40Payload_of_optional {v : AufView} (h : v.header.capabilityOptional = 0)
    (vocabSize hiddenDim : UInt64) : v.lmHeadQ40Payload vocabSize hiddenDim = .ok none := by
  unfold AufView.lmHeadQ40Payload AufHeader.hasLmHeadQ40
  rw [h]
  rfl

/-- **Stripping preserves the meaning of a file exactly for a `0.1.0` file without capabilities
whose mandatory sections stay.** -/
theorem strip_preserves_iff (json : MetaJson) (original out : List UInt8) (keepTags : List String)
    (b₀ : BackendTag) (v : AufView) (hlen : original.length < 2 ^ 63)
    (hv : openFromMmap json original b₀ = .ok v) (hout : stripBytes original keepTags = .ok out) :
    StripPreserves json original keepTags v out ↔ StripSafe keepTags v := by
  obtain ⟨h, t, keep, hs⟩ := stripped_of_ok hlen hout
  obtain ⟨s, ho, -, -, -, hview⟩ := ok_openFromMmap.mp hv
  obtain ⟨rfl, rfl⟩ := hs.parsed.unique ho.parsed
  have htable : v.sectionTable = s.sectionTable := by rw [hview]
  have hheader : v.header = s.header := by rw [hview]
  constructor
  · intro hpres
    obtain ⟨h', t', hp', hsame, -⟩ := hpres.content
    obtain ⟨rfl, rfl⟩ := hp'.unique hs.parsed_out
    refine ⟨hsame.minor.symm, hsame.patch.symm, hsame.required.symm, hsame.optional.symm, ?_⟩
    rintro ⟨backend, hkeeps⟩ e he htag
    obtain ⟨v₁, v₂, -, hv₂, -⟩ := hpres.accepted backend hkeeps
    obtain ⟨s₂, ho₂, -⟩ := ok_openFromMmap.mp hv₂
    obtain ⟨-, ht₂⟩ := ho₂.parsed.unique hs.parsed_out
    have hm := ho₂.metaEntry
    have ht := ho₂.tokEntry
    have hx := ho₂.tidxEntry
    rw [ht₂] at hm ht hx
    rw [htable] at he
    simp only [List.mem_cons, List.not_mem_nil, or_false] at htag
    rcases htag with htag | htag | htag
    · exact hs.kept_of_find hm he htag
    · exact hs.kept_of_find ht he htag
    · exact hs.kept_of_find hx he htag
  · intro hsafe
    refine ⟨fun backend hkeeps => ?_, ⟨_, _, hs.parsed_out, ?_, ?_⟩, strip_twice hs⟩
    · obtain ⟨v₁, v₂, hv₁, hv₂, hh₁, hh₂, hmeta, hindex⟩ := hs.accepted hv hsafe hkeeps
      refine ⟨v₁, v₂, hv₁, hv₂, fun layerIdx kind dtype => ?_, fun vocabSize hiddenDim => ?_⟩
      · unfold AufView.lookupTensor
        rw [hmeta, hindex]
      · have hopt₁ : v₁.header.capabilityOptional = 0 := hh₁ ▸ hsafe.optional
        have hopt₂ : v₂.header.capabilityOptional = 0 := hh₂ ▸ rfl
        rw [lmHeadQ40Payload_of_optional hopt₁, lmHeadQ40Payload_of_optional hopt₂]
    · have hmajor : s.header.formatMajor = 0 := UInt16.le_zero_iff.mp ho.parsed.header.major
      rw [hheader]
      have hminor := hsafe.minor
      have hpatch := hsafe.patch
      have hrequired := hsafe.required
      have hoptional := hsafe.optional
      rw [hheader] at hminor hpatch hrequired hoptional
      exact ⟨rfl, rfl, rfl, hmajor.symm, hminor.symm, hpatch.symm, hrequired.symm, hoptional.symm⟩
    · rw [htable, ← hs.kept]
      exact hs.moved

/-! ## A file that declares a capability -/

/-- A file with a CPU section and the capabilities `optional`. -/
def cpuFile (optional : UInt64) : List UInt8 :=
  let entries : List SectionEntry := [
    ⟨padded 24 (asBytes TAG_META), 448, 0, SECTION_REQUIRED, 1⟩,
    ⟨padded 24 (asBytes TAG_TOKENIZER), 448, 80, SECTION_REQUIRED, 1⟩,
    ⟨padded 24 (asBytes TAG_TENSOR_INDEX), 528, 32, SECTION_REQUIRED, 1⟩,
    ⟨padded 24 (asBytes TAG_WEIGHTS_CPU_AOS), 560, 3, SECTION_STRIPPABLE, 1⟩]
  let header := AufHeader.newV01 "argus_engine" (padded 32 []) 0 0 4 256 448
  { header with capabilityOptional := optional }.toBytes ++ (SectionTable.mk entries).toBytes ++
      emptyTokenizer 64 ++
    (TensorIndex.mk [] []).toBytes ++ [1, 2, 3]

/-- The checks on a view that stripping to the CPU section depends on. -/
def KeepsCpu (optional : UInt64) (v : AufView) : Prop :=
  v.header.formatMinor = 1 ∧ v.header.formatPatch = 0 ∧ v.header.capabilityRequired = 0 ∧
    v.header.capabilityOptional = optional ∧
    (∀ e ∈ v.sectionTable.entries, e.Kept [TAG_WEIGHTS_CPU_AOS]) ∧
    strippedSize (keptEntries [TAG_WEIGHTS_CPU_AOS] v.sectionTable.entries) < 2 ^ 63

instance (optional : UInt64) (v : AufView) : Decidable (KeepsCpu optional v) :=
  inferInstanceAs (Decidable (_ ∧ _ ∧ _ ∧ _ ∧ _ ∧ _))

theorem exists_view_cpuFile {optional : UInt64}
    (hany : ((openFromMmap zeroJson (cpuFile optional) .cpuAos).toOption.any fun v =>
    KeepsCpu optional v) = true) : ∃ v, openFromMmap zeroJson (cpuFile optional) .cpuAos = .ok v ∧
    KeepsCpu optional v := by
  cases hopen : openFromMmap zeroJson (cpuFile optional) .cpuAos with
  | ok v =>
    rw [hopen] at hany
    exact ⟨v, rfl, of_decide_eq_true hany⟩
  | error e =>
    rw [hopen] at hany
    cases hany

theorem exists_strip_cpuFile {optional : UInt64}
    (hv : openFromMmap zeroJson (cpuFile optional) .cpuAos = .ok v) (hkeeps : KeepsCpu optional v) :
    ∃ out, stripBytes (cpuFile optional) [TAG_WEIGHTS_CPU_AOS] = .ok out := by
  obtain ⟨-, -, -, -, hkept, hsize⟩ := hkeeps
  obtain ⟨s, ho, -, -, -, hview⟩ := ok_openFromMmap.mp hv
  rw [hview] at hkept hsize
  exact exists_stripBytes ho.parsed (fun e he hnot => absurd (hkept e he) hnot) hsize

/-- Without a capability the CPU section keeps its meaning. -/
theorem strip_preserves_cpuFile : ∃ v out, openFromMmap zeroJson (cpuFile 0) .cpuAos = .ok v ∧
    stripBytes (cpuFile 0) [TAG_WEIGHTS_CPU_AOS] = .ok out ∧
    StripPreserves zeroJson (cpuFile 0) [TAG_WEIGHTS_CPU_AOS] v out := by
  have hany : ((openFromMmap zeroJson (cpuFile 0) .cpuAos).toOption.any fun v =>
    KeepsCpu 0 v) = true := by
    decide +kernel
  obtain ⟨v, hv, hkeeps⟩ := exists_view_cpuFile hany
  obtain ⟨out, hout⟩ := exists_strip_cpuFile hv hkeeps
  obtain ⟨hminor, hpatch, hrequired, hoptional, hkept, -⟩ := hkeeps
  refine ⟨v, out, hv, hout, ?_⟩
  exact (strip_preserves_iff _ _ _ _ _ _ (by decide +kernel) hv hout).mpr
    ⟨hminor, hpatch, hrequired, hoptional, fun _ e he _ => hkept e he⟩

/-- A declared lm_head is no longer declared by the stripped file. -/
theorem strip_drops_capability : ∃ v out,
    openFromMmap zeroJson (cpuFile CAPABILITY_BIT_LM_HEAD_Q4_0) .cpuAos = .ok v ∧
    stripBytes (cpuFile CAPABILITY_BIT_LM_HEAD_Q4_0) [TAG_WEIGHTS_CPU_AOS] = .ok out ∧
    ¬ StripPreserves zeroJson (cpuFile CAPABILITY_BIT_LM_HEAD_Q4_0)
    [TAG_WEIGHTS_CPU_AOS] v out := by
  have hany : ((openFromMmap zeroJson (cpuFile CAPABILITY_BIT_LM_HEAD_Q4_0) .cpuAos).toOption.any
      fun v => KeepsCpu CAPABILITY_BIT_LM_HEAD_Q4_0 v) = true := by decide +kernel
  obtain ⟨v, hv, hkeeps⟩ := exists_view_cpuFile hany
  obtain ⟨out, hout⟩ := exists_strip_cpuFile hv hkeeps
  refine ⟨v, out, hv, hout, fun hpres => ?_⟩
  obtain ⟨h, t, keep, hs⟩ := stripped_of_ok (by decide +kernel) hout
  obtain ⟨h', t', hp', hsame, -⟩ := hpres.content
  obtain ⟨rfl, -⟩ := hp'.unique hs.parsed_out
  have hoptional : 0 = CAPABILITY_BIT_LM_HEAD_Q4_0 := hsame.optional.trans hkeeps.2.2.2.1
  exact absurd hoptional (by decide)

end ArgusEngine.Auf
