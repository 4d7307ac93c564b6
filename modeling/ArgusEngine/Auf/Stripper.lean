import Mathlib.Order.Interval.Finset.Nat
import ArgusEngine.Auf.Layout

/-!
# Stripping an AUF file

`stripBytes` keeps the required sections and those of the keep list, and rewrites them behind a new
header and a new table.

* `ok_stripBytes`: when stripping succeeds, and the kept entries;
* **`noPanic_stripBytes`**: it panics only where the end of the section table overflows.
-/

namespace ArgusEngine.Auf

open FlatMem Checked

/-- `str::starts_with`. -/
def startsWith (s pre : String) : Bool := (asBytes pre).isPrefixOf (asBytes s)

/-- Where the next section begins behind a kept one. -/
def SectionEntry.alignment (e : SectionEntry) : ℕ :=
  if startsWith e.tag "WEIGHTS_" then WEIGHTS_ALIGNMENT else 8

/-- A kept section. -/
def SectionEntry.piece (e : SectionEntry) : Piece where
  tag := e.tag
  size := e.size.toNat
  flags := e.flags
  version := e.version
  align := e.alignment

/-- The text before the first NUL of `created_by`. -/
def createdByStr (h : AufHeader) : String := (nulText h.createdBy).getD ""

/-- One copy of the plan: the payload of `old` to the place of `new`. -/
def copySection (original out : List UInt8) (new old : SectionEntry) : AufResult (List UInt8) := do
  let srcEnd ← add old.offset.toNat old.size.toNat
  let dstEnd ← add new.offset.toNat old.size.toNat
  ensure (¬ (srcEnd > original.length ∨ dstEnd > out.length)) (.sectionRangeInvalid "strip copy"
    s!"src {old.offset}..{srcEnd} or dst {new.offset}..{dstEnd} out of bounds")
  copyAt out new.offset.toNat (← index original old.offset.toNat srcEnd)

/-- The header of the stripped file. -/
def strippedHeader (header : AufHeader) (count payloadStart : ℕ) : AufHeader :=
  .newV01 (createdByStr header) header.sourceHash header.sourceSize
    header.sourceMtime (.ofNat count) (.ofNat HEADER_SIZE) (.ofNat payloadStart)

/-- `rewrite_sections_into_bytes`. -/
def rewriteSectionsIntoBytes (original : List UInt8) (header : AufHeader)
    (keep : List SectionEntry) : AufResult (List UInt8) := do
  let payloadStart ← alignUpChecked (← add HEADER_SIZE (keep.length * 48)) WEIGHTS_ALIGNMENT
  let (entries, total) ← layOut payloadStart (keep.map SectionEntry.piece)
  let out ← vec 0 total
  let out ← copyAt out 0 (strippedHeader header keep.length payloadStart).toBytes
  let out ← copyAt out HEADER_SIZE (SectionTable.mk entries).toBytes
  (entries.zip keep).foldlM (fun out p => copySection original out p.1 p.2) out

/-- A section that stays. -/
def SectionEntry.Kept (keepTags : List String) (e : SectionEntry) : Prop :=
  e.isRequired ∨ e.tag ∈ keepTags

instance (keepTags : List String) (e : SectionEntry) : Decidable (e.Kept keepTags) :=
  inferInstanceAs (Decidable (e.isRequired ∨ e.tag ∈ keepTags))

/-- The sections that stay; one that is neither required, kept nor strippable is an error. -/
def sectionsToKeep (keepTags : List String) : List SectionEntry → AufResult (List SectionEntry)
  | [] => .ok []
  | e :: entries =>
    if e.Kept keepTags then do return e :: (← sectionsToKeep keepTags entries)
    else do
      ensure e.isStrippable (.other s!"Section '{e.tag}' is not strippable")
      sectionsToKeep keepTags entries

/-- `strip_bytes`. -/
def stripBytes (original : List UInt8) (keepTags : List String) : AufResult (List UInt8) := do
  ensure (HEADER_SIZE ≤ original.length) .fileTooSmall
  let header ← AufHeader.fromBytes original
  header.validate
  let sectionTableEnd ← add header.sectionTableOffset.toNat (header.sectionCount.toNat * 48)
  ensure (sectionTableEnd ≤ original.length) .sectionTableTruncated
  let sectionTable ← SectionTable.fromBytes (← indexFrom original header.sectionTableOffset.toNat)
    header.sectionCount
  sectionTable.validateUniqueTags
  sectionTable.validateFlags
  sectionTable.validateRanges header.payloadStartOffset original.length
  let keep ← sectionsToKeep keepTags sectionTable.entries
  rewriteSectionsIntoBytes original header keep

/-! ## The kept sections -/

/-- The sections that stay, in order. -/
def keptEntries (keepTags : List String) (entries : List SectionEntry) : List SectionEntry :=
  entries.filter fun e => e.Kept keepTags

variable {keepTags : List String} {original : List UInt8}

theorem ok_sectionsToKeep {entries keep : List SectionEntry} :
    sectionsToKeep keepTags entries = .ok keep ↔
    (∀ e ∈ entries, ¬ e.Kept keepTags → e.isStrippable) ∧ keep = keptEntries keepTags entries := by
  induction entries generalizing keep with
  | nil =>
    simp only [sectionsToKeep, keptEntries, Except.ok.injEq, List.not_mem_nil, false_implies,
      implies_true, true_and, List.filter_nil]
    exact eq_comm
  | cons e entries ih =>
    rw [sectionsToKeep, List.forall_mem_cons, keptEntries, List.filter_cons]
    by_cases hkept : e.Kept keepTags
    · rw [if_pos hkept, if_pos (decide_eq_true hkept)]
      simp only [ok_bind, ih, pure, Except.pure, Except.ok.injEq]
      constructor
      · rintro ⟨k, ⟨hstrip, rfl⟩, rfl⟩
        exact ⟨⟨fun h => absurd hkept h, hstrip⟩, rfl⟩
      · rintro ⟨⟨-, hstrip⟩, rfl⟩
        exact ⟨_, ⟨hstrip, rfl⟩, rfl⟩
    · rw [if_neg hkept, if_neg (by simpa using hkept)]
      simp only [ok_bind, ok_ensure, ih, exists_and_left, exists_const]
      constructor
      · rintro ⟨he, hstrip, rfl⟩
        exact ⟨⟨fun _ => he, hstrip⟩, rfl⟩
      · rintro ⟨⟨he, hstrip⟩, rfl⟩
        exact ⟨he hkept, hstrip, rfl⟩

theorem noPanic_sectionsToKeep (entries : List SectionEntry) :
    NoPanic (sectionsToKeep keepTags entries) := by
  induction entries with
  | nil => exact noPanic_ok _
  | cons e entries ih =>
    rw [sectionsToKeep]
    split_ifs
    · exact noPanic_bind.mpr ⟨ih, fun _ _ => noPanic_pure _⟩
    · exact noPanic_bind.mpr ⟨noPanic_ensure, fun _ _ => ih⟩

/-! ## The rewritten file -/

/-- The copies of the plan, where they stay inside both files. -/
theorem foldlM_copySection {entries keep : List SectionEntry} {out : List UInt8}
    (hsizes : List.Forall₂ (fun e k : SectionEntry => e.size.toNat = k.size.toNat) entries keep)
    (hsrc : ∀ k ∈ keep, k.stop < 2 ^ 64 ∧ k.stop ≤ original.length)
    (hdst : ∀ e ∈ entries, e.stop < 2 ^ 64 ∧ e.stop ≤ out.length) :
    (entries.zip keep).foldlM (fun out p => copySection original out p.1 p.2) out =
      copies ((entries.map fun e => e.offset.toNat).zip (keep.map (·.payload original))) out := by
  induction hsizes generalizing out with
  | nil => rfl
  | @cons e k entries keep hsize _ ih =>
    obtain ⟨hk64, hk⟩ := hsrc k List.mem_cons_self
    obtain ⟨he64, he⟩ := hdst e List.mem_cons_self
    have hpayload : (k.payload original).length = e.size.toNat := (length_slice hk).trans hsize.symm
    have hend : e.offset.toNat + k.size.toNat = e.stop := by rw [SectionEntry.stop, hsize]
    have hone : copySection original out e k =
        .ok (blit (k.payload original) 0 out e.offset.toNat (k.payload original).length) := by
      rw [copySection, bind_of_ok (ok_add.mpr ⟨hk64, rfl⟩),
        bind_of_ok (ok_add.mpr ⟨hend ▸ he64, rfl⟩),
        bind_of_ok
          (ensure_of (by rw [hend]; exact fun h => h.elim (Nat.not_lt.mpr hk) (Nat.not_lt.mpr he))),
        bind_of_ok (ok_index.mpr ⟨⟨Nat.le_add_right _ _, hk⟩, rfl⟩), Nat.add_sub_cancel_left]
      refine copyAt_of_le ?_
      rw [show (slice original k.offset.toNat k.size.toNat).length = _ from hpayload]
      exact he
    rw [List.zip_cons_cons, List.foldlM_cons, bind_of_ok hone, ih fun x hx =>
      hsrc x (List.mem_cons_of_mem _ hx)]
    · rw [List.map_cons, List.map_cons, List.zip_cons_cons, copies, copies, List.foldlM_cons,
        copyAt_of_le (by rw [hpayload]; exact he), ok_seq]
    · intro x hx
      rw [length_blit]
      exact hdst x (List.mem_cons_of_mem _ hx)

/-- The layout of the kept sections. -/
def strippedEntries (keep : List SectionEntry) : List SectionEntry :=
  entriesOf (payloadStart keep.length) (keep.map SectionEntry.piece)

/-- The length of the stripped file. -/
def strippedSize (keep : List SectionEntry) : ℕ :=
  endOf (payloadStart keep.length) (keep.map SectionEntry.piece)

theorem tag_piece_le (keep : List SectionEntry) :
    ∀ p ∈ keep.map SectionEntry.piece, (asBytes p.tag).length ≤ SECTION_TAG_SIZE := by
  intro p hp
  obtain ⟨e, -, rfl⟩ := List.mem_map.mp hp
  exact (asBytes_nulText e.tagRaw).1

theorem sizes_strippedEntries {keep : List SectionEntry} (hsize : strippedSize keep < 2 ^ 64) :
    List.Forall₂ (fun e k : SectionEntry => e.size.toNat = k.size.toNat)
      (strippedEntries keep) keep := by
  have hsizes := sizes_entriesOf hsize
  rwa [List.forall₂_map_right_iff] at hsizes

/-- **A rewrite that fits 64 bits** allocates the file and copies its blocks. -/
theorem rewrite_eq {header : AufHeader} {keep : List SectionEntry}
    (hsrc : ∀ k ∈ keep, k.stop < 2 ^ 64 ∧ k.stop ≤ original.length)
    (hsize : strippedSize keep < 2 ^ 64) :
    rewriteSectionsIntoBytes original header keep = vec 0 (strippedSize keep) >>=
      copies (blocks (strippedHeader header keep.length (payloadStart keep.length))
        (strippedEntries keep) (keep.map (·.payload original))) := by
  have hstart : payloadStart keep.length ≤ strippedSize keep := le_endOf _ _
  have htable := le_payloadStart keep.length
  have hlay : layOut (payloadStart keep.length) (keep.map SectionEntry.piece) =
      .ok (strippedEntries keep, strippedSize keep) :=
    (ok_layOut (by omega)).mpr ⟨tag_piece_le keep, hsize, rfl⟩
  rw [rewriteSectionsIntoBytes, bind_of_ok (ok_add.mpr ⟨by omega, rfl⟩),
    bind_of_ok ((ok_alignUpChecked (by omega)).mpr ⟨show payloadStart keep.length <
      2 ^ 64 by omega, rfl⟩)]
  rw [show alignUp (HEADER_SIZE + keep.length * 48) WEIGHTS_ALIGNMENT =
    payloadStart keep.length from rfl, bind_of_ok hlay]
  simp only
  refine bind_congr_ok fun out hout => ?_
  obtain ⟨-, rfl⟩ := ok_vec.mp hout
  rw [copies, blocks, List.foldlM_cons]
  refine bind_congr_ok fun out₁ h₁ => ?_
  rw [List.foldlM_cons]
  refine bind_congr_ok fun out₂ h₂ => ?_
  refine foldlM_copySection (sizes_strippedEntries hsize) hsrc fun e he => ?_
  have hstop : e.stop ≤ strippedSize keep := (bounds_entriesOf hsize e he).2
  rw [length_of_copyAt h₂, length_of_copyAt h₁, List.length_replicate]
  exact ⟨by omega, hstop⟩

/-! ## Stripping -/

theorem ok_stripBytes {out : List UInt8} : stripBytes original keepTags = .ok out ↔
    ∃ h t, Parsed original h t ∧ (∀ e ∈ t.entries, ¬ e.Kept keepTags → e.isStrippable) ∧
      rewriteSectionsIntoBytes original h (keptEntries keepTags t.entries) = .ok out := by
  simp only [stripBytes, ok_bind, ok_headerFromBytes, ok_validate, ok_add, ok_ensure, ok_indexFrom,
    ok_tableFromBytes, ok_validateUniqueTags, SectionTable.validateFlags, ok_forM,
    ok_validateRanges, ok_sectionsToKeep]
  constructor
  · rintro ⟨-, hlen, h, ⟨-, hr⟩, -, hv, _, ⟨hfits, rfl⟩, -, hend, _, ⟨-, rfl⟩, _, ⟨-, rfl⟩, -,
      hnodup, -, hflags, -, ⟨hrange, hapart⟩, _, ⟨hstrip, rfl⟩, hout⟩
    exact ⟨h, _, ⟨hlen, hr, hv, hfits, hend, rfl, ⟨hnodup, hflags, hrange, hapart⟩⟩, hstrip, hout⟩
  · rintro ⟨h, t, hp, hstrip, hout⟩
    exact ⟨(), hp.length, h, ⟨hp.length, hp.reads⟩, (), hp.header, _, ⟨hp.tableFits, rfl⟩,
      (), hp.tableEnd, _, ⟨hp.tableStart_le, rfl⟩, t, ⟨hp.tableCount_le, hp.table⟩, (),
      hp.valid.nodup, (), hp.valid.flags, (), ⟨hp.valid.range, hp.valid.apart⟩,
      _, ⟨hstrip, rfl⟩, hout⟩

/-- Sections that do not overlap are together no longer than the file. -/
theorem sum_sizes_le {entries : List SectionEntry} {n : ℕ}
    (hapart : entries.Pairwise SectionEntry.Apart) (hstop : ∀ e ∈ entries, e.stop ≤ n) :
    (entries.map fun e => e.size.toNat).sum ≤ n := by
  -- the bytes of the sections, counted once
  suffices hset : ∃ s : Finset ℕ, s.card = (entries.map fun e => e.size.toNat).sum ∧
      ∀ x ∈ s, ∃ e ∈ entries, e.offset.toNat ≤ x ∧ x < e.stop by
    obtain ⟨s, hcard, hs⟩ := hset
    rw [← hcard, ← Finset.card_range n]
    refine Finset.card_le_card fun x hx => Finset.mem_range.mpr ?_
    obtain ⟨e, he, -, hlt⟩ := hs x hx
    exact Nat.lt_of_lt_of_le hlt (hstop e he)
  clear hstop
  induction entries with
  | nil => exact ⟨∅, rfl, fun x hx => absurd hx (Finset.notMem_empty x)⟩
  | cons e entries ih =>
    obtain ⟨hfirst, hrest⟩ := List.pairwise_cons.mp hapart
    obtain ⟨s, hcard, hs⟩ := ih hrest
    have hdisj : Disjoint (Finset.Ico e.offset.toNat e.stop) s := by
      refine Finset.disjoint_left.mpr fun x hx hx' => ?_
      obtain ⟨e', he', hlo, hhi⟩ := hs x hx'
      rw [Finset.mem_Ico] at hx
      exact hfirst e' he' ⟨Nat.lt_of_le_of_lt hx.1 hhi, Nat.lt_of_le_of_lt hlo hx.2⟩
    refine ⟨Finset.Ico e.offset.toNat e.stop ∪ s, ?_, fun x hx => ?_⟩
    · rw [Finset.card_union_of_disjoint hdisj, Nat.card_Ico, hcard, List.map_cons, List.sum_cons,
        SectionEntry.stop, Nat.add_sub_cancel_left]
    · rcases Finset.mem_union.mp hx with hx | hx
      · exact ⟨e, List.mem_cons_self, (Finset.mem_Ico.mp hx).1, (Finset.mem_Ico.mp hx).2⟩
      · obtain ⟨e', he', hrange⟩ := hs x hx
        exact ⟨e', List.mem_cons_of_mem _ he', hrange⟩

theorem align_piece (keep : List SectionEntry) :
    ∀ p ∈ keep.map SectionEntry.piece, 0 < p.align ∧ p.align ≤ WEIGHTS_ALIGNMENT := by
  intro p hp
  obtain ⟨e, -, rfl⟩ := List.mem_map.mp hp
  unfold SectionEntry.piece SectionEntry.alignment
  dsimp only
  split_ifs <;> decide

theorem Parsed.count {h : AufHeader} {t : SectionTable} (hp : Parsed original h t) :
    t.entries.length = h.sectionCount.toNat := by
  rw [hp.table, SectionTable.ofBytes, List.length_map, List.length_range]

theorem Parsed.length_kept_lt {h : AufHeader} {t : SectionTable} (hp : Parsed original h t) :
    (keptEntries keepTags t.entries).length < 2 ^ 32 := by
  have hle : (keptEntries keepTags t.entries).length ≤ t.entries.length := List.length_filter_le _ _
  rw [hp.count] at hle
  exact Nat.lt_of_le_of_lt hle h.sectionCount.toNat_lt

theorem Parsed.strippedSize_lt {h : AufHeader} {t : SectionTable} (hp : Parsed original h t)
    (hlen : original.length < 2 ^ 63) : strippedSize (keptEntries keepTags t.entries) < 2 ^ 64 := by
  have hsub : (keptEntries keepTags t.entries).Sublist t.entries := List.filter_sublist
  have hcount : (keptEntries keepTags t.entries).length < 2 ^ 32 := hp.length_kept_lt
  have hsum : ((keptEntries keepTags t.entries).map fun e => e.size.toNat).sum ≤ original.length :=
    sum_sizes_le (hp.valid.apart.sublist hsub) fun e he => (hp.valid.range e (hsub.subset he)).2.2
  have hend := endOf_le (payloadStart (keptEntries keepTags t.entries).length)
    (align_piece (keptEntries keepTags t.entries))
  have hstart : payloadStart (keptEntries keepTags t.entries).length ≤
      HEADER_SIZE + (keptEntries keepTags t.entries).length * 48 + WEIGHTS_ALIGNMENT :=
      alignUp_le _ (by decide)
  rw [List.map_map, List.length_map, show Piece.size ∘ SectionEntry.piece = fun e =>
    e.size.toNat from rfl] at hend
  unfold strippedSize
  unfold HEADER_SIZE WEIGHTS_ALIGNMENT at *
  omega

theorem Parsed.kept_range {h : AufHeader} {t : SectionTable} (hp : Parsed original h t) :
    ∀ k ∈ keptEntries keepTags t.entries, k.stop < 2 ^ 64 ∧ k.stop ≤ original.length := fun k hk =>
  (hp.valid.range k (List.mem_filter.mp hk).1).2

theorem exists_stripped {h : AufHeader} {keep : List SectionEntry}
    (hrange : ∀ k ∈ keep, k.stop < 2 ^ 64 ∧ k.stop ≤ original.length)
    (hsize : strippedSize keep < 2 ^ 64) :
    ∃ out, copies (ε := AufError) (blocks (strippedHeader h keep.length (payloadStart keep.length))
        (strippedEntries keep) (keep.map (·.payload original)))
          (List.replicate (strippedSize keep) 0) = .ok out ∧
      out.length = strippedSize keep ∧
      Assembled out (strippedHeader h keep.length (payloadStart keep.length)) (strippedEntries keep)
        (keep.map (·.payload original)) := by
  have hcount : (strippedEntries keep).length = keep.length := by
    rw [strippedEntries, length_entriesOf, List.length_map]
  have hstart := le_payloadStart keep.length
  have hbounds := bounds_entriesOf hsize
  refine exists_assembled ?_ (stacked_entriesOf hsize) (fun e he => ?_)
    (fun e he => (hbounds e he).2) ?_
  · rw [List.forall₂_map_right_iff]
    have hsizes := (List.forall₂_and_left _ _).mpr ⟨hrange, (sizes_strippedEntries hsize).flip⟩
    exact hsizes.flip.imp fun e k hk => Eq.trans hk.2 (length_slice hk.1.2).symm
  · rw [hcount]
    exact Nat.le_trans hstart (hbounds e he).1
  · rw [hcount]
    exact Nat.le_trans hstart (le_endOf _ _)

/-- **Stripping panics exactly where the end of the section table overflows.** -/
theorem noPanic_stripBytes (hlen : original.length < 2 ^ 63) :
    NoPanic (stripBytes original keepTags) ↔ ∀ h : AufHeader, HEADER_SIZE ≤ original.length →
    h.Reads original → h.Valid →
      h.sectionTableOffset.toNat + h.sectionCount.toNat * 48 < 2 ^ 64 := by
  simp only [stripBytes, noPanic_bind, noPanic_ensure, noPanic_headerFromBytes,
    noPanic_validate, noPanic_add, noPanic_indexFrom, noPanic_tableFromBytes,
    SectionTable.validateUniqueTags, noPanic_uniqueTags, noPanic_validateRanges,
    noPanic_sectionsToKeep, ok_ensure, ok_headerFromBytes, ok_validate, ok_add, ok_indexFrom,
    ok_tableFromBytes, true_and]
  constructor
  · intro hno h hsize hr hv
    exact (hno () hsize h ⟨hsize, hr⟩ () hv).1
  · intro hfits _ _ h hr _ hv
    refine ⟨hfits h hr.1 hr.2 hv, ?_⟩
    rintro _ ⟨htable, rfl⟩ - hend
    refine ⟨by omega, ?_⟩
    rintro _ ⟨-, rfl⟩ _ ⟨-, rfl⟩ _ hnodup
    refine ⟨noPanic_forM fun _ _ => noPanic_ensure, ?_⟩
    intro _ hflags _ hranges keep hkeep
    obtain ⟨-, rfl⟩ := ok_sectionsToKeep.mp hkeep
    obtain ⟨hrange, hapart⟩ := ok_validateRanges.mp hranges
    have hp : Parsed original h
      (.ofBytes (original.drop h.sectionTableOffset.toNat) h.sectionCount.toNat) := by
      refine ⟨hr.1, hr.2, hv, htable, hend, rfl, ?_, ?_, hrange, hapart⟩
      · simpa [ok_uniqueTags] using hnodup
      · simpa only [SectionTable.validateFlags, ok_forM, ok_ensure] using hflags
    have hsize : strippedSize (keptEntries keepTags _) < 2 ^ 64 := hp.strippedSize_lt hlen
    rw [rewrite_eq hp.kept_range hsize, noPanic_bind]
    refine ⟨noPanic_vec, fun out hout => ?_⟩
    obtain ⟨-, rfl⟩ := ok_vec.mp hout
    obtain ⟨out, hout, -⟩ := exists_stripped (h := h) hp.kept_range hsize
    rw [hout]
    exact noPanic_ok _

/-- What stripping makes of `original`: the kept sections behind a new header. -/
structure Stripped (original out : List UInt8) (keepTags : List String) (h : AufHeader)
    (t : SectionTable) (keep : List SectionEntry) : Prop where
  parsed : Parsed original h t
  kept : keep = keptEntries keepTags t.entries
  size : strippedSize keep < 2 ^ 63
  copied : copies (ε := AufError) (blocks (strippedHeader h keep.length (payloadStart keep.length))
    (strippedEntries keep) (keep.map (·.payload original)))
      (List.replicate (strippedSize keep) 0) = .ok out
  length : out.length = strippedSize keep
  file : Assembled out (strippedHeader h keep.length (payloadStart keep.length))
    (strippedEntries keep) (keep.map (·.payload original))

/-- **A file that was stripped.** -/
theorem stripped_of_ok (hlen : original.length < 2 ^ 63) {out : List UInt8}
    (hout : stripBytes original keepTags = .ok out) :
    ∃ h t keep, Stripped original out keepTags h t keep := by
  obtain ⟨h, t, hp, hstrip, hrewrite⟩ := ok_stripBytes.mp hout
  have hsize : strippedSize (keptEntries keepTags t.entries) < 2 ^ 64 := hp.strippedSize_lt hlen
  rw [rewrite_eq hp.kept_range hsize, ok_bind] at hrewrite
  obtain ⟨_, hvec, hcopies⟩ := hrewrite
  obtain ⟨hsize', rfl⟩ := ok_vec.mp hvec
  obtain ⟨out', hout', hlen', hassembled⟩ := exists_stripped (h := h) hp.kept_range hsize
  obtain rfl : out' = out := Except.ok.inj (hout'.symm.trans hcopies)
  exact ⟨h, t, _, hp, rfl, hsize', hcopies, hlen', hassembled⟩

theorem exists_stripBytes {h : AufHeader} {t : SectionTable} (hp : Parsed original h t)
    (hstrip : ∀ e ∈ t.entries, ¬ e.Kept keepTags → e.isStrippable)
    (hsize : strippedSize (keptEntries keepTags t.entries) < 2 ^ 63) :
    ∃ out, stripBytes original keepTags = .ok out := by
  have hsize' : strippedSize (keptEntries keepTags t.entries) < 2 ^ 64 := by omega
  obtain ⟨out, hout, -⟩ := exists_stripped (h := h) hp.kept_range hsize'
  refine ⟨out, ok_stripBytes.mpr ⟨h, t, hp, hstrip, ?_⟩⟩
  rw [rewrite_eq hp.kept_range hsize', bind_of_ok (ok_vec.mpr ⟨hsize, rfl⟩)]
  exact hout

end ArgusEngine.Auf
