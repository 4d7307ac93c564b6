import ArgusEngine.Auf.RoundTrip
import ArgusEngine.Auf.StripPreserves

/-!
# The layout of AUF files

The writer aligns each section for the one that follows, the stripper for the one just written:
behind META, TOKENIZER and TENSOR_INDEX a stripped file goes on at a multiple of 8, whatever comes
next.

* `WellLaid`: the sections of a file lie apart in its payload area, WEIGHTS sections at multiples of
  64 KiB and the others at multiples of 8;
* `wellLaid_built`: so in every file that was built;
* `wellLaid_stripped`: in a stripped file exactly where the sections kept before a WEIGHTS section
  fill whole 64 KiB;
* **`wellLaid_run`**: in every file of a run of strippings.
-/

namespace ArgusEngine.Auf

open FlatMem Checked

def SectionEntry.isWeights (e : SectionEntry) : Bool := startsWith e.tag "WEIGHTS_"

/-- The entries that the header of the file points to. -/
def fileEntries (bytes : List UInt8) (h : AufHeader) : List SectionEntry :=
  (SectionTable.ofBytes (bytes.drop h.sectionTableOffset.toNat) h.sectionCount.toNat).entries

/-- The sections lie apart in the payload area, each at its alignment. -/
structure LaidOut (bytes : List UInt8) (start : ℕ) (entries : List SectionEntry) : Prop where
  apart : entries.Pairwise fun a b => a.stop ≤ b.offset.toNat ∨ b.stop ≤ a.offset.toNat
  inside : ∀ e ∈ entries, start ≤ e.offset.toNat ∧ e.stop ≤ bytes.length
  aligned : ∀ e ∈ entries, 8 ∣ e.offset.toNat
  weights : ∀ e ∈ entries, e.isWeights → 65536 ∣ e.offset.toNat

/-- The header of the file points to sections that are laid out. -/
def WellLaid (bytes : List UInt8) : Prop :=
  ∃ h : AufHeader, h.Reads bytes ∧ LaidOut bytes h.payloadStartOffset.toNat (fileEntries bytes h)

/-! ## The table of a file put together -/

section Table

variable {h : AufHeader} {entries : List SectionEntry} {payloads : List (List UInt8)}
  {out : List UInt8}

theorem ofBytes_take (entries : List SectionEntry) (rest : List UInt8) {n : ℕ}
    (hn : n ≤ entries.length) : SectionTable.ofBytes ((SectionTable.mk entries).toBytes ++ rest) n =
    ⟨entries.take n⟩ := by
  have hbytes : (SectionTable.mk entries).toBytes =
      (SectionTable.mk (entries.take n)).toBytes ++ (SectionTable.mk (entries.drop n)).toBytes := by
    rw [SectionTable.toBytes, SectionTable.toBytes, SectionTable.toBytes, ← List.flatMap_append,
      List.take_append_drop]
  have hread := ofBytes_tableToBytes ⟨entries.take n⟩
    ((SectionTable.mk (entries.drop n)).toBytes ++ rest)
  rwa [List.length_take_of_le hn, ← List.append_assoc, ← hbytes] at hread

theorem fileEntries_of_assembled (hfile : Assembled out h entries payloads)
    (hoff : h.sectionTableOffset.toNat = HEADER_SIZE)
    (hcount : h.sectionCount.toNat ≤ entries.length) :
    fileEntries out h = entries.take h.sectionCount.toNat := by
  have hsplit : out.drop HEADER_SIZE = (SectionTable.mk entries).toBytes ++
      (out.drop HEADER_SIZE).drop (entries.length * 48) := by
    have htake : (out.drop HEADER_SIZE).take (entries.length * 48) = _ := hfile.table
    rw [← htake, List.take_append_drop]
  rw [fileEntries, hoff, hsplit, ofBytes_take entries _ hcount]

theorem LaidOut.take {start : ℕ} (hl : LaidOut out start entries) (n : ℕ) :
    LaidOut out start (entries.take n) :=
  ⟨hl.apart.sublist (List.take_sublist n _), fun e he => hl.inside e (List.mem_of_mem_take he),
    fun e he => hl.aligned e (List.mem_of_mem_take he), fun e he =>
      hl.weights e (List.mem_of_mem_take he)⟩

end Table

/-! ## Cursors -/

theorem dvd_offset_entriesOf {a cursor : ℕ} {ps : List Piece} (hcursor : a ∣ cursor)
    (halign : ∀ p ∈ ps, 0 < p.align ∧ a ∣ p.align) (hend : endOf cursor ps < 2 ^ 64) :
    ∀ e ∈ entriesOf cursor ps, a ∣ e.offset.toNat := by
  induction ps generalizing cursor with
  | nil => exact fun e he => absurd he List.not_mem_nil
  | cons p ps ih =>
    obtain ⟨hpos, hdvd⟩ := halign p List.mem_cons_self
    have hle := le_endOf (p.next cursor) ps
    have hnext := p.le_next cursor
    rw [endOf] at hend
    intro e he
    rcases List.mem_cons.mp he with rfl | he
    · rwa [offset_entry (by omega)]
    · exact ih (hdvd.trans (dvd_alignUp hpos))
        (fun q hq => halign q (List.mem_cons_of_mem _ hq)) hend e he

theorem dvd_payloadStart (n : ℕ) : 65536 ∣ payloadStart n :=
  dvd_alignUp (show 0 < WEIGHTS_ALIGNMENT by decide)

theorem apart_entriesOf {cursor : ℕ} {ps : List Piece} (hend : endOf cursor ps < 2 ^ 64) :
    (entriesOf cursor ps).Pairwise fun a b => a.stop ≤ b.offset.toNat ∨ b.stop ≤ a.offset.toNat :=
  (stacked_entriesOf hend).imp fun hle => .inl hle

/-! ## Built files -/

section Built

variable {w : AufWriter} {json : MetaJson} {metaBytes out : List UInt8}

theorem not_isWeights_required : ∀ e ∈ w.requiredEntries metaBytes, e.isWeights = false := by
  have htags : ∀ tag ∈ [TAG_META, TAG_TOKENIZER, TAG_TENSOR_INDEX],
      TagFits tag ∧ startsWith tag "WEIGHTS_" = false := by decide +kernel
  have hpieces : ∀ p ∈ requiredPieces metaBytes w.tokenizer.toBytes w.index.toBytes,
      p.tag ∈ [TAG_META, TAG_TOKENIZER, TAG_TENSOR_INDEX] := by
    intro p hp
    simp only [requiredPieces, List.mem_cons, List.not_mem_nil, or_false] at hp
    rcases hp with rfl | rfl | rfl <;> simp [requiredPiece]
  intro e he
  have hmem : e.tag ∈ (w.requiredEntries metaBytes).map SectionEntry.tag := List.mem_map_of_mem he
  rw [AufWriter.requiredEntries, tags_entriesOf fun p hp => (htags _ (hpieces p hp)).1] at hmem
  obtain ⟨p, hp, htag⟩ := List.mem_map.mp hmem
  rw [SectionEntry.isWeights, ← htag]
  exact (htags _ (hpieces p hp)).2

theorem laidOut_entries (hsize : w.fileSize metaBytes < 2 ^ 63)
    (hlen : out.length = w.fileSize metaBytes) :
    LaidOut out (payloadStart w.count) (w.entries metaBytes) := by
  have hend : endOf (payloadStart w.count) (w.pieces metaBytes) < 2 ^ 64 := by
    rw [← AufWriter.fileSize_eq]
    omega
  have hweights : endOf (w.weightsStart metaBytes)
    (w.weightsSections.map weightsPiece) < 2 ^ 64 := by
    have hfile : w.fileSize metaBytes < 2 ^ 64 := by omega
    exact hfile
  refine ⟨?_, fun e he => ?_, ?_, fun e he hw => ?_⟩
  · rw [AufWriter.entries_eq]
    exact apart_entriesOf hend
  · rw [AufWriter.entries_eq] at he
    rw [hlen, AufWriter.fileSize_eq]
    exact bounds_entriesOf hend e he
  · rw [AufWriter.entries_eq]
    refine dvd_offset_entriesOf (Nat.dvd_trans (by decide) (dvd_payloadStart _))
      (fun p hp => ?_) hend
    rcases List.mem_append.mp hp with hp | hp
    · simp only [requiredPieces, List.mem_cons, List.not_mem_nil, or_false] at hp
      rcases hp with rfl | rfl | rfl <;> simp only [requiredPiece] <;> decide
    · obtain ⟨s, -, rfl⟩ := List.mem_map.mp hp
      exact ⟨show 0 < WEIGHTS_ALIGNMENT by decide, show 8 ∣ WEIGHTS_ALIGNMENT by decide⟩
  · rcases List.mem_append.mp he with he | he
    · rw [not_isWeights_required e he] at hw
      cases hw
    · refine dvd_offset_entriesOf (dvd_weightsStart w metaBytes) (fun p hp => ?_) hweights e he
      obtain ⟨s, -, rfl⟩ := List.mem_map.mp hp
      exact ⟨show 0 < WEIGHTS_ALIGNMENT by decide, Nat.dvd_refl _⟩

/-- **A file that was built is laid out.** -/
theorem wellLaid_built (hout : w.build json = .ok out) : WellLaid out ∧ out.length < 2 ^ 63 := by
  obtain ⟨metaBytes, hjson⟩ : ∃ b, json.toJsonBytes w.aufMeta = .ok b := by
    obtain ⟨b, hb, -⟩ := ok_bind.mp hout
    exact ⟨b, hb⟩
  obtain ⟨hnodup, htags, hsize, -⟩ := (ok_build hjson).mp hout
  obtain ⟨out', hout', hlen, hfile⟩ := exists_build hjson hnodup htags hsize
  obtain rfl : out = out' := Except.ok.inj (hout.symm.trans hout')
  obtain ⟨hoffset, hcount, hpayload⟩ := place_header w w.count (payloadStart w.count)
  have hstart : payloadStart w.count ≤ w.fileSize metaBytes := by
    rw [AufWriter.fileSize_eq]
    exact le_endOf _ _
  refine ⟨⟨_, reads_of_assembled hfile, ?_⟩, hlen ▸ hsize⟩
  rw [fileEntries_of_assembled hfile (by rw [hoffset]; rfl), hpayload, toNat_ofNat64 (by omega)]
  · exact (laidOut_entries hsize hlen).take _
  · rw [hcount, AufWriter.length_entries, UInt32.toNat_ofNat']
    exact Nat.mod_le _ _

end Built

/-! ## Stripped files -/

/-- Before each WEIGHTS section the others since the last one, each rounded up to 8, fill whole 64
KiB. -/
def WeightsAligned : (since : ℕ) → List SectionEntry → Prop
  | _, [] => True
  | since, e :: es =>
    if e.isWeights then 65536 ∣ since ∧ WeightsAligned 0 es
    else WeightsAligned (since + alignUp e.size.toNat 8) es

instance decidableWeightsAligned : (since : ℕ) → (es : List SectionEntry) →
    Decidable (WeightsAligned since es)
  | _, [] => inferInstanceAs (Decidable True)
  | since, e :: es =>
    haveI := decidableWeightsAligned 0 es
    haveI := decidableWeightsAligned (since + alignUp e.size.toNat 8) es
    inferInstanceAs (Decidable (if e.isWeights then 65536 ∣ since ∧ WeightsAligned 0 es
      else WeightsAligned (since + alignUp e.size.toNat 8) es))

/-- The sections that stay of the file are aligned. -/
def StepAligned (bytes : List UInt8) (keepTags : List String) : Prop :=
  ∀ h : AufHeader, h.Reads bytes → WeightsAligned 0 (keptEntries keepTags (fileEntries bytes h))

theorem alignUp_add {a b align : ℕ} (hpos : 0 < align) (h : align ∣ a) :
    alignUp (a + b) align = a + alignUp b align := by
  obtain ⟨k, rfl⟩ := h
  rw [alignUp, alignUp, if_neg (Nat.ne_of_gt hpos), if_neg (Nat.ne_of_gt hpos),
    show align * k + b + align - 1 = align * k + (b + align - 1)
      by omega, Nat.mul_add_div hpos, Nat.add_mul,
    Nat.mul_comm k align]

/-- **The WEIGHTS sections of a stripped file**, with the cursor `since` bytes behind a multiple of
64 KiB. -/
theorem weights_aligned_iff {cursor since : ℕ} {keep : List SectionEntry}
    (hsince : cursor % 65536 = since % 65536) (hcursor : 8 ∣ cursor)
    (hend : endOf cursor (keep.map SectionEntry.piece) < 2 ^ 64) :
    (∀ e ∈ entriesOf cursor (keep.map SectionEntry.piece), e.isWeights → 65536 ∣ e.offset.toNat) ↔
      WeightsAligned since keep := by
  induction keep generalizing cursor since with
  | nil => exact ⟨fun _ => trivial, fun _ e he => absurd he List.not_mem_nil⟩
  | cons k keep ih =>
    have hle := le_endOf (k.piece.next cursor) (keep.map SectionEntry.piece)
    have hnext := k.piece.le_next cursor
    rw [List.map_cons, endOf] at hend
    rw [List.map_cons, entriesOf, List.forall_mem_cons, WeightsAligned, SectionEntry.isWeights,
      tag_entry_piece, offset_entry (by omega)]
    by_cases hw : k.isWeights
    · -- behind a WEIGHTS section the cursor is at a multiple of 64 KiB again
      have halign : k.piece.align = 65536 := if_pos hw
      have hdvd : 65536 ∣ k.piece.next cursor := by
        rw [Piece.next, halign]
        exact dvd_alignUp (by decide)
      have hzero : k.piece.next cursor % 65536 = 0 % 65536 := Nat.mod_eq_zero_of_dvd hdvd
      rw [if_pos hw, ← ih hzero (Nat.dvd_trans (by decide) hdvd) hend,
        Nat.dvd_iff_mod_eq_zero, Nat.dvd_iff_mod_eq_zero, hsince]
      exact and_congr (forall_prop_of_true hw) Iff.rfl
    · have halign : k.piece.align = 8 := if_neg hw
      have hpos : k.piece.next cursor = cursor + alignUp k.size.toNat 8 := by
        rw [Piece.next, halign, alignUp_add (by decide) hcursor]
        rfl
      rw [if_neg hw, ← ih (by rw [hpos, Nat.add_mod, hsince, ← Nat.add_mod])
        (by rw [hpos]; exact Nat.dvd_add hcursor (dvd_alignUp (by decide))) hend]
      exact and_iff_right fun h => absurd h hw

section Stripped

variable {original out : List UInt8} {keepTags : List String} {h : AufHeader} {t : SectionTable}
  {keep : List SectionEntry}

theorem Parsed.fileEntries_eq (hp : Parsed original h t) : fileEntries original h = t.entries := by
  rw [fileEntries, ← hp.table]

theorem wellLaid_iff_of_parsed (hp : Parsed original h t) :
    WellLaid original ↔ LaidOut original h.payloadStartOffset.toNat t.entries := by
  rw [← hp.fileEntries_eq]
  refine ⟨?_, fun hl => ⟨h, hp.reads, hl⟩⟩
  rintro ⟨h', hr', hl⟩
  obtain rfl := hr'.unique hp.reads
  exact hl

theorem stepAligned_iff_of_parsed (hp : Parsed original h t) :
    StepAligned original keepTags ↔ WeightsAligned 0 (keptEntries keepTags t.entries) := by
  rw [← hp.fileEntries_eq]
  refine ⟨fun hs => hs h hp.reads, fun hw h' hr' => ?_⟩
  obtain rfl := hr'.unique hp.reads
  exact hw

/-- **A stripped file is laid out exactly where the sections kept before a WEIGHTS section fill
whole 64 KiB.** -/
theorem wellLaid_stripped (hlen : original.length < 2 ^ 63)
    (hout : stripBytes original keepTags = .ok out) :
    (WellLaid out ↔ StepAligned original keepTags) ∧ out.length < 2 ^ 63 := by
  obtain ⟨h, t, keep, hs⟩ := stripped_of_ok hlen hout
  have hsize := hs.size
  have hend : endOf (payloadStart keep.length) (keep.map SectionEntry.piece) < 2 ^ 64 := by
    have h64 : strippedSize keep < 2 ^ 64 := by omega
    exact h64
  have hstart : payloadStart keep.length ≤ strippedSize keep := le_endOf _ _
  have hweights : (∀ e ∈ strippedEntries keep, e.isWeights → 65536 ∣ e.offset.toNat) ↔
    WeightsAligned 0 keep :=
    weights_aligned_iff (Nat.mod_eq_zero_of_dvd (dvd_payloadStart _))
      (Nat.dvd_trans (by decide) (dvd_payloadStart _)) hend
  refine ⟨?_, hs.length ▸ hsize⟩
  rw [wellLaid_iff_of_parsed hs.parsed_out, stepAligned_iff_of_parsed hs.parsed,
    ← hs.kept, ← hweights,
    show (strippedHeader h keep.length (payloadStart keep.length)).payloadStartOffset =
      .ofNat (payloadStart keep.length) from rfl, toNat_ofNat64 (by omega)]
  refine ⟨LaidOut.weights, fun hw => ⟨apart_entriesOf hend, fun e he => ?_, ?_, hw⟩⟩
  · rw [hs.length]
    exact bounds_entriesOf hend e he
  · refine dvd_offset_entriesOf (Nat.dvd_trans (by decide) (dvd_payloadStart _))
      (fun p hp => ?_) hend
    obtain ⟨k, -, rfl⟩ := List.mem_map.mp hp
    unfold SectionEntry.piece SectionEntry.alignment
    dsimp only
    split_ifs <;> decide

end Stripped

/-! ## Runs of strippings -/

/-- Each file of the run is what stripping makes of the one before it. -/
def Strippings : List UInt8 → List (List String × List UInt8) → Prop
  | _, [] => True
  | bytes, (keepTags, out) :: run => stripBytes bytes keepTags = .ok out ∧ Strippings out run

/-- The sections that stay are aligned at every step. -/
def AlignedRun : List UInt8 → List (List String × List UInt8) → Prop
  | _, [] => True
  | bytes, (keepTags, out) :: run => StepAligned bytes keepTags ∧ AlignedRun out run

theorem wellLaid_strippings {bytes : List UInt8} {run : List (List String × List UInt8)}
    (hlen : bytes.length < 2 ^ 63) (hrun : Strippings bytes run) :
    (∀ s ∈ run, WellLaid s.2) ↔ AlignedRun bytes run := by
  induction run generalizing bytes with
  | nil => exact ⟨fun _ => trivial, fun _ s hs => absurd hs List.not_mem_nil⟩
  | cons s run ih =>
    obtain ⟨keepTags, out⟩ := s
    obtain ⟨hstep, hlen'⟩ := wellLaid_stripped hlen hrun.1
    rw [List.forall_mem_cons, AlignedRun, hstep, ih hlen' hrun.2]

/-- **A built file is laid out, and so is every file stripped from it exactly where each step keeps
sections that fill whole 64 KiB before every WEIGHTS section.** -/
theorem wellLaid_run (w : AufWriter) (json : MetaJson) (out : List UInt8)
    (run : List (List String × List UInt8)) (hout : w.build json = .ok out)
    (hrun : Strippings out run) : (WellLaid out ∧ ∀ s ∈ run, WellLaid s.2) ↔
    AlignedRun out run := by
  obtain ⟨hlaid, hlen⟩ := wellLaid_built hout
  rw [← wellLaid_strippings hlen hrun]
  exact and_iff_right hlaid

/-! ## A stripped file with a CPU section -/

theorem exists_built_lmHeadWriter : ∃ out h, (lmHeadWriter [7]).build zeroJson = .ok out ∧
    Parsed out h ⟨(lmHeadWriter [7]).entries []⟩ := by
  have hw := wellFormed_lmHeadWriter [7]
  have hsize : (lmHeadWriter [7]).fileSize [] < 2 ^ 63 := by decide +kernel
  obtain ⟨out, hout, hlen, hfile⟩ := exists_build (toJsonBytes_of hw)
    hw.nodup (fun s hs => (hw.tag s hs).1.1) hsize
  exact ⟨out, _, hout, parsed_built hw ⟨by decide, hsize, hlen, hfile⟩⟩

/-- The file without its WEIGHTS sections is laid out. -/
theorem wellLaid_without_weights : ∃ out out', (lmHeadWriter [7]).build zeroJson = .ok out ∧
    stripBytes out [] = .ok out' ∧ WellLaid out ∧ WellLaid out' := by
  obtain ⟨out, h, hout, hp⟩ := exists_built_lmHeadWriter
  obtain ⟨out', hout'⟩ : ∃ out', stripBytes out [] = .ok out' :=
    exists_stripBytes hp (by decide +kernel) (by decide +kernel)
  have hrun := (wellLaid_run _ _ out [([], out')] hout ⟨hout', trivial⟩).mpr
    ⟨(stepAligned_iff_of_parsed hp).mpr (by decide +kernel), trivial⟩
  exact ⟨out, out', hout, hout', hrun.1, hrun.2 _ List.mem_cons_self⟩

/-- The CPU section of the stripped file begins behind the tensor index, at no multiple of 64
KiB. -/
theorem strip_misaligns_weights : ∃ out out', (lmHeadWriter [7]).build zeroJson = .ok out ∧
    stripBytes out [TAG_WEIGHTS_CPU_AOS] = .ok out' ∧ ¬ WellLaid out' := by
  obtain ⟨out, h, hout, hp⟩ := exists_built_lmHeadWriter
  obtain ⟨out', hout'⟩ : ∃ out', stripBytes out [TAG_WEIGHTS_CPU_AOS] = .ok out' :=
    exists_stripBytes hp (by decide +kernel) (by decide +kernel)
  refine ⟨out, out', hout, hout', fun hlaid => ?_⟩
  have hstep := (wellLaid_stripped (wellLaid_built hout).2 hout').1.mp hlaid
  exact absurd ((stepAligned_iff_of_parsed hp).mp hstep) (by decide +kernel)

end ArgusEngine.Auf
