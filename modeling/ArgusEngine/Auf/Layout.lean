import ArgusEngine.Auf.Reader

/-!
# Laying out sections

The writer and the stripper place sections one after another behind the table: each section begins
at the cursor, which then moves to the next multiple of the section's alignment. `layOut` is that
loop with its checked arithmetic, `endOf` and `entriesOf` are where it ends and the entries it
makes.

* `ok_layOut`: the loop succeeds exactly where the layout fits 64 bits;
* `stacked_entriesOf`: each section ends before the next one begins;
* **`exists_assembled`**, **`parsed_of_assembled`**: a header, a stacked table and its payloads make
  a file in which the reader finds them.
-/

namespace ArgusEngine.Auf

open FlatMem Checked

/-- The next multiple of `align`. -/
def alignUp (val align : ℕ) : ℕ := if align = 0 then val else (val + align - 1) / align * align

/-- `align_up`, with the product checked. -/
def alignUpChecked (val align : ℕ) : AufResult ℕ :=
  if align = 0 then .ok val else mul ((val + align - 1) / align) align

/-- `META_ALIGNMENT`. -/
def META_ALIGNMENT : ℕ := 8

/-- A section to be placed. -/
structure Piece where
  tag : String
  size : ℕ
  flags : UInt32
  version : UInt32
  align : ℕ

/-- The sections from the cursor on: their entries and the cursor behind them. -/
def layOut : (cursor : ℕ) → List Piece → AufResult (List SectionEntry × ℕ)
  | cursor, [] => .ok ([], cursor)
  | cursor, p :: ps => do
    let e ← SectionEntry.new p.tag (.ofNat cursor) (.ofNat p.size) p.flags p.version
    let next ← alignUpChecked (← add cursor p.size) p.align
    let (entries, stop) ← layOut next ps
    return (e :: entries, stop)

def Piece.next (p : Piece) (cursor : ℕ) : ℕ := alignUp (cursor + p.size) p.align

def Piece.entry (p : Piece) (cursor : ℕ) : SectionEntry where
  tagRaw := padded 24 (asBytes p.tag)
  offset := .ofNat cursor
  size := .ofNat p.size
  flags := p.flags
  version := p.version

/-- The cursor behind the sections. -/
def endOf : (cursor : ℕ) → List Piece → ℕ
  | cursor, [] => cursor
  | cursor, p :: ps => endOf (p.next cursor) ps

/-- The entries of the sections. -/
def entriesOf : (cursor : ℕ) → List Piece → List SectionEntry
  | _, [] => []
  | cursor, p :: ps => p.entry cursor :: entriesOf (p.next cursor) ps

/-! ## The cursor -/

theorem le_alignUp (val align : ℕ) : val ≤ alignUp val align := by
  unfold alignUp
  split_ifs with h
  · exact Nat.le_refl _
  · have hdiv := Nat.lt_div_mul_add (a := val + align - 1) (Nat.pos_of_ne_zero h)
    omega

theorem alignUp_le (val : ℕ) {align : ℕ} (h : 0 < align) : alignUp val align ≤ val + align := by
  rw [alignUp, if_neg (Nat.ne_of_gt h)]
  have hdiv := Nat.div_mul_le_self (val + align - 1) align
  omega

theorem ok_alignUpChecked {val align n : ℕ} (hval : val < 2 ^ 64) :
    alignUpChecked val align = .ok n ↔ alignUp val align < 2 ^ 64 ∧ n = alignUp val align := by
  unfold alignUpChecked alignUp
  split_ifs with h
  · simp only [Except.ok.injEq, hval, true_and, eq_comm]
  · exact ok_mul

theorem Piece.le_next (p : Piece) (cursor : ℕ) : cursor + p.size ≤ p.next cursor := le_alignUp _ _

theorem le_endOf (cursor : ℕ) (ps : List Piece) : cursor ≤ endOf cursor ps := by
  induction ps generalizing cursor with
  | nil => exact Nat.le_refl _
  | cons p ps ih =>
    exact Nat.le_trans (Nat.le_trans (Nat.le_add_right _ _) (p.le_next cursor)) (ih _)

theorem endOf_le {a : ℕ} (cursor : ℕ) {ps : List Piece} (h : ∀ p ∈ ps, 0 < p.align ∧ p.align ≤ a) :
    endOf cursor ps ≤ cursor + (ps.map Piece.size).sum + ps.length * a := by
  induction ps generalizing cursor with
  | nil => simp [endOf]
  | cons p ps ih =>
    obtain ⟨hpos, hle⟩ := h p List.mem_cons_self
    have hrest := ih (p.next cursor) fun q hq => h q (List.mem_cons_of_mem _ hq)
    have hnext : p.next cursor ≤ cursor + p.size + p.align := alignUp_le _ hpos
    rw [endOf, List.map_cons, List.sum_cons, List.length_cons, Nat.succ_mul]
    omega

theorem endOf_append (cursor : ℕ) (ps qs : List Piece) :
    endOf cursor (ps ++ qs) = endOf (endOf cursor ps) qs := by
  induction ps generalizing cursor with
  | nil => rfl
  | cons p ps ih => exact ih _

theorem entriesOf_append (cursor : ℕ) (ps qs : List Piece) :
    entriesOf cursor (ps ++ qs) = entriesOf cursor ps ++ entriesOf (endOf cursor ps) qs := by
  induction ps generalizing cursor with
  | nil => rfl
  | cons p ps ih => exact congrArg (List.cons _) (ih _)

@[simp] theorem length_entriesOf (cursor : ℕ) (ps : List Piece) :
    (entriesOf cursor ps).length = ps.length := by
  induction ps generalizing cursor with
  | nil => rfl
  | cons p ps ih => exact congrArg Nat.succ (ih _)

/-- **The loop succeeds exactly where the tags fit their field and the layout fits 64 bits.** -/
theorem ok_layOut {cursor : ℕ} {ps : List Piece} {r : List SectionEntry × ℕ}
    (hcursor : cursor < 2 ^ 64) : layOut cursor ps = .ok r ↔
    (∀ p ∈ ps, (asBytes p.tag).length ≤ SECTION_TAG_SIZE) ∧ endOf cursor ps < 2 ^ 64 ∧
      r = (entriesOf cursor ps, endOf cursor ps) := by
  induction ps generalizing cursor r with
  | nil =>
    rw [layOut, endOf, entriesOf]
    exact ⟨fun h => ⟨fun _ hp => absurd hp List.not_mem_nil, hcursor, (Except.ok.inj h).symm⟩,
      fun h => congrArg Except.ok h.2.2.symm⟩
  | cons p ps ih =>
    simp only [layOut, ok_bind, ok_entryNew, ok_add, List.forall_mem_cons, endOf, entriesOf]
    have hend := le_endOf (p.next cursor) ps
    have hnext := p.le_next cursor
    constructor
    · rintro ⟨e, ⟨htag, rfl⟩, x, ⟨hx, rfl⟩, n, hn, r', hr', hr⟩
      obtain ⟨hfits, rfl⟩ := (ok_alignUpChecked hx).mp hn
      obtain ⟨htags, hend', rfl⟩ := (ih hfits).mp hr'
      exact ⟨⟨htag, htags⟩, hend', (Except.ok.inj hr).symm⟩
    · rintro ⟨⟨htag, htags⟩, hend', rfl⟩
      have hfits : p.next cursor < 2 ^ 64 := by omega
      exact ⟨_, ⟨htag, rfl⟩, _, ⟨by omega, rfl⟩, _,
        (ok_alignUpChecked (by omega)).mpr ⟨hfits, rfl⟩, _,
        (ih hfits).mpr ⟨htags, hend', rfl⟩, rfl⟩

/-! ## The entries -/

variable {cursor : ℕ} {ps : List Piece}

theorem offset_entry {p : Piece} (h : cursor < 2 ^ 64) :
    (p.entry cursor).offset.toNat = cursor := by
  rw [Piece.entry, UInt64.toNat_ofNat', Nat.mod_eq_of_lt h]

theorem size_entry {p : Piece} (h : p.size < 2 ^ 64) : (p.entry cursor).size.toNat = p.size := by
  rw [Piece.entry, UInt64.toNat_ofNat', Nat.mod_eq_of_lt h]

theorem stop_entry {p : Piece} (h : p.next cursor < 2 ^ 64) :
    (p.entry cursor).stop = cursor + p.size := by
  have hle := p.le_next cursor
  rw [SectionEntry.stop, offset_entry (by omega), size_entry (by omega)]

theorem bounds_entriesOf (hend : endOf cursor ps < 2 ^ 64) :
    ∀ e ∈ entriesOf cursor ps, cursor ≤ e.offset.toNat ∧ e.stop ≤ endOf cursor ps := by
  induction ps generalizing cursor with
  | nil => exact fun e he => absurd he List.not_mem_nil
  | cons p ps ih =>
    have hle := le_endOf (p.next cursor) ps
    have hnext := p.le_next cursor
    rw [endOf] at hend ⊢
    intro e he
    rcases List.mem_cons.mp he with rfl | he
    · rw [offset_entry (by omega), stop_entry (by omega)]
      exact ⟨Nat.le_refl _, by omega⟩
    · have hrest := ih hend e he
      exact ⟨by omega, hrest.2⟩

/-- **Each section ends before the next one begins.** -/
theorem stacked_entriesOf (hend : endOf cursor ps < 2 ^ 64) :
    (entriesOf cursor ps).Pairwise fun a b => a.stop ≤ b.offset.toNat := by
  induction ps generalizing cursor with
  | nil => exact List.Pairwise.nil
  | cons p ps ih =>
    have hle := le_endOf (p.next cursor) ps
    have hnext := p.le_next cursor
    rw [endOf] at hend
    refine List.pairwise_cons.mpr ⟨fun e he => ?_, ih hend⟩
    rw [stop_entry (by omega)]
    exact Nat.le_trans hnext (bounds_entriesOf hend e he).1

theorem sizes_entriesOf (hend : endOf cursor ps < 2 ^ 64) :
    List.Forall₂ (fun e p => e.size.toNat = p.size) (entriesOf cursor ps) ps := by
  induction ps generalizing cursor with
  | nil => exact .nil
  | cons p ps ih =>
    have hle := le_endOf (p.next cursor) ps
    have hnext := p.le_next cursor
    rw [endOf] at hend
    exact .cons (size_entry (by omega)) (ih hend)

/-- Where the payloads begin behind a table of `count` entries. -/
def payloadStart (count : ℕ) : ℕ := alignUp (HEADER_SIZE + count * 48) WEIGHTS_ALIGNMENT

theorem le_payloadStart (count : ℕ) : HEADER_SIZE + count * 48 ≤ payloadStart count :=
  le_alignUp _ _

/-! ## A file put together -/

/-- The file has the header, the table of the entries, and each payload at its entry. -/
structure Assembled (out : List UInt8) (h : AufHeader) (entries : List SectionEntry)
    (payloads : List (List UInt8)) : Prop where
  header : slice out 0 HEADER_SIZE = h.toBytes
  tableEnd : HEADER_SIZE + entries.length * 48 ≤ out.length
  table : slice out HEADER_SIZE (entries.length * 48) = (SectionTable.mk entries).toBytes
  range : ∀ e ∈ entries, e.stop ≤ out.length
  payload : List.Forall₂ (fun e b => slice out e.offset.toNat e.size.toNat = b) entries payloads

/-- The blocks of a file: the header, the table, the payloads. -/
def blocks (h : AufHeader) (entries : List SectionEntry) (payloads : List (List UInt8)) :
    List (ℕ × List UInt8) :=
  (0, h.toBytes) :: (HEADER_SIZE, (SectionTable.mk entries).toBytes) ::
    (entries.map fun e => e.offset.toNat).zip payloads

section Assembly

variable {h : AufHeader} {entries : List SectionEntry} {payloads : List (List UInt8)}
  {out : List UInt8}

theorem mem_zip_offsets
    (hsizes : List.Forall₂ (fun e b => e.size.toNat = List.length b) entries payloads)
    {w : ℕ × List UInt8} (hw : w ∈ (entries.map fun e => e.offset.toNat).zip payloads) :
    ∃ e ∈ entries, w.1 = e.offset.toNat ∧ w.1 + w.2.length = e.stop := by
  induction hsizes with
  | nil => cases hw
  | @cons e b entries payloads hsize _ ih =>
    rcases List.mem_cons.mp hw with rfl | hw
    · exact ⟨e, List.mem_cons_self, rfl, by rw [SectionEntry.stop, hsize]⟩
    · obtain ⟨x, hx, hrest⟩ := ih hw
      exact ⟨x, List.mem_cons_of_mem _ hx, hrest⟩

theorem pairwise_zip_offsets
    (hsizes : List.Forall₂ (fun e b => e.size.toNat = List.length b) entries payloads)
    (hstack : entries.Pairwise fun a b => a.stop ≤ b.offset.toNat) :
    ((entries.map fun e => e.offset.toNat).zip payloads).Pairwise fun w w' =>
      w.1 + w.2.length ≤ w'.1 := by
  induction hsizes with
  | nil => exact List.Pairwise.nil
  | @cons e b entries payloads hsize hsizes ih =>
    obtain ⟨hfirst, hrest⟩ := List.pairwise_cons.mp hstack
    refine List.pairwise_cons.mpr ⟨fun w hw => ?_, ih hrest⟩
    obtain ⟨x, hx, hoff, -⟩ := mem_zip_offsets hsizes hw
    have hstop := hfirst x hx
    rw [SectionEntry.stop, hsize] at hstop
    rw [hoff]
    exact hstop

theorem forall₂_of_zip
    (hsizes : List.Forall₂ (fun e b => e.size.toNat = List.length b) entries payloads)
    (hblocks : ∀ w ∈ (entries.map fun e => e.offset.toNat).zip payloads,
      slice out w.1 w.2.length = w.2) :
    List.Forall₂ (fun e b => slice out e.offset.toNat e.size.toNat = b) entries payloads := by
  induction hsizes with
  | nil => exact .nil
  | @cons e b entries payloads hsize _ ih =>
    refine .cons ?_ (ih fun w hw => hblocks w (List.mem_cons_of_mem _ hw))
    rw [hsize]
    exact hblocks (e.offset.toNat, b) List.mem_cons_self

/-- **Header, table and stacked payloads copied into zeroes make a file.** -/
theorem exists_assembled {total : ℕ}
    (hsizes : List.Forall₂ (fun e b => e.size.toNat = List.length b) entries payloads)
    (hstack : entries.Pairwise fun a b => a.stop ≤ b.offset.toNat)
    (hstart : ∀ e ∈ entries, HEADER_SIZE + entries.length * 48 ≤ e.offset.toNat)
    (hstop : ∀ e ∈ entries, e.stop ≤ total) (htable : HEADER_SIZE + entries.length * 48 ≤ total) :
    ∃ out, copies (ε := AufError) (blocks h entries payloads) (List.replicate total 0) = .ok out ∧
      out.length = total ∧ Assembled out h entries payloads := by
  have hheader : h.toBytes.length = HEADER_SIZE := length_headerToBytes h
  have htableLen : (SectionTable.mk entries).toBytes.length = entries.length * 48 :=
    length_tableToBytes _
  have hin : ∀ w ∈ blocks h entries payloads, w.1 + w.2.length ≤
    (List.replicate total (0 : UInt8)).length := by
    rw [List.length_replicate]
    intro w hw
    rcases List.mem_cons.mp hw with rfl | hw
    · exact Nat.le_trans (by simp [hheader]) htable
    · rcases List.mem_cons.mp hw with rfl | hw
      · exact Nat.le_trans (by rw [htableLen]) htable
      · obtain ⟨e, he, -, hend⟩ := mem_zip_offsets hsizes hw
        exact hend ▸ hstop e he
  have hapart : (blocks h entries payloads).Pairwise fun w w' => w.1 + w.2.length ≤ w'.1 := by
    refine List.pairwise_cons.mpr ⟨fun w hw => ?_, List.pairwise_cons.mpr ⟨fun w hw => ?_, ?_⟩⟩
    · rcases List.mem_cons.mp hw with rfl | hw
      · exact Nat.le_of_eq (by simp [hheader])
      · obtain ⟨e, he, hoff, -⟩ := mem_zip_offsets hsizes hw
        have hle := hstart e he
        simp only [hheader, hoff]
        omega
    · obtain ⟨e, he, hoff, -⟩ := mem_zip_offsets hsizes hw
      have hle := hstart e he
      simp only [htableLen, hoff]
      exact hle
    · exact pairwise_zip_offsets hsizes hstack
  obtain ⟨out, hout, hlen, -, hblocks⟩ := copies_of_apart (ε := AufError) hin hapart
  rw [List.length_replicate] at hlen
  refine ⟨out, hout, hlen, ?_, hlen ▸ htable, ?_, fun e he => hlen ▸ hstop e he, ?_⟩
  · have hblock := hblocks _ List.mem_cons_self
    rwa [hheader] at hblock
  · have hblock := hblocks _ (List.mem_cons_of_mem _ List.mem_cons_self)
    rwa [htableLen] at hblock
  · exact forall₂_of_zip hsizes fun w hw =>
      hblocks w (List.mem_cons_of_mem _ (List.mem_cons_of_mem _ hw))

theorem reads_of_assembled (hfile : Assembled out h entries payloads) : h.Reads out := by
  have hsplit : out = h.toBytes ++ out.drop HEADER_SIZE := by
    have htake : out.take HEADER_SIZE = h.toBytes := hfile.header
    rw [← htake, List.take_append_drop]
  rw [hsplit]
  exact reads_headerToBytes h _

/-- **The header and the table are found in the file.** -/
theorem parsed_of_assembled (hfile : Assembled out h entries payloads) (hvalid : h.Valid)
    (hoff : h.sectionTableOffset.toNat = HEADER_SIZE)
    (hcount : h.sectionCount.toNat = entries.length) (htotal : out.length < 2 ^ 64)
    (hstart : ∀ e ∈ entries, h.payloadStartOffset ≤ e.offset)
    (hstack : entries.Pairwise fun a b => a.stop ≤ b.offset.toNat)
    (hnodup : (entries.map SectionEntry.tag).Nodup)
    (hflags : ∀ e ∈ entries, ¬ (e.isRequired ∧ e.isStrippable)) : Parsed out h ⟨entries⟩ := by
  have hend := hfile.tableEnd
  have hlen : HEADER_SIZE ≤ out.length := by omega
  have hreads := reads_of_assembled hfile
  have htable : SectionTable.mk entries = .ofBytes (out.drop HEADER_SIZE) entries.length := by
    have hsplit : out.drop HEADER_SIZE = (SectionTable.mk entries).toBytes ++
        (out.drop HEADER_SIZE).drop (entries.length * 48) := by
      have htake : (out.drop HEADER_SIZE).take (entries.length * 48) = _ := hfile.table
      rw [← htake, List.take_append_drop]
    rw [hsplit]
    exact (ofBytes_tableToBytes ⟨entries⟩ _).symm
  refine ⟨hlen, hreads, hvalid, ?_, ?_, ?_, hnodup, hflags, ?_, ?_⟩
  · rw [hoff, hcount]; omega
  · rw [hoff, hcount]; exact hend
  · rw [hoff, hcount]; exact htable
  · intro e he
    have hstop := hfile.range e he
    exact ⟨hstart e he, by omega, hstop⟩
  · exact hstack.imp fun hle hover => absurd hover.2 (Nat.not_lt.mpr hle)

end Assembly

end ArgusEngine.Auf
