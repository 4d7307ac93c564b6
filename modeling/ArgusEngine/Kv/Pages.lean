import Mathlib.Data.Set.BooleanAlgebra
import Mathlib.Order.CompletePartialOrder
import ArgusEngine.Kv.Ragged
import ArgusEngine.Session.PrefixCache

/-!
# Page release and the high-water mark

`release_unused_pages` either moves an underused cache to smaller buffers or hands page-aligned
ranges behind the cursor and in front of ragged heads to `madvise(MADV_DONTNEED)`. The ranges end at
the high-water mark, which every operation of a cache maintains by hand.

* `releasedPages`: the address ranges that reach the system;
* `Marked`: a well-formed cache with `current_pos <= high_water_pos`; **`marked_apply`**: every
  operation keeps it;
* **`release_keeps_live`**: in every reachable state the released pages lie in the buffer and hold
  no resident row.
-/

namespace ArgusEngine

open FlatMem SlotMem Runs KVCache

/-! ## The pages that are released -/

/-- The pages of `[from, to)` that `madvise_dontneed` asks for, as addresses. -/
def advisedPages (P : Platform) (t : Tensor) (r : ℕ × ℕ) : Option (ℕ × ℕ) :=
  let alignedStart := roundUp (t.buffer.ptr + r.1) P.pageSize
  let alignedEnd := roundDown (t.buffer.ptr + r.2) P.pageSize
  if r.2 ≤ r.1 ∨ t.buffer.ptr = 0 ∨ alignedEnd ≤ alignedStart then none
    else some (alignedStart, alignedEnd)

/-- The contents of a buffer once the system took back some pages. -/
def zeroPages (t : Tensor) (pages : List (ℕ × ℕ)) : List UInt8 :=
  pages.foldl (fun b r => fill b (r.1 - t.buffer.ptr) (r.2 - t.buffer.ptr) 0) t.bytes

namespace KVCache

/-- Whether `release_unused_pages` goes for smaller buffers. -/
def Underused (c : KVCache) : Prop := c.memory.isSome ∧ c.currentPos * 4 < c.capacity * 3

instance (c : KVCache) : Decidable c.Underused := inferInstanceAs (Decidable (_ ∧ _))

/-- The address ranges of half `x` that `release_unused_pages` passes to `madvise`. -/
def releasedPages (P : Platform) (c : KVCache) (x : Half) : List (ℕ × ℕ) :=
  if c.Underused ∨ !c.kBuffer.buffer.isHostManaged then []
  else match c.kvDtype with
    | .f16 | .f32 => (c.unusedRanges c.kvDtype.size).filterMap (advisedPages P (c.buffer x))
    | _ => []

end KVCache

section Pages

variable {P : Platform} {c : KVCache}

theorem madviseDontneed_pages (t : Tensor) (r : ℕ × ℕ) : (madviseDontneed P t r.1 r.2).2 =
    t.withBytes (zeroPages t (advisedPages P t r).toList) := by
  unfold madviseDontneed advisedPages
  simp only
  split_ifs <;> rfl

/-- **The release of a list of ranges** zeroes their pages. -/
theorem releaseRanges_pages (rs : List (ℕ × ℕ)) : ∀ acc : ℕ × Tensor,
    (releaseRanges P rs acc).2 =
      acc.2.withBytes (zeroPages acc.2 (rs.filterMap (advisedPages P acc.2))) := by
  induction rs with
  | nil => exact fun acc => rfl
  | cons r rs ih =>
    intro acc
    have hstep := ih (acc.1 + (madviseDontneed P acc.2 r.1 r.2).1,
      (madviseDontneed P acc.2 r.1 r.2).2)
    rw [releaseRanges, List.foldl_cons]
    refine hstep.trans ?_
    simp only [madviseDontneed_pages]
    cases h : advisedPages P acc.2 r with
    | none => rw [List.filterMap_cons_none h]; rfl
    | some q => rw [List.filterMap_cons_some h]; rfl

theorem advisedPages_subset {t : Tensor} {r q : ℕ × ℕ} (h : advisedPages P t r = some q) :
    t.buffer.ptr + r.1 ≤ q.1 ∧ q.2 ≤ t.buffer.ptr + r.2 := by
  unfold advisedPages at h
  simp only at h
  split_ifs at h
  cases h
  exact ⟨le_roundUp _ P.pageShift, roundDown_le _ P.pageShift⟩

/-- The pages `q` of half `x` lie in its buffer and hold no byte of a resident row. -/
structure Clear (c : KVCache) (x : Half) (q : ℕ × ℕ) : Prop where
  inside : (c.buffer x).buffer.ptr ≤ q.1 ∧ q.2 ≤ (c.buffer x).buffer.ptr + (c.buffer x).size
  resident : ∀ h < c.kvHeads, ∀ p, c.headStartOf h ≤ p → p < c.currentPos →
    Disjoint (Set.Ico q.1 q.2) (Set.Ico ((c.buffer x).buffer.ptr + c.slot p h * c.rowBytes)
      ((c.buffer x).buffer.ptr + c.slot p h * c.rowBytes + c.rowBytes))

/-- **The released pages of a well-formed cache.** -/
theorem clear_releasedPages (hc : c.WF) {x : Half} {q : ℕ × ℕ} (hq : q ∈ c.releasedPages P x) :
    Clear c x q := by
  have hfloat : ∀ {q : ℕ × ℕ}, (c.kvDtype = .f16 ∨ c.kvDtype = .f32) →
      q ∈ (c.unusedRanges c.kvDtype.size).filterMap (advisedPages P (c.buffer x)) →
      Clear c x q := by
    intro q hd hq
    obtain ⟨r, hr, hpages⟩ := List.mem_filterMap.mp hq
    obtain ⟨hlo, hhi⟩ := advisedPages_subset hpages
    obtain ⟨hin, hclear⟩ := unusedRanges_clear hc (rowBytes_of_float hc.stored hd) hr
    have hsize := hc.size x
    refine ⟨⟨by omega, by omega⟩, fun h hh p hlo' hp => ?_⟩
    rw [Set.disjoint_left]
    rintro a ⟨ha₁, ha₂⟩ ⟨hb₁, hb₂⟩
    have := hclear h hh p hlo' hp
    omega
  unfold releasedPages at hq
  split_ifs at hq
  · cases hq
  · split at hq
    · exact hfloat (.inl ‹_›) hq
    · exact hfloat (.inr ‹_›) hq
    · cases hq

end Pages

/-! ## The mark -/

namespace KVCache

/-- A well-formed cache whose high-water mark is not below its cursor. -/
structure Marked (c : KVCache) : Prop where
  wf : c.WF
  mark : c.currentPos ≤ c.highWaterPos

section Mark

variable {P : Platform} {c c' : KVCache}

theorem WF.recoded (hc : c.WF) {k v : Tensor} (hk : Recoded c.kBuffer k)
    (hv : Recoded c.vBuffer v) : ({ c with kBuffer := k, vBuffer := v } : KVCache).WF := by
  obtain ⟨kb, hkb, rfl⟩ := hk
  obtain ⟨vb, hvb, rfl⟩ := hv
  refine ⟨hc.stored, hc.dtype, hc.desc, ?_, hc.pos, hc.hwm, hc.cap, hc.starts, hc.seqMajor⟩
  rintro (_ | _)
  · exact (hc.size .key).trans_eq hkb.symm
  · exact (hc.size .value).trans_eq hvb.symm

theorem Marked.recoded (hc : Marked c) {k v : Tensor} (hk : Recoded c.kBuffer k)
    (hv : Recoded c.vBuffer v) : Marked { c with kBuffer := k, vBuffer := v } :=
    ⟨hc.wf.recoded hk hv, hc.mark⟩

theorem Marked.of_keeps (hc : Marked c) (hk : Keeps c c')
    (hm : c'.highWaterPos = c.highWaterPos ∨ c'.highWaterPos = c.currentPos) : Marked c' := by
  have hpos : c'.currentPos = c.currentPos := congrArg Frame.currentPos hk.frame
  refine ⟨hk.wf, ?_⟩
  rw [hpos]
  rcases hm with hm | hm
  · rw [hm]; exact hc.mark
  · exact hm.ge

theorem Marked.advancePos (hc : Marked c) {n : ℕ} (hn : c.currentPos + n ≤ c.capacity)
    (ho : c.isOpaque = true → c.layout = .headMajor) : Marked (c.advancePos n) := by
  have h := hc.wf
  refine ⟨⟨h.stored, h.dtype, h.desc, h.size, hn, Nat.max_le.mpr ⟨h.hwm, hn⟩, h.cap,
    fun k => (h.starts k).trans (Nat.le_add_right _ _), fun hop hl => ?_⟩, Nat.le_max_right _ _⟩
  exact absurd ((ho hop).symm.trans hl) (by decide)

/-! ## One operation -/

theorem highWaterPos_grow {n : ℕ} (h : c.grow n = .ok c') : c'.highWaterPos = c.highWaterPos := by
  unfold grow at h
  split at h
  · cases h
  · simp only at h
    split at h
    · cases h
    · split_ifs at h
      cases h
      rfl

theorem Marked.makeRoom (hc : Marked c) {n : ℕ} (h : c.makeRoom n = .ok c') :
    Marked c' ∧ c'.currentPos = c.currentPos ∧ c.currentPos + n ≤ c'.capacity := by
  obtain ⟨hk, hroom⟩ := keeps_makeRoom hc.wf h
  refine ⟨hc.of_keeps hk (.inl ?_), congrArg Frame.currentPos hk.frame, hroom⟩
  unfold KVCache.makeRoom at h
  split_ifs at h
  · exact highWaterPos_grow h
  · cases h; rfl

theorem Marked.ensureCapacity (hc : Marked c) {n : ℕ} {b : Bool}
    (h : c.ensureCapacity n = .ok (b, c')) : Marked c' ∧ c'.frame = c.frame ∧ n ≤ c'.capacity := by
  obtain ⟨hk, hroom⟩ := keeps_ensureCapacity hc.wf h
  refine ⟨hc.of_keeps hk (.inl ?_), hk.frame, hroom⟩
  unfold KVCache.ensureCapacity at h
  simp only at h
  split_ifs at h
  · cases h; rfl
  · cases hg : c.grow n with
    | error e => rw [hg] at h; cases h
    | ok c₁ =>
      rw [hg] at h
      cases h
      exact highWaterPos_grow hg

theorem Marked.updateOpaque (hc : Marked c) {newK newV : Tensor}
    (hroom : c.currentPos + newK.shape.getD 1 0 ≤ c.capacity) :
    Marked (c.updateOpaque P newK newV).2 := by
  unfold KVCache.updateOpaque
  simp only
  split
  · exact hc
  · rename_i d hd
    by_cases hl : c.layout ≠ .headMajor
    · rw [if_pos hl]
      exact hc
    rw [if_neg hl]
    have hkey := c.recoded_appendOpaque (P := P)
      d newK.bytes (List.range (newK.shape.getD 1 0) ×ˢ List.range c.kvHeads) c.kBuffer
    have hvalue := c.recoded_appendOpaque (P := P) d newV.bytes
      (List.range (newK.shape.getD 1 0) ×ˢ List.range c.kvHeads) c.vBuffer
    split
    · exact hc.recoded hkey ⟨_, rfl, rfl⟩
    · split
      · exact hc.recoded hkey hvalue
      · exact (hc.advancePos hroom fun _ => not_not.mp hl).recoded hkey hvalue

/-- **`update`** keeps the mark, whatever it is given. -/
theorem Marked.update (hc : Marked c) (newK newV : Tensor) : Marked (c.update P newK newV).2 := by
  unfold KVCache.update
  simp only
  split
  · exact hc
  · rename_i c₁ hroom
    obtain ⟨hc₁, hpos, hcap⟩ := hc.makeRoom hroom
    rw [← hpos] at hcap
    by_cases ho : c₁.isOpaque = true
    · rw [if_pos ho]
      exact hc₁.updateOpaque hcap
    · rw [if_neg ho]
      exact (hc₁.advancePos hcap fun h => absurd h ho).recoded (c₁.appendTyped_eq _ _ newK _)
        (c₁.appendTyped_eq _ _ newV _)

theorem highWaterPos_shrinkToFit {n : ℕ} (h : c.shrinkToFit = .ok (n, c')) :
    c'.highWaterPos = c.highWaterPos ∨ c'.highWaterPos = c.currentPos := by
  unfold shrinkToFit at h
  split at h
  · cases h; exact .inl rfl
  · simp only at h
    split_ifs at h
    · cases h; exact .inl rfl
    · cases h; exact .inl rfl
    · split at h
      · cases h; exact .inr rfl
      · cases h
      · cases h

theorem highWaterPos_release {n : ℕ} (h : c.releaseUnusedPages P = .ok (n, c')) :
    c'.highWaterPos = c.highWaterPos ∨ c'.highWaterPos = c.currentPos := by
  unfold releaseUnusedPages at h
  split_ifs at h
  · split at h
    · cases h
      exact highWaterPos_shrinkToFit ‹_›
    · cases h; exact .inl rfl
    · cases h
  · cases h; exact .inl rfl
  · split at h <;> cases h
    · exact .inr rfl
    · exact .inr rfl
    · exact .inl rfl

/-- **`release_unused_pages`** itself keeps the mark. -/
theorem Marked.release (hc : Marked c) {n : ℕ} (h : c.releaseUnusedPages P = .ok (n, c')) :
    Marked c' := by
  obtain ⟨n', c₁, hok, hk⟩ := keeps_releaseUnusedPages P hc.wf
  rw [h] at hok
  cases hok
  exact hc.of_keeps hk (highWaterPos_release h)

/-- **`prune_prefix`** keeps it, too: the mark only falls with the release at the end. -/
theorem Marked.prunePrefix (hc : Marked c) {n : ℕ} (h : c.prunePrefix P n = .ok c') :
    Marked c' := by
  have hmark := hc.mark
  have hn : n ≤ c.currentPos := by
    rcases frame_prunePrefix h with ⟨rfl, -⟩ | ⟨-, rfl, -⟩ | ⟨-, hlt, -⟩
    · exact Nat.zero_le _
    · exact le_rfl
    · exact hlt.le
  obtain ⟨c₁, hok, hp⟩ := prunes_prunePrefix (P := P) hc.wf hn
  rw [h] at hok
  cases hok
  refine ⟨hp.wf, ?_⟩
  have hpos := hp.pos
  unfold KVCache.prunePrefix at h
  simp only at h
  split_ifs at h with h₁ h₂ h₃ h₄ h₅
  · cases h; exact hmark
  · cases h; exact le_rfl
  all_goals
    split at h
    · cases h
    · cases h
      have hm := highWaterPos_release ‹_›
      simp only [setHeadStarts] at hm
      omega

theorem Marked.loadRecord (hc : Marked c) (hl : c.layout = .headMajor) {rec : SwapRecord}
    (hroom : c.currentPos + rec.tokenCount ≤ c.capacity) (disk : Disk) :
    Marked (SwapHandler.loadRecord disk c rec).2 := by
  unfold SwapHandler.loadRecord
  split
  · simp only
    split_ifs
    · exact hc
    · split
      · rename_i hk hv
        exact (hc.advancePos hroom fun _ => hl).recoded (recoded_writeHeads hk)
          (recoded_writeHeads hv)
      · exact hc
      · exact hc
  · exact hc

/-- **`recall_one`**: whatever the record and the files. -/
theorem Marked.recallOne (hc : Marked c) (disk : Disk) (rec : SwapRecord) :
    Marked (SwapHandler.recallOne disk c rec).2 := by
  by_cases hl : c.layout = .headMajor
  swap
  · unfold SwapHandler.recallOne
    simp only [if_pos hl]
    exact hc
  by_cases hfit : SwapHandler.Fits c rec
  swap
  · obtain ⟨e, he⟩ := SwapHandler.recallOne_of_not_fits hl hfit (rfl : c.geometry = c.geometry)
    rw [(he disk disk).1]
    exact hc
  rw [SwapHandler.recallOne_of_fits hl hfit]
  split
  · exact hc
  rename_i b c₁ hroom
  obtain ⟨hk, hcap⟩ := SwapHandler.keeps_recallRoom hc.wf hroom
  have hc₁ : Marked c₁ := by
    unfold SwapHandler.recallRoom at hroom
    split_ifs at hroom
    · exact (hc.ensureCapacity hroom).1
    · cases hroom; exact hc
  split
  · exact hc₁
  · rename_i c₂ hshift
    obtain ⟨c₃, hshift', hsh, hgeo⟩ := SwapHandler.shifted_recallShift hl hk hcap
    rw [hshift] at hshift'
    cases hshift'
    have hmark : c₂.highWaterPos = c₁.highWaterPos := by
      unfold SwapHandler.recallShift at hshift
      split_ifs at hshift
      · obtain ⟨kb, vb, rfl⟩ := moved_shiftPositions hshift
        rfl
      · cases hshift; rfl
    have hpos₂ : c₂.currentPos = c₁.currentPos := congrArg Geometry.currentPos hgeo
    have hc₂ : Marked c₂ := ⟨hsh.wf, by rw [hpos₂, hmark]; exact hc₁.mark⟩
    have hl₂ : c₂.layout = .headMajor := (congrArg (fun f => f.format.layout) hsh.frame).trans hl
    have hroom₂ : c₂.currentPos + rec.tokenCount ≤ c₂.capacity := by
      rw [show c₂.currentPos = c.currentPos from congrArg Frame.currentPos hsh.frame]
      exact hsh.room
    exact hc₂.loadRecord hl₂ hroom₂ disk

theorem mark_setCurrentPos {n : ℕ} (h : n ≤ c.highWaterPos) :
    (c.setCurrentPos n).currentPos ≤ (c.setCurrentPos n).highWaterPos := by
  unfold setCurrentPos
  split_ifs with h0
  · exact h0.le
  · exact h

theorem Marked.keep (hc : Marked c) {keep : List ℕ} (hasc : keep.Pairwise (· < ·))
    (hlt : ∀ p ∈ keep, p < c.currentPos) (h : c.compactKeepPositions keep 0 = .ok c') :
    Marked (c'.setCurrentPos keep.length).clearHeadStarts := by
  obtain ⟨c₁, hok, hG⟩ := gathers_commitKeep hc.wf hasc hlt
  rw [h] at hok
  cases hok
  obtain ⟨kb, vb, rfl⟩ := moved_compactKeepPositions h
  exact ⟨hG.wf, mark_setCurrentPos ((length_le_of_pairwise hasc hlt).trans hc.mark)⟩

theorem Marked.keepPerHead (hc : Marked c) (hl : c.layout = .headMajor) {heads : List (List ℕ)}
    (hn : heads.length = c.kvHeads) (hasc : ∀ l ∈ heads, l.Pairwise (· < ·))
    (hlt : ∀ l ∈ heads, ∀ p ∈ l, p < c.currentPos) (h : commitPerHeadKeep c heads = .ok c') :
    Marked c' := by
  obtain ⟨c₁, hok, hG⟩ := gathers_commitPerHeadKeep hc.wf hl hn hasc hlt
  rw [h] at hok
  cases hok
  obtain ⟨c₁, ⟨kb, vb, rfl⟩, rfl⟩ := commitPerHeadKeep_eq h
  refine ⟨hG.wf, mark_setCurrentPos ?_⟩
  refine (foldl_max_le.mpr ⟨Nat.zero_le _, fun n hn => ?_⟩).trans hc.mark
  obtain ⟨l, hl, rfl⟩ := List.mem_map.mp hn
  exact length_le_of_pairwise (hasc l hl) (hlt l hl)

/-- **`offload_prefix`** leaves the cache alone or prunes it. -/
theorem Marked.offloadPrefix (hc : Marked c) (s : SwapHandler) (layerIdx n : ℕ) :
    Marked (s.offloadPrefix P layerIdx c n).2.2 := by
  rcases offloadPrefix_cache (P := P) s layerIdx c n with ⟨-, he⟩ |
    ⟨-, -, ⟨c', hok, he⟩ | ⟨e, -, he⟩⟩
  · rw [he]; exact hc
  · rw [he]; exact hc.prunePrefix hok
  · rw [he]; exact hc

theorem Marked.recallLayer (hc : Marked c) (s : SwapHandler) (layerIdx : ℕ) :
    Marked (s.recallLayer layerIdx c).2.2 := by
  unfold SwapHandler.recallLayer
  split
  · exact hc
  · exact hc.recallOne _ _

theorem WF.retyped (hc : c.WF) {dtype : DType} (hs : Stored dtype c.headDim none) {k v : Tensor}
    {m : Option Memory} (hk : k.dtype = dtype ∧ k.buffer.desc = none ∧
    k.size = typedByteSize (c.capacity * c.kvHeads * c.headDim) dtype) (hv :
    v.dtype = dtype ∧ v.buffer.desc = none ∧
    v.size = typedByteSize (c.capacity * c.kvHeads * c.headDim) dtype) :
    ({ c with kBuffer := k, vBuffer := v, memory := m } : KVCache).WF := by
  have hst : ({ c with kBuffer := k, vBuffer := v, memory := m } : KVCache).IsStored := by
    unfold IsStored kvDtype
    rw [hk.1, hk.2.1]
    exact hs
  have hsize : typedByteSize (c.capacity * c.kvHeads * c.headDim) dtype =
      c.capacity * c.kvHeads *
        ({ c with kBuffer := k, vBuffer := v, memory := m } : KVCache).rowBytes := by
    have hbuf := bufSize_eq hst c.capacity
    unfold bufSize at hbuf
    simp only [hk.2.1, isQ4, kvDtype, hk.1, decide_eq_true_eq] at hbuf
    rw [← Except.ok.inj hbuf]
    cases dtype <;> rfl
  refine ⟨hst, hv.1.trans hk.1.symm, hv.2.1.trans hk.2.1.symm, ?_, hc.pos, hc.hwm, hc.cap,
    hc.starts, fun ho => ?_⟩
  · rintro (_ | _)
    · exact (hk.2.2.trans hsize).ge
    · exact (hv.2.2.trans hsize).ge
  · simp [isOpaque, hk.2.1] at ho

theorem stored_typedFloor {target : String} {dtype : DType} {headDim : ℕ}
    (h : typedFloorDtype target = some dtype) (hq : ¬ (dtype = .q4_0 ∧ headDim % QK4_0 ≠ 0)) :
    Stored dtype headDim none := by
  unfold typedFloorDtype at h
  split_ifs at h
  · exact .inl (Option.some.inj h).symm
  · exact .inr (.inl (Option.some.inj h).symm)
  · refine .inr (.inr ⟨(Option.some.inj h).symm, Nat.dvd_of_mod_eq_zero ?_⟩)
    by_contra hne
    exact hq ⟨(Option.some.inj h).symm, hne⟩

/-- **A re-encode keeps the mark.** -/
theorem Marked.applyFormatPlan (hc : Marked c) {target : String}
    (h : applyFormatPlan P c ⟨target, []⟩ = .ok c') : Marked c' := by
  have hbuf := c.reencodeBuffer_eq (P := P)
  unfold ArgusEngine.applyFormatPlan at h
  simp only [List.isEmpty_nil, true_and, List.any_nil, Bool.false_eq_true, if_false, if_true] at h
  split_ifs at h
  · cases h; exact hc
  · unfold reencodeUniform at h
    simp only at h
    split_ifs at h
    split at h
    · cases h
    rename_i dtype hdtype
    split_ifs at h
    · cases h; exact hc
    · unfold reencodeTyped at h
      simp only at h
      split_ifs at h with hq
      · cases h
        obtain ⟨k₁, k₂, -, k₄⟩ := hbuf dtype c.kBuffer
        obtain ⟨v₁, v₂, -, v₄⟩ := hbuf dtype c.vBuffer
        exact ⟨hc.wf.retyped (stored_typedFloor hdtype hq) ⟨k₁, k₂, k₄⟩ ⟨v₁, v₂, v₄⟩, hc.mark⟩
      · split at h
        · cases h
        · cases h
          exact ⟨hc.wf.retyped (stored_typedFloor hdtype hq)
            ⟨rfl, rfl, (hbuf dtype c.kBuffer).2.2.2⟩
              ⟨rfl, rfl, (hbuf dtype c.vBuffer).2.2.2⟩, hc.mark⟩

theorem Marked.applyWeightedMerges (hc : Marked c) {ms : List (WeightedMerge P.F)}
    (h : applyWeightedMerges P c ms = .ok c') : Marked c' := by
  unfold ArgusEngine.applyWeightedMerges at h
  cases hk : mergeBuffer P c .key ms c.kBuffer with
  | error e => rw [hk] at h; cases h
  | ok k =>
    rw [hk] at h
    cases hv : mergeBuffer P c .value ms c.vBuffer with
    | error e => rw [hv] at h; cases h
    | ok v =>
      rw [hv] at h
      cases h
      exact hc.recoded (recoded_mergeBuffer hk) (recoded_mergeBuffer hv)

/-- The cache a commit compacts: the one the calls were checked on, as far as they looked at it. -/
structure Prepared (c c' : KVCache) : Prop where
  marked : Marked c'
  recodes : Recodes c c'

theorem prepared_commitReencode (hc : Marked c) {h : EngineCacheHandle P}
    (hh : h.cache = c) {m : Bool} (hok : h.commitReencode = .ok (c', m)) : Prepared c c' := by
  unfold EngineCacheHandle.commitReencode at hok
  rw [hh] at hok
  split at hok
  · cases hok
    exact ⟨hc, .of_frame rfl⟩
  · split at hok
    · cases hok
      rename_i target _ hplan
      refine ⟨hc.applyFormatPlan hplan, ?_⟩
      rcases reencoded_applyFormatPlan hplan with rfl | hR
      · exact .of_frame rfl
      · exact hR.1
    · cases hok

theorem prepared_commitMerges {c₁ : KVCache} (hc : Prepared c c₁)
    (h : EngineCacheHandle P) (m : Bool) : Prepared c (h.commitMerges c₁ m).2 ∧ ∀ r,
    (h.commitMerges c₁ m).1 = .ok r → Prepared c r.1 := by
  unfold EngineCacheHandle.commitMerges
  split
  · refine ⟨hc, fun r hr => ?_⟩
    cases hr
    exact hc
  · split_ifs
    · refine ⟨hc, fun r hr => ?_⟩
      cases hr
      exact hc
    · split
      · rename_i c₂ hm
        have hp : Prepared c c₂ :=
          ⟨hc.marked.applyWeightedMerges hm,
            hc.recodes.trans (.of_frame (frame_of_moved (moved_applyWeightedMerges hm)))⟩
        refine ⟨hp, fun r hr => ?_⟩
        cases hr
        exact hp
      · refine ⟨hc, fun r hr => ?_⟩
        cases hr

theorem Marked.commitCompaction {h : EngineCacheHandle P} (hst : Staged c h) {c₂ : KVCache}
    (hc : Prepared c c₂) (m : Bool) : Marked (h.commitCompaction c₂ m).2.1 := by
  have hpos := hc.recodes.currentPos
  unfold EngineCacheHandle.commitCompaction
  cases hcomp : h.compaction with
  | none => exact hc.marked
  | some comp =>
    cases comp with
    | keep positions =>
      obtain ⟨hasc, hlt, -⟩ := hst.keep (.keep positions) hcomp
      simp only
      split
      · exact hc.marked
      · exact hc.marked.keep hasc (fun p hp => hpos ▸ hlt p hp) ‹_›
    | keepPerHead heads =>
      obtain ⟨hl, hlen, hall, -⟩ := hst.keep (.keepPerHead heads) hcomp
      have hget : ∀ l ∈ heads, (∀ p ∈ l, p < c₂.currentPos) ∧ l.Pairwise (· < ·) := by
        intro l hl
        obtain ⟨k, hk, rfl⟩ := List.getElem_of_mem hl
        exact ⟨fun p hp => hpos ▸ (hall k hk).1 p hp, (hall k hk).2.1⟩
      simp only
      split
      · exact hc.marked
      · exact hc.marked.keepPerHead (hc.recodes.layout.trans hl)
          (hlen.trans hc.recodes.kvHeads.symm) (fun l hl => (hget l hl).2)
            (fun l hl => (hget l hl).1) ‹_›
    | offload n =>
      simp only
      split
      · exact hc.marked
      · exact hc.marked.offloadPrefix _ _ _
    | recallLayer =>
      simp only
      split
      · exact hc.marked
      · exact hc.marked.recallLayer _ _

/-- **A commit** of whatever was staged, applied or not. -/
theorem Marked.commit (hc : Marked c) {h : EngineCacheHandle P} (hst : Staged c h) :
    Marked h.commit.2.1 := by
  unfold EngineCacheHandle.commit EngineCacheHandle.commitValues
  cases hr : h.commitReencode with
  | error e =>
    simp only
    rw [hst.cache]
    exact hc
  | ok r =>
    obtain ⟨c₁, m⟩ := r
    obtain ⟨hfail, hok⟩ := prepared_commitMerges (prepared_commitReencode hc hst.cache hr) h m
    simp only
    split
    · rename_i e c₂ he
      rw [he] at hfail
      exact hfail.marked
    · rename_i c₂ m' c₃ he
      exact Marked.commitCompaction hst (hok (c₂, m') (congrArg Prod.fst he)) m'

theorem WF.dtype_of_opaque (hc : c.WF) (ho : c.isOpaque = true) : c.kvDtype = .u8 := by
  obtain ⟨d, hd⟩ := Option.isSome_iff_exists.mp ho
  have hs := hc.stored
  unfold IsStored at hs
  rw [hd] at hs
  exact hs.1

theorem recoded_scatterPackedBytes {w : PrefixCache.WriteError} {t t' : Tensor}
    {kvHeads tokenCount headDim capacity : ℕ} {dtype : DType} {packed : List UInt8}
    (h : PrefixCache.scatterPackedBytes w t kvHeads tokenCount headDim capacity
      dtype packed = .ok t') :
    Recoded t t' ∧ dtype ≠ .u8 := by
  unfold PrefixCache.scatterPackedBytes at h
  simp only at h
  split at h
  · cases h
  · rename_i pos hpos
    split at h
    · cases h
    · unfold PrefixCache.writeBuffer at h
      split at h
      · cases h
      · simp only at h
        split_ifs at h with hlen
        cases h
        refine ⟨⟨_, not_not.mp hlen, rfl⟩, fun hu => ?_⟩
        rw [hu] at hpos
        cases hpos

/-- **`restore_prefix`**, whatever bytes it is given. -/
theorem Marked.restorePrefix (hc : Marked c) (w : PrefixCache.WriteError) (bytes : List UInt8)
    (tokenCount : ℕ) : Marked (PrefixCache.restorePrefix w c bytes tokenCount).2 := by
  unfold PrefixCache.restorePrefix
  simp only
  split_ifs with h0
  · exact hc
  · split
    · exact hc
    · rename_i b c₁ hroom
      obtain ⟨hc₁, hframe, hcap⟩ := hc.ensureCapacity hroom
      split
      · exact hc₁
      · rename_i k hk
        obtain ⟨hk, htyped⟩ := recoded_scatterPackedBytes hk
        split
        · exact hc₁.recoded hk ⟨_, rfl, rfl⟩
        · rename_i v hv
          have hc₂ := hc₁.recoded hk (recoded_scatterPackedBytes hv).1
          have hop : ({ c₁ with kBuffer := k, vBuffer := v } : KVCache).isOpaque = true →
              c₁.layout = .seqMajor → tokenCount = 0 := by
            intro ho
            exact absurd (hc₂.wf.dtype_of_opaque ho) (by rw [kvDtype, hk.dtype]; exact htyped)
          have hwf := hc₂.wf.setCurrentPos hcap hop
          have hcur := PrefixCache.currentPos_setCurrentPos
            { c₁ with kBuffer := k, vBuffer := v } tokenCount
          have hcap' : ({ c₁ with kBuffer := k, vBuffer := v }.setCurrentPos tokenCount).capacity =
            c₁.capacity := by
            unfold setCurrentPos
            split_ifs <;> rfl
          refine ⟨⟨hwf.stored, hwf.dtype, hwf.desc, hwf.size, hwf.pos, ?_, hwf.cap, hwf.starts,
            hwf.seqMajor⟩, ?_⟩
          · exact Nat.max_le.mpr ⟨hwf.hwm, hcap.trans hcap'.ge⟩
          · exact hcur.le.trans (Nat.le_max_right _ _)

end Mark

end KVCache

/-! ## Runs -/

/-- What changes the cache of a layer. -/
inductive PageOp (P : Platform) where
  | update (newK newV : Tensor)
  | prunePrefix (count : ℕ)
  | commit (layerIdx nLayers : ℕ) (calls : List (HandleCall P))
  | recallLayer (layerIdx : ℕ)
  | recallOne (disk : Disk) (rec : SwapRecord)
  | restorePrefix (w : PrefixCache.WriteError) (bytes : List UInt8) (tokenCount : ℕ)
  | ensureCapacity (minTokens : ℕ)
  | releaseUnusedPages

namespace PageOp

variable {P : Platform}

/-- The operation, whether it succeeds or not. -/
def apply : PageOp P → Layer → Layer
  | update newK newV, l => { l with cache := (l.cache.update P newK newV).2 }
  | prunePrefix count, l => match l.cache.prunePrefix P count with
    | .ok c => { l with cache := c }
    | .error _ => l
  | commit layerIdx nLayers calls, l =>
    let r := (LayerOp.handle l layerIdx nLayers calls).commit
    ⟨r.2.1, r.2.2⟩
  | recallLayer layerIdx, l => match l.swap with
    | none => l
    | some s =>
      let r := s.recallLayer layerIdx l.cache
      ⟨r.2.2, some r.2.1⟩
  | recallOne disk rec, l => { l with cache := (SwapHandler.recallOne disk l.cache rec).2 }
  | restorePrefix w bytes tokenCount, l =>
    { l with cache := (PrefixCache.restorePrefix w l.cache bytes tokenCount).2 }
  | ensureCapacity minTokens, l => match l.cache.ensureCapacity minTokens with
    | .ok r => { l with cache := r.2 }
    | .error _ => l
  | releaseUnusedPages, l => match l.cache.releaseUnusedPages P with
    | .ok r => { l with cache := r.2 }
    | .error _ => l

def Step (op : PageOp P) (l l' : Layer) : Prop := op.apply l = l'

/-- **One operation keeps the mark.** -/
theorem marked_apply {l : Layer} (op : PageOp P) (h : Marked l.cache) :
    Marked (op.apply l).cache := by
  cases op with
  | update newK newV => exact h.update newK newV
  | prunePrefix count =>
    simp only [apply]
    split
    · exact h.prunePrefix ‹_›
    · exact h
  | commit layerIdx nLayers calls =>
    exact h.commit (staged_runCalls l.cache layerIdx nLayers l.swap calls)
  | recallLayer layerIdx =>
    simp only [apply]
    split
    · exact h
    · exact h.recallLayer _ _
  | recallOne disk rec => exact h.recallOne disk rec
  | restorePrefix w bytes tokenCount => exact h.restorePrefix w bytes tokenCount
  | ensureCapacity minTokens =>
    simp only [apply]
    split
    · exact (h.ensureCapacity ‹_›).1
    · exact h
  | releaseUnusedPages =>
    simp only [apply]
    split
    · exact h.release ‹_›
    · exact h

end PageOp

/-- A release that does not shrink zeroes the released pages and nothing else. -/
theorem bytes_release {P : Platform} {c c' : KVCache} {n : ℕ}
    (h : c.releaseUnusedPages P = .ok (n, c')) (hu : ¬ c.Underused) (x : Half) :
    (c'.buffer x).bytes = zeroPages (c.buffer x) (c.releasedPages P x) := by
  have hbuf : ∀ t, (c.releaseBuffer P c.kvDtype.size t).2 =
      t.withBytes (zeroPages t ((c.unusedRanges c.kvDtype.size).filterMap (advisedPages P t))) :=
      fun t => by
    rw [releaseBuffer_eq_ranges, releaseRanges_pages]
  unfold KVCache.releaseUnusedPages at h
  rw [if_neg (show ¬ (c.memory.isSome ∧ c.currentPos * 4 < c.capacity * 3) from hu)] at h
  unfold releasedPages
  by_cases hm : (!c.kBuffer.buffer.isHostManaged) = true
  · rw [if_pos hm] at h
    cases h
    rw [if_pos (.inr hm)]
    rfl
  rw [if_neg hm] at h
  rw [if_neg (not_or.mpr ⟨hu, hm⟩)]
  generalize c.kvDtype = d at h hbuf ⊢
  cases d
  case f16 | f32 =>
    cases h
    simp only [hbuf]
    cases x <;> rfl
  all_goals
    cases h
    rfl

/-- **Page release never discards live data**: in every state that a run of operations reaches from
an empty cache, the mark lies between cursor and capacity, the pages handed to the system lie in the
buffer and hold no byte of a resident row, and a release of either kind keeps every resident row. -/
theorem release_keeps_live (P : Platform) {c : KVCache} (hc : c.WF) (h0 : c.currentPos = 0)
    {swap : Option SwapHandler} {ops : List (PageOp P)} {l : Layer}
    (hrun : Run PageOp.Step ⟨c, swap⟩ ops l) : l.cache.currentPos ≤ l.cache.highWaterPos ∧
    l.cache.highWaterPos ≤ l.cache.capacity ∧
    (∀ x, ∀ q ∈ l.cache.releasedPages P x, Clear l.cache x q) ∧ ∃ n c',
    l.cache.releaseUnusedPages P = .ok (n, c') ∧ Keeps l.cache c' ∧
      (¬ l.cache.Underused → ∀ x, (c'.buffer x).bytes = zeroPages (l.cache.buffer x)
        (l.cache.releasedPages P x)) := by
  have hl : Marked l.cache := by
    refine hrun.invariant (I := fun l => Marked l.cache) (fun op l l' h hstep => ?_)
      ⟨hc, h0.trans_le (Nat.zero_le _)⟩
    obtain rfl := hstep
    exact PageOp.marked_apply op h
  obtain ⟨n, c', hok, hk⟩ := keeps_releaseUnusedPages P hl.wf
  exact ⟨hl.mark, hl.wf.hwm, fun x q hq => clear_releasedPages hl.wf hq, n, c', hok,
    hk, bytes_release hok⟩

/-- Pages of one F32 value. -/
def valuePages : Platform := { Platform.fixedPoint with pageShift := 2 }

/-- An empty HeadMajor F32 cache for four tokens of two heads of one value. -/
def pagedCache : KVCache :=
  newWithGeometry (.host [1, 2, 4, 1] (List.replicate 32 7))
    (.host [1, 2, 4, 1] (List.replicate 32 7)) 4 2 1 .headMajor

/-- Three tokens, of which head `0` keeps two and head `1` one: two tails and a hole are
released. -/
theorem release_keeps_ragged : ∃ l, Run (PageOp.Step (P := valuePages)) ⟨pagedCache, none⟩
    [.update (.host [1, 3, 2, 1] (List.replicate 24 1)) (.host [1, 3, 2, 1] (List.replicate 24 2)),
      .commit 0 1 [.keepPerHead [[0, 1], [2]]]] l ∧
    l.cache.releasedPages valuePages .key = [(4104, 4108), (4120, 4124), (4112, 4116)] ∧
    ∀ q ∈ l.cache.releasedPages valuePages .key, Clear l.cache .key q := by
  have hwf : pagedCache.WF :=
    ⟨.inl rfl, rfl, rfl, fun x => by cases x <;> decide, by decide, by decide, by decide,
      fun h => Nat.le_of_eq (List.getD_nil ..), fun _ _ => rfl⟩
  have hrun : ∃ l, l.cache.releasedPages valuePages .key =
    [(4104, 4108), (4120, 4124), (4112, 4116)] ∧
      Run (PageOp.Step (P := valuePages)) ⟨pagedCache, none⟩
      [.update (.host [1, 3, 2, 1] (List.replicate 24 1))
        (.host [1, 3, 2, 1] (List.replicate 24 2)), .commit 0 1 [.keepPerHead [[0, 1], [2]]]] l :=
    ⟨_, by decide, .cons rfl (.cons rfl (.nil _))⟩
  obtain ⟨l, hpages, hrun⟩ := hrun
  exact ⟨l, hrun, hpages, (release_keeps_live valuePages hwf rfl hrun).2.2.1 .key⟩

end ArgusEngine
