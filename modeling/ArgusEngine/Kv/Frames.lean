import ArgusEngine.Kv.Dump
import ArgusEngine.Kv.Merge
import ArgusEngine.Kv.Staged

/-!
# Frames of the operations

What each operation does to everything but the rows, on any cache and whether it succeeds or not.

* `Grows c c'`: the format, the starts and the mirror of `c`, with the cursor where it was or
  further on; `grows_update`, `grows_recallLayer`;
* `Recodes c c'`: everything but the stored type; `recodes_applyFormatPlan`,
  `moved_applyWeightedMerges`;
* **`commit_cases`**: a commit as a re-encode, merges and a compaction.
-/

namespace ArgusEngine

open FlatMem SlotMem KVCache

namespace KVCache

/-! ## The cursor -/

section Grow

variable {P : Platform} {c c' : KVCache}

/-- The frame of `c` with the cursor at or past that of `c`. -/
def Grows (c c' : KVCache) : Prop := ∃ n, c'.frame = { c.frame with currentPos := c.currentPos + n }

theorem Grows.of_frame (h : c'.frame = c.frame) : Grows c c' := ⟨0, h⟩

theorem Grows.trans {c'' : KVCache} (h : Grows c c') (h' : Grows c' c'') : Grows c c'' := by
  obtain ⟨n, h⟩ := h
  obtain ⟨m, h'⟩ := h'
  have hpos : c'.currentPos = c.currentPos + n := congrArg Frame.currentPos h
  exact ⟨n + m, by rw [h', h, hpos, Nat.add_assoc]⟩

theorem frame_of_moved (h : Moved c c') : c'.frame = c.frame := by
  obtain ⟨kb, vb, rfl⟩ := h
  rfl

theorem recoded_appendOpaque (c : KVCache) (d : KVLayoutDesc) (src : List UInt8)
    (l : List (ℕ × ℕ)) : ∀ t, Recoded t (c.appendOpaque P d src l t).2 := by
  induction l with
  | nil => exact fun t => ⟨_, rfl, rfl⟩
  | cons x l ih =>
    intro t
    obtain ⟨s, h⟩ := x
    rw [appendOpaque]
    split_ifs
    · exact ⟨_, rfl, rfl⟩
    · split
      · exact ⟨_, rfl, rfl⟩
      · obtain ⟨b, hb, he⟩ := ih (t.withBytes _)
        exact ⟨b, hb.trans (length_blit _ _ _ _ _), he⟩

theorem grows_updateOpaque (c : KVCache) (newK newV : Tensor) :
    Grows c (c.updateOpaque P newK newV).2 := by
  unfold updateOpaque
  simp only
  split
  · exact .of_frame rfl
  rename_i d hd
  split_ifs
  · exact .of_frame rfl
  obtain ⟨kb, -, hk⟩ := c.recoded_appendOpaque (P := P) d newK.bytes
    (List.range (newK.shape.getD 1 0) ×ˢ List.range c.kvHeads) c.kBuffer
  split
  · rw [hk]; exact .of_frame rfl
  · split
    · rw [hk]; exact .of_frame rfl
    · rw [hk]; exact ⟨_, rfl⟩

/-- **`update` moves the cursor on**, or leaves it where it was. -/
theorem grows_update (c : KVCache) (newK newV : Tensor) : Grows c (c.update P newK newV).2 := by
  unfold update
  simp only
  split
  · exact .of_frame rfl
  rename_i c₁ hroom
  have h₁ : Grows c c₁ := by
    unfold makeRoom at hroom
    split_ifs at hroom
    · exact .of_frame (frame_grow hroom)
    · cases hroom; exact .of_frame rfl
  refine h₁.trans ?_
  split_ifs
  · exact grows_updateOpaque c₁ newK newV
  · obtain ⟨kb, -, hk⟩ := c₁.appendTyped_eq (c₁.canDirectCopy newK)
      (newK.shape.getD 1 0) newK c₁.kBuffer
    rw [hk]
    exact ⟨_, rfl⟩

theorem recoded_writeBufferRange {src : List UInt8} {off : ℕ} {t t' : Tensor}
    (h : t.writeBufferRange src off = .ok t') : Recoded t t' := by
  unfold Tensor.writeBufferRange at h
  simp only at h
  split_ifs at h
  cases h
  exact ⟨_, length_blit _ _ _ _ _, rfl⟩

theorem recoded_writeHeads {n perHead stride : ℕ} {src : List UInt8} {t t' : Tensor}
    (h : SwapHandler.writeHeads n perHead stride src t = .ok t') : Recoded t t' := by
  have hall : ∀ (l : List ℕ) {t t' : Tensor}, l.foldlM (fun t h =>
      t.writeBufferRange (slice src (h * perHead) perHead) (h * stride)) t = .ok t' →
        Recoded t t' := by
    intro l
    induction l with
    | nil => intro t t' h; cases h; exact ⟨_, rfl, rfl⟩
    | cons k l ih =>
      intro t t' h
      rw [List.foldlM_cons] at h
      cases hw : t.writeBufferRange (slice src (k * perHead) perHead) (k * stride) with
      | error e => rw [hw] at h; cases h
      | ok t₁ =>
        rw [hw] at h
        obtain ⟨b, hb, rfl⟩ := ih h
        obtain ⟨b₁, hb₁, rfl⟩ := recoded_writeBufferRange hw
        exact ⟨b, hb.trans hb₁, rfl⟩
  exact hall _ h

theorem grows_loadRecord (disk : Disk) (c : KVCache) (rec : SwapRecord) :
    Grows c (SwapHandler.loadRecord disk c rec).2 := by
  unfold SwapHandler.loadRecord
  split
  · simp only
    split_ifs
    · exact .of_frame rfl
    · split
      · rename_i hk hv
        obtain ⟨kb, -, rfl⟩ := recoded_writeHeads hk
        exact ⟨_, rfl⟩
      · exact .of_frame rfl
      · exact .of_frame rfl
  · exact .of_frame rfl

theorem grows_recallOne (disk : Disk) (c : KVCache) (rec : SwapRecord) :
    Grows c (SwapHandler.recallOne disk c rec).2 := by
  by_cases hl : c.layout = .headMajor
  swap
  · unfold SwapHandler.recallOne
    simp only [if_pos hl]
    exact .of_frame rfl
  by_cases hfit : SwapHandler.Fits c rec
  swap
  · obtain ⟨e, he⟩ := SwapHandler.recallOne_of_not_fits hl hfit (rfl : c.geometry = c.geometry)
    rw [(he disk disk).1]
    exact .of_frame rfl
  rw [SwapHandler.recallOne_of_fits hl hfit]
  split
  · exact .of_frame rfl
  rename_i b c₁ hroom
  have h₁ : Grows c c₁ := by
    unfold SwapHandler.recallRoom at hroom
    split_ifs at hroom
    · exact .of_frame (frame_ensureCapacity hroom)
    · cases hroom; exact .of_frame rfl
  refine h₁.trans ?_
  split
  · exact .of_frame rfl
  · rename_i c₂ hshift
    refine Grows.trans ?_ (grows_loadRecord disk c₂ rec)
    unfold SwapHandler.recallShift at hshift
    split_ifs at hshift
    · exact .of_frame (frame_of_moved (moved_shiftPositions hshift))
    · cases hshift; exact .of_frame rfl

theorem grows_recallLayer (s : SwapHandler) (layerIdx : ℕ) (c : KVCache) :
    Grows c (s.recallLayer layerIdx c).2.2 := by
  unfold SwapHandler.recallLayer
  split
  · exact .of_frame rfl
  · exact grows_recallOne _ _ _

end Grow

/-! ## Values -/

section Values

variable {P : Platform} {c c' : KVCache}

theorem recoded_writeTypedRow (c : KVCache) (t : Tensor) (p h : ℕ) (dtype : DType)
    (row : List P.F) : Recoded t (c.writeTypedRow P t p h dtype row) := by
  unfold writeTypedRow
  split
  · exact ⟨_, length_blit _ _ _ _ _, rfl⟩
  · exact ⟨_, length_blit _ _ _ _ _, rfl⟩
  · exact ⟨_, length_blit _ _ _ _ _, rfl⟩
  · exact ⟨_, rfl, rfl⟩

/-- Everything but the stored type is that of `c`. -/
structure Recodes (c c' : KVCache) : Prop where
  currentPos : c'.currentPos = c.currentPos
  headStart : c'.headStart = c.headStart
  headStartDev : c'.headStartDev = c.headStartDev
  headStartDirty : c'.headStartDirty = c.headStartDirty
  isGpu : c'.kBuffer.isGpu = c.kBuffer.isGpu
  kvHeads : c'.kvHeads = c.kvHeads
  layout : c'.layout = c.layout

theorem Recodes.of_frame (h : c'.frame = c.frame) : Recodes c c' :=
  ⟨congrArg Frame.currentPos h, congrArg Frame.headStart h, congrArg Frame.headStartDev h,
    congrArg Frame.headStartDirty h, congrArg Frame.isGpu h, congrArg (fun f => f.format.kvHeads) h,
    congrArg (fun f => f.format.layout) h⟩

theorem Recodes.trans {c'' : KVCache} (h : Recodes c c') (h' : Recodes c' c'') : Recodes c c'' :=
  ⟨h'.currentPos.trans h.currentPos, h'.headStart.trans h.headStart,
    h'.headStartDev.trans h.headStartDev, h'.headStartDirty.trans h.headStartDirty,
    h'.isGpu.trans h.isGpu, h'.kvHeads.trans h.kvHeads, h'.layout.trans h.layout⟩

theorem reencodeBuffer_eq (c : KVCache) (target : DType) (old : Tensor) :
    (reencodeBuffer P c target old).dtype = target ∧
      (reencodeBuffer P c target old).buffer.desc = none ∧
      (reencodeBuffer P c target old).isGpu = c.kBuffer.isGpu ∧
      (reencodeBuffer P c target old).size =
        typedByteSize (c.capacity * c.kvHeads * c.headDim) target := by
  have hall : ∀ (l : List (ℕ × ℕ)) (t : Tensor), Recoded t (l.foldl (fun t ph =>
      c.writeTypedRow P t ph.1 ph.2 target (c.dequantize P old ph.1 ph.2)) t) := by
    intro l
    induction l with
    | nil => exact fun t => ⟨_, rfl, rfl⟩
    | cons x l ih =>
      intro t
      obtain ⟨b, hb, he⟩ := c.recoded_writeTypedRow (P := P)
        t x.1 x.2 target (c.dequantize P old x.1 x.2)
      obtain ⟨b', hb', he'⟩ := ih (c.writeTypedRow P t x.1 x.2 target (c.dequantize P old x.1 x.2))
      rw [List.foldl_cons, he']
      rw [he] at hb' ⊢
      exact ⟨b', hb'.trans hb, rfl⟩
  unfold reencodeBuffer
  simp only
  obtain ⟨b, hb, he⟩ := hall (List.range c.currentPos ×ˢ List.range c.kvHeads) _
  rw [he]
  exact ⟨rfl, rfl, rfl, hb.trans List.length_replicate⟩

/-- `c'` is `c`, or `c` stored in the type that `target` names. -/
def Reencoded (c : KVCache) (target : String) (c' : KVCache) : Prop :=
  c' = c ∨ (Recodes c c' ∧ typedFloorDtype target = some c'.kvDtype ∧ c'.isOpaque = false)

theorem reencoded_applyFormatPlan {target : String}
    (h : applyFormatPlan P c ⟨target, []⟩ = .ok c') : Reencoded c target c' := by
  unfold applyFormatPlan at h
  simp only [List.isEmpty_nil, true_and, List.any_nil, Bool.false_eq_true, if_false, if_true] at h
  split_ifs at h
  · cases h; exact .inl rfl
  · unfold reencodeUniform at h
    simp only at h
    split_ifs at h
    split at h
    · cases h
    rename_i dtype hdtype
    split_ifs at h
    · cases h; exact .inl rfl
    · obtain ⟨h₁, h₂, h₃, -⟩ := c.reencodeBuffer_eq (P := P) dtype c.kBuffer
      unfold reencodeTyped at h
      simp only at h
      split_ifs at h
      · cases h
        refine .inr ⟨⟨rfl, rfl, rfl, rfl, h₃, rfl, rfl⟩, ?_, ?_⟩
        · rw [hdtype]; exact congrArg some h₁.symm
        · simp only [isOpaque, h₂, Option.isSome_none]
      · split at h
        · cases h
        · cases h
          exact .inr ⟨⟨rfl, rfl, rfl, rfl, h₃, rfl, rfl⟩, hdtype, rfl⟩

theorem recoded_mergeHead {m : WeightedMerge P.F} {k : ℕ} {t t' : Tensor}
    (h : mergeHead P c m k t = .ok t') : Recoded t t' := by
  unfold mergeHead at h
  split at h
  · simp only at h
    split at h
    · cases h
    · cases h; exact ⟨_, length_blit _ _ _ _ _, rfl⟩
  · cases h; exact recoded_writeTypedRow _ _ _ _ _ _

theorem recoded_mergeBuffer {x : Half} {ms : List (WeightedMerge P.F)} {t t' : Tensor}
    (h : mergeBuffer P c x ms t = .ok t') : Recoded t t' := by
  have hall : ∀ (l : List (WeightedMerge P.F × ℕ)) {t t' : Tensor},
      l.foldlM (fun t mh => mergeHead P c mh.1 mh.2 t) t = .ok t' → Recoded t t' := by
    intro l
    induction l with
    | nil => intro t t' h; cases h; exact ⟨_, rfl, rfl⟩
    | cons x l ih =>
      intro t t' h
      rw [List.foldlM_cons] at h
      cases hw : mergeHead P c x.1 x.2 t with
      | error e => rw [hw] at h; cases h
      | ok t₁ =>
        rw [hw] at h
        obtain ⟨b, hb, rfl⟩ := recoded_mergeHead hw
        obtain ⟨b', hb', rfl⟩ := ih h
        exact ⟨b', hb'.trans hb, rfl⟩
  exact hall _ h

theorem moved_applyWeightedMerges {ms : List (WeightedMerge P.F)}
    (h : applyWeightedMerges P c ms = .ok c') : Moved c c' := by
  unfold applyWeightedMerges at h
  cases hk : mergeBuffer P c .key ms c.kBuffer with
  | error e => rw [hk] at h; cases h
  | ok k =>
    rw [hk] at h
    cases hv : mergeBuffer P c .value ms c.vBuffer with
    | error e => rw [hv] at h; cases h
    | ok v =>
      rw [hv] at h
      obtain ⟨kb, -, rfl⟩ := recoded_mergeBuffer hk
      obtain ⟨vb, -, rfl⟩ := recoded_mergeBuffer hv
      cases h
      exact ⟨kb, vb, rfl⟩

theorem applyWeightedMerges_ok (ho : c.isOpaque = false) (ms : List (WeightedMerge P.F)) :
    ∃ c', applyWeightedMerges P c ms = .ok c' := by
  have hd : c.kBuffer.buffer.desc = none := by simpa [isOpaque] using ho
  have hall : ∀ (l : List (WeightedMerge P.F × ℕ)) (t : Tensor),
      ∃ t', l.foldlM (fun t mh => mergeHead P c mh.1 mh.2 t) t = .ok t' := by
    intro l
    induction l with
    | nil => exact fun t => ⟨t, rfl⟩
    | cons x l ih =>
      intro t
      have hok : ∃ t₁, mergeHead P c x.1 x.2 t = .ok t₁ := by
        simp only [mergeHead, hd]
        exact ⟨_, rfl⟩
      obtain ⟨t₁, h₁⟩ := hok
      rw [List.foldlM_cons, h₁]
      exact ih t₁
  obtain ⟨k, hk⟩ := hall _ c.kBuffer
  obtain ⟨v, hv⟩ := hall _ c.vBuffer
  refine ⟨{ c with kBuffer := k, vBuffer := v }, ?_⟩
  unfold applyWeightedMerges mergeBuffer
  rw [hk, hv]
  rfl

end Values

/-! ## Typed stores do not fail -/

section Typed

variable {P : Platform} {c : KVCache}

theorem shiftPositions_ok (ho : c.isOpaque = false) (r : SlotMem.Run) :
    ∃ c', c.shiftPositions r = .ok c' := by
  unfold shiftPositions
  split_ifs with h₁ h₂
  · exact ⟨_, rfl⟩
  · rw [ho] at h₂; cases h₂.2
  · exact ⟨_, rfl⟩

theorem compactKeepPositions_ok (ho : c.isOpaque = false) (keep : List ℕ) (ws : ℕ) :
    ∃ c', c.compactKeepPositions keep ws = .ok c' := by
  have flush : ∀ {c : KVCache} (r : SlotMem.Run), c.isOpaque = false →
      ∃ c', (if r.src ≠ r.dst then c.shiftPositions r else .ok c) = .ok c' ∧
      c'.isOpaque = false := by
    intro c r ho
    split_ifs
    · obtain ⟨c', h⟩ := shiftPositions_ok ho r
      obtain ⟨kb, vb, rfl⟩ := moved_shiftPositions h
      exact ⟨_, h, ho⟩
    · exact ⟨c, rfl, ho⟩
  have loop : ∀ (ps : List ℕ) (wp : ℕ) (r : SlotMem.Run) (c : KVCache), c.isOpaque = false →
      ∃ c', compactLoop wp r ps c = .ok c' := by
    intro ps
    induction ps with
    | nil =>
      intro wp r c ho
      obtain ⟨c', h, -⟩ := flush r ho
      exact ⟨c', h⟩
    | cons p ps ih =>
      intro wp r c ho
      rw [compactLoop]
      by_cases hp : p = r.src + r.count
      · rw [if_pos hp]; exact ih _ _ c ho
      · obtain ⟨c', h, ho'⟩ := flush r ho
        rw [if_neg hp, h]
        exact ih _ _ c' ho'
  cases keep with
  | nil => exact ⟨c, rfl⟩
  | cons p ps => exact loop ps _ _ c ho

theorem flushRuns_ok {head : ℕ} (rs : List SlotMem.Run) : ∀ c : KVCache, c.layout = .headMajor →
    ∃ c', flushRuns head rs c = .ok c' := by
  induction rs with
  | nil => exact fun c _ => ⟨c, rfl⟩
  | cons r rs ih =>
    intro c hl
    have hok : ∃ c₁, c.shiftPositionsForHead head r = .ok c₁ := by
      unfold shiftPositionsForHead
      rw [if_neg (not_not.mpr hl)]
      split_ifs <;> exact ⟨_, rfl⟩
    obtain ⟨c₁, h₁⟩ := hok
    obtain ⟨kb, vb, rfl⟩ := moved_shiftPositionsForHead h₁
    rw [flushRuns, h₁]
    exact ih _ hl

theorem compactKeepPositionsForHead_ok (hl : c.layout = .headMajor) (head : ℕ)
    (keep : List ℕ) (ws : ℕ) : ∃ c', c.compactKeepPositionsForHead head keep ws = .ok c' := by
  unfold compactKeepPositionsForHead
  split_ifs
  · exact ⟨c, rfl⟩
  · simp only
    generalize List.reverse _ = rs
    obtain ⟨c₁, h₁⟩ := flushRuns_ok rs c hl
    obtain ⟨kb, vb, rfl⟩ := moved_flushRuns _ _ h₁
    rw [h₁]
    exact flushRuns_ok _ _ hl

theorem prunePrefix_ok (ho : c.isOpaque = false) {n : ℕ} (hn : n ≤ c.currentPos) :
    ∃ c', c.prunePrefix P n = .ok c' := by
  have hrelease : ∀ c : KVCache, c.isOpaque = false → ∃ r, c.releaseUnusedPages P = .ok r := by
    intro c ho
    have hd : c.kBuffer.buffer.desc = none := by simpa [isOpaque] using ho
    have hshrink : ∃ r, c.shrinkToFit = .ok r := by
      unfold shrinkToFit
      simp only [bufSize, hd]
      split
      · exact ⟨_, rfl⟩
      · split_ifs <;> exact ⟨_, rfl⟩
    obtain ⟨r, hr⟩ := hshrink
    unfold releaseUnusedPages
    split_ifs
    · rw [hr]; exact ⟨_, rfl⟩
    · exact ⟨_, rfl⟩
    · split <;> exact ⟨_, rfl⟩
  have hshift : ∀ (c : KVCache) (r : SlotMem.Run) (m : ℕ), c.isOpaque = false → ∃ x, { c with
      kBuffer := c.shiftBuffer r c.kBuffer
      vBuffer := c.shiftBuffer r c.vBuffer
      currentPos := m }.releaseUnusedPages P = .ok x := by
    intro c r m ho
    obtain ⟨kb, -, hk⟩ := c.shiftBuffer_eq r c.kBuffer
    exact hrelease _ (by rw [hk]; exact ho)
  have hseq : ¬ (c.layout = .seqMajor ∧ c.isOpaque = true) := fun h => by rw [ho] at h; cases h.2
  unfold prunePrefix
  simp only
  split_ifs
  · exact ⟨_, rfl⟩
  · omega
  · exact ⟨_, rfl⟩
  · obtain ⟨x, hx⟩ := hshift (c.setHeadStarts (c.headStarts.map (· - n))) ⟨n, 0, c.currentPos - n⟩
      (c.currentPos - n) ho
    rw [hx]
    exact ⟨_, rfl⟩
  · obtain ⟨x, hx⟩ := hshift c ⟨n, 0, c.currentPos - n⟩ (c.currentPos - n) ho
    rw [hx]
    exact ⟨_, rfl⟩

end Typed

/-! ## `prune_prefix` and `commit` -/

section Prune

variable {P : Platform} {c c' : KVCache}

/-- The cache whose holes `prune_prefix` of a proper prefix shrinks. -/
def shrinkHoles (c : KVCache) (n : ℕ) : KVCache :=
  if c.isRagged then c.setHeadStarts (c.headStarts.map (· - n)) else c

/-- **What `prune_prefix` does to the frame.** -/
theorem frame_prunePrefix {n : ℕ} (h : c.prunePrefix P n = .ok c') : (n = 0 ∧ c' = c) ∨
    (0 < n ∧ n = c.currentPos ∧ c'.frame = { c.frame with currentPos := 0, headStart := [] }) ∨
    (0 < n ∧ n < c.currentPos ∧
    c'.frame = { (c.shrinkHoles n).frame with currentPos := c.currentPos - n }) := by
  have hshift : ∀ {c c' : KVCache} {r : SlotMem.Run} {m k : ℕ}, { c with
      kBuffer := c.shiftBuffer r c.kBuffer
      vBuffer := c.shiftBuffer r c.vBuffer
      currentPos := m }.releaseUnusedPages P = .ok (k, c') →
        c'.frame = { c.frame with currentPos := m } := by
    intro c c' r m k h
    obtain ⟨kb, -, hk⟩ := c.shiftBuffer_eq r c.kBuffer
    have hf := frame_releaseUnusedPages P h
    rw [hf, hk]
    rfl
  have hholes : (if c.isRagged = true then c.setHeadStarts (c.headStarts.map (· - n)) else c) =
      c.shrinkHoles n := rfl
  unfold prunePrefix at h
  simp only [hholes] at h
  split_ifs at h
  · cases h; exact .inl ⟨‹_›, rfl⟩
  · cases h; exact .inr (.inl ⟨by omega, by omega, rfl⟩)
  · split at h
    · cases h
    · cases h; exact .inr (.inr ⟨by omega, by omega, hshift ‹_›⟩)

end Prune

end KVCache

section Commit

variable {P : Platform}

theorem commitPerHeadKeep_ok {c : KVCache} (hl : c.layout = .headMajor) (heads : List (List ℕ)) :
    ∃ c', commitPerHeadKeep c heads = .ok c' := by
  have hall : ∀ (l : List (List ℕ × ℕ)) (pos : ℕ) (c : KVCache), c.layout = .headMajor →
      ∃ c', l.foldlM (fun (c : KVCache) kh =>
        c.compactKeepPositionsForHead kh.2 kh.1 (pos - kh.1.length)) c = .ok c' := by
    intro l pos
    induction l with
    | nil => exact fun c _ => ⟨c, rfl⟩
    | cons x l ih =>
      intro c hl
      obtain ⟨c₁, h₁⟩ := compactKeepPositionsForHead_ok hl x.2 x.1 (pos - x.1.length)
      obtain ⟨kb, vb, rfl⟩ := moved_compactKeepPositionsForHead h₁
      rw [List.foldlM_cons, h₁]
      exact ih _ hl
  obtain ⟨c', h⟩ := hall heads.zipIdx ((heads.map List.length).foldl max 0) c hl
  unfold commitPerHeadKeep commitPerHeadKeepAt
  simp only [h]
  exact ⟨_, rfl⟩

/-- **An offload** leaves the cache alone or prunes the prefix. -/
theorem offloadPrefix_cache (s : SwapHandler) (layerIdx : ℕ) (c : KVCache) (n : ℕ) :
    ((c.currentPos = 0 ∨ n = 0 ∨ n ≥ c.currentPos) ∧ (s.offloadPrefix P layerIdx c n).2.2 = c) ∨
    (0 < n ∧ n < c.currentPos ∧
      ((∃ c', c.prunePrefix P n = .ok c' ∧ (s.offloadPrefix P layerIdx c n).2.2 = c') ∨
      ∃ e, c.prunePrefix P n = .error e ∧ (s.offloadPrefix P layerIdx c n).2.2 = c)) := by
  have hprune : ∀ s : SwapHandler,
    (∃ c', c.prunePrefix P n = .ok c' ∧ (s.pruneOnly P c n).2.2 = c') ∨
      ∃ e, c.prunePrefix P n = .error e ∧ (s.pruneOnly P c n).2.2 = c := by
    intro s
    unfold SwapHandler.pruneOnly
    cases c.prunePrefix P n with
    | ok c' => exact .inl ⟨c', rfl, rfl⟩
    | error e => exact .inr ⟨e, rfl, rfl⟩
  unfold SwapHandler.offloadPrefix
  simp only
  split_ifs with h₀
  · exact .inl ⟨h₀, rfl⟩
  all_goals
    rw [not_or, not_or] at h₀
    exact .inr ⟨by omega, by omega, hprune _⟩

/-- **A commit**: a re-encode, then merges, then the compaction; it stops early only on a cache that
it has not re-encoded. -/
theorem commit_cases (h : EngineCacheHandle P) : ∃ c₁ c₂ m, Moved c₁ c₂ ∧
    ((h.reencode = none ∧ c₁ = h.cache) ∨ ∃ target, h.reencode = some target ∧
    Reencoded h.cache target c₁) ∧
    (h.commit.2.1 = (h.commitCompaction c₂ m).2.1 ∨ h.commit.2.1 = h.cache) := by
  have hmerge : ∀ {c₁ : KVCache} {m : Bool}, (c₁ = h.cache ∨ c₁.isOpaque = false) →
      (∃ e, h.commitMerges c₁ m = (.error e, h.cache)) ∨
        ∃ c₂ m', Moved c₁ c₂ ∧ h.commitMerges c₁ m = (.ok (c₂, m'), c₂) := by
    intro c₁ m hc₁
    unfold EngineCacheHandle.commitMerges
    cases h.merges with
    | none => exact .inr ⟨c₁, m, .refl c₁, rfl⟩
    | some ms =>
      simp only
      split_ifs
      · exact .inr ⟨c₁, m, .refl c₁, rfl⟩
      · cases ha : applyWeightedMerges P c₁ ms with
        | ok c' => exact .inr ⟨c', true, moved_applyWeightedMerges ha, rfl⟩
        | error e =>
          rcases hc₁ with rfl | ho
          · exact .inl ⟨e, rfl⟩
          · obtain ⟨c', hok⟩ := applyWeightedMerges_ok ho ms
            rw [hok] at ha
            cases ha
  unfold EngineCacheHandle.commit EngineCacheHandle.commitValues EngineCacheHandle.commitReencode
  cases hr : h.reencode with
  | none =>
    simp only
    rcases hmerge (m := h.mutated) (.inl rfl) with ⟨e, he⟩ | ⟨c₂, m', hM, he⟩
    · rw [he]
      exact ⟨h.cache, h.cache, true, .refl _, .inl ⟨trivial, rfl⟩, .inr rfl⟩
    · rw [he]
      exact ⟨h.cache, c₂, m', hM, .inl ⟨trivial, rfl⟩, .inl rfl⟩
  | some target =>
    simp only
    cases hp : applyFormatPlan P h.cache ⟨target, []⟩ with
    | error e => exact ⟨h.cache, h.cache, true, .refl _, .inr ⟨target, rfl, .inl rfl⟩, .inr rfl⟩
    | ok c₁ =>
      simp only
      have hR := reencoded_applyFormatPlan hp
      rcases hmerge (m := true) (hR.imp id fun h => h.2.2) with ⟨e, he⟩ | ⟨c₂, m', hM, he⟩
      · rw [he]
        exact ⟨c₁, c₁, true, .refl _, .inr ⟨target, rfl, hR⟩, .inr rfl⟩
      · rw [he]
        exact ⟨c₁, c₂, m', hM, .inr ⟨target, rfl, hR⟩, .inl rfl⟩

end Commit

end ArgusEngine
