import ArgusEngine.Kv.Resize
import ArgusEngine.Lib.Runs

/-!
# Where decode reads a row

`CpuBackendCommon::attention_gen` is not told the layout of the cache. It infers it from the shape
of the K tensor and reads row `t` of a KV head at the offset of that layout, in the K and in the V
buffer; `grow` and `shrinkToFit` give the tensors a new shape.

* `isHeadMajor`, `attentionGenOffset`: the inference and the offset;
* `shape_resizes`: the shape is that of the cache's capacity after every resize;
* **`readsOwn_iff`**: when the offsets are those `update` writes to;
* `grow_to_square`: a cache that grew to as many slots as it has heads.
-/

namespace ArgusEngine

open KVCache Runs

/-! ## The inference -/

/-- `is_head_major`: HeadMajor is `[batch, kv_heads, capacity, head_dim]`. -/
def isHeadMajor (kShape : List ℕ) (numHeadsKv : ℕ) : Bool :=
  decide (kShape.length ≥ 3) && decide (kShape.getD 1 0 = numHeadsKv) &&
    decide (kShape.getD 1 0 ≠ kShape.getD 2 0)

/-- The offset of row `t` of KV head `kvH` in `attention_gen`: elements, or blocks of `Q4_0`. Other
stored types are refused. -/
def attentionGenOffset (kCache : Tensor) (numHeadsKv headDim kvH t : ℕ) : Option ℕ :=
  let headMajor := isHeadMajor kCache.shape numHeadsKv
  let capacity := if headMajor then kCache.shape.getD 2 0 else 0
  let row := if headMajor then kvH * capacity + t else t * numHeadsKv + kvH
  match kCache.dtype with
  | .f32 | .f16 => some (row * headDim)
  | .q4_0 => some (row * (headDim / QK4_0))
  | _ => none

namespace KVCache

/-- The offset of a row in the cache's own numbering: `offset`, or `q4_block_offset` for `Q4_0`. -/
def ownOffset (c : KVCache) (p h : ℕ) : ℕ :=
  if c.isQ4 then c.q4BlockOffset p h (c.headDim / QK4_0) else c.offset p h

/-- The K tensor has the shape of the cache's layout and capacity. -/
def Shaped (c : KVCache) : Prop := c.kBuffer.shape = c.shapeAt c.capacity

/-- `attention_gen` reads every resident row of every head where the cache has it. -/
def ReadsOwn (c : KVCache) : Prop :=
  ∀ p < c.currentPos, ∀ h < c.kvHeads,
    attentionGenOffset c.kBuffer c.kvHeads c.headDim h p = some (c.ownOffset p h)

/-- The cache has as many slots as heads, so that the two layouts have the same shape. -/
def Square (c : KVCache) : Prop := c.layout = .headMajor ∧ c.capacity = c.kvHeads ∧ 1 < c.kvHeads

end KVCache

/-! ## Resizes -/

inductive ResizeOp where
  | grow (minCapacity : ℕ)
  | shrinkToFit

/-- The resize, whether it succeeds or not. -/
def ResizeOp.apply : ResizeOp → KVCache → KVCache
  | grow minCapacity, c => match c.grow minCapacity with
    | .ok c' => c'
    | .error _ => c
  | shrinkToFit, c => match c.shrinkToFit with
    | .ok r => r.2
    | .error _ => c

section Resize

variable {c c' : KVCache}

theorem shaped_reallocTo (c : KVCache) (m : Memory) (cap size : ℕ) :
    (c.reallocTo m cap size).Shaped := by
  obtain ⟨m₁, m₂, kb, vb, -, -, h⟩ := c.reallocTo_buffers m cap size
  rw [h]
  rfl

theorem shaped_grow {n : ℕ} (h : c.grow n = .ok c') : c'.Shaped := by
  unfold grow at h
  cases hm : c.memory with
  | none => rw [hm] at h; cases h
  | some m =>
    rw [hm] at h
    simp only at h
    split at h
    · cases h
    · split_ifs at h
      cases h
      exact shaped_reallocTo c m _ _

theorem shaped_shrinkToFit (hc : c.Shaped) {n : ℕ} (h : c.shrinkToFit = .ok (n, c')) :
    c'.Shaped := by
  unfold shrinkToFit at h
  cases hm : c.memory with
  | none => rw [hm] at h; cases h; exact hc
  | some m =>
    rw [hm] at h
    simp only at h
    split_ifs at h
    · cases h; exact hc
    · cases h; exact hc
    · split at h
      · cases h
        exact shaped_reallocTo c m _ _
      · cases h
      · cases h

theorem resize_apply (op : ResizeOp) (hc : c.Shaped) :
    (op.apply c).Shaped ∧ (op.apply c).frame = c.frame := by
  cases op with
  | grow n =>
    simp only [ResizeOp.apply]
    split
    · rename_i c' h
      exact ⟨shaped_grow h, frame_grow h⟩
    · exact ⟨hc, rfl⟩
  | shrinkToFit =>
    simp only [ResizeOp.apply]
    split
    · rename_i r h
      exact ⟨shaped_shrinkToFit hc h, frame_shrinkToFit h⟩
    · exact ⟨hc, rfl⟩

/-- **The shape after every sequence of resizes.** -/
theorem shape_resizes {ops : List ResizeOp} (hc : c.Shaped)
    (hrun : Run (fun op c c' => ResizeOp.apply op c = c') c ops c') :
    c'.Shaped ∧ c'.frame = c.frame := by
  refine hrun.invariant (I := fun d => d.Shaped ∧ d.frame = c.frame)
    (fun op d d' hd hstep => ?_) ⟨hc, rfl⟩
  obtain ⟨hs, hf⟩ := resize_apply op hd.1
  rw [← hstep]
  exact ⟨hs, hf.trans hd.2⟩

end Resize

/-! ## The offsets -/

section Offsets

variable {c : KVCache}

theorem isHeadMajor_of_shaped (hc : c.Shaped) :
    isHeadMajor c.kBuffer.shape c.kvHeads = true ↔ c.layout = .headMajor ∧
    c.capacity ≠ c.kvHeads := by
  rw [isHeadMajor, hc, shapeAt]
  cases c.layout with
  | seqMajor =>
    simp only [List.getD_cons_succ, List.getD_cons_zero, Bool.and_eq_true, decide_eq_true_eq,
      reduceCtorEq, false_and, iff_false]
    exact fun h => h.2 h.1.2
  | headMajor =>
    simp only [List.getD_cons_succ, List.getD_cons_zero, Bool.and_eq_true,
      decide_eq_true_eq, true_and]
    exact ⟨fun h => Ne.symm h.2, fun h => ⟨⟨by simp, trivial⟩, Ne.symm h⟩⟩

/-- The slot a row is read from, in rows. -/
def inferredRow (c : KVCache) (p h : ℕ) : ℕ :=
  if c.layout = .headMajor ∧ c.capacity ≠ c.kvHeads then h * c.capacity + p else p * c.kvHeads + h

/-- The units of one row. -/
def rowUnits (c : KVCache) : ℕ := if c.isQ4 then c.headDim / QK4_0 else c.headDim

theorem attentionGenOffset_of_shaped (hc : c.Shaped)
    (hd : c.kvDtype = .f32 ∨ c.kvDtype = .f16 ∨ c.kvDtype = .q4_0) (p h : ℕ) :
    attentionGenOffset c.kBuffer c.kvHeads c.headDim h p =
      some (inferredRow c p h * rowUnits c) := by
  have hrow : (if isHeadMajor c.kBuffer.shape c.kvHeads then
      h * (if isHeadMajor c.kBuffer.shape c.kvHeads then c.kBuffer.shape.getD 2 0 else 0) + p
      else p * c.kvHeads + h) = inferredRow c p h := by
    unfold inferredRow
    by_cases hm : c.layout = .headMajor ∧ c.capacity ≠ c.kvHeads
    · have hcap : c.kBuffer.shape.getD 2 0 = c.capacity := by rw [hc, shapeAt, hm.1]; rfl
      rw [if_pos ((isHeadMajor_of_shaped hc).mpr hm), if_pos ((isHeadMajor_of_shaped hc).mpr hm),
        if_pos hm, hcap]
    · rw [if_neg fun h => hm ((isHeadMajor_of_shaped hc).mp h), if_neg hm]
  unfold attentionGenOffset rowUnits isQ4
  simp only [hrow]
  unfold kvDtype at hd
  obtain hd | hd | hd := hd <;> simp [hd]

theorem ownOffset_eq (c : KVCache) (p h : ℕ) : c.ownOffset p h =
    (if c.layout = .headMajor then h * c.capacity + p else p * c.kvHeads + h) * rowUnits c := by
  unfold ownOffset rowUnits q4BlockOffset offset
  cases hq : c.isQ4 with
  | true => cases c.layout <;> rfl
  | false => cases c.layout <;> exact (Nat.add_mul ..).symm

/-- **When the offsets are the cache's own**, for a tensor of the cache's shape. -/
theorem readsOwn_of_shaped (hc : c.Shaped)
    (hd : c.kvDtype = .f32 ∨ c.kvDtype = .f16 ∨ c.kvDtype = .q4_0) (hdim : 1 ≤ c.headDim) :
    c.ReadsOwn ↔ ¬ c.Square ∨ c.currentPos = 0 ∨ (c.isQ4 = true ∧ c.headDim < QK4_0) := by
  have hunits : rowUnits c = 0 ↔ c.isQ4 = true ∧ c.headDim < QK4_0 := by
    unfold rowUnits QK4_0
    split_ifs with hq <;> simp [hq]
    omega
  unfold ReadsOwn
  simp only [attentionGenOffset_of_shaped hc hd, ownOffset_eq, Option.some.injEq,
    mul_eq_mul_right_iff, hunits]
  by_cases hsq : c.Square
  · obtain ⟨hl, hcap, hone⟩ := hsq
    constructor
    · intro h
      by_contra hnot
      rw [not_or, not_not, not_or] at hnot
      -- the row of head 1 at position 0
      have h₁ := (h 0 (by omega) 1 hone).resolve_right hnot.2.2
      rw [inferredRow, if_neg (by simp [hcap]), if_pos hl] at h₁
      omega
    · rintro (hn | h0 | hu) p hp h hh
      · exact absurd ⟨hl, hcap, hone⟩ hn
      · omega
      · exact .inr hu
  · refine iff_of_true (fun p hp h hh => .inl ?_) (.inl hsq)
    unfold inferredRow
    by_cases hl : c.layout = .headMajor
    · by_cases hcap : c.capacity = c.kvHeads
      · -- one head: both layouts number the rows alike
        have hone : c.kvHeads = 1 := by
          by_contra h1
          exact hsq ⟨hl, hcap, by omega⟩
        rw [if_neg (by simp [hcap]), if_pos hl, hcap, hone, Nat.mul_one, Nat.mul_one, Nat.add_comm]
      · rw [if_pos ⟨hl, hcap⟩, if_pos hl]
    · rw [if_neg fun hm => hl hm.1, if_neg hl]

end Offsets

/-- **Decode reads where `update` writes**, after any sequence of resizes, unless the HeadMajor
cache has as many slots as KV heads. -/
theorem readsOwn_iff {c c' : KVCache} (hc : c.Shaped)
    (hd : c.kvDtype = .f32 ∨ c.kvDtype = .f16 ∨ c.kvDtype = .q4_0) (hdim : 1 ≤ c.headDim)
    {ops : List ResizeOp} (hrun : Run (fun op c c' => ResizeOp.apply op c = c') c ops c') :
    c'.ReadsOwn ↔ ¬ c'.Square ∨ c'.currentPos = 0 ∨ (c'.isQ4 = true ∧ c'.headDim < QK4_0) := by
  obtain ⟨hs, hf⟩ := shape_resizes hc hrun
  have hfmt : c'.format = c.format := congrArg Frame.format hf
  have hdt : c'.kvDtype = c.kvDtype := congrArg Format.dtype hfmt
  have hhd : c'.headDim = c.headDim := congrArg Format.headDim hfmt
  exact readsOwn_of_shaped hs (hdt ▸ hd) (hhd ▸ hdim)

/-- One token in a HeadMajor F32 cache of two heads, with one slot each and room to grow. -/
def oneSlot : KVCache :=
  { newDynamic (.host [1, 2, 1, 1] (List.replicate 8 0)) (.host [1, 2, 1, 1] (List.replicate 8 0))
      1 8 2 1 ⟨false, fun n => 4096 * (n + 1), 0⟩ .headMajor with
    currentPos := 1
    highWaterPos := 1 }

theorem readsOwn_grow :
    ∃ c', Run (fun op c c' => ResizeOp.apply op c = c') oneSlot [.grow 4, .shrinkToFit] c' ∧
    c'.capacity = 4 ∧ c'.ReadsOwn := by
  have hrun : ∃ c', c'.capacity = 4 ∧ Run (fun op c c' => ResizeOp.apply op c = c')
    oneSlot [.grow 4, .shrinkToFit] c' :=
    ⟨_, by decide, .cons rfl (.cons rfl (.nil _))⟩
  obtain ⟨c', hcap, hrun⟩ := hrun
  refine ⟨c', hrun, hcap,
    (readsOwn_iff (show oneSlot.Shaped from rfl) (.inl rfl) (by decide) hrun).mpr
      (.inl fun hsq => ?_)⟩
  have hheads : c'.kvHeads = 2 :=
    congrArg Format.kvHeads
      (congrArg Frame.format (shape_resizes (show oneSlot.Shaped from rfl) hrun).2)
  have := hsq.2.1
  omega

/-- **A cache that grew to as many slots as it has heads.** The row of head 1 at position 0 is
written at offset 2 and read at offset 1. -/
theorem grow_to_square : ∃ c', Run (fun op c c' => ResizeOp.apply op c = c') oneSlot [.grow 2] c' ∧
    c'.ownOffset 0 1 = 2 ∧ attentionGenOffset c'.kBuffer c'.kvHeads c'.headDim 1 0 = some 1 ∧
    ¬ c'.ReadsOwn := by
  refine ⟨_, .cons rfl (.nil _), by decide, by decide, fun h => ?_⟩
  have hread := h 0 (by decide) 1 (by decide)
  revert hread
  decide

end ArgusEngine
