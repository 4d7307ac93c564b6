import ArgusEngine.Kv.Cache

/-!
# The rows of a cache

A `(head, position)` pair of a cache occupies one row of `rowBytes` bytes, at slot `slot p h` of
each buffer, whatever the layout and the stored type. This module says what each operation does to
the rows; everything above it speaks of rows only.

* `Stored`, `WF`: a cache whose buffers hold `capacity` positions of a supported format;
* `rowsOf c x h`: the rows of head `h` in the K or V half, as a function of the position;
* `readRow_eq`: the three offset functions of the source all address row `slot p h`;
* `Rewrites c c' g`: `c'` is `c` with the rows of head `h` rearranged by `g h`, in both halves.
  **`rewrites_shiftPositions`**, **`rewrites_compactKeepPositions`**,
  **`rewrites_compactKeepPositionsForHead`**.
-/

namespace ArgusEngine

open FlatMem SlotMem

namespace KVCache

/-! ## Formats -/

/-- The storage formats: F32, F16, `Q4_0` blocks that tile `headDim`, and an opaque block format
whose blocks do. -/
def Stored (dtype : DType) (headDim : ℕ) : Option KVLayoutDesc → Prop
  | none => dtype = .f32 ∨ dtype = .f16 ∨ (dtype = .q4_0 ∧ QK4_0 ∣ headDim)
  | some d => dtype = .u8 ∧ d.packing ≠ .dense ∧ 0 < d.blockElems ∧ d.blockElems ∣ headDim

instance (dtype : DType) (headDim : ℕ) : DecidablePred (Stored dtype headDim)
  | none => inferInstanceAs (Decidable (_ ∨ _))
  | some _ => inferInstanceAs (Decidable (_ ∧ _))

section Units

variable (c : KVCache)

def buffer : Half → Tensor
  | .key => c.kBuffer
  | .value => c.vBuffer

/-- Units of one row: elements, blocks or raw bytes. -/
def perHead : ℕ := (c.headUnits 0).2

/-- Bytes of one row. -/
def rowBytes : ℕ := c.perHead * c.kvDtype.typeSize

/-- The slot of `(pos, head)`, in rows. -/
def slot (p h : ℕ) : ℕ :=
  match c.layout with
  | .seqMajor => p * c.kvHeads + h
  | .headMajor => h * c.capacity + p

/-- The storage of `c` is one of the supported formats. -/
def IsStored : Prop := Stored c.kvDtype c.headDim c.kBuffer.buffer.desc

instance : Decidable c.IsStored := inferInstanceAs (Decidable (Stored _ _ _))

variable {c}

theorem headUnits_eq (hs : c.IsStored) (cap : ℕ) :
    c.headUnits cap = (cap * c.perHead, c.perHead) := by
  unfold perHead headUnits
  split_ifs with h₁ h₂
  · rfl
  · have hdvd : QK4_0 ∣ c.headDim := by
      simp only [isQ4, decide_eq_true_eq] at h₂
      simp only [isOpaque, Option.isSome_iff_ne_none, ne_eq, not_not] at h₁
      have hd : c.kvDtype = .q4_0 := h₂
      simpa [IsStored, Stored, h₁, hd] using hs
    rw [Nat.mul_div_assoc _ hdvd]
  · rfl

theorem posUnits_eq (hs : c.IsStored) (ho : c.isOpaque = false) :
    c.posUnits = c.kvHeads * c.perHead := by
  have h : (c.headUnits c.kvHeads).1 = c.kvHeads * c.perHead := by rw [headUnits_eq hs]
  rw [← h]
  simp only [headUnits, posUnits, ho, Bool.false_eq_true, if_false]
  split_ifs <;> rfl

theorem bufSize_eq (hs : c.IsStored) (n : ℕ) :
    c.bufSize (n * c.kvHeads * c.headDim) = .ok (n * c.kvHeads * c.rowBytes) := by
  unfold IsStored at hs
  unfold bufSize rowBytes perHead headUnits
  generalize n * c.kvHeads = N
  cases hd : c.kBuffer.buffer.desc with
  | none =>
    rw [hd] at hs
    have hk : c.kBuffer.dtype = c.kvDtype := rfl
    rcases hs with h | h | ⟨h, h32⟩
    · simp [isOpaque, hd, isQ4, hk, h, DType.size, DType.typeSize, Nat.mul_assoc]
    · simp [isOpaque, hd, isQ4, hk, h, DType.size, DType.typeSize, Nat.mul_assoc]
    · simp [isOpaque, hd, isQ4, hk, h, DType.typeSize, Nat.mul_div_assoc _ h32, Nat.mul_assoc]
  | some d =>
    rw [hd] at hs
    obtain ⟨hu, hp, hb, hdvd⟩ := hs
    have hm : N * c.headDim % d.blockElems = 0 :=
      Nat.mod_eq_zero_of_dvd (Dvd.dvd.mul_left hdvd _)
    have hbb : ∃ bb, d.blockBytes = some bb := by
      cases h : d.packing <;> simp_all [KVLayoutDesc.blockBytes]
    obtain ⟨bb, hbb⟩ := hbb
    simp [isOpaque, hd, opaqueBytesPerHead, KVLayoutDesc.bytesForElems, hbb, hm, hb.ne', hu,
      DType.typeSize, Nat.mul_div_assoc _ hdvd, Nat.mul_assoc]

theorem rowBytes_of_float (hs : c.IsStored) (h : c.kvDtype = .f16 ∨ c.kvDtype = .f32) :
    c.rowBytes = c.headDim * c.kvDtype.size := by
  unfold IsStored at hs
  cases hd : c.kBuffer.buffer.desc with
  | some d =>
    rw [hd] at hs
    rcases h with h | h <;> · rw [h] at hs; cases hs.1
  | none =>
    have hk : c.kBuffer.dtype = c.kvDtype := rfl
    rcases h with h | h <;>
      simp [rowBytes, perHead, headUnits, isOpaque, isQ4, hd, hk, h, DType.typeSize, DType.size]

theorem rowBytes_of_desc {d : KVLayoutDesc} (hs : c.IsStored)
    (hd : c.kBuffer.buffer.desc = some d) : c.rowBytes = c.opaqueBytesPerHead ∧
      c.opaqueBytesPerHead = c.headDim / d.blockElems * d.blockBytes.getD 0 := by
  unfold IsStored at hs
  rw [hd] at hs
  refine ⟨?_, by simp only [opaqueBytesPerHead, hd]⟩
  simp [rowBytes, perHead, headUnits, isOpaque, hd, hs.1, DType.typeSize]

end Units

/-- What fixes the rows of a cache besides its capacity; no operation of the cache changes it. -/
structure Format where
  dtype : DType
  desc : Option KVLayoutDesc
  kvHeads : ℕ
  headDim : ℕ
  layout : KVLayout
  deriving Repr, DecidableEq

def format (c : KVCache) : Format :=
  ⟨c.kvDtype, c.kBuffer.buffer.desc, c.kvHeads, c.headDim, c.layout⟩

section SameFormat

variable {c c' : KVCache}

theorem rowBytes_of_format (h : c'.format = c.format) : c'.rowBytes = c.rowBytes := by
  simp only [format, kvDtype, Format.mk.injEq] at h
  obtain ⟨h₁, h₂, -, h₄, -⟩ := h
  simp only [rowBytes, perHead, headUnits, isOpaque, isQ4, opaqueBytesPerHead, kvDtype, h₁, h₂, h₄]
  rfl

theorem isStored_of_format (h : c'.format = c.format) (hs : c.IsStored) : c'.IsStored := by
  simp only [format, Format.mk.injEq] at h
  obtain ⟨h₁, h₂, -, h₄, -⟩ := h
  unfold IsStored at hs ⊢
  rwa [h₁, h₂, h₄]

theorem isOpaque_of_format (h : c'.format = c.format) : c'.isOpaque = c.isOpaque := by
  simp only [format, Format.mk.injEq] at h
  unfold isOpaque
  rw [h.2.1]

end SameFormat

/-- Everything but the contents, the capacity and the allocator. -/
structure Frame where
  format : Format
  currentPos : ℕ
  maxSeqLen : ℕ
  headStart : List ℕ
  headStartDev : Option (List (BitVec 32))
  headStartDirty : Bool
  isGpu : Bool
  dynamic : Bool
  deriving Repr, DecidableEq

def frame (c : KVCache) : Frame :=
  ⟨c.format, c.currentPos, c.maxSeqLen, c.headStart, c.headStartDev, c.headStartDirty,
    c.kBuffer.isGpu, c.memory.isSome⟩

/-! ## Well-formed caches -/

/-- A cache whose two buffers store `capacity` positions of every head in one supported format. An
opaque store is HeadMajor once it holds tokens. -/
structure WF (c : KVCache) : Prop where
  stored : c.IsStored
  dtype : c.vBuffer.dtype = c.kBuffer.dtype
  desc : c.vBuffer.buffer.desc = c.kBuffer.buffer.desc
  size : ∀ x, c.capacity * c.kvHeads * c.rowBytes ≤ (c.buffer x).size
  pos : c.currentPos ≤ c.capacity
  hwm : c.highWaterPos ≤ c.capacity
  cap : c.capacity ≤ c.maxSeqLen
  starts : ∀ h, c.headStartOf h ≤ c.currentPos
  seqMajor : c.isOpaque = true → c.layout = .seqMajor → c.currentPos = 0

/-- The rows of head `h` of a buffer; nothing is stored past the capacity. -/
def headRows (c : KVCache) (t : Tensor) (h p : ℕ) : List UInt8 :=
  if p < c.capacity then rows c.rowBytes t.bytes (c.slot p h) else []

/-- The rows of head `h` in one half. -/
def rowsOf (c : KVCache) (x : Half) (h : ℕ) : ℕ → List UInt8 := c.headRows (c.buffer x) h

theorem headRows_of_lt {c : KVCache} {t : Tensor} {h p : ℕ} (hp : p < c.capacity) :
    c.headRows t h p = rows c.rowBytes t.bytes (c.slot p h) := if_pos hp

theorem headRows_of_not_lt {c : KVCache} {t : Tensor} {h p : ℕ} (hp : ¬ p < c.capacity) :
    c.headRows t h p = [] := if_neg hp

theorem slot_headMajor {c : KVCache} (hl : c.layout = .headMajor) (p h : ℕ) :
    c.slot p h = h * c.capacity + p := by unfold slot; rw [hl]

theorem WF.dtype_buffer {c : KVCache} (hc : c.WF) (x : Half) : (c.buffer x).dtype = c.kvDtype := by
  cases x
  · rfl
  · exact hc.dtype

theorem WF.opaque_headMajor {c : KVCache} (hc : c.WF) (hpos : 0 < c.currentPos) :
    c.isOpaque = true → c.layout = .headMajor := by
  intro ho
  cases hl : c.layout with
  | headMajor => rfl
  | seqMajor => have := hc.seqMajor ho hl; omega

theorem slot_lt {c : KVCache} {p h : ℕ} (hp : p < c.capacity) (hh : h < c.kvHeads) :
    c.slot p h < c.capacity * c.kvHeads := by
  unfold slot
  cases c.layout
  · exact Nat.lt_of_lt_of_le (Nat.add_lt_add_left hh _) (row_bound hp)
  · rw [Nat.mul_comm c.capacity]
    exact Nat.lt_of_lt_of_le (Nat.add_lt_add_left hp _) (row_bound hh)

theorem slot_inj {c : KVCache} {p h p' h' : ℕ} (hp : p < c.capacity) (hp' : p' < c.capacity)
    (hh : h < c.kvHeads) (hh' : h' < c.kvHeads) (he : c.slot p h = c.slot p' h') :
    p = p' ∧ h = h' := by
  unfold slot at he
  cases hl : c.layout <;> rw [hl] at he
  · exact block_inj hh hh' he
  · exact (block_inj hp hp' he).symm

/-! ## Reading a row -/

/-- The row of `(p, h)` as the readers of a buffer find it. -/
def readRow (c : KVCache) (t : Tensor) (p h : ℕ) : List UInt8 :=
  if c.isOpaque then slice t.bytes ((h * c.capacity + p) * c.opaqueBytesPerHead)
    c.opaqueBytesPerHead
  else if c.isQ4 then
    let blocksPerPos := c.headDim / QK4_0
    slice t.bytes (c.q4BlockOffset p h blocksPerPos * blockQ4_0Size) (blocksPerPos * blockQ4_0Size)
  else slice t.bytes (c.offset p h * c.kvDtype.size) (c.headDim * c.kvDtype.size)

theorem readRow_eq {c : KVCache} (hs : c.IsStored) (ho : c.isOpaque = true → c.layout = .headMajor)
    (t : Tensor) (p h : ℕ) : c.readRow t p h = rows c.rowBytes t.bytes (c.slot p h) := by
  unfold readRow rows
  by_cases hop : c.isOpaque = true
  · obtain ⟨d, hd⟩ := Option.isSome_iff_exists.mp hop
    rw [if_pos hop, slot_headMajor (ho hop), (rowBytes_of_desc hs hd).1]
  rw [if_neg hop]
  have hdesc : c.kBuffer.buffer.desc = none := by simpa [isOpaque] using hop
  by_cases hq : c.isQ4 = true
  · have hd : c.kvDtype = .q4_0 := by simpa [isQ4, kvDtype] using hq
    have hrow : c.rowBytes = c.headDim / QK4_0 * blockQ4_0Size := by
      simp [rowBytes, perHead, headUnits, hop, hq, hd, DType.typeSize]
    rw [if_pos hq, hrow]
    unfold q4BlockOffset slot
    cases c.layout <;> simp only [Nat.mul_assoc]
  · have hd : c.kvDtype = .f16 ∨ c.kvDtype = .f32 := by
      have hne : c.kvDtype ≠ .q4_0 := by simpa [isQ4, kvDtype] using hq
      unfold IsStored at hs
      rw [hdesc] at hs
      rcases hs with h | h | h
      · exact .inr h
      · exact .inl h
      · exact absurd h.1 hne
    rw [if_neg hq, rowBytes_of_float hs hd]
    unfold offset slot
    cases c.layout <;> simp only <;> congr 1 <;> ring

theorem WF.readRow {c : KVCache} (hc : c.WF) (x : Half) (h : ℕ) {p : ℕ} (hp : p < c.currentPos) :
    c.readRow (c.buffer x) p h = c.rowsOf x h p := by
  rw [readRow_eq hc.stored (hc.opaque_headMajor (Nat.zero_lt_of_lt hp))]
  exact (headRows_of_lt (hp.trans_le hc.pos)).symm

/-! ## Rearranging rows -/

/-- The cache with other buffer contents. -/
def withContents (c : KVCache) (kb vb : List UInt8) : KVCache :=
  { c with kBuffer := c.kBuffer.withBytes kb, vBuffer := c.vBuffer.withBytes vb }

/-- `c'` is `c` with the rows of head `h` rearranged by `g h`, in both halves. -/
structure Rewrites (c c' : KVCache) (g : ℕ → (ℕ → List UInt8) → ℕ → List UInt8) : Prop where
  frame : ∃ kb vb, kb.length = c.kBuffer.size ∧ vb.length = c.vBuffer.size ∧
    c' = c.withContents kb vb
  rows : ∀ x, ∀ h < c.kvHeads, c'.rowsOf x h = g h (c.rowsOf x h)

theorem Rewrites.refl (c : KVCache) : Rewrites c c fun _ f => f :=
  ⟨⟨_, _, rfl, rfl, rfl⟩, fun _ _ _ => rfl⟩

theorem Rewrites.trans {c c' c'' : KVCache} {g g' : ℕ → (ℕ → List UInt8) → ℕ → List UInt8}
    (h : Rewrites c c' g) (h' : Rewrites c' c'' g') : Rewrites c c'' fun k f => g' k (g k f) := by
  obtain ⟨kb, vb, hk, hv, rfl⟩ := h.frame
  obtain ⟨kb', vb', hk', hv', rfl⟩ := h'.frame
  refine ⟨⟨kb', vb', hk'.trans hk, hv'.trans hv, rfl⟩, fun x k hk => ?_⟩
  rw [h'.rows x k hk, h.rows x k hk]

theorem Rewrites.congr {c c' : KVCache} {g g' : ℕ → (ℕ → List UInt8) → ℕ → List UInt8}
    (h : Rewrites c c' g) (hg : ∀ k f, g k f = g' k f) : Rewrites c c' g' :=
  ⟨h.frame, fun x k hk => (h.rows x k hk).trans (hg _ _)⟩

theorem Rewrites.wf {c c' : KVCache} {g : ℕ → (ℕ → List UInt8) → ℕ → List UInt8}
    (h : Rewrites c c' g) (hc : c.WF) : c'.WF := by
  obtain ⟨kb, vb, hk, hv, rfl⟩ := h.frame
  refine ⟨hc.stored, hc.dtype, hc.desc, ?_, hc.pos, hc.hwm, hc.cap, hc.starts, hc.seqMajor⟩
  rintro (_ | _)
  · exact (hc.size .key).trans_eq hk.symm
  · exact (hc.size .value).trans_eq hv.symm

theorem shiftBuffer_eq (c : KVCache) (r : Run) (t : Tensor) :
    ∃ b, b.length = t.size ∧ c.shiftBuffer r t = t.withBytes b := by
  unfold shiftBuffer
  cases c.layout
  · exact ⟨_, length_blit _ _ _ _ _, rfl⟩
  · exact ⟨_, length_foldl_blit_self _ _, Tensor.foldl_bufferShift _ _ _ _ _⟩

theorem unit_offset (c : KVCache) (k cap a : ℕ) :
    (k * (cap * c.perHead) + a * c.perHead) * c.kvDtype.typeSize = (k * cap + a) * c.rowBytes := by
  unfold rowBytes; ring

theorem unit_count (c : KVCache) (n : ℕ) : n * c.perHead * c.kvDtype.typeSize = n * c.rowBytes :=
  Nat.mul_assoc _ _ _

section Shift

variable {c : KVCache} {t : Tensor} {r : Run}

/-- **A shift moves the rows of every head.** -/
theorem headRows_shiftBuffer (hs : c.IsStored) (ht : t.dtype = c.kvDtype)
    (hsize : c.capacity * c.kvHeads * c.rowBytes ≤ t.size) (hsrc : r.src + r.count ≤ c.capacity)
    (hdst : r.dst + r.count ≤ c.capacity) (ho : c.isOpaque = true → c.layout = .headMajor) {h : ℕ}
    (hh : h < c.kvHeads) : c.headRows (c.shiftBuffer r t) h = move (c.headRows t h) r := by
  have hsize' : c.capacity * c.kvHeads * c.rowBytes ≤ t.bytes.length := hsize
  funext p
  by_cases hp : p < c.capacity
  swap
  · rw [move_of_not_hits (fun hit => hp (Nat.lt_of_lt_of_le hit.2 hdst))]
    rw [headRows_of_not_lt hp, headRows_of_not_lt hp]
  have hmove : move (c.headRows t h) r p =
    move (fun q => rows c.rowBytes t.bytes (c.slot q h)) r p := by
    by_cases hit : r.Hits p
    · have h₁ := hit.1
      have h₂ := hit.2
      rw [move_of_hits hit, move_of_hits hit, headRows_of_lt (by omega)]
    · rw [move_of_not_hits hit, move_of_not_hits hit, headRows_of_lt hp]
  rw [hmove, headRows_of_lt hp]
  unfold shiftBuffer slot
  cases hl : c.layout with
  | seqMajor =>
    have hno : c.isOpaque = false := by
      cases hop : c.isOpaque with
      | false => rfl
      | true => rw [ho hop] at hl; cases hl
    have hunit : ∀ a, a * c.posUnits * t.dtype.typeSize = a * c.kvHeads * c.rowBytes := by
      intro a; rw [posUnits_eq hs hno, ht]; unfold rowBytes; ring
    have hbound : ∀ {a}, a + r.count ≤ c.capacity →
        (a * c.kvHeads + r.count * c.kvHeads) * c.rowBytes ≤ t.bytes.length := by
      intro a ha
      rw [← Nat.add_mul]
      exact (Nat.mul_le_mul_right _ (Nat.mul_le_mul_right _ ha)).trans hsize'
    simp only [Tensor.bufferShift, Tensor.copySlice, Tensor.bytes_withBytes, hunit]
    rw [rows_blit (hbound hsrc) (hbound hdst)]
    exact place_interleaved _ _ _ _ _ hh p
  | headMajor =>
    have hbound : ∀ {a k}, a + r.count ≤ c.capacity → k ∈ List.range c.kvHeads →
        (k * c.capacity + a + r.count) * c.rowBytes ≤ t.bytes.length := by
      intro a k ha hk
      refine le_trans (Nat.mul_le_mul_right _ ?_) hsize'
      have := row_bound (w := c.capacity) (List.mem_range.mp hk)
      rw [Nat.mul_comm c.capacity]
      omega
    simp only [headUnits_eq hs]
    rw [Tensor.foldl_bufferShift, Tensor.bytes_withBytes, ht]
    simp only [unit_offset, unit_count]
    rw [rows_foldl_blit_self (r := fun k =>
      ⟨k * c.capacity + r.src, k * c.capacity + r.dst, r.count⟩) (fun k hk => hbound hsrc hk)
        (fun k hk => hbound hdst hk)]
    rw [foldl_move_blocks _ hsrc hdst _ hp, if_pos hh]

/-- **A one-head shift moves the rows of that head only.** -/
theorem headRows_shiftBufferForHead (hs : c.IsStored) (ht : t.dtype = c.kvDtype)
    (hsize : c.capacity * c.kvHeads * c.rowBytes ≤ t.size) (hsrc : r.src + r.count ≤ c.capacity)
    (hdst : r.dst + r.count ≤ c.capacity) (hl : c.layout = .headMajor) {head h : ℕ}
    (hhead : head < c.kvHeads) :
    c.headRows (c.shiftBufferForHead head r t) h =
      if h = head then move (c.headRows t h) r else c.headRows t h := by
  have hsize' : c.capacity * c.kvHeads * c.rowBytes ≤ t.bytes.length := hsize
  have hbound : ∀ {a}, a + r.count ≤ c.capacity →
      (head * c.capacity + a + r.count) * c.rowBytes ≤ t.bytes.length := by
    intro a ha
    refine le_trans (Nat.mul_le_mul_right _ ?_) hsize'
    have := row_bound (w := c.capacity) hhead
    rw [Nat.mul_comm c.capacity]
    omega
  have hrows : rows c.rowBytes (c.shiftBufferForHead head r t).bytes =
      move (rows c.rowBytes t.bytes)
        ⟨head * c.capacity + r.src, head * c.capacity + r.dst, r.count⟩ := by
    simp only [shiftBufferForHead, headUnits_eq hs, Tensor.bufferShift, Tensor.copySlice,
      Tensor.bytes_withBytes, ht, unit_offset, unit_count]
    exact rows_blit (hbound hsrc) (hbound hdst)
  funext p
  by_cases hp : p < c.capacity
  swap
  · split_ifs
    · rw [move_of_not_hits (fun hit => hp (Nat.lt_of_lt_of_le hit.2 hdst)), headRows_of_not_lt hp,
        headRows_of_not_lt hp]
    · rw [headRows_of_not_lt hp, headRows_of_not_lt hp]
  rw [headRows_of_lt hp, hrows, slot_headMajor hl]
  by_cases he : h = head
  · subst he
    rw [if_pos rfl]
    by_cases hit : r.Hits p
    · have h₁ := hit.1
      have h₂ := hit.2
      rw [move_of_hits hit, move_of_hits (by simp only [Run.Hits]; omega),
        headRows_of_lt (by omega),
        slot_headMajor hl]
      congr 1
      simp only
      omega
    · rw [move_of_not_hits hit, move_of_not_hits, headRows_of_lt hp, slot_headMajor hl]
      intro hit'
      simp only [Run.Hits] at hit hit'
      omega
  · rw [if_neg he, headRows_of_lt hp, slot_headMajor hl, move_of_not_hits]
    -- a target slot of the run lies in block `head`
    intro hit
    simp only [Run.Hits] at hit
    exact he (block_inj (j := h * c.capacity + p - head * c.capacity) hp (by omega) (by omega)).1

end Shift

theorem rewrites_of_buffers {c : KVCache} {f : Tensor → Tensor}
    {g : ℕ → (ℕ → List UInt8) → ℕ → List UInt8}
    (hf : ∀ t, ∃ b, b.length = t.size ∧ f t = t.withBytes b)
    (hg : ∀ x, ∀ h < c.kvHeads, c.headRows (f (c.buffer x)) h = g h (c.headRows (c.buffer x) h)) :
    Rewrites c { c with kBuffer := f c.kBuffer, vBuffer := f c.vBuffer } g := by
  obtain ⟨kb, hkb, hk⟩ := hf c.kBuffer
  obtain ⟨vb, hvb, hv⟩ := hf c.vBuffer
  have he : ({ c with kBuffer := f c.kBuffer, vBuffer := f c.vBuffer } : KVCache) =
    c.withContents kb vb := by
    rw [hk, hv]; rfl
  rw [he]
  refine ⟨⟨kb, vb, hkb, hvb, rfl⟩, fun x h hh => ?_⟩
  refine Eq.trans ?_ (hg x h hh)
  cases x
  · rw [show f (c.buffer .key) = _ from hk]; rfl
  · rw [show f (c.buffer .value) = _ from hv]; rfl

section Compact

variable {c : KVCache}

theorem rewrites_shiftPositions (hc : c.WF)
    (ho : c.isOpaque = true → c.layout = .headMajor) {r : Run} (hr : r.Within c.capacity) :
    ∃ c', c.shiftPositions r = .ok c' ∧ Rewrites c c' fun _ f => move f r := by
  unfold shiftPositions
  by_cases h₁ : r.count = 0 ∨ r.src = r.dst
  · rw [if_pos h₁]
    refine ⟨c, rfl, (Rewrites.refl c).congr fun _ f => ?_⟩
    rcases h₁ with h₁ | h₁
    · exact (move_of_count_eq_zero f r h₁).symm
    · exact (move_self f r h₁).symm
  have h₂ : ¬ (c.layout = .seqMajor ∧ c.isOpaque = true) := by
    rintro ⟨hl, hop⟩
    rw [ho hop] at hl
    cases hl
  rw [if_neg h₁, if_neg h₂]
  exact ⟨_, rfl, rewrites_of_buffers (c.shiftBuffer_eq r) fun x h hh =>
    headRows_shiftBuffer hc.stored (hc.dtype_buffer x) (hc.size x) hr.src hr.dst ho hh⟩

theorem rewrites_shiftPositionsForHead (hc : c.WF) (hl : c.layout = .headMajor) {head : ℕ}
    (hh : head < c.kvHeads) {r : Run} (hr : r.Within c.capacity) :
    ∃ c', c.shiftPositionsForHead head r = .ok c' ∧
      Rewrites c c' fun h f => if h = head then move f r else f := by
  unfold shiftPositionsForHead
  rw [if_neg (not_not.mpr hl)]
  by_cases h₁ : r.count = 0 ∨ r.src = r.dst
  · rw [if_pos h₁]
    refine ⟨c, rfl, (Rewrites.refl c).congr fun h f => ?_⟩
    split_ifs
    · rcases h₁ with h₁ | h₁
      · exact (move_of_count_eq_zero f r h₁).symm
      · exact (move_self f r h₁).symm
    · rfl
  · rw [if_neg h₁]
    refine ⟨_, rfl, rewrites_of_buffers (fun t => ⟨_, length_blit _ _ _ _ _, rfl⟩) fun x h _ => ?_⟩
    exact headRows_shiftBufferForHead hc.stored (hc.dtype_buffer x) (hc.size x) hr.src hr.dst hl hh

/-- The batching loop makes the moves of the coalesced runs, first to last. -/
theorem rewrites_compactLoop (ws : ℕ) (ps : List ℕ) : ∀ (i : ℕ) (r : Run) (c : KVCache), c.WF →
    (c.isOpaque = true → c.layout = .headMajor) →
    (∀ q ∈ coalesceFrom ws i r ps, q.Within c.capacity) → ∃ c',
    compactLoop (ws + i) r ps c = .ok c' ∧
      Rewrites c c' fun _ f => (coalesceFrom ws i r ps).foldl move f := by
  have flush : ∀ (r : Run) (c : KVCache), c.WF → (c.isOpaque = true → c.layout = .headMajor) →
      r.Within c.capacity → ∃ c', (if r.src ≠ r.dst then c.shiftPositions r else .ok c) = .ok c' ∧
        Rewrites c c' fun _ f => move f r := by
    intro r c hc ho hr
    split_ifs with h
    · exact rewrites_shiftPositions hc ho hr
    · exact ⟨c, rfl, (Rewrites.refl c).congr fun _ f => (move_self f r (not_not.mp h)).symm⟩
  induction ps with
  | nil =>
    intro i r c hc ho hr
    exact flush r c hc ho (hr r List.mem_cons_self)
  | cons p ps ih =>
    intro i r c hc ho hr
    rw [coalesceFrom] at hr
    rw [compactLoop, coalesceFrom]
    by_cases h : p = r.src + r.count
    · rw [if_pos h] at hr
      rw [if_pos h, if_pos h]
      exact ih (i + 1) _ c hc ho hr
    · rw [if_neg h] at hr
      rw [if_neg h, if_neg h]
      obtain ⟨c₁, h₁, hR⟩ := flush r c hc ho (hr r List.mem_cons_self)
      have hwf := hR.wf hc
      obtain ⟨kb, vb, -, -, rfl⟩ := hR.frame
      obtain ⟨c₂, h₂, hR'⟩ := ih (i + 1) ⟨p, ws + i, 1⟩ _ hwf ho
        fun q hq => hr q (List.mem_cons_of_mem _ hq)
      exact ⟨c₂, by rw [h₁]; exact h₂, hR.trans hR'⟩

/-- **`compact_keep_positions` flushes the runs of the keep list first to last.** -/
theorem rewrites_compactKeepPositions (hc : c.WF) (ho : c.isOpaque = true → c.layout = .headMajor)
    {keep : List ℕ} (ws : ℕ) (hk : ∀ p ∈ keep, p < c.capacity)
    (hw : ws + keep.length ≤ c.capacity) : ∃ c', c.compactKeepPositions keep ws = .ok c' ∧
      Rewrites c c' fun _ f => (coalesce ws keep).foldl move f := by
  cases keep with
  | nil => exact ⟨c, rfl, Rewrites.refl c⟩
  | cons p ps =>
    exact rewrites_compactLoop ws ps 1 ⟨p, ws, 1⟩ c hc ho fun q hq =>
      within_of_mem_coalesce hk hw hq

theorem rewrites_flushRuns {head : ℕ} (rs : List Run) :
    ∀ (c : KVCache), c.WF → c.layout = .headMajor → head < c.kvHeads →
    (∀ q ∈ rs, q.Within c.capacity) → ∃ c', flushRuns head rs c = .ok c' ∧
      Rewrites c c' fun h f => if h = head then rs.foldl move f else f := by
  induction rs with
  | nil => exact fun c _ _ _ _ => ⟨c, rfl, (Rewrites.refl c).congr fun h f => (ite_self f).symm⟩
  | cons r rs ih =>
    intro c hc hl hh hr
    obtain ⟨c₁, h₁, hR⟩ := rewrites_shiftPositionsForHead hc hl hh (hr r List.mem_cons_self)
    have hwf := hR.wf hc
    obtain ⟨kb, vb, -, -, rfl⟩ := hR.frame
    obtain ⟨c₂, h₂, hR'⟩ := ih _ hwf hl hh fun q hq => hr q (List.mem_cons_of_mem _ hq)
    refine ⟨c₂, by rw [flushRuns, h₁]; exact h₂, (hR.trans hR').congr fun h f => ?_⟩
    split_ifs <;> rfl

/-- **`compact_keep_positions_for_head` gathers the keep list of one head.** -/
theorem rewrites_compactKeepPositionsForHead (hc : c.WF) (hl : c.layout = .headMajor) {head : ℕ}
    (hh : head < c.kvHeads) {keep : List ℕ} (ws : ℕ) (hk : ∀ p ∈ keep, p < c.capacity)
    (hw : ws + keep.length ≤ c.capacity) :
    ∃ c', c.compactKeepPositionsForHead head keep ws = .ok c' ∧
      Rewrites c c' fun h f => if h = head then (flushOrder (coalesce ws keep)).foldl move f
        else f := by
  unfold compactKeepPositionsForHead
  by_cases he : keep.isEmpty
  · rw [if_pos he, List.isEmpty_iff.mp he]
    exact ⟨c, rfl, (Rewrites.refl c).congr fun h f => (ite_self f).symm⟩
  rw [if_neg he]
  have hall : ∀ q ∈ coalesce ws keep, q.Within c.capacity := fun q hq =>
    within_of_mem_coalesce hk hw hq
  simp only
  set runs := coalesce ws keep
  set split := runs.findIdx fun r => decide (r.dst ≤ r.src)
  obtain ⟨c₁, h₁, hR⟩ := rewrites_flushRuns (runs.take split).reverse c hc hl hh
    fun q hq => hall q (List.mem_of_mem_take (List.mem_reverse.mp hq))
  have hwf := hR.wf hc
  obtain ⟨kb, vb, -, -, rfl⟩ := hR.frame
  obtain ⟨c₂, h₂, hR'⟩ := rewrites_flushRuns
    ((runs.drop split).filter fun r => decide (r.src ≠ r.dst)) _ hwf hl hh
    fun q hq => hall q (List.mem_of_mem_drop (List.mem_filter.mp hq).1)
  refine ⟨c₂, by rw [h₁]; exact h₂, (hR.trans hR').congr fun h f => ?_⟩
  split_ifs with hhead
  · -- runs that stay in place are skipped
    have hskip : ∀ (l : List Run) (f : ℕ → List UInt8),
        (l.filter fun r => decide (r.src ≠ r.dst)).foldl move f = l.foldl move f := by
      intro l
      induction l with
      | nil => exact fun f => rfl
      | cons r l ih =>
        intro f
        rw [List.filter_cons, List.foldl_cons]
        split_ifs with hr
        · rw [List.foldl_cons, ih]
        · rw [move_self f r (by simpa using hr), ih]
    rw [hskip, flushOrder, List.foldl_append]
  · rfl

end Compact

end KVCache

end ArgusEngine
