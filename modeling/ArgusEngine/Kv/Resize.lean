import ArgusEngine.Kv.Rows

/-!
# Resizing and releasing keep the rows

`grow`, `ensure_capacity`, `shrink_to_fit` move the cache to buffers of another capacity, which
changes every HeadMajor offset; `release_unused_pages` hands pages back to the system. All of them
are the identity on the resident rows:

* `Keeps c c'`: `c'` is well formed, has the frame of `c` and its resident rows;
* **`keeps_grow`**, **`keeps_ensureCapacity`**, **`keeps_shrinkToFit`**,
  **`keeps_releaseUnusedPages`**.
-/

namespace ArgusEngine

namespace KVCache

open FlatMem SlotMem

/-! ## Reallocation -/

section Realloc

variable {c : KVCache}

theorem copyResident_eq (c : KVCache) (cap : ℕ) (old new : Tensor) :
    ∃ b, b.length = new.size ∧ c.copyResident cap old new = new.withBytes b := by
  unfold copyResident
  split_ifs
  · exact ⟨_, rfl, rfl⟩
  · cases c.layout
    · exact ⟨_, length_blit _ _ _ _ _, rfl⟩
    · exact ⟨_, length_foldl_blit _ _, Tensor.foldl_withBytes _ _ _⟩

/-- The copy of `grow` and `shrink_to_fit` carries every resident row to its new slot. -/
theorem rows_copyResident (hc : c.WF) {cap : ℕ} {old new : Tensor} (ht : old.dtype = c.kvDtype)
    (hold : c.capacity * c.kvHeads * c.rowBytes ≤ old.bytes.length)
    (hnew : cap * c.kvHeads * c.rowBytes ≤ new.bytes.length) (hcap : c.currentPos ≤ cap) {h p : ℕ}
    (hh : h < c.kvHeads) (hp : p < c.currentPos) :
    rows c.rowBytes (c.copyResident cap old new).bytes ({ c with capacity := cap }.slot p h) =
      rows c.rowBytes old.bytes (c.slot p h) := by
  have hpos := hc.pos
  have hop := hc.opaque_headMajor (Nat.zero_lt_of_lt hp)
  unfold copyResident slot
  rw [if_neg (by omega)]
  cases hl : c.layout with
  | seqMajor =>
    have hno : c.isOpaque = false := by
      by_contra hne
      rw [hop (by simpa using hne)] at hl
      cases hl
    have hunit : c.currentPos * c.posUnits * old.dtype.typeSize =
        (c.currentPos * c.kvHeads) * c.rowBytes := by
      rw [posUnits_eq hc.stored hno, ht]; unfold rowBytes; ring
    have hbound : ∀ {n : ℕ} {b : List UInt8}, c.currentPos ≤ n →
      n * c.kvHeads * c.rowBytes ≤ b.length →
        (0 + c.currentPos * c.kvHeads) * c.rowBytes ≤ b.length := by
      intro n b hn hb
      rw [Nat.zero_add]
      exact (Nat.mul_le_mul_right _ (Nat.mul_le_mul_right _ hn)).trans hb
    have hlt : p * c.kvHeads + h < 0 + c.currentPos * c.kvHeads := by
      have := row_bound (w := c.kvHeads) hp
      omega
    simp only [Tensor.copySlice, Tensor.bytes_withBytes, hunit, Nat.zero_mul]
    rw [← Nat.zero_mul c.rowBytes, rows_blit (hbound hpos hold) (hbound hcap hnew),
      place_of_mem (Nat.zero_le _) hlt]
    simp
  | headMajor =>
    have hbound : ∀ {n : ℕ} {b : List UInt8}, c.currentPos ≤ n →
      n * c.kvHeads * c.rowBytes ≤ b.length →
        ∀ k ∈ List.range c.kvHeads, (k * n + c.currentPos) * c.rowBytes ≤ b.length := by
      intro n b hn hb k hk
      refine le_trans (Nat.mul_le_mul_right _ ?_) hb
      have := row_bound (w := n) (List.mem_range.mp hk)
      rw [Nat.mul_comm n]
      omega
    have hunit : ∀ k n, k * (n * c.perHead) * c.kvDtype.typeSize = k * n * c.rowBytes := by
      intro k n; unfold rowBytes; ring
    simp only [headUnits_eq hc.stored, Tensor.copySlice, ht]
    rw [Tensor.foldl_withBytes (fun k b => blit old.bytes _ b _ _), Tensor.bytes_withBytes]
    simp only [hunit, unit_count]
    rw [rows_foldl_blit (fun _ => old.bytes) (a := fun k => k * c.capacity) (e := fun k => k * cap)
      (n := fun _ => c.currentPos) (hbound hpos hold) (hbound hcap hnew)]
    rw [foldl_place_of_mem (fun _ => rows c.rowBytes old.bytes)
      _ _ _ (List.mem_range.mpr hh) (by omega) (by omega)]
    · congr 1; omega
    · -- the blocks of two heads are disjoint
      rintro k - hk ⟨h₁, h₂⟩
      exact hk (block_inj (n := cap) (i := h * cap + p - k * cap) (j := p) (by omega)
        (by omega) (by omega)).1

theorem allocTensor_buffer (c : KVCache) (m : Memory) (size cap : ℕ) :
    (c.allocTensor m size cap).1.dtype = c.kvDtype ∧
      (c.allocTensor m size cap).1.buffer.desc = c.kBuffer.buffer.desc ∧
      (c.allocTensor m size cap).1.size = size ∧
      (c.allocTensor m size cap).1.isGpu = c.kBuffer.isGpu := by
  unfold allocTensor
  split_ifs <;> exact ⟨rfl, rfl, List.length_replicate, rfl⟩

/-- The buffers of `reallocTo`: fresh tensors of the cache's type with other contents. -/
theorem reallocTo_buffers (c : KVCache) (m : Memory) (cap size : ℕ) :
    ∃ (m₁ m₂ : Memory) (kb vb : List UInt8), kb.length = size ∧ vb.length = size ∧
      (c.reallocTo m cap size) = { c with
        kBuffer := (c.allocTensor m size cap).1.withBytes kb
        vBuffer := (c.allocTensor m₁ size cap).1.withBytes vb
        capacity := cap
        memory := some m₂ } := by
  obtain ⟨kb, hkb, hk⟩ := c.copyResident_eq cap c.kBuffer (c.allocTensor m size cap).1
  obtain ⟨vb, hvb, hv⟩ := c.copyResident_eq cap c.vBuffer
    (c.allocTensor (c.allocTensor m size cap).2 size cap).1
  rw [(c.allocTensor_buffer _ _ _).2.2.1] at hkb hvb
  refine ⟨(c.allocTensor m size cap).2,
    (c.allocTensor (c.allocTensor m size cap).2 size cap).2, kb, vb, hkb, hvb, ?_⟩
  unfold reallocTo
  simp only [hk, hv]

theorem frame_reallocTo (c : KVCache) {m : Memory} (hm : c.memory = some m) (cap size : ℕ) :
    (c.reallocTo m cap size).frame = c.frame := by
  obtain ⟨m₁, m₂, kb, vb, -, -, h⟩ := c.reallocTo_buffers m cap size
  obtain ⟨h₁, h₂, -, h₄⟩ := c.allocTensor_buffer m size cap
  rw [h]
  have h₁' : ((c.allocTensor m size cap).1.withBytes kb).dtype = c.kvDtype := h₁
  have h₂' : ((c.allocTensor m size cap).1.withBytes kb).buffer.desc = c.kBuffer.buffer.desc := h₂
  have h₄' : ((c.allocTensor m size cap).1.withBytes kb).isGpu = c.kBuffer.isGpu := h₄
  simp only [frame, format, kvDtype, h₁', h₂', h₄', hm, Option.isSome_some]

/-- `c'` is `c` with its resident rows in place, perhaps in other buffers. -/
structure Keeps (c c' : KVCache) : Prop where
  wf : c'.WF
  frame : c'.frame = c.frame
  rows : ∀ x, ∀ h < c.kvHeads, ∀ p, c.headStartOf h ≤ p → p < c.currentPos →
    c'.rowsOf x h p = c.rowsOf x h p

theorem Keeps.refl (hc : c.WF) : Keeps c c := ⟨hc, rfl, fun _ _ _ _ _ _ => rfl⟩

/-- **Reallocation keeps the rows** of all positions below the cursor, holes included. -/
theorem rowsOf_reallocTo (hc : c.WF) (m : Memory) {cap : ℕ} (hcap : c.currentPos ≤ cap) (x : Half)
    {h : ℕ} (hh : h < c.kvHeads) {p : ℕ} (hp : p < c.currentPos) :
    (c.reallocTo m cap (cap * c.kvHeads * c.rowBytes)).rowsOf x h p = c.rowsOf x h p := by
  have hpos := hc.pos
  have hrow : (c.reallocTo m cap (cap * c.kvHeads * c.rowBytes)).rowBytes = c.rowBytes := by
    refine rowBytes_of_format ?_
    have := frame_reallocTo { c with memory := some m } rfl cap (cap * c.kvHeads * c.rowBytes)
    exact congrArg Frame.format this
  have key : ∀ old m', old.dtype = c.kvDtype → c.capacity * c.kvHeads * c.rowBytes ≤ old.size →
      rows c.rowBytes (c.copyResident cap old
        (c.allocTensor m' (cap * c.kvHeads * c.rowBytes) cap).1).bytes
          ({ c with capacity := cap }.slot p h) =
      rows c.rowBytes old.bytes (c.slot p h) := by
    intro old m' ht hold
    refine rows_copyResident hc ht hold (le_of_eq ?_) hcap hh hp
    exact (c.allocTensor_buffer m' _ cap).2.2.1.symm
  unfold rowsOf
  rw [headRows_of_lt (show p < cap by omega), headRows_of_lt (by omega), hrow]
  cases x
  · exact key c.kBuffer m rfl (hc.size .key)
  · exact key c.vBuffer _ hc.dtype (hc.size .value)

theorem wf_reallocTo (hc : c.WF) {m : Memory} {cap : ℕ} (hcap : c.currentPos ≤ cap)
    (hhwm : c.highWaterPos ≤ cap) (hmax : cap ≤ c.maxSeqLen) :
    (c.reallocTo m cap (cap * c.kvHeads * c.rowBytes)).WF := by
  have hfmt : (c.reallocTo m cap (cap * c.kvHeads * c.rowBytes)).format = c.format :=
    congrArg Frame.format
      (frame_reallocTo { c with memory := some m } rfl cap (cap * c.kvHeads * c.rowBytes))
  have hrow := rowBytes_of_format hfmt
  have hst := isStored_of_format hfmt hc.stored
  have hop := isOpaque_of_format hfmt
  obtain ⟨m₁, m₂, kb, vb, hkb, hvb, h⟩ := c.reallocTo_buffers m cap (cap * c.kvHeads * c.rowBytes)
  rw [h] at hrow hst hop ⊢
  obtain ⟨hk₁, hk₂, -, -⟩ := c.allocTensor_buffer m (cap * c.kvHeads * c.rowBytes) cap
  obtain ⟨hv₁, hv₂, -, -⟩ := c.allocTensor_buffer m₁ (cap * c.kvHeads * c.rowBytes) cap
  refine ⟨hst, hv₁.trans hk₁.symm, hv₂.trans hk₂.symm, ?_, hcap, hhwm, hmax, hc.starts, ?_⟩
  · rintro (_ | _) <;> rw [hrow]
    · exact hkb.ge
    · exact hvb.ge
  · intro ho hl
    exact hc.seqMajor (hop.symm.trans ho) hl

theorem frame_grow {n : ℕ} {c' : KVCache} (h : c.grow n = .ok c') : c'.frame = c.frame := by
  unfold grow at h
  cases hm : c.memory with
  | none => rw [hm] at h; cases h
  | some m =>
    rw [hm] at h
    simp only at h
    split at h
    · cases h
    · split_ifs at h
      cases h
      exact c.frame_reallocTo hm _ _

/-- **`grow` keeps the rows.** -/
theorem keeps_grow (hc : c.WF) {n : ℕ} {c' : KVCache} (h : c.grow n = .ok c') :
    Keeps c c' ∧ c'.capacity = min (max (c.capacity * 2) n) c.maxSeqLen := by
  have hframe := frame_grow h
  unfold grow at h
  cases hm : c.memory with
  | none => rw [hm] at h; cases h
  | some m =>
    rw [hm] at h
    simp only [bufSize_eq hc.stored] at h
    split_ifs at h
    cases h
    have h₁ := hc.pos
    have h₂ := hc.hwm
    have h₃ := hc.cap
    have hcap : c.currentPos ≤ min (max (c.capacity * 2) n) c.maxSeqLen := by omega
    refine ⟨⟨wf_reallocTo hc hcap (by omega) (by omega), hframe, ?_⟩, rfl⟩
    exact fun x h hh p _ hp => rowsOf_reallocTo hc m hcap x hh hp

theorem grow_ok (hc : c.WF) (hm : c.memory.isSome) (n : ℕ) : ∃ c', c.grow n = .ok c' := by
  obtain ⟨m, hm⟩ := Option.isSome_iff_exists.mp hm
  unfold grow
  rw [hm]
  simp only [bufSize_eq hc.stored]
  rw [if_neg]
  · exact ⟨_, rfl⟩
  · rintro ⟨hpos, hl, ho⟩
    rw [hc.opaque_headMajor hpos ho] at hl
    cases hl

theorem frame_ensureCapacity {n : ℕ} {b : Bool} {c' : KVCache}
    (h : c.ensureCapacity n = .ok (b, c')) : c'.frame = c.frame := by
  unfold ensureCapacity at h
  simp only at h
  split_ifs at h
  · cases h; rfl
  · split at h
    · cases h
    · cases h
      exact frame_grow ‹_›

/-- **`ensure_capacity` keeps the rows** and makes the room. -/
theorem keeps_ensureCapacity (hc : c.WF) {n : ℕ} {b : Bool} {c' : KVCache}
    (h : c.ensureCapacity n = .ok (b, c')) : Keeps c c' ∧ n ≤ c'.capacity := by
  unfold ensureCapacity at h
  simp only at h
  split_ifs at h with h₁ h₂
  · cases h; exact ⟨Keeps.refl hc, h₁⟩
  · split at h
    · cases h
    · cases h
      obtain ⟨hk, hcap⟩ := keeps_grow hc ‹_›
      exact ⟨hk, by omega⟩

theorem ensureCapacity_ok (hc : c.WF) (hm : c.memory.isSome) {n : ℕ} (hn : n ≤ c.maxSeqLen) :
    ∃ b c', c.ensureCapacity n = .ok (b, c') := by
  unfold ensureCapacity
  simp only
  by_cases h : n ≤ c.capacity
  · rw [if_pos h]; exact ⟨_, _, rfl⟩
  · obtain ⟨c', hg⟩ := grow_ok hc hm n
    rw [if_neg h, if_neg (by omega), hg]
    exact ⟨_, _, rfl⟩

theorem le_shrinkCapacity (n : ℕ) : n ≤ max (andNot (n * 3 / 2 + 63) 63) 64 := by
  have h : n * 3 / 2 ≤ andNot (n * 3 / 2 + 63) 63 := le_roundUp (n * 3 / 2) 6
  omega

theorem frame_shrinkToFit {n : ℕ} {c' : KVCache} (h : c.shrinkToFit = .ok (n, c')) :
    c'.frame = c.frame := by
  unfold shrinkToFit at h
  cases hm : c.memory with
  | none => rw [hm] at h; cases h; rfl
  | some m =>
    rw [hm] at h
    simp only at h
    split_ifs at h
    · cases h; rfl
    · cases h; rfl
    · split at h
      · cases h
        exact c.frame_reallocTo hm _ _
      · cases h
      · cases h

/-- **`shrink_to_fit` succeeds and keeps the rows.** -/
theorem keeps_shrinkToFit (hc : c.WF) : ∃ n c', c.shrinkToFit = .ok (n, c') ∧ Keeps c c' := by
  have hframe := fun n c' => @frame_shrinkToFit c n c'
  unfold shrinkToFit at hframe ⊢
  cases hm : c.memory with
  | none => exact ⟨_, _, rfl, Keeps.refl hc⟩
  | some m =>
    rw [hm] at hframe
    simp only [bufSize_eq hc.stored] at hframe ⊢
    set newCap := max (andNot (c.currentPos * 3 / 2 + 63) 63) 64 with hcap
    split_ifs with h₁ h₂
    · exact ⟨_, _, rfl, Keeps.refl hc⟩
    · exact ⟨_, _, rfl, Keeps.refl hc⟩
    · rw [if_neg h₁, if_neg h₂] at hframe
      refine ⟨_, _, rfl, ?_, hframe _ _ rfl, ?_⟩
      · have hc' : ({ c with highWaterPos := c.currentPos } : KVCache).WF :=
          ⟨hc.stored, hc.dtype, hc.desc, hc.size, hc.pos, hc.pos, hc.cap, hc.starts, hc.seqMajor⟩
        have hmax := hc.cap
        exact wf_reallocTo hc' (le_shrinkCapacity _) (le_shrinkCapacity _) (by simp only; omega)
      · exact fun x h hh p _ hp => rowsOf_reallocTo hc m (le_shrinkCapacity _) x hh hp

end Realloc

/-! ## Releasing pages -/

section Release

variable (P : Platform) {c : KVCache}

theorem madviseDontneed_eq (t : Tensor) (lo hi : ℕ) :
    ∃ b, b.length = t.size ∧ (madviseDontneed P t lo hi).2 = t.withBytes b := by
  simp only [madviseDontneed]
  split_ifs
  · exact ⟨_, rfl, rfl⟩
  · exact ⟨_, length_fill _ _ _ _, rfl⟩

/-- The byte ranges of a buffer that `release_unused_pages` hands to `madvise_dontneed`, in its
order. -/
def unusedRanges (c : KVCache) (typeSize : ℕ) : List (ℕ × ℕ) :=
  match c.layout with
  | .seqMajor =>
    let rowBytes := c.kvHeads * c.headDim * typeSize
    [(c.currentPos * rowBytes, c.highWaterPos * rowBytes)]
  | .headMajor => (List.range c.kvHeads).flatMap fun h =>
    let base := h * (c.capacity * c.headDim * typeSize)
    let holeBytes := c.headStartOf h * c.headDim * typeSize
    (base + c.currentPos * c.headDim * typeSize, base + c.highWaterPos * c.headDim * typeSize) ::
      if holeBytes > 0 then [(base, base + holeBytes)] else []

/-- Release a list of ranges, counting the bytes. -/
def releaseRanges (P : Platform) (rs : List (ℕ × ℕ)) (acc : ℕ × Tensor) : ℕ × Tensor :=
  rs.foldl (fun acc r =>
    let m := madviseDontneed P acc.2 r.1 r.2
    (acc.1 + m.1, m.2)) acc

theorem releaseBuffer_eq_ranges (c : KVCache) (ts : ℕ) (t : Tensor) :
    c.releaseBuffer P ts t = releaseRanges P (c.unusedRanges ts) (0, t) := by
  unfold releaseBuffer unusedRanges
  cases c.layout with
  | seqMajor => simp only [releaseRanges, List.foldl_cons, List.foldl_nil, Nat.zero_add]
  | headMajor =>
    unfold releaseRanges
    simp only
    rw [List.foldl_flatMap]
    congr 1
    funext acc h
    by_cases hole : c.headStartOf h * c.headDim * ts > 0
    · simp only [List.foldl_cons, if_pos hole, List.foldl_nil]
    · simp only [List.foldl_cons, if_neg hole, List.foldl_nil, Nat.add_zero]

theorem releaseBuffer_eq (c : KVCache) (ts : ℕ) (t : Tensor) :
    ∃ b, b.length = t.size ∧ (c.releaseBuffer P ts t).2 = t.withBytes b := by
  rw [releaseBuffer_eq_ranges]
  -- the loop keeps a rewrite of `t`
  refine List.foldlRecOn (motive := fun acc : ℕ × Tensor => ∃ b, b.length = t.size ∧
    acc.2 = t.withBytes b) (b := (0, t)) _ _ ⟨t.bytes, rfl, rfl⟩ fun acc hacc r _ => ?_
  obtain ⟨b, hb, he⟩ := hacc
  obtain ⟨b₁, hb₁, he₁⟩ := madviseDontneed_eq P acc.2 r.1 r.2
  refine ⟨b₁, hb₁.trans (by rw [he]; exact hb), ?_⟩
  rw [he₁, he]
  rfl

/-- **What is released holds no resident row**: the ranges lie in front of, between and behind the
resident runs, and inside the buffer. -/
theorem unusedRanges_clear (hc : c.WF) {ts : ℕ} (hts : c.rowBytes = c.headDim * ts) {r : ℕ × ℕ}
    (hr : r ∈ c.unusedRanges ts) : r.2 ≤ c.capacity * c.kvHeads * c.rowBytes ∧
      ∀ h < c.kvHeads, ∀ p, c.headStartOf h ≤ p → p < c.currentPos →
        c.slot p h * c.rowBytes + c.rowBytes ≤ r.1 ∨ r.2 ≤ c.slot p h * c.rowBytes := by
  have hpos := hc.pos
  have hhwm := hc.hwm
  have hw : ∀ n, n * c.headDim * ts = n * c.rowBytes := fun n => by rw [hts, Nat.mul_assoc]
  have hmul : ∀ {a b : ℕ}, a ≤ b → a * c.rowBytes ≤ b * c.rowBytes := Nat.mul_le_mul_right _
  unfold unusedRanges at hr
  unfold slot
  cases hl : c.layout with
  | seqMajor =>
    simp only [hl, Nat.mul_assoc c.kvHeads, ← hts, ← Nat.mul_assoc _ c.kvHeads c.rowBytes,
      List.mem_singleton] at hr
    subst hr
    refine ⟨hmul (Nat.mul_le_mul_right _ hhwm), fun h hh p _ hp => .inl ?_⟩
    rw [← Nat.succ_mul]
    refine hmul ?_
    have := row_bound (w := c.kvHeads) hp
    simp only
    omega
  | headMajor =>
    simp only [hl, hw, ← Nat.mul_assoc, ← Nat.add_mul, List.mem_flatMap, List.mem_range,
      List.mem_cons] at hr
    obtain ⟨k, hk, hr⟩ := hr
    have hstart := hc.starts k
    have hblock := row_bound (w := c.capacity) hk
    have horder : ∀ h, ∀ p, c.headStartOf h ≤ p → p < c.currentPos →
        (h * c.capacity + p + 1 ≤ k * c.capacity + c.currentPos ∨
          k * c.capacity + c.highWaterPos ≤ h * c.capacity + p) ∧
        (h * c.capacity + p + 1 ≤ k * c.capacity ∨
          k * c.capacity + c.headStartOf k ≤ h * c.capacity + p) := by
      intro h p hlo hp
      rcases Nat.lt_trichotomy h k with hlt | rfl | hgt
      · have := row_bound (w := c.capacity) hlt
        omega
      · omega
      · have := row_bound (w := c.capacity) hgt
        omega
    rw [Nat.mul_comm c.capacity]
    rcases hr with rfl | hr
    · refine ⟨hmul (by omega), fun h _ p hlo hp => ?_⟩
      rw [← Nat.succ_mul]
      exact (horder h p hlo hp).1.imp hmul hmul
    · split_ifs at hr
      · rw [List.mem_singleton] at hr
        subst hr
        refine ⟨hmul (by omega), fun h _ p hlo hp => ?_⟩
        rw [← Nat.succ_mul]
        exact (horder h p hlo hp).2.imp hmul hmul
      · cases hr

theorem rows_releaseBuffer (hc : c.WF) {ts : ℕ} (hts : c.rowBytes = c.headDim * ts)
    (t : Tensor) {h p : ℕ} (hh : h < c.kvHeads) (hlo : c.headStartOf h ≤ p)
    (hp : p < c.currentPos) : rows c.rowBytes (c.releaseBuffer P ts t).2.bytes (c.slot p h) =
    rows c.rowBytes t.bytes (c.slot p h) := by
  rw [releaseBuffer_eq_ranges]
  refine List.foldlRecOn (motive := fun acc : ℕ × Tensor =>
    rows c.rowBytes acc.2.bytes (c.slot p h) = rows c.rowBytes t.bytes (c.slot p h))
    _ _ rfl fun acc hacc r hr => ?_
  rw [rows_madviseDontneed P acc.2 ((unusedRanges_clear hc hts hr).2 h hh p hlo hp), hacc]

theorem frame_releaseUnusedPages {n : ℕ} {c' : KVCache} (h : c.releaseUnusedPages P = .ok (n, c')) :
    c'.frame = c.frame := by
  have hmadvise : ∀ ts, ({ c with
      kBuffer := (c.releaseBuffer P ts c.kBuffer).2
      vBuffer := (c.releaseBuffer P ts c.vBuffer).2
      highWaterPos := c.currentPos } : KVCache).frame = c.frame := by
    intro ts
    obtain ⟨kb, -, hk⟩ := releaseBuffer_eq P c ts c.kBuffer
    rw [hk]
    rfl
  unfold releaseUnusedPages at h
  split_ifs at h
  · split at h
    · cases h
      exact frame_shrinkToFit ‹_›
    · cases h; rfl
    · cases h
  · cases h; rfl
  · split at h
    · cases h; exact hmadvise _
    · cases h; exact hmadvise _
    · cases h; rfl

/-- **`release_unused_pages` succeeds and keeps the resident rows.** -/
theorem keeps_releaseUnusedPages (hc : c.WF) :
    ∃ n c', c.releaseUnusedPages P = .ok (n, c') ∧ Keeps c c' := by
  have hmadvise : c.kvDtype = .f16 ∨ c.kvDtype = .f32 → Keeps c { c with
      kBuffer := (c.releaseBuffer P c.kvDtype.size c.kBuffer).2
      vBuffer := (c.releaseBuffer P c.kvDtype.size c.vBuffer).2
      highWaterPos := c.currentPos } := by
    intro hd
    have hts := rowBytes_of_float hc.stored hd
    obtain ⟨kb, hkb, hk⟩ := releaseBuffer_eq P c c.kvDtype.size c.kBuffer
    obtain ⟨vb, hvb, hv⟩ := releaseBuffer_eq P c c.kvDtype.size c.vBuffer
    have hk' := @rows_releaseBuffer P c hc _ hts c.kBuffer
    have hv' := @rows_releaseBuffer P c hc _ hts c.vBuffer
    rw [hk] at hk' ⊢
    rw [hv] at hv' ⊢
    have hpos := hc.pos
    refine ⟨⟨hc.stored, hc.dtype, hc.desc, ?_, hc.pos, hc.pos, hc.cap, hc.starts,
      hc.seqMajor⟩, rfl, ?_⟩
    · rintro (_ | _)
      · exact (hc.size .key).trans_eq hkb.symm
      · exact (hc.size .value).trans_eq hvb.symm
    · intro x h hh p hlo hp
      have hcap : p < c.capacity := by omega
      cases x
      · exact (if_pos hcap).trans ((hk' hh hlo hp).trans (if_pos hcap).symm)
      · exact (if_pos hcap).trans ((hv' hh hlo hp).trans (if_pos hcap).symm)
  unfold releaseUnusedPages
  split_ifs
  · obtain ⟨n, c', h, hk⟩ := keeps_shrinkToFit hc
    rw [h]
    exact ⟨n, c', rfl, hk⟩
  · exact ⟨_, _, rfl, Keeps.refl hc⟩
  · split
    · exact ⟨_, _, rfl, hmadvise (.inl ‹_›)⟩
    · exact ⟨_, _, rfl, hmadvise (.inr ‹_›)⟩
    · exact ⟨_, _, rfl, Keeps.refl hc⟩

end Release

end KVCache

end ArgusEngine
