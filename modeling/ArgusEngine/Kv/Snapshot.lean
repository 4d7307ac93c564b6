import ArgusEngine.Kv.Merge

/-!
# Host snapshots of a device cache

A stage that reads K and V of a device-resident cache reads a host copy: `hostSnapshot` copies both
buffers whole, `hostSnapshotRows` only the resident rows of every head, squeezed together.
`dequantSnapshot` turns the first rows of every head into values.

* `readDeviceTensorResidentToHost`: the compacted copy, with its fallback to the full one;
* `hostSnapshotRows`: it decides on its own which of the two it got;
* **`snapshotRows_iff`**: for which caches the two snapshots read alike, whatever the buffers hold;
* `padded_snapshot_differs`: a buffer with trailing padding.

Device reads are taken to succeed.
-/

namespace ArgusEngine

open FlatMem KVCache

/-! ## The copies -/

/-- `Shape::numel`. -/
def numel (dims : List ℕ) : ℕ := if dims.isEmpty then 0 else dims.prod

section Snapshot

variable (P : Platform)

/-- A tensor over a fresh `SharedBuffer` on the CPU backend. -/
def sharedTensor (shape : List ℕ) (dtype : DType) (bytes : List UInt8) : Tensor :=
  ⟨shape, ⟨dtype, none, bytes, P.hostPtr, false, true⟩, false⟩

/-- `read_device_tensor_to_host`. -/
def readDeviceTensorToHost (t : Tensor) : Tensor := sharedTensor P t.shape t.dtype t.bytes

/-- `read_device_tensor_resident_to_host`: the first `rows` rows of every head, one bounded read a
head for HeadMajor. -/
def readDeviceTensorResidentToHost (t : Tensor) (rows kvHeads capacity headDim : ℕ)
    (layout : KVLayout) : Tensor :=
  let bytes := t.size
  let slots := kvHeads * capacity
  if rows = 0 ∨ rows ≥ capacity ∨ slots = 0 ∨ bytes % slots ≠ 0 ∨
    numel t.shape ≠ slots * headDim then
    readDeviceTensorToHost P t
  else
    let rowBytes := bytes / slots
    match layout with
    | .seqMajor =>
      sharedTensor P [1, rows, kvHeads, headDim]
        t.dtype (slice t.bytes 0 (kvHeads * rows * rowBytes))
    | .headMajor => sharedTensor P [1, kvHeads, rows, headDim] t.dtype
      ((List.range kvHeads).flatMap fun h => slice t.bytes (h * capacity * rowBytes)
        (rows * rowBytes))

namespace KVCache

/-- `host_snapshot`. -/
def hostSnapshot (c : KVCache) : KVCache :=
  { c with
    kBuffer := readDeviceTensorToHost P c.kBuffer
    vBuffer := readDeviceTensorToHost P c.vBuffer
    headStart := []
    headStartDev := none
    headStartDirty := false
    memory := none }

/-- `host_snapshot_rows`. -/
def hostSnapshotRows (c : KVCache) (rows : ℕ) : KVCache :=
  let mirror (t : Tensor) :=
    readDeviceTensorResidentToHost P t rows c.kvHeads c.capacity c.headDim c.layout
  -- the capacity of whichever of the two copies came back
  let capacity := if rows = 0 ∨ rows ≥ c.capacity then c.capacity else rows
  { (newWithGeometry (mirror c.kBuffer) (mirror c.vBuffer) capacity c.kvHeads c.headDim
      c.layout).setCurrentPos (min c.currentPos capacity) with maxSeqLen := c.maxSeqLen }

/-- `dequant_snapshot`: the values of the first `rows` rows of every head, `0.0` where nothing is
decoded. -/
def dequantSnapshot (c : KVCache) (rows : ℕ) (x : Half) : List P.F :=
  if rows = 0 ∨ c.headDim = 0 then List.replicate (c.kvHeads * rows * c.headDim)
    (P.ofF32 [0, 0, 0, 0])
  else (List.range (c.kvHeads * rows)).flatMap fun i =>
    let row := c.dequantize P (c.buffer x) (i % rows) (i / rows)
    row ++ List.replicate (c.headDim - row.length) (P.ofF32 [0, 0, 0, 0])

end KVCache

end Snapshot

/-! ## What the copies hold -/

/-- A cache in one stored format whose buffers have the declared shape and at least its size. -/
structure KVCache.Declared (c : KVCache) : Prop where
  stored : c.IsStored
  dtype : c.vBuffer.dtype = c.kBuffer.dtype
  shape : ∀ x, numel (c.buffer x).shape = c.kvHeads * c.capacity * c.headDim
  size : ∀ x, c.capacity * c.kvHeads * c.rowBytes ≤ (c.buffer x).size

/-- The buffers end with the declared geometry. -/
def KVCache.Unpadded (c : KVCache) : Prop :=
  ∀ x, (c.buffer x).size = c.capacity * c.kvHeads * c.rowBytes

section Mirror

variable {P : Platform} {c : KVCache} {rows : ℕ}

theorem rows_slice {w k n : ℕ} {b : List UInt8} (h : k * w + w ≤ n) :
    FlatMem.rows w (slice b 0 n) k = FlatMem.rows w b k := by
  rw [FlatMem.rows, slice_slice _ _ h, Nat.zero_add]
  rfl

/-- The bytes of the ranged copy of half `x`. -/
def mirrorBytes (P : Platform) (c : KVCache) (rows : ℕ) (x : Half) : List UInt8 :=
  (readDeviceTensorResidentToHost P (c.buffer x) rows c.kvHeads c.capacity c.headDim c.layout).bytes

/-- The bytes that the copy takes for one slot. -/
def slotBytes (c : KVCache) (x : Half) : ℕ := (c.buffer x).size / (c.kvHeads * c.capacity)

/-- The capacity that `host_snapshot_rows` declares. -/
def mirrorCapacity (c : KVCache) (rows : ℕ) : ℕ :=
  if rows = 0 ∨ rows ≥ c.capacity then c.capacity else rows

/-- The slot of `(pos, head)` in the cache that `host_snapshot_rows` declares. -/
def mirrorSlot (c : KVCache) (rows p h : ℕ) : ℕ :=
  { c with capacity := mirrorCapacity c rows }.slot p h

section Bytes

variable {x : Half}

theorem mirrorBytes_fallback
    (h : rows = 0 ∨ rows ≥ c.capacity ∨ (c.buffer x).size % (c.kvHeads * c.capacity) ≠ 0) :
    mirrorBytes P c rows x = (c.buffer x).bytes := by
  unfold mirrorBytes readDeviceTensorResidentToHost
  simp only
  rw [if_pos (by tauto)]
  rfl

variable (hc : c.Declared) (h0 : rows ≠ 0) (hr : rows < c.capacity) (hk : 0 < c.kvHeads)
include hc h0 hr hk

theorem mirrorBytes_seqMajor (hl : c.layout = .seqMajor)
    (hdvd : (c.buffer x).size % (c.kvHeads * c.capacity) = 0) :
    mirrorBytes P c rows x = slice (c.buffer x).bytes 0 (c.kvHeads * rows * slotBytes c x) := by
  have hslots : c.kvHeads * c.capacity ≠ 0 := Nat.mul_ne_zero (by omega) (by omega)
  unfold mirrorBytes readDeviceTensorResidentToHost
  simp only
  rw [if_neg (by simp [h0, hr, hslots, hdvd, hc.shape x]), hl]
  rfl

theorem mirrorBytes_headMajor (hl : c.layout = .headMajor)
    (hdvd : (c.buffer x).size % (c.kvHeads * c.capacity) = 0) :
    mirrorBytes P c rows x = (List.range c.kvHeads).flatMap fun h =>
      slice (c.buffer x).bytes (h * c.capacity * slotBytes c x) (rows * slotBytes c x) := by
  have hslots : c.kvHeads * c.capacity ≠ 0 := Nat.mul_ne_zero (by omega) (by omega)
  unfold mirrorBytes readDeviceTensorResidentToHost
  simp only
  rw [if_neg (by simp [h0, hr, hslots, hdvd, hc.shape x]), hl]
  rfl

omit h0 in
theorem rowBytes_le_slotBytes : c.rowBytes ≤ slotBytes c x := by
  rw [slotBytes, Nat.le_div_iff_mul_le (Nat.mul_pos hk (by omega))]
  have := hc.size x
  rwa [Nat.mul_comm c.capacity, Nat.mul_comm] at this

omit hc h0 hr hk in
theorem slots_mul_slotBytes (hdvd : (c.buffer x).size % (c.kvHeads * c.capacity) = 0) :
    c.kvHeads * c.capacity * slotBytes c x = (c.buffer x).size :=
  Nat.mul_div_cancel' (Nat.dvd_of_mod_eq_zero hdvd)

omit hc h0 hk in
theorem length_mirrorBlock (hdvd : (c.buffer x).size % (c.kvHeads * c.capacity) = 0) {h : ℕ}
    (hh : h < c.kvHeads) :
    (slice (c.buffer x).bytes (h * c.capacity * slotBytes c x) (rows * slotBytes c x)).length =
      rows * slotBytes c x := by
  refine length_slice ?_
  have hrow := row_bound (w := c.capacity) hh
  have hend : h * c.capacity + rows ≤ c.kvHeads * c.capacity := by omega
  rw [← Nat.add_mul]
  exact (Nat.mul_le_mul_right _ hend).trans (slots_mul_slotBytes hdvd).le

end Bytes

/-! ## The rows of the copies -/

section Rows

variable {x : Half} {h p : ℕ}

theorem mirrorSlot_seqMajor (hl : c.layout = .seqMajor) : mirrorSlot c rows p h = c.slot p h := by
  unfold mirrorSlot slot
  rw [hl]

theorem mirrorSlot_headMajor (hl : c.layout = .headMajor) (h0 : rows ≠ 0) (hr : rows < c.capacity) :
    mirrorSlot c rows p h = h * rows + p := by
  have hcap : mirrorCapacity c rows = rows := by rw [mirrorCapacity, if_neg (by omega)]
  unfold mirrorSlot slot
  rw [hl, hcap]

theorem rows_mirrorBlock (hc : c.Declared) (h0 : rows ≠ 0) (hr : rows < c.capacity)
    (hl : c.layout = .headMajor) (hdvd : (c.buffer x).size % (c.kvHeads * c.capacity) = 0)
    (hh : h < c.kvHeads) {i n : ℕ} (hi : i + n ≤ rows * slotBytes c x) :
    slice (mirrorBytes P c rows x) (h * (rows * slotBytes c x) + i) n =
      slice (c.buffer x).bytes (h * c.capacity * slotBytes c x + i) n := by
  have hk := Nat.zero_lt_of_lt hh
  rw [mirrorBytes_headMajor hc h0 hr hk hl hdvd, ← slice_slice _ _ hi,
    slice_flatMap_range (fun k hk' => length_mirrorBlock hr hdvd hk') hh, slice_slice _ _ hi]

theorem getElem?_mirror (hc : c.Declared) (h0 : rows ≠ 0) (hr : rows < c.capacity)
    (hl : c.layout = .headMajor) (hdvd : (c.buffer x).size % (c.kvHeads * c.capacity) = 0)
    (hh : h < c.kvHeads) {i : ℕ} (hi : i < rows * slotBytes c x) :
    (mirrorBytes P c rows x)[h * (rows * slotBytes c x) + i]? =
      (c.buffer x).bytes[h * c.capacity * slotBytes c x + i]? := by
  have hblock := congrArg (·[0]?)
    (rows_mirrorBlock (P := P) hc h0 hr hl hdvd hh (show i + 1 ≤ rows * slotBytes c x from hi))
  simpa only [getElem?_slice, if_pos Nat.one_pos, Nat.add_zero] using hblock

/-- The two copies read the same row. -/
def RowCopied (P : Platform) (c : KVCache) (rows : ℕ) (x : Half) (p h : ℕ) : Prop :=
  FlatMem.rows c.rowBytes (mirrorBytes P c rows x) (mirrorSlot c rows p h) =
    FlatMem.rows c.rowBytes (c.buffer x).bytes (c.slot p h)

theorem rowCopied_full (hfull : rows = 0 ∨ rows ≥ c.capacity) : RowCopied P c rows x p h := by
  rw [RowCopied, mirrorBytes_fallback (hfull.imp_right .inl), mirrorSlot,
    mirrorCapacity, if_pos hfull]

variable (hc : c.Declared) (h0 : rows ≠ 0) (hr : rows < c.capacity)
include hc h0 hr

theorem rowCopied_seqMajor (hl : c.layout = .seqMajor) (hh : h < c.kvHeads) (hp : p < rows) :
    RowCopied P c rows x p h := by
  have hk := Nat.zero_lt_of_lt hh
  rw [RowCopied, mirrorSlot_seqMajor hl]
  by_cases hdvd : (c.buffer x).size % (c.kvHeads * c.capacity) = 0
  · rw [mirrorBytes_seqMajor hc h0 hr hk hl hdvd]
    have hin : c.slot p h < c.kvHeads * rows := by
      unfold slot
      rw [hl, Nat.mul_comm c.kvHeads]
      exact Nat.lt_of_lt_of_le (Nat.add_lt_add_left hh _) (row_bound hp)
    exact rows_slice ((row_bound hin).trans
      (Nat.mul_le_mul_left _ (rowBytes_le_slotBytes hc hr hk)))
  · rw [mirrorBytes_fallback (.inr (.inr hdvd))]

theorem rowCopied_first (hl : c.layout = .headMajor) (hk : 0 < c.kvHeads) (hp : p < rows) :
    RowCopied P c rows x p 0 := by
  rw [RowCopied, mirrorSlot_headMajor hl h0 hr, slot_headMajor hl, Nat.zero_mul,
    Nat.zero_mul, Nat.zero_add]
  by_cases hdvd : (c.buffer x).size % (c.kvHeads * c.capacity) = 0
  · have hin := (row_bound hp).trans
      (Nat.mul_le_mul_left rows (rowBytes_le_slotBytes (x := x) hc hr hk))
    have hblock := rows_mirrorBlock (P := P) hc h0 hr hl hdvd hk hin
    rwa [Nat.zero_mul, Nat.zero_mul, Nat.zero_mul, Nat.zero_add] at hblock
  · rw [mirrorBytes_fallback (.inr (.inr hdvd))]

theorem rowCopied_unpadded (hl : c.layout = .headMajor)
    (hsize : (c.buffer x).size = c.capacity * c.kvHeads * c.rowBytes) (hh : h < c.kvHeads)
    (hp : p < rows) : RowCopied P c rows x p h := by
  have hslots : 0 < c.kvHeads * c.capacity := Nat.mul_pos (by omega) (by omega)
  have hslot : slotBytes c x = c.rowBytes := by
    rw [slotBytes, hsize, Nat.mul_comm c.capacity, Nat.mul_div_cancel_left _ hslots]
  have hdvd : (c.buffer x).size % (c.kvHeads * c.capacity) = 0 := by
    rw [hsize, Nat.mul_comm c.capacity]
    exact Nat.mul_mod_right _ _
  have hblock := rows_mirrorBlock (P := P) hc h0 hr hl hdvd hh
    (show p * c.rowBytes + c.rowBytes ≤ rows * slotBytes c x by rw [hslot]; exact row_bound hp)
  rw [hslot, ← Nat.mul_assoc, ← Nat.add_mul, ← Nat.add_mul] at hblock
  rw [RowCopied, mirrorSlot_headMajor hl h0 hr, slot_headMajor hl]
  exact hblock

end Rows

/-- **The rows of the ranged copy** are those of the source, unless padding makes its slots wider
than its rows. -/
theorem rowCopied (hc : c.Declared) {x : Half} {h p : ℕ}
    (hcond : c.layout = .seqMajor ∨ c.kvHeads ≤ 1 ∨ rows = 0 ∨ rows ≥ c.capacity ∨
      (c.buffer x).size = c.capacity * c.kvHeads * c.rowBytes) (hh : h < c.kvHeads)
        (hp : p < rows) :
    RowCopied P c rows x p h := by
  by_cases hfull : rows = 0 ∨ rows ≥ c.capacity
  · exact rowCopied_full hfull
  rw [not_or, Nat.not_le] at hfull
  by_cases hl : c.layout = .seqMajor
  · exact rowCopied_seqMajor hc hfull.1 hfull.2 hl hh hp
  have hl' : c.layout = .headMajor := by cases h : c.layout <;> simp_all
  by_cases hone : c.kvHeads ≤ 1
  · obtain rfl : h = 0 := by omega
    exact rowCopied_first hc hfull.1 hfull.2 hl' (by omega) hp
  · have hsize := ((((hcond.resolve_left hl).resolve_left hone).resolve_left hfull.1).resolve_left
      (Nat.not_le.mpr hfull.2))
    exact rowCopied_unpadded hc hfull.1 hfull.2 hl' hsize hh hp

/-! ## Reading the copies -/

theorem dequantSnapshot_congr {a b : KVCache} {x : Half} (hk : a.kvHeads = b.kvHeads)
    (hd : a.headDim = b.headDim)
    (h : ∀ h < b.kvHeads, ∀ p < rows, a.dequantize P (a.buffer x) p h =
    b.dequantize P (b.buffer x) p h) : a.dequantSnapshot P rows x = b.dequantSnapshot P rows x := by
  unfold dequantSnapshot
  rw [hk, hd]
  by_cases h0 : rows = 0 ∨ b.headDim = 0
  · rw [if_pos h0, if_pos h0]
  rw [if_neg h0, if_neg h0]
  refine List.flatMap_congr fun i hi => ?_
  rw [not_or] at h0
  have hrows : 0 < rows := Nat.pos_of_ne_zero h0.1
  have hi' := List.mem_range.mp hi
  simp only
  rw [h (i / rows) (Nat.div_lt_of_lt_mul (by rwa [Nat.mul_comm])) (i % rows) (Nat.mod_lt _ hrows)]

theorem slice_dequantSnapshot {a : KVCache} {x : Half} {h p : ℕ} (hd : a.headDim ≠ 0)
    (hlen : ∀ p h, (a.dequantize P (a.buffer x) p h).length = a.headDim) (hh : h < a.kvHeads)
    (hp : p < rows) : slice (a.dequantSnapshot P rows x) ((h * rows + p) * a.headDim) a.headDim =
    a.dequantize P (a.buffer x) p h := by
  have hrows := Nat.zero_lt_of_lt hp
  have hdiv : (h * rows + p) / rows = h := by
    rw [Nat.mul_comm, Nat.mul_add_div hrows, Nat.div_eq_of_lt hp, Nat.add_zero]
  have hmod : (h * rows + p) % rows =
    p := by rw [Nat.mul_comm, Nat.mul_add_mod, Nat.mod_eq_of_lt hp]
  unfold dequantSnapshot
  rw [if_neg (by omega)]
  simp only [hlen, Nat.sub_self, List.replicate_zero, List.append_nil]
  rw [slice_flatMap_range (fun i _ => hlen _ _)
    (Nat.lt_of_lt_of_le (Nat.add_lt_add_left hp _) (row_bound hh)), hdiv, hmod]

theorem dtype_resident (t : Tensor) (rows kvHeads capacity headDim : ℕ) (layout : KVLayout) :
    (readDeviceTensorResidentToHost P t rows kvHeads capacity headDim layout).dtype = t.dtype := by
  unfold readDeviceTensorResidentToHost
  simp only
  split_ifs
  · rfl
  · cases layout <;> rfl

theorem desc_resident (t : Tensor) (rows kvHeads capacity headDim : ℕ) (layout : KVLayout) :
    (readDeviceTensorResidentToHost P t rows kvHeads capacity headDim layout).buffer.desc =
      none := by
  unfold readDeviceTensorResidentToHost
  simp only
  split_ifs
  · rfl
  · cases layout <;> rfl

theorem setCurrentPos_reads (m : KVCache) (n : ℕ) : (m.setCurrentPos n).capacity = m.capacity ∧
    (m.setCurrentPos n).kvHeads = m.kvHeads ∧ (m.setCurrentPos n).headDim = m.headDim ∧
    (m.setCurrentPos n).layout = m.layout ∧ ∀ x, (m.setCurrentPos n).buffer x = m.buffer x := by
  unfold setCurrentPos
  split_ifs
  · exact ⟨rfl, rfl, rfl, rfl, fun x => by cases x <;> rfl⟩
  · exact ⟨rfl, rfl, rfl, rfl, fun x => by cases x <;> rfl⟩

theorem hostSnapshotRows_reads (P : Platform) (c : KVCache) (rows : ℕ) :
    (c.hostSnapshotRows P rows).capacity = mirrorCapacity c rows ∧
    (c.hostSnapshotRows P rows).kvHeads = c.kvHeads ∧
    (c.hostSnapshotRows P rows).headDim = c.headDim ∧
    (c.hostSnapshotRows P rows).layout = c.layout ∧ ∀ x, (c.hostSnapshotRows P rows).buffer x =
      readDeviceTensorResidentToHost P (c.buffer x) rows c.kvHeads c.capacity
        c.headDim c.layout := by
  obtain ⟨hcap, hk, hd, hl, hb⟩ := setCurrentPos_reads
    (newWithGeometry (readDeviceTensorResidentToHost P c.kBuffer rows c.kvHeads c.capacity
      c.headDim c.layout) (readDeviceTensorResidentToHost P c.vBuffer rows c.kvHeads c.capacity
        c.headDim c.layout)
      (mirrorCapacity c rows) c.kvHeads c.headDim c.layout)
        (min c.currentPos (mirrorCapacity c rows))
  refine ⟨hcap, hk, hd, hl, fun x => ?_⟩
  cases x
  · exact hb .key
  · exact hb .value

theorem slot_hostSnapshotRows (p h : ℕ) :
    (c.hostSnapshotRows P rows).slot p h = mirrorSlot c rows p h := by
  obtain ⟨hcap, hk, -, hl, -⟩ := hostSnapshotRows_reads P c rows
  unfold mirrorSlot slot
  rw [hcap, hk, hl]

theorem buffer_hostSnapshot (x : Half) :
    (c.hostSnapshot P).buffer x = readDeviceTensorToHost P (c.buffer x) := by
  cases x <;> rfl

theorem KVCache.Declared.dtype_buffer (hc : c.Declared) (x : Half) :
    (c.buffer x).dtype = c.kvDtype := by
  cases x
  · rfl
  · exact hc.dtype

section Typed

variable (hc : c.Declared) (ho : c.kBuffer.buffer.desc = none)
include ho

theorem format_hostSnapshot : (c.hostSnapshot P).format = c.format := by
  simp only [format, ho]
  rfl

theorem format_hostSnapshotRows : (c.hostSnapshotRows P rows).format = c.format := by
  obtain ⟨-, hheads, hdim, hl, hb⟩ := hostSnapshotRows_reads P c rows
  have hk : (c.hostSnapshotRows P rows).kBuffer = _ := hb .key
  simp only [format, ho, kvDtype, hk, dtype_resident, desc_resident, hheads, hdim, hl]
  rfl

omit ho in
theorem rowValues_of_format {m : KVCache} (hf : m.format = c.format) :
    m.rowValues P = c.rowValues P := by
  simp only [format, Format.mk.injEq] at hf
  obtain ⟨h₁, h₂, -, h₄, -⟩ := hf
  funext row
  unfold rowValues
  rw [h₁, h₂, h₄]

include hc

theorem dequantize_of_format {m : KVCache} {t : Tensor} (hf : m.format = c.format)
    (ht : t.dtype = c.kvDtype) (p h : ℕ) :
    m.dequantize P t p h = c.rowValues P (FlatMem.rows c.rowBytes t.bytes (m.slot p h)) := by
  have hs := isStored_of_format hf hc.stored
  have hdesc : m.kBuffer.buffer.desc = none := (congrArg Format.desc hf).trans ho
  have hdtype : m.kvDtype = c.kvDtype := congrArg Format.dtype hf
  have hop : m.isOpaque = true → m.layout = .headMajor := by
    intro h
    simp [isOpaque, hdesc] at h
  rw [dequantize_eq hs hdesc (ht.trans hdtype.symm), readRow_eq hs hop, rowValues_of_format hf,
    rowBytes_of_format hf]

theorem dequantize_hostSnapshot (x : Half) (p h : ℕ) :
    (c.hostSnapshot P).dequantize P ((c.hostSnapshot P).buffer x) p h =
      c.rowValues P (FlatMem.rows c.rowBytes (c.buffer x).bytes (c.slot p h)) := by
  have ht : (readDeviceTensorToHost P (c.buffer x)).dtype = c.kvDtype := hc.dtype_buffer x
  rw [buffer_hostSnapshot, dequantize_of_format hc ho (format_hostSnapshot ho) ht]
  rfl

theorem dequantize_hostSnapshotRows (x : Half) (p h : ℕ) :
    (c.hostSnapshotRows P rows).dequantize P ((c.hostSnapshotRows P rows).buffer x) p h =
      c.rowValues P (FlatMem.rows c.rowBytes (mirrorBytes P c rows x) (mirrorSlot c rows p h)) := by
  rw [(hostSnapshotRows_reads P c rows).2.2.2.2 x,
    dequantize_of_format hc ho (format_hostSnapshotRows ho)
      ((dtype_resident ..).trans (hc.dtype_buffer x)),
    slot_hostSnapshotRows]
  rfl

end Typed

theorem dequantize_of_opaque (hc : c.Declared) {d : KVLayoutDesc}
    (hd : c.kBuffer.buffer.desc = some d) {m : KVCache} {t : Tensor} {x : Half}
    (ht : t.dtype = (c.buffer x).dtype) (p h : ℕ) : m.dequantize P t p h = [] := by
  have hs := hc.stored
  unfold IsStored at hs
  rw [hd] at hs
  unfold dequantize
  rw [ht, hc.dtype_buffer, hs.1]

/-! ## When the two snapshots read alike -/

/-- The decoders tell the smallest subnormal from zero. -/
structure Platform.TellsSubnormal (P : Platform) : Prop where
  f32 : P.ofF32 [1, 0, 0, 0] ≠ P.ofF32 [0, 0, 0, 0]
  f16 : P.ofF16 [1, 0] ≠ P.ofF16 [0, 0]
  q4 : P.ofQ4 (1 :: List.replicate 17 0) ≠ P.ofQ4 (List.replicate 18 0)

/-- The geometries whose ranged snapshot reads like the full one. -/
def KVCache.Squeezable (c : KVCache) (rows : ℕ) : Prop :=
  c.headDim = 0 ∨ c.isOpaque = true ∨ c.layout = .seqMajor ∨ c.kvHeads ≤ 1 ∨ rows = 0 ∨
    rows ≥ c.capacity ∨ c.Unpadded

theorem KVCache.Declared.withContents (hc : c.Declared) {kb vb : List UInt8}
    (hk : kb.length = c.kBuffer.size) (hv : vb.length = c.vBuffer.size) :
    (c.withContents kb vb).Declared := by
  refine ⟨hc.stored, hc.dtype, fun x => ?_, fun x => ?_⟩
  · cases x
    · exact hc.shape .key
    · exact hc.shape .value
  · cases x
    · exact (hc.size .key).trans hk.ge
    · exact (hc.size .value).trans hv.ge

/-- **The ranged snapshot of a squeezable cache.** -/
theorem dequantSnapshot_of_squeezable (hc : c.Declared) (hsq : c.Squeezable rows) (x : Half) :
    (c.hostSnapshotRows P rows).dequantSnapshot P rows x =
      (c.hostSnapshot P).dequantSnapshot P rows x := by
  obtain ⟨-, hk, hd, -, hb⟩ := hostSnapshotRows_reads P c rows
  cases hdesc : c.kBuffer.buffer.desc with
  | some d =>
    refine dequantSnapshot_congr hk hd fun h _ p _ => ?_
    have ht : (readDeviceTensorToHost P (c.buffer x)).dtype = (c.buffer x).dtype := rfl
    rw [hb, buffer_hostSnapshot, dequantize_of_opaque hc hdesc (dtype_resident ..),
      dequantize_of_opaque hc hdesc ht]
  | none =>
    by_cases hdim : c.headDim = 0
    · unfold dequantSnapshot
      rw [hk, hd, if_pos (.inr hdim), if_pos (.inr hdim)]
      rfl
    refine dequantSnapshot_congr hk hd fun h hh p hp => ?_
    rw [dequantize_hostSnapshotRows hc hdesc, dequantize_hostSnapshot hc hdesc]
    have ho : c.isOpaque ≠ true := by simp [isOpaque, hdesc]
    have hcond := (hsq.resolve_left hdim).resolve_left ho
    exact congrArg _ (rowCopied hc
      (hcond.imp_right (Or.imp_right (Or.imp_right (Or.imp_right fun hu => hu x)))) hh hp)

theorem slice_lone {n w : ℕ} (hn : 0 < n) (hw : n ≤ w) :
    slice ((1 : UInt8) :: List.replicate (w - 1) 0) 0 n = 1 :: List.replicate (n - 1) 0 := by
  obtain ⟨n, rfl⟩ := Nat.exists_eq_succ_of_ne_zero (Nat.pos_iff_ne_zero.mp hn)
  simp only [slice, List.drop_zero, List.take_succ_cons, List.take_replicate, Nat.succ_sub_one]
  rw [Nat.min_eq_left (by omega)]

theorem slice_zeros {n w : ℕ} (hw : n ≤ w) :
    slice (List.replicate w (0 : UInt8)) 0 n = List.replicate n 0 := by
  simp only [slice, List.drop_zero, List.take_replicate]
  rw [Nat.min_eq_left hw]

theorem rowBytes_q4 (hd : c.kBuffer.buffer.desc = none) (hk : c.kvDtype = .q4_0) :
    c.rowBytes = c.headDim / QK4_0 * blockQ4_0Size := by
  simp [rowBytes, perHead, headUnits, isOpaque, isQ4, hd, show c.kBuffer.dtype = .q4_0 from hk,
    hk, DType.typeSize]

/-- The first value of a row tells its first byte. -/
theorem rowValues_lone (hP : P.TellsSubnormal) (hs : c.IsStored) (hd : c.kBuffer.buffer.desc = none)
    (hdim : 0 < c.headDim) :
    c.rowValues P (1 :: List.replicate (c.rowBytes - 1) 0) ≠
      c.rowValues P (List.replicate c.rowBytes 0) := by
  intro heq
  unfold rowValues at heq
  rcases stored_cases hs hd with hk | hk | ⟨hk, h32⟩ <;> simp only [hd, hk] at heq
  · have hw : 4 ≤ c.rowBytes := by
      rw [rowBytes_of_float hs (.inr hk), hk, DType.size]
      omega
    have h0 := congrArg (·[0]?) heq
    simp only [Platform.f32s, List.getElem?_map, List.getElem?_range hdim, Option.map_some,
      Option.some.injEq, Nat.zero_add, Nat.zero_mul, slice_lone (Nat.succ_pos 3) hw,
      slice_zeros hw] at h0
    exact hP.f32 h0
  · have hw : 2 ≤ c.rowBytes := by
      rw [rowBytes_of_float hs (.inl hk), hk, DType.size]
      omega
    have h0 := congrArg (·[0]?) heq
    simp only [List.getElem?_map, List.getElem?_range hdim, Option.map_some, Option.some.injEq,
      Nat.zero_mul, slice_lone (Nat.succ_pos 1) hw, slice_zeros hw] at h0
    exact hP.f16 h0
  · have hblocks : 0 < c.headDim / QK4_0 := Nat.div_pos (Nat.le_of_dvd hdim h32) (by decide)
    have hw : blockQ4_0Size ≤ c.rowBytes := by
      rw [rowBytes_q4 hd hk]
      exact Nat.le_mul_of_pos_left _ hblocks
    have h0 := congrArg (slice · 0 QK4_0) heq
    have hfirst : ∀ row, slice ((List.range (c.headDim / QK4_0)).flatMap fun bi =>
        P.ofQ4 (slice row (bi * blockQ4_0Size) blockQ4_0Size)) 0 QK4_0 =
          P.ofQ4 (slice row 0 blockQ4_0Size) := by
      intro row
      have h := slice_flatMap_range (g := fun bi =>
        P.ofQ4 (slice row (bi * blockQ4_0Size) blockQ4_0Size)) (fun _ _ => P.length_ofQ4 _) hblocks
      rwa [Nat.zero_mul, Nat.zero_mul] at h
    simp only [hfirst] at h0
    rw [slice_lone (by decide) hw, slice_zeros hw] at h0
    exact hP.q4 h0

/-- `size` zeros but for a one at `n`. -/
def loneAt (n size : ℕ) : List UInt8 := List.replicate n 0 ++ 1 :: List.replicate (size - n - 1) 0

theorem length_loneAt {n size : ℕ} (h : n < size) : (loneAt n size).length = size := by
  simp only [loneAt, List.length_append, List.length_replicate, List.length_cons]
  omega

theorem getElem?_loneAt {n size i : ℕ} (hi : i < size) (hne : i ≠ n) :
    (loneAt n size)[i]? = some 0 := by
  unfold loneAt
  by_cases h : i < n
  · rw [List.getElem?_append_left (by simpa using h), List.getElem?_replicate, if_pos h]
  · obtain ⟨k, rfl⟩ : ∃ k, i = n + (k + 1) := ⟨i - n - 1, by omega⟩
    rw [List.getElem?_append_right (by simp), List.length_replicate, Nat.add_sub_cancel_left,
      List.getElem?_cons_succ, List.getElem?_replicate, if_pos (by omega)]

theorem slice_loneAt {n size w : ℕ} (hw : 0 < w) (h : n + w ≤ size) :
    slice (loneAt n size) n w = 1 :: List.replicate (w - 1) 0 := by
  have hdrop : (loneAt n size).drop n = 1 :: List.replicate (size - n - 1) 0 := by
    rw [loneAt, List.drop_append_of_le_length (by simp), List.drop_of_length_le (by simp),
      List.nil_append]
  have := slice_lone (w := size - n) hw (by omega)
  rw [slice, List.drop_zero] at this
  rw [slice, hdrop, this]

theorem slice_zeros_of_getElem? {b : List UInt8} {off w : ℕ} (h : ∀ i < w, b[off + i]? = some 0) :
    slice b off w = List.replicate w 0 := by
  refine List.ext_getElem? fun i => ?_
  rw [getElem?_slice, List.getElem?_replicate]
  split_ifs with hi
  · exact h i hi
  · rfl

/-- **With padding the second head is read from the first one's block**: a one at the start of the
second head is not where the ranged snapshot looks for it. -/
theorem rows_mirror_padded {x : Half} (hc : c.Declared) (h0 : rows ≠ 0) (hr : rows < c.capacity)
    (hl : c.layout = .headMajor) (hk : 2 ≤ c.kvHeads)
    (hpad : c.capacity * c.kvHeads * c.rowBytes < (c.buffer x).size)
    (hb : (c.buffer x).bytes = loneAt (c.capacity * c.rowBytes) (c.buffer x).size) :
    FlatMem.rows c.rowBytes (mirrorBytes P c rows x) (mirrorSlot c rows 0 1) =
      List.replicate c.rowBytes 0 := by
  have hcap : 0 < c.capacity := by omega
  have htwo : 2 * (c.capacity * c.rowBytes) ≤ c.capacity * c.kvHeads * c.rowBytes := by
    rw [Nat.mul_right_comm, Nat.mul_comm]
    exact Nat.mul_le_mul_left _ hk
  rw [mirrorSlot_headMajor hl h0 hr, Nat.one_mul, Nat.add_zero]
  refine slice_zeros_of_getElem? fun i hi => ?_
  have hin : rows * c.rowBytes + i < c.capacity * c.rowBytes :=
    Nat.lt_of_lt_of_le (Nat.add_lt_add_left hi _) (row_bound hr)
  by_cases hdvd : (c.buffer x).size % (c.kvHeads * c.capacity) = 0
  · have hsize := slots_mul_slotBytes hdvd
    have hlt : c.rowBytes < slotBytes c x := by
      refine Nat.lt_of_mul_lt_mul_left (a := c.kvHeads * c.capacity) ?_
      rwa [hsize, Nat.mul_comm c.kvHeads]
    have hlt' := Nat.mul_lt_mul_of_pos_left hlt hcap
    have hrows := Nat.mul_le_mul_left rows hlt.le
    have hone := Nat.le_mul_of_pos_left c.rowBytes (Nat.pos_of_ne_zero h0)
    have hslots : rows * slotBytes c x < c.capacity * slotBytes c x :=
      Nat.mul_lt_mul_of_pos_right hr (by omega)
    have hend : 2 * (c.capacity * slotBytes c x) ≤ (c.buffer x).size := by
      rw [← hsize, Nat.mul_assoc]
      exact Nat.mul_le_mul_right _ hk
    by_cases hfirst : rows * c.rowBytes + i < rows * slotBytes c x
    · have hbyte := getElem?_mirror (P := P) hc h0 hr hl hdvd (h := 0) (by omega) hfirst
      rw [Nat.zero_mul, Nat.zero_mul, Nat.zero_mul, Nat.zero_add] at hbyte
      rw [hbyte, hb, getElem?_loneAt (by omega) (by omega)]
    · have hbyte := getElem?_mirror (P := P) hc h0 hr hl hdvd (h := 1) hk
        (show rows * c.rowBytes + i - rows * slotBytes c x < rows * slotBytes c x by omega)
      rw [Nat.one_mul, Nat.one_mul, Nat.add_sub_cancel' (by omega)] at hbyte
      rw [hbyte, hb, getElem?_loneAt (by omega) (by omega)]
  · rw [mirrorBytes_fallback (.inr (.inr hdvd)), hb, getElem?_loneAt (by omega) (by omega)]

theorem rowBytes_pos (hs : c.IsStored) (hd : c.kBuffer.buffer.desc = none) (hdim : 0 < c.headDim) :
    0 < c.rowBytes := by
  rcases stored_cases hs hd with hk | hk | ⟨hk, h32⟩
  · rw [rowBytes_of_float hs (.inr hk), hk]
    exact Nat.mul_pos hdim (by decide)
  · rw [rowBytes_of_float hs (.inl hk), hk]
    exact Nat.mul_pos hdim (by decide)
  · rw [rowBytes_q4 hd hk]
    exact Nat.mul_pos (Nat.div_pos (Nat.le_of_dvd hdim h32) (by decide)) (by decide)

theorem dequantSnapshot_ne_of_padded {x : Half} (hP : P.TellsSubnormal) (hc : c.Declared)
    (hd : c.kBuffer.buffer.desc = none) (hdim : 0 < c.headDim) (h0 : rows ≠ 0)
    (hr : rows < c.capacity) (hl : c.layout = .headMajor) (hk : 2 ≤ c.kvHeads)
    (hpad : c.capacity * c.kvHeads * c.rowBytes < (c.buffer x).size)
    (hb : (c.buffer x).bytes = loneAt (c.capacity * c.rowBytes) (c.buffer x).size) :
    (c.hostSnapshotRows P rows).dequantSnapshot P rows x ≠
      (c.hostSnapshot P).dequantSnapshot P rows x := by
  intro heq
  obtain ⟨-, hheads, hhd, -⟩ := hostSnapshotRows_reads P c rows
  have hrows : 0 < rows := Nat.pos_of_ne_zero h0
  have hw := rowBytes_pos hc.stored hd hdim
  have htwo : c.capacity * c.rowBytes + c.rowBytes ≤ (c.buffer x).size := by
    have hslots : c.capacity + 1 ≤ c.capacity * c.kvHeads := by
      have := Nat.mul_le_mul_left c.capacity hk
      omega
    have := Nat.mul_le_mul_right c.rowBytes hslots
    rw [Nat.succ_mul] at this
    omega
  -- the chunk of row `0` of head `1`
  have hfull : slice ((c.hostSnapshot P).dequantSnapshot P rows x)
    ((1 * rows + 0) * c.headDim) c.headDim = _ :=
    slice_dequantSnapshot hdim.ne'
      (fun p h => by rw [dequantize_hostSnapshot hc hd, length_rowValues hc.stored]; rfl) hk hrows
  have hranged := slice_dequantSnapshot (P := P) (a := c.hostSnapshotRows P rows)
    (x := x) (h := 1) (p := 0) (by rw [hhd]; exact hdim.ne')
    (fun p h => by rw [dequantize_hostSnapshotRows hc hd, length_rowValues hc.stored, hhd])
    (by rw [hheads]; exact hk) hrows
  rw [heq, hhd, hfull, dequantize_hostSnapshot hc hd, dequantize_hostSnapshotRows hc hd,
    rows_mirror_padded hc h0 hr hl hk hpad hb, slot_headMajor hl, Nat.one_mul,
    Nat.add_zero, FlatMem.rows, hb, slice_loneAt hw htwo] at hranged
  exact rowValues_lone hP hc.stored hd hdim hranged

/-- The cache with a one at the start of the second head of each buffer. -/
def loneContents (c : KVCache) : KVCache :=
  c.withContents (loneAt (c.capacity * c.rowBytes) c.kBuffer.size)
    (loneAt (c.capacity * c.rowBytes) c.vBuffer.size)

theorem bytes_loneContents (c : KVCache) (x : Half) :
    ((loneContents c).buffer x).bytes = loneAt (c.capacity * c.rowBytes)
      (c.buffer x).size := by cases x <;> rfl

theorem size_loneContents (hlt : ∀ y, c.capacity * c.rowBytes < (c.buffer y).size) (x : Half) :
    ((loneContents c).buffer x).size = (c.buffer x).size := by
  rw [Tensor.size, ← Tensor.bytes, bytes_loneContents, length_loneAt (hlt x)]

theorem lt_size_of_two_heads (hc : c.Declared) (hk : 2 ≤ c.kvHeads) (hcap : 0 < c.capacity)
    (hw : 0 < c.rowBytes) (x : Half) : c.capacity * c.rowBytes < (c.buffer x).size := by
  have hslots := Nat.mul_lt_mul_of_pos_left (Nat.lt_of_lt_of_le Nat.one_lt_two hk) hcap
  rw [Nat.mul_one] at hslots
  exact (Nat.mul_lt_mul_of_pos_right hslots hw).trans_le (hc.size x)

/-- **The two snapshots read alike, whatever the buffers hold, exactly for the squeezable
caches.** -/
theorem snapshotRows_iff (hP : P.TellsSubnormal) (hc : c.Declared) (rows : ℕ) :
    (∀ kb vb : List UInt8, kb.length = c.kBuffer.size → vb.length = c.vBuffer.size → ∀ x,
      ((c.withContents kb vb).hostSnapshotRows P rows).dequantSnapshot P rows x =
        ((c.withContents kb vb).hostSnapshot P).dequantSnapshot P rows x) ↔ c.Squeezable rows := by
  constructor
  · intro h
    by_contra hsq
    simp only [Squeezable, not_or, Unpadded, not_forall] at hsq
    obtain ⟨hdim, ho, hl, hk, h0, hr, x, hx⟩ := hsq
    have hd : c.kBuffer.buffer.desc = none := by simpa [isOpaque] using ho
    have hl' : c.layout = .headMajor := by cases h : c.layout <;> simp_all
    have hlt := lt_size_of_two_heads hc (by omega) (by omega)
      (rowBytes_pos hc.stored hd (Nat.pos_of_ne_zero hdim))
    have hsize := size_loneContents hlt x
    refine dequantSnapshot_ne_of_padded (c := loneContents c) hP
      (hc.withContents (length_loneAt (hlt .key)) (length_loneAt (hlt .value)))
        hd (Nat.pos_of_ne_zero hdim) h0
      (Nat.not_le.mp hr) hl' (Nat.not_le.mp hk) ?_ ?_
      (h _ _ (length_loneAt (hlt .key)) (length_loneAt (hlt .value)) x)
    · rw [hsize]
      exact Nat.lt_of_le_of_ne (hc.size x) (Ne.symm hx)
    · rw [hsize]
      exact bytes_loneContents c x
  · intro hsq kb vb hk hv x
    refine dequantSnapshot_of_squeezable (hc.withContents hk hv) ?_ x
    refine hsq.imp_right (Or.imp_right
      (Or.imp_right (Or.imp_right (Or.imp_right (Or.imp_right ?_)))))
    intro hu y
    cases y
    · exact hk.trans (hu .key)
    · exact hv.trans (hu .value)

end Mirror

theorem fixedPoint_tellsSubnormal : Platform.fixedPoint.TellsSubnormal := by
  refine ⟨?_, ?_, ?_⟩
  · exact (by decide : FixedPoint.decode 23 31 [1, 0, 0, 0] ≠ FixedPoint.decode 23 31 [0, 0, 0, 0])
  · exact (by decide : FixedPoint.decode 10 15 [1, 0] * 2 ^ 125 ≠
      FixedPoint.decode 10 15 [0, 0] * 2 ^ 125)
  · exact (by decide : FixedPoint.dequantize (1 :: List.replicate 17 0) ≠
      FixedPoint.dequantize (List.replicate 18 0))

/-- F32, two heads of one value, `capacity = 2`, one row resident: `1.0` and `2.0`. -/
def twoHeads (padding : List UInt8) : KVCache :=
  let buf : Tensor := .host [1, 2, 2, 1]
    ([0, 0, 128, 63, 0, 0, 0, 0, 0, 0, 0, 64, 0, 0, 0, 0] ++ padding)
  { newWithGeometry buf buf 2 2 1 .headMajor with currentPos := 1, highWaterPos := 1 }

/-- Without padding the resident row is read alike whatever the buffers hold. -/
theorem snapshotRows_twoHeads : (twoHeads []).Declared ∧ ∀ kb vb : List UInt8, kb.length = 16 →
    vb.length = 16 → ∀ x,
    (((twoHeads []).withContents kb vb).hostSnapshotRows .fixedPoint 1).dequantSnapshot
      .fixedPoint 1 x =
      (((twoHeads []).withContents kb vb).hostSnapshot .fixedPoint).dequantSnapshot
        .fixedPoint 1 x := by
  have hc : (twoHeads []).Declared :=
    ⟨.inl rfl, rfl, fun x => by cases x <;> rfl, fun x => by cases x <;> decide⟩
  refine ⟨hc, (snapshotRows_iff fixedPoint_tellsSubnormal hc 1).mpr ?_⟩
  unfold Squeezable
  refine .inr (.inr (.inr (.inr (.inr (.inr fun x => ?_)))))
  cases x <;> rfl

/-- Two bytes of padding: the device is read in full, and the second head is then looked for one row
too early. -/
theorem padded_snapshot_differs : (twoHeads [0, 0]).Declared ∧ 1 ≤ (twoHeads [0, 0]).currentPos ∧
    ((twoHeads [0, 0]).hostSnapshotRows .fixedPoint 1).dequantSnapshot .fixedPoint 1 .key ≠
      ((twoHeads [0, 0]).hostSnapshot .fixedPoint).dequantSnapshot .fixedPoint 1 .key := by
  refine ⟨⟨.inl rfl, rfl, fun x => by cases x <;> rfl, fun x => by cases x <;> decide⟩,
    by decide, ?_⟩
  exact (by decide +kernel : (([2 ^ 149, 0] : List Int)) ≠ [2 ^ 149, 2 ^ 150])

end ArgusEngine
