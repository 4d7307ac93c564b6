import Mathlib.Data.List.Forall2
import ArgusEngine.Kv.Gather
import ArgusEngine.Kv.Snapshot

/-!
# Migration between backends

`migrate_kv_caches` rebuilds every layer over buffers of another backend: the same buffers on
unified memory, copies otherwise. The new cache gets the tensors, the capacity, the layout and the
cursor of the old one; what else it has comes from its constructor.

* `migrateKvCaches`;
* **`migrated_iff`**: tensors, cursor and layout are carried over, an opaque store only without a
  copy; the starts of a ragged cache and the high-water mark are not;
* `ragged_migration_resets`: a ragged cache.

Mappings, reads, allocations and copies are taken to succeed.
-/

namespace ArgusEngine

open FlatMem KVCache

/-! ## The migration -/

inductive BackendKind where
  | cpu | umaGpu | discreteGpu
  deriving Repr, DecidableEq

namespace BackendKind

def isGpu : BackendKind → Bool
  | cpu => false
  | umaGpu | discreteGpu => true

def isDiscreteGpu : BackendKind → Bool
  | cpu | umaGpu => false
  | discreteGpu => true

end BackendKind

/-- The devices of a migration: which buffers have a `cl_mem`, the host pointer after `map_for_cpu`,
and `copy_from` of the destination, a fresh buffer with the type and the bytes of its source. -/
structure Device where
  clMem : Buffer → Bool
  mappedPtr : Buffer → ℕ
  copyFrom : Tensor → Tensor
  dtype_copyFrom : ∀ t, (copyFrom t).dtype = t.dtype
  desc_copyFrom : ∀ t, (copyFrom t).buffer.desc = none
  bytes_copyFrom : ∀ t, (copyFrom t).bytes = t.bytes

section Migrate

variable (P : Platform) (D : Device)

/-- `map_for_cpu` on both buffers. -/
def mapForCpu (kv : KVCache) : KVCache :=
  let map (t : Tensor) : Tensor :=
    { t with buffer := { t.buffer with ptr := D.mappedPtr t.buffer } }
  { kv with kBuffer := map kv.kBuffer, vBuffer := map kv.vBuffer }

/-- The tensor of the new cache; a copy takes the type of the K buffer. -/
def migrateTensor (hostAccessible copyToDst : Bool) (dst : BackendKind) (kvDtype : DType)
    (t : Tensor) : Tensor :=
  if hostAccessible then { t with isGpu := dst.isGpu }
  else
    let cpuTensor := sharedTensor P t.shape kvDtype t.bytes
    if copyToDst then { D.copyFrom cpuTensor with isGpu := dst.isGpu } else cpuTensor

/-- One layer. -/
def migrateOne (hostAccessible copyToDst : Bool) (dst : BackendKind) (dstMemory : Memory)
    (kvHeads headDim maxSeqLen : ℕ) (kv : KVCache) : KVCache :=
  { newDynamic (migrateTensor P D hostAccessible copyToDst dst kv.kvDtype kv.kBuffer)
      (migrateTensor P D hostAccessible copyToDst dst kv.kvDtype kv.vBuffer)
        kv.capacity maxSeqLen kvHeads headDim
      dstMemory kv.layout with currentPos := kv.currentPos }

/-- `migrate_kv_caches`; whether the buffers can be shared is decided on the first layer. -/
def migrateKvCaches (kvCaches : List KVCache) (src dst : BackendKind) (dstMemory : Memory)
    (kvHeads headDim maxSeqLen : ℕ) (copyToDst : Bool) : List KVCache :=
  let isUma := (src.isGpu || dst.isGpu) && !src.isDiscreteGpu && !dst.isDiscreteGpu
  let hasClMem := isUma && kvCaches.head?.any fun kv => D.clMem kv.kBuffer.buffer
  let mapped := if hasClMem then kvCaches.map (mapForCpu D) else kvCaches
  let hostAccessible := hasClMem && mapped.head?.any fun kv => kv.kBuffer.buffer.ptr ≠ 0
  mapped.map (migrateOne P D hostAccessible copyToDst dst dstMemory kvHeads headDim maxSeqLen)

/-- The backends share their memory, and the first layer's K buffer can be mapped. -/
def ZeroCopy (kvCaches : List KVCache) (src dst : BackendKind) : Prop :=
  (src.isGpu = true ∨ dst.isGpu = true) ∧ src.isDiscreteGpu = false ∧ dst.isDiscreteGpu = false ∧
    ∃ kv ∈ kvCaches.head?, D.clMem kv.kBuffer.buffer = true ∧ D.mappedPtr kv.kBuffer.buffer ≠ 0

end Migrate

/-! ## What is carried over -/

/-- `c'` has the cursor, the geometry, the storage and the resident rows of `c`. -/
structure Carried (c c' : KVCache) : Prop where
  pos : c'.currentPos = c.currentPos
  capacity : c'.capacity = c.capacity
  format : c'.format = c.format
  storage : ∀ x, (c'.buffer x).dtype = (c.buffer x).dtype ∧
    (c'.buffer x).buffer.desc = (c.buffer x).buffer.desc
  rows : ∀ x, ∀ h < c.kvHeads, ∀ p, c.headStartOf h ≤ p → p < c.currentPos →
    c'.rowsOf x h p = c.rowsOf x h p

/-- Besides, `c'` has the starts of `c` and an ordered high-water mark. -/
structure Migrated (c c' : KVCache) : Prop where
  carried : Carried c c'
  starts : ∀ h < c.kvHeads, c'.headStartOf h = c.headStartOf h
  mark : c'.currentPos ≤ c'.highWaterPos ∧ c'.highWaterPos ≤ c'.capacity

section Carried

variable {P : Platform} {D : Device} {c : KVCache} {hostAccessible copyToDst : Bool}
  {dst : BackendKind} {m : Memory} {kvHeads headDim maxSeqLen : ℕ}

theorem bytes_migrateTensor (dtype : DType) (t : Tensor) :
    (migrateTensor P D hostAccessible copyToDst dst dtype t).bytes = t.bytes := by
  unfold migrateTensor
  split_ifs
  · rfl
  · exact D.bytes_copyFrom _
  · rfl

theorem dtype_migrateTensor (t : Tensor) :
    (migrateTensor P D hostAccessible copyToDst dst t.dtype t).dtype = t.dtype := by
  unfold migrateTensor
  split_ifs
  · rfl
  · exact D.dtype_copyFrom _
  · rfl

theorem desc_migrateTensor (dtype : DType) (t : Tensor) :
    (migrateTensor P D hostAccessible copyToDst dst dtype t).buffer.desc =
      if hostAccessible then t.buffer.desc else none := by
  unfold migrateTensor
  split_ifs
  · rfl
  · exact D.desc_copyFrom _
  · rfl

/-- The layer that the loop sees. -/
def mappedIf (D : Device) (hasClMem : Bool) (c : KVCache) : KVCache :=
  if hasClMem then mapForCpu D c else c

theorem mappedIf_same (hasClMem : Bool) (c : KVCache) :
    (mappedIf D hasClMem c).currentPos = c.currentPos ∧
    (mappedIf D hasClMem c).capacity = c.capacity ∧ (mappedIf D hasClMem c).layout = c.layout ∧ ∀ x,
    ((mappedIf D hasClMem c).buffer x).dtype = (c.buffer x).dtype ∧
      ((mappedIf D hasClMem c).buffer x).buffer.desc = (c.buffer x).buffer.desc ∧
      ((mappedIf D hasClMem c).buffer x).bytes = (c.buffer x).bytes := by
  unfold mappedIf
  split_ifs
  · refine ⟨rfl, rfl, rfl, fun x => ?_⟩
    cases x <;> exact ⟨rfl, rfl, rfl⟩
  · exact ⟨rfl, rfl, rfl, fun x => ⟨rfl, rfl, rfl⟩⟩

theorem buffer_migrateOne (kv : KVCache) (x : Half) :
    (migrateOne P D hostAccessible copyToDst dst m kvHeads headDim maxSeqLen kv).buffer x =
      migrateTensor P D hostAccessible copyToDst dst kv.kvDtype (kv.buffer x) := by cases x <;> rfl

/-- **One layer**: what is carried over. -/
theorem carried_migrateOne (hc : c.WF) (hk : kvHeads = c.kvHeads) (hd : headDim = c.headDim)
    (hasClMem : Bool) : Carried c
      (migrateOne P D hostAccessible copyToDst dst m kvHeads headDim maxSeqLen
        (mappedIf D hasClMem c)) ↔
      (c.isOpaque = true → hostAccessible = true) := by
  obtain ⟨hpos, hcap, hl, hbuf⟩ := mappedIf_same (D := D) hasClMem c
  have hdtype : ∀ x, ((mappedIf D hasClMem c).buffer x).dtype =
    (mappedIf D hasClMem c).kvDtype := by
    intro x
    rw [(hbuf x).1, hc.dtype_buffer, show (mappedIf D hasClMem c).kvDtype =
      c.kvDtype from (hbuf .key).1]
  have hout : ∀ x, (((migrateOne P D hostAccessible copyToDst dst m kvHeads headDim maxSeqLen
        (mappedIf D hasClMem c)).buffer x).dtype = (c.buffer x).dtype) ∧
      ((migrateOne P D hostAccessible copyToDst dst m kvHeads headDim maxSeqLen
        (mappedIf D hasClMem c)).buffer x).buffer.desc =
          (if hostAccessible then (c.buffer x).buffer.desc else none) ∧
      ((migrateOne P D hostAccessible copyToDst dst m kvHeads headDim maxSeqLen
        (mappedIf D hasClMem c)).buffer x).bytes = (c.buffer x).bytes := by
    intro x
    rw [buffer_migrateOne, ← hdtype x]
    exact ⟨(dtype_migrateTensor _).trans (hbuf x).1, by rw [desc_migrateTensor, (hbuf x).2.1],
      (bytes_migrateTensor _ _).trans (hbuf x).2.2⟩
  constructor
  · intro h ho
    by_contra hacc
    have hdesc := (h.storage .key).2
    rw [(hout .key).2.1, if_neg hacc] at hdesc
    rw [isOpaque, show c.kBuffer.buffer.desc = none from hdesc.symm] at ho
    cases ho
  · intro h
    have hdesc : ∀ x, (if hostAccessible then (c.buffer x).buffer.desc else none) =
      (c.buffer x).buffer.desc := by
      intro x
      by_cases hacc : hostAccessible = true
      · rw [if_pos hacc]
      · have hnone : c.kBuffer.buffer.desc = none := by simpa [isOpaque] using mt h hacc
        rw [if_neg hacc]
        cases x
        · exact hnone.symm
        · exact (hc.desc.trans hnone).symm
    have hfmt : (migrateOne P D hostAccessible copyToDst dst m kvHeads headDim maxSeqLen
        (mappedIf D hasClMem c)).format = c.format := by
      have h₁ := (hout .key).1
      have h₂ := (hout .key).2.1.trans (hdesc .key)
      unfold format
      exact (Format.mk.injEq ..).mpr ⟨h₁, h₂, hk, hd, hl⟩
    refine ⟨hpos, hcap, hfmt, fun x => ⟨(hout x).1, (hout x).2.1.trans (hdesc x)⟩,
      fun x k _ p _ _ => ?_⟩
    have hslot : (migrateOne P D hostAccessible copyToDst dst m kvHeads headDim maxSeqLen
        (mappedIf D hasClMem c)).slot p k = c.slot p k := by
      have hl' : (migrateOne P D hostAccessible copyToDst dst m kvHeads headDim maxSeqLen
        (mappedIf D hasClMem c)).layout = c.layout := hl
      have hcap' : (migrateOne P D hostAccessible copyToDst dst m kvHeads headDim maxSeqLen
        (mappedIf D hasClMem c)).capacity = c.capacity := hcap
      have hk' : (migrateOne P D hostAccessible copyToDst dst m kvHeads headDim maxSeqLen
        (mappedIf D hasClMem c)).kvHeads = c.kvHeads := hk
      unfold slot
      rw [hl', hcap', hk']
    unfold rowsOf headRows
    rw [rowBytes_of_format hfmt, (hout x).2.2, hslot]
    exact if_congr (by rw [← hcap]; rfl) rfl rfl

/-- **One layer**: what survives. -/
theorem migrated_migrateOne (hc : c.WF) (hk : kvHeads = c.kvHeads) (hd : headDim = c.headDim)
    (hasClMem : Bool) : Migrated c
      (migrateOne P D hostAccessible copyToDst dst m kvHeads headDim maxSeqLen
        (mappedIf D hasClMem c)) ↔
      c.currentPos = 0 ∧ (c.isOpaque = true → hostAccessible = true) := by
  have hpos := (mappedIf_same (D := D) hasClMem c).1
  constructor
  · intro h
    have hmark : (mappedIf D hasClMem c).currentPos ≤ 0 := h.mark.1
    exact ⟨by omega, (carried_migrateOne hc hk hd hasClMem).mp h.carried⟩
  · rintro ⟨h0, hacc⟩
    refine ⟨(carried_migrateOne hc hk hd hasClMem).mpr hacc, fun h _ => ?_, ?_, Nat.zero_le _⟩
    · have := hc.starts h
      exact (List.getD_nil ..).trans (by omega)
    · exact (hpos.trans h0).le

end Carried

theorem exists_migrateKvCaches (P : Platform) (D : Device) (kvCaches : List KVCache)
    (src dst : BackendKind) (m : Memory) (kvHeads headDim maxSeqLen : ℕ) (copyToDst : Bool) :
    ∃ hasClMem hostAccessible,
      (hostAccessible = true ↔ ZeroCopy D kvCaches src dst) ∧
      migrateKvCaches P D kvCaches src dst m kvHeads headDim maxSeqLen copyToDst =
        kvCaches.map fun c =>
        migrateOne P D hostAccessible copyToDst dst m kvHeads headDim maxSeqLen
          (mappedIf D hasClMem c) := by
  by_cases hcl : (((src.isGpu || dst.isGpu) && !src.isDiscreteGpu && !dst.isDiscreteGpu) &&
      kvCaches.head?.any fun kv => D.clMem kv.kBuffer.buffer) = true
  · refine ⟨true, (kvCaches.map (mapForCpu D)).head?.any fun kv =>
      kv.kBuffer.buffer.ptr ≠ 0, ?_, ?_⟩
    · cases kvCaches with
      | nil => simp at hcl
      | cons kv cs =>
        simp only [List.head?_cons, Option.any_some, Bool.and_eq_true, Bool.or_eq_true,
          Bool.not_eq_true'] at hcl
        simp [ZeroCopy, hcl, mapForCpu]
    · unfold migrateKvCaches
      simp only
      rw [if_pos hcl, hcl, Bool.true_and, List.map_map]
      rfl
  · refine ⟨false, false, ?_, ?_⟩
    · cases kvCaches with
      | nil => simp [ZeroCopy]
      | cons kv cs =>
        simp only [List.head?_cons, Option.any_some, Bool.and_eq_true, Bool.or_eq_true,
          Bool.not_eq_true'] at hcl
        simp only [ZeroCopy, List.head?_cons, Option.mem_def, Option.some.injEq, exists_eq_left']
        tauto
    · unfold migrateKvCaches
      simp only
      rw [if_neg hcl, Bool.eq_false_iff.mpr hcl, Bool.false_and]
      rfl

/-- **What a migration keeps.** Cursor, geometry, storage and rows of every layer exactly when no
opaque store is copied; starts and an ordered mark, too, exactly when besides every layer is
empty. -/
theorem migrated_iff (P : Platform) (D : Device) {kvCaches : List KVCache} {kvHeads headDim : ℕ}
    (hwf : ∀ c ∈ kvCaches, c.WF ∧ kvHeads = c.kvHeads ∧ headDim = c.headDim)
    (src dst : BackendKind) (m : Memory) (maxSeqLen : ℕ) (copyToDst : Bool) :
    (List.Forall₂ Carried kvCaches
      (migrateKvCaches P D kvCaches src dst m kvHeads headDim maxSeqLen copyToDst) ↔ ∀ c ∈ kvCaches,
      c.isOpaque = true → ZeroCopy D kvCaches src dst) ∧
    (List.Forall₂ Migrated kvCaches
      (migrateKvCaches P D kvCaches src dst m kvHeads headDim maxSeqLen copyToDst) ↔ ∀ c ∈ kvCaches,
      c.currentPos = 0 ∧ (c.isOpaque = true → ZeroCopy D kvCaches src dst)) := by
  obtain ⟨hasClMem, hostAccessible, hflag, hout⟩ :=
    exists_migrateKvCaches P D kvCaches src dst m kvHeads headDim maxSeqLen copyToDst
  rw [hout, List.forall₂_map_right_iff, List.forall₂_map_right_iff, List.forall₂_same,
    List.forall₂_same]
  constructor
  · refine forall₂_congr fun c hc => ?_
    obtain ⟨hc, hk, hd⟩ := hwf c hc
    rw [carried_migrateOne hc hk hd, hflag]
  · refine forall₂_congr fun c hc => ?_
    obtain ⟨hc, hk, hd⟩ := hwf c hc
    rw [migrated_migrateOne hc hk hd, hflag]

/-- A device without `cl_mem` whose copies land on the host. -/
def plainDevice : Device where
  clMem _ := false
  mappedPtr _ := 0
  copyFrom t := ⟨t.shape, ⟨t.dtype, none, t.bytes, 8192, false, true⟩, false⟩
  dtype_copyFrom _ := rfl
  desc_copyFrom _ := rfl
  bytes_copyFrom _ := rfl

def hostMemory : Memory := ⟨false, fun n => 4096 * (n + 1), 0⟩

/-- An empty layer survives. -/
theorem migrated_empty :
    List.Forall₂ Migrated [{ raggedCache with currentPos := 0, headStart := [] }]
    (migrateKvCaches .fixedPoint plainDevice [{ raggedCache with currentPos := 0, headStart := [] }]
      .discreteGpu .cpu hostMemory 2 1 3 true) := by
  have hwf : ({ raggedCache with currentPos := 0, headStart := [] } : KVCache).WF :=
    ⟨raggedCache_wf.stored, rfl, rfl, raggedCache_wf.size, Nat.zero_le _, raggedCache_wf.hwm,
      raggedCache_wf.cap, fun h => Nat.le_of_eq (List.getD_nil ..), fun _ _ => rfl⟩
  refine (migrated_iff .fixedPoint plainDevice ?_ .discreteGpu .cpu hostMemory 3 true).2.mpr ?_
  · intro c hc
    rw [List.mem_singleton.mp hc]
    exact ⟨hwf, rfl, rfl⟩
  · intro c hc
    rw [List.mem_singleton.mp hc]
    exact ⟨rfl, fun h => by cases h⟩

/-- **A ragged cache** of three positions comes back uniform, with its cursor above the high-water
mark. -/
theorem ragged_migration_resets : raggedCache.WF ∧ raggedCache.headStarts = [0, 1] ∧
    (migrateKvCaches .fixedPoint plainDevice [raggedCache]
      .discreteGpu .cpu hostMemory 2 1 3 true).map (fun c =>
      (c.headStarts, c.currentPos, c.highWaterPos)) = [([0, 0], 3, 0)] ∧
    ¬ List.Forall₂ Migrated [raggedCache]
      (migrateKvCaches .fixedPoint plainDevice [raggedCache]
        .discreteGpu .cpu hostMemory 2 1 3 true) := by
  refine ⟨raggedCache_wf, by decide, by decide, fun h => ?_⟩
  cases h with
  | cons h _ => exact absurd h.mark.1 (by decide)

end ArgusEngine
