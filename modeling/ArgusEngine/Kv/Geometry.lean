import ArgusEngine.Kv.Append
import ArgusEngine.Lib.Outcomes

/-!
# The geometry of a cache

Everything an operation of a cache decides on: format, cursor, starts, capacity and where the
buffers live. The contents, the addresses, the high-water mark and the device mirror are not part of
it.

* `geometry_grow`, `geometry_releaseUnusedPages`: the geometry after a reallocation is a function of
  the geometry before;
* **`agree_grow`**, **`agree_makeRoom`**, **`agree_ensureCapacity`**, **`agree_prunePrefix`**: on
  two well-formed caches of one geometry an operation has the same outcome and leaves one geometry.
-/

namespace ArgusEngine

open FlatMem SlotMem Outcomes

namespace KVCache

structure Geometry where
  format : Format
  currentPos : ℕ
  maxSeqLen : ℕ
  headStart : List ℕ
  isGpu : Bool
  capacity : ℕ
  /-- Whether the K buffer is a device buffer. -/
  onDevice : Bool
  /-- Whether the allocator of a dynamic cache hands out device buffers. -/
  allocator : Option Bool
  deriving Repr, DecidableEq

def geometry (c : KVCache) : Geometry :=
  ⟨c.format, c.currentPos, c.maxSeqLen, c.headStart, c.kBuffer.isGpu, c.capacity,
    c.kBuffer.buffer.isGpuBuffer, c.memory.map Memory.isGpu⟩

/-- After a move to fresh buffers of capacity `cap`; an opaque store stays on the host. -/
def Geometry.moved (g : Geometry) (cap : ℕ) : Geometry :=
  { g with
    capacity := cap
    onDevice := if g.format.desc.isSome && g.isGpu then false else g.allocator.getD false }

/-- The capacity `shrink_to_fit` aims at. -/
def Geometry.fitted (g : Geometry) : ℕ := max (andNot (g.currentPos * 3 / 2 + 63) 63) 64

/-- After `release_unused_pages`. -/
def Geometry.released (g : Geometry) : Geometry :=
  if g.allocator.isSome ∧ g.currentPos * 4 < g.capacity * 3 ∧
      ¬ (g.format.desc.isSome ∧ g.format.layout ≠ .headMajor) ∧ ¬ g.fitted ≥ g.capacity then
    g.moved g.fitted
  else g

section Same

variable {c d : KVCache}

theorem frame_eq (h : c.geometry = d.geometry) : c.format = d.format ∧ c.currentPos = d.currentPos ∧
    c.maxSeqLen = d.maxSeqLen ∧ c.headStart = d.headStart ∧ c.capacity = d.capacity ∧
    c.memory.isSome = d.memory.isSome := by
  refine ⟨congrArg Geometry.format h, congrArg Geometry.currentPos h, congrArg Geometry.maxSeqLen h,
    congrArg Geometry.headStart h, congrArg Geometry.capacity h, ?_⟩
  have := congrArg (fun g => g.allocator.isSome) h
  simpa [geometry] using this

theorem headStartOf_of_geometry (h : c.geometry = d.geometry) (k : ℕ) :
    c.headStartOf k = d.headStartOf k := by
  unfold headStartOf
  rw [(frame_eq h).2.2.2.1]

theorem slot_of_geometry (h : c.geometry = d.geometry) (p k : ℕ) : c.slot p k = d.slot p k := by
  obtain ⟨hf, -, -, -, hcap, -⟩ := frame_eq h
  unfold slot
  rw [show c.layout = d.layout from congrArg Format.layout hf, hcap,
    show c.kvHeads = d.kvHeads from congrArg Format.kvHeads hf]

end Same

section Moves

variable {c c' : KVCache}

theorem geometry_reallocTo (c : KVCache) {m : Memory} (hm : c.memory = some m) (cap size : ℕ) :
    (c.reallocTo m cap size).geometry = c.geometry.moved cap := by
  have hframe := c.frame_reallocTo hm cap size
  obtain ⟨m₁, m₂, kb, vb, -, -, h⟩ := c.reallocTo_buffers m cap size
  have hdev : (c.reallocTo m cap size).kBuffer.buffer.isGpuBuffer =
      if c.isOpaque && c.kBuffer.isGpu then false else m.isGpu := by
    rw [h]
    simp only [Tensor.withBytes, allocTensor]
    split_ifs <;> rfl
  have hall : ((c.reallocTo m cap size).memory.map Memory.isGpu) = some m.isGpu := by
    simp only [reallocTo, allocTensor, Option.map_some]
    split_ifs <;> rfl
  unfold geometry Geometry.moved
  rw [hdev, hall, hm, show (c.reallocTo m cap size).format =
    c.format from congrArg Frame.format hframe, show (c.reallocTo m cap size).kBuffer.isGpu =
    c.kBuffer.isGpu from congrArg Frame.isGpu hframe]
  rfl

theorem geometry_grow {n : ℕ} (h : c.grow n = .ok c') :
    c'.geometry = c.geometry.moved (min (max (c.capacity * 2) n) c.maxSeqLen) := by
  unfold grow at h
  cases hm : c.memory with
  | none => rw [hm] at h; cases h
  | some m =>
    rw [hm] at h
    simp only at h
    split at h
    · cases h
    · split_ifs at h
      cases h
      exact c.geometry_reallocTo hm _ _

theorem geometry_shrinkToFit {n : ℕ} (h : c.shrinkToFit = .ok (n, c')) :
    c'.geometry = if c.memory.isSome ∧ ¬ (c.isOpaque = true ∧ c.layout ≠ .headMajor) ∧
      ¬ c.geometry.fitted ≥ c.capacity then c.geometry.moved c.geometry.fitted else c.geometry := by
  unfold shrinkToFit at h
  cases hm : c.memory with
  | none =>
    rw [hm] at h
    cases h
    exact (if_neg fun h => by simp at h).symm
  | some m =>
    rw [hm] at h
    simp only at h
    split_ifs at h with h₁ h₂
    · cases h
      exact (if_neg fun h => h.2.1 h₁).symm
    · cases h
      exact (if_neg fun h => h.2.2 h₂).symm
    · rw [if_pos ⟨rfl, h₁, h₂⟩]
      split at h
      · cases h
        exact c.geometry_reallocTo hm _ _
      · cases h
      · cases h

theorem shrinkToFit_ok (hs : c.IsStored) : ∃ r, c.shrinkToFit = .ok r := by
  unfold shrinkToFit
  simp only [bufSize_eq hs]
  split
  · exact ⟨_, rfl⟩
  · split_ifs <;> exact ⟨_, rfl⟩

theorem geometry_releaseUnusedPages {P : Platform} {n : ℕ} (hs : c.IsStored)
    (h : c.releaseUnusedPages P = .ok (n, c')) : c'.geometry = c.geometry.released := by
  have hsome : c.geometry.allocator.isSome = c.memory.isSome := by simp [geometry]
  have hmadvise : ∀ ts, ({ c with
      kBuffer := (c.releaseBuffer P ts c.kBuffer).2
      vBuffer := (c.releaseBuffer P ts c.vBuffer).2
      highWaterPos := c.currentPos } : KVCache).geometry = c.geometry := by
    intro ts
    obtain ⟨kb, -, hk⟩ := releaseBuffer_eq P c ts c.kBuffer
    rw [hk]
    rfl
  unfold Geometry.released
  rw [hsome]
  unfold releaseUnusedPages at h
  split_ifs at h with h₁ h₂
  · obtain ⟨r, hok⟩ := shrinkToFit_ok hs
    rw [hok] at h
    cases h
    rw [geometry_shrinkToFit hok]
    refine if_congr ?_ rfl rfl
    exact ⟨fun h => ⟨h.1, h₁.2, h.2⟩, fun h => ⟨h.1, h.2.2⟩⟩
  · cases h
    exact (if_neg fun h => h₁ ⟨h.1, h.2.1⟩).symm
  · rw [if_neg fun h => h₁ ⟨h.1, h.2.1⟩]
    split at h
    · cases h; exact hmadvise _
    · cases h; exact hmadvise _
    · cases h; rfl

theorem geometry_setCurrentPos (c : KVCache) (n : ℕ) :
    (c.setCurrentPos n).geometry = { c.geometry with
    currentPos := n
    headStart := if n = 0 then [] else c.geometry.headStart.map (min · n) } := by
  unfold setCurrentPos
  split_ifs with h <;> rfl

end Moves

/-! ## Operations on the contents only -/

section Contents

variable {c c' : KVCache}

/-- `c'` differs from `c` in the contents of the buffers only. -/
def Moved (c c' : KVCache) : Prop := ∃ kb vb, c' = c.withContents kb vb

theorem Moved.refl (c : KVCache) : Moved c c := ⟨_, _, rfl⟩

theorem Moved.trans {c'' : KVCache} (h : Moved c c') (h' : Moved c' c'') : Moved c c'' := by
  obtain ⟨kb, vb, rfl⟩ := h
  obtain ⟨kb', vb', rfl⟩ := h'
  exact ⟨kb', vb', rfl⟩

theorem moved_of_buffers {f g : Tensor → Tensor}
    (hf : ∀ t, ∃ b, b.length = t.size ∧ f t = t.withBytes b)
    (hg : ∀ t, ∃ b, b.length = t.size ∧ g t = t.withBytes b) :
    Moved c { c with kBuffer := f c.kBuffer, vBuffer := g c.vBuffer } := by
  obtain ⟨kb, -, hk⟩ := hf c.kBuffer
  obtain ⟨vb, -, hv⟩ := hg c.vBuffer
  exact ⟨kb, vb, by rw [hk, hv]; rfl⟩

theorem moved_shiftPositions {r : SlotMem.Run} (h : c.shiftPositions r = .ok c') : Moved c c' := by
  unfold shiftPositions at h
  split_ifs at h
  · cases h; exact .refl c
  · cases h; exact moved_of_buffers (c.shiftBuffer_eq r) (c.shiftBuffer_eq r)

theorem moved_shiftPositionsForHead {head : ℕ} {r : SlotMem.Run}
    (h : c.shiftPositionsForHead head r = .ok c') : Moved c c' := by
  have heq : ∀ t, ∃ b, b.length = t.size ∧ c.shiftBufferForHead head r t = t.withBytes b :=
    fun t => ⟨_, length_blit _ _ _ _ _, rfl⟩
  unfold shiftPositionsForHead at h
  split_ifs at h
  · cases h; exact .refl c
  · cases h; exact moved_of_buffers heq heq

theorem moved_compactLoop (ps : List ℕ) : ∀ (wp : ℕ) (r : SlotMem.Run) (c : KVCache),
    compactLoop wp r ps c = .ok c' → Moved c c' := by
  have flush : ∀ {r : SlotMem.Run} {c c' : KVCache},
      (if r.src ≠ r.dst then c.shiftPositions r else .ok c) = .ok c' → Moved c c' := by
    intro r c c' h
    split_ifs at h
    · exact moved_shiftPositions h
    · cases h; exact .refl c
  induction ps with
  | nil => exact fun wp r c h => flush h
  | cons p ps ih =>
    intro wp r c h
    rw [compactLoop] at h
    by_cases hp : p = r.src + r.count
    · rw [if_pos hp] at h
      exact ih _ _ c h
    · rw [if_neg hp] at h
      split at h
      · cases h
      · exact (flush ‹_›).trans (ih _ _ _ h)

theorem moved_compactKeepPositions {keep : List ℕ} {ws : ℕ}
    (h : c.compactKeepPositions keep ws = .ok c') : Moved c c' := by
  cases keep with
  | nil => cases h; exact .refl c
  | cons p ps => exact moved_compactLoop ps _ _ c h

theorem moved_flushRuns {head : ℕ} (rs : List SlotMem.Run) :
    ∀ c : KVCache, flushRuns head rs c = .ok c' → Moved c c' := by
  induction rs with
  | nil => intro c h; cases h; exact .refl _
  | cons r rs ih =>
    intro c h
    rw [flushRuns] at h
    split at h
    · cases h
    · exact (moved_shiftPositionsForHead ‹_›).trans (ih _ h)

theorem moved_compactKeepPositionsForHead {head : ℕ} {keep : List ℕ} {ws : ℕ}
    (h : c.compactKeepPositionsForHead head keep ws = .ok c') : Moved c c' := by
  unfold compactKeepPositionsForHead at h
  split_ifs at h
  · cases h; exact .refl c
  · simp only at h
    split at h
    · cases h
    · exact (moved_flushRuns _ _ ‹_›).trans (moved_flushRuns _ _ h)

end Contents

/-! ## The same outcome on caches of one geometry -/

section Agree

variable {P : Platform} {c d : KVCache}

/-- Both caches moved, their rows kept. -/
def KeepBoth (c d c' d' : KVCache) : Prop := Keeps c c' ∧ Keeps d d' ∧ c'.geometry = d'.geometry

theorem agree_grow (hc : c.WF) (hd : d.WF) (h : c.geometry = d.geometry) (n : ℕ) :
    Agree (KeepBoth c d) (c.grow n) (d.grow n) := by
  obtain ⟨-, -, hmax, -, hcap, hmem⟩ := frame_eq h
  cases hm : c.memory with
  | none =>
    have hm' : d.memory = none := by simpa [hm] using hmem
    simp only [grow, hm, hm']
    exact .error _
  | some m =>
    obtain ⟨c', h₁⟩ := grow_ok hc (by rw [hm]; rfl) n
    obtain ⟨d', h₂⟩ := grow_ok hd (by rw [← hmem, hm]; rfl) n
    rw [h₁, h₂]
    refine .ok ⟨(keeps_grow hc h₁).1, (keeps_grow hd h₂).1, ?_⟩
    rw [geometry_grow h₁, geometry_grow h₂, h, hcap, hmax]

theorem agree_makeRoom (hc : c.WF) (hd : d.WF) (h : c.geometry = d.geometry) (n : ℕ) :
    Agree (KeepBoth c d) (c.makeRoom n) (d.makeRoom n) := by
  obtain ⟨-, hpos, hmax, -, hcap, -⟩ := frame_eq h
  unfold makeRoom
  rw [hpos, hcap, hmax]
  split_ifs
  · exact .error _
  · exact agree_grow hc hd h _
  · exact .ok ⟨Keeps.refl hc, Keeps.refl hd, h⟩

theorem agree_ensureCapacity (hc : c.WF) (hd : d.WF) (h : c.geometry = d.geometry) (n : ℕ) :
    Agree (fun r s => r.1 = s.1 ∧ KeepBoth c d r.2 s.2) (c.ensureCapacity n)
      (d.ensureCapacity n) := by
  obtain ⟨-, -, hmax, -, hcap, -⟩ := frame_eq h
  unfold ensureCapacity
  simp only [hcap, hmax]
  split_ifs
  · exact .ok ⟨rfl, Keeps.refl hc, Keeps.refl hd, h⟩
  · exact .error _
  · have hg := agree_grow hc hd h n
    cases hg' : c.grow n with
    | error e =>
      rw [hg'] at hg
      cases hd' : d.grow n <;> rw [hd'] at hg <;> cases hg
      exact .error _
    | ok c' =>
      rw [hg'] at hg
      cases hd' : d.grow n <;> rw [hd'] at hg <;> cases hg
      exact .ok ⟨rfl, ‹_›⟩

/-- Both caches lost the same prefix. -/
def PruneBoth (n : ℕ) (c d c' d' : KVCache) : Prop :=
  Prunes c c' n ∧ Prunes d d' n ∧ c'.geometry = d'.geometry

theorem geometry_shift_release {r : SlotMem.Run} {n k : ℕ} (hs : c.IsStored) {c' : KVCache}
    (h : { c with
      kBuffer := c.shiftBuffer r c.kBuffer
      vBuffer := c.shiftBuffer r c.vBuffer
      currentPos := n }.releaseUnusedPages P = .ok (k, c')) :
    c'.geometry = ({ c.geometry with currentPos := n } : Geometry).released := by
  obtain ⟨kb, -, hk⟩ := c.shiftBuffer_eq r c.kBuffer
  rw [hk] at h
  exact geometry_releaseUnusedPages (c := { c with
    kBuffer := c.kBuffer.withBytes kb
    vBuffer := c.shiftBuffer r c.vBuffer
    currentPos := n }) hs h

theorem geometry_prunePrefix {n : ℕ} (hs : c.IsStored) {c' : KVCache}
    (h : c.prunePrefix P n = .ok c') : c'.geometry = if n = 0 then c.geometry
      else if c.currentPos - n = 0 then { c.geometry with currentPos := 0, headStart := [] }
      else ({ c.geometry with
        currentPos := c.currentPos - n
        headStart := if c.isRagged then (c.setHeadStarts (c.headStarts.map (· - n))).headStart
          else c.headStart } : Geometry).released := by
  unfold prunePrefix at h
  simp only at h
  split_ifs at h ⊢ with h₁ h₂ h₃ h₄ h₅ h₆
  · cases h; rfl
  · cases h; rfl
  · split at h
    · cases h
    · cases h
      exact geometry_shift_release (c := c.setHeadStarts _) hs ‹_›
  · split at h
    · cases h
    · cases h
      exact geometry_shift_release hs ‹_›

theorem agree_prunePrefix (hc : c.WF) (hd : d.WF) (h : c.geometry = d.geometry) (n : ℕ) :
    Agree (PruneBoth n c d) (c.prunePrefix P n) (d.prunePrefix P n) := by
  obtain ⟨hf, hpos, -, hstart, -, -⟩ := frame_eq h
  have hheads : c.kvHeads = d.kvHeads := congrArg Format.kvHeads hf
  by_cases hn : n ≤ c.currentPos
  · obtain ⟨c', h₁, hp₁⟩ := prunes_prunePrefix (P := P) hc hn
    obtain ⟨d', h₂, hp₂⟩ := prunes_prunePrefix (P := P) hd (hpos ▸ hn)
    have hset : (c.setHeadStarts (c.headStarts.map (· - n))).headStart =
        (d.setHeadStarts (d.headStarts.map (· - n))).headStart := by
      have hstarts : c.headStarts = d.headStarts := by
        rw [headStarts, headStarts, hheads, funext (headStartOf_of_geometry h)]
      simp only [setHeadStarts]
      rw [hstarts, hpos]
    have hrag : c.isRagged = d.isRagged := by unfold isRagged; rw [hstart]
    rw [h₁, h₂]
    refine .ok ⟨hp₁, hp₂, ?_⟩
    rw [geometry_prunePrefix hc.stored h₁, geometry_prunePrefix hd.stored h₂, h, hpos,
      hset, hrag, hstart]
  · unfold prunePrefix
    simp only
    rw [if_neg (by omega), if_pos (by omega), if_neg (by omega), if_pos (by omega), hpos]
    exact .error _

end Agree

end KVCache

end ArgusEngine
