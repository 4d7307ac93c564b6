import ArgusEngine.Kv.Geometry
import ArgusEngine.Kv.Swap

/-!
# Dumped and recalled prefixes, row by row

A dump holds the first rows of every head, head after head; a recall shifts the resident rows up and
writes the rows of a dump in front of them.

* `headBlocks`, `dumpPrefix_eq`: the rows of a dump;
* `writeHeads_ok`: the write loop, row by row;
* `Shifted c c' n`: the resident rows moved up by `n`, **`shifted_recallShift`**;
* `Loads c c' n dump`: the first `n` slots of every head loaded from a dump, **`loads_loadRecord`**.
-/

namespace ArgusEngine

open FlatMem SlotMem Outcomes KVCache

/-- The first `n` rows of every head of a HeadMajor buffer, head after head. -/
def KVCache.headBlocks (c : KVCache) (t : Tensor) (n : ℕ) : List UInt8 :=
  (List.range c.kvHeads).flatMap fun h =>
    slice t.bytes (h * c.capacity * c.rowBytes) (n * c.rowBytes)

namespace SwapHandler

/-! ## Dumps -/

section Dump

variable {c d : KVCache} {t u : Tensor} {n : ℕ}

theorem dumpPrefix_eq (hs : c.IsStored) (hf : c.kvDtype = .f16 ∨ c.kvDtype = .f32) :
    dumpPrefix c t n = c.headBlocks t n := by
  unfold dumpPrefix headBlocks
  rw [rowBytes_of_float hs hf]
  refine congrArg (List.range c.kvHeads).flatMap (funext fun h => ?_)
  congr 1 <;> ring

theorem slice_bound (hsize : c.capacity * c.kvHeads * c.rowBytes ≤ t.size)
    (hn : n ≤ c.capacity) {h : ℕ} (hh : h < c.kvHeads) :
    h * c.capacity * c.rowBytes + n * c.rowBytes ≤ t.bytes.length := by
  rw [← Nat.add_mul]
  refine (Nat.mul_le_mul_right _ ?_).trans hsize
  have := row_bound (w := c.capacity) hh
  rw [Nat.mul_comm c.capacity]
  omega

theorem length_headBlocks (hsize : c.capacity * c.kvHeads * c.rowBytes ≤ t.size)
    (hn : n ≤ c.capacity) : (c.headBlocks t n).length = c.kvHeads * (n * c.rowBytes) :=
  length_flatMap_range fun _ hh => length_slice (slice_bound hsize hn hh)

/-- **The rows of the blocks** are the first rows of every head. -/
theorem rows_headBlocks (hl : c.layout = .headMajor)
    (hsize : c.capacity * c.kvHeads * c.rowBytes ≤ t.size) (hn : n ≤ c.capacity) {h p : ℕ}
    (hh : h < c.kvHeads) (hp : p < n) :
    rows c.rowBytes (c.headBlocks t n) (h * n + p) = c.headRows t h p := by
  have hblock : slice (c.headBlocks t n) (h * (n * c.rowBytes)) (n * c.rowBytes) =
      slice t.bytes (h * c.capacity * c.rowBytes) (n * c.rowBytes) :=
    slice_flatMap_range (fun h hh => length_slice (slice_bound hsize hn hh)) hh
  have hrow := row_bound (w := c.rowBytes) hp
  rw [headRows_of_lt (hp.trans_le hn), slot_headMajor hl]
  have h₁ := slice_slice (c.headBlocks t n) (h * (n * c.rowBytes)) hrow
  have h₂ := slice_slice t.bytes (h * c.capacity * c.rowBytes) hrow
  rw [hblock, h₂] at h₁
  simp only [rows, Nat.add_mul, Nat.mul_assoc] at h₁ ⊢
  exact h₁.symm

theorem length_dumpPrefix (hs : c.IsStored) (hf : c.kvDtype = .f16 ∨ c.kvDtype = .f32)
    (hsize : c.capacity * c.kvHeads * c.rowBytes ≤ t.size) (hn : n ≤ c.capacity) :
    (dumpPrefix c t n).length = c.kvHeads * (n * c.rowBytes) := by
  rw [dumpPrefix_eq hs hf]
  exact length_headBlocks hsize hn

/-- **The rows of a dump** are the first rows of every head. -/
theorem rows_dumpPrefix (hs : c.IsStored) (hl : c.layout = .headMajor)
    (hf : c.kvDtype = .f16 ∨ c.kvDtype = .f32)
    (hsize : c.capacity * c.kvHeads * c.rowBytes ≤ t.size) (hn : n ≤ c.capacity) {h p : ℕ}
    (hh : h < c.kvHeads) (hp : p < n) :
    rows c.rowBytes (dumpPrefix c t n) (h * n + p) = c.headRows t h p := by
  rw [dumpPrefix_eq hs hf]
  exact rows_headBlocks hl hsize hn hh hp

theorem dumpPrefix_congr (hs : c.IsStored) (hl : c.layout = .headMajor)
    (hf : c.kvDtype = .f16 ∨ c.kvDtype = .f32) (hn : n ≤ c.capacity)
    (hrows : ∀ h < c.kvHeads, ∀ p < n, c.headRows t h p = c.headRows u h p) :
    dumpPrefix c t n = dumpPrefix c u n := by
  rw [dumpPrefix_eq hs hf, dumpPrefix_eq hs hf, headBlocks, headBlocks, List.flatMap_def,
    List.flatMap_def]
  refine congrArg List.flatten (List.map_congr_left fun h hh => slice_eq_of_rows fun p hp => ?_)
  have := hrows h (List.mem_range.mp hh) p hp
  rwa [headRows_of_lt (hp.trans_le hn), headRows_of_lt (hp.trans_le hn), slot_headMajor hl] at this

end Dump

/-! ## The write loop -/

/-- **The write loop of a recall** puts the rows of a dump in the first `n` slots of every head. -/
theorem writeHeads_ok {k n cap w : ℕ} {src : List UInt8} {t : Tensor}
    (hsrc : src.length = k * (n * w)) (hsize : cap * k * w ≤ t.size) (hn : n ≤ cap) :
    ∃ b, b.length = t.size ∧
      writeHeads k (n * w) (cap * w) src t = .ok (t.withBytes b) ∧
      ∀ h < k, ∀ p < cap, rows w b (h * cap + p) =
        if p < n then rows w src (h * n + p) else rows w t.bytes (h * cap + p) := by
  have hbound : ∀ h < k, (h * cap + n) * w ≤ t.size := by
    intro h hh
    refine (Nat.mul_le_mul_right _ ?_).trans hsize
    have := row_bound (w := cap) hh
    rw [Nat.mul_comm cap]
    omega
  have hblock : ∀ h < k, (slice src (h * (n * w)) (n * w)).length = n * w := by
    intro h hh
    refine length_slice ?_
    rw [hsrc]
    exact row_bound hh
  -- the loop does not fail
  have hloop : ∀ (l : List ℕ) (t' : Tensor), (∀ h ∈ l, h < k) → t'.size = t.size →
      l.foldlM (fun t h => t.writeBufferRange (slice src (h * (n * w)) (n * w))
        (h * (cap * w))) t' = .ok (t'.withBytes (l.foldl (fun b h =>
          blit (slice src (h * (n * w)) (n * w)) (0 * w) b (h * cap * w) (n * w)) t'.bytes)) := by
    intro l
    induction l with
    | nil => exact fun t' _ _ => rfl
    | cons h l ih =>
      intro t' hl hsz
      have hh := hl h List.mem_cons_self
      have hb := hbound h hh
      rw [Nat.add_mul] at hb
      have hw : t'.writeBufferRange (slice src (h * (n * w)) (n * w)) (h * (cap * w)) =
          .ok (t'.withBytes (blit (slice src (h * (n * w)) (n * w)) (0 * w) t'.bytes (h * cap * w)
            (n * w))) := by
        unfold Tensor.writeBufferRange
        simp only [hblock h hh]
        rw [if_neg (by rw [hsz, ← Nat.mul_assoc]; omega), Nat.zero_mul, Nat.mul_assoc]
      rw [List.foldlM_cons, hw]
      refine (ih _ (fun x hx => hl x (List.mem_cons_of_mem _ hx)) ?_).trans rfl
      exact (length_blit _ _ _ _ _).trans hsz
  refine ⟨_, length_foldl_blit _ _,
    hloop (List.range k) t (fun h hh => List.mem_range.mp hh) rfl, ?_⟩
  intro h hh p hp
  rw [rows_foldl_blit (fun h => slice src (h * (n * w)) (n * w)) (a := fun _ => 0)
    (e := fun h => h * cap) (n := fun _ => n)
    (fun x hx => by rw [Nat.zero_add]; exact (hblock x (List.mem_range.mp hx)).ge)
    (fun x hx => hbound x (List.mem_range.mp hx))]
  rw [foldl_place_blocks (fun h => rows w (slice src (h * (n * w)) (n * w))) _ hn hp hh]
  refine if_ctx_congr Iff.rfl (fun hpn => ?_) fun _ => rfl
  rw [rows, slice_slice _ _ (row_bound hpn), rows]
  congr 1
  ring

/-! ## Recalls -/

/-- The record was dumped from a cache of this shape and type. -/
def Fits (c : KVCache) (rec : SwapRecord) : Prop :=
  c.headDim = rec.headDim ∧ c.kvHeads = rec.nHeads ∧ c.kvDtype = rec.dtype

instance (c : KVCache) (rec : SwapRecord) : Decidable (Fits c rec) :=
  inferInstanceAs (Decidable (_ ∧ _ ∧ _))

/-- The room a recall of `n` tokens makes. -/
def recallRoom (c : KVCache) (n : ℕ) : Except Fail (Bool × KVCache) :=
  if c.currentPos + n > c.capacity then c.ensureCapacity (c.currentPos + n) else .ok (false, c)

/-- Make room for `n` tokens in front of the resident ones. -/
def recallShift (c c₁ : KVCache) (n : ℕ) : Except Fail KVCache :=
  if c.currentPos > 0 then c₁.shiftPositions ⟨0, n, c.currentPos⟩ else .ok c₁

section Recall

variable {c : KVCache} {rec : SwapRecord}

theorem recallOne_of_fits (hl : c.layout = .headMajor) (hfit : Fits c rec) (disk : Disk) :
    recallOne disk c rec = match recallRoom c rec.tokenCount with
      | .error _ => (.ok 0, c)
      | .ok (_, c₁) => match recallShift c c₁ rec.tokenCount with
        | .error e => (.error e, c₁)
        | .ok c₂ => loadRecord disk c₂ rec := by
  obtain ⟨h₁, h₂, h₃⟩ := hfit
  unfold recallOne
  simp only
  rw [if_neg (not_not.mpr hl), if_neg (by simp [h₁, h₂]), if_neg (not_not.mpr h₃)]
  rfl

theorem recallOne_of_not_fits {d : KVCache} (hl : c.layout = .headMajor) (hfit : ¬ Fits c rec)
    (h : c.geometry = d.geometry) : ∃ e, ∀ disk disk' : Disk,
      recallOne disk c rec = (.error e, c) ∧ recallOne disk' d rec = (.error e, d) := by
  have hf := (frame_eq h).1
  simp only [format, Format.mk.injEq] at hf
  obtain ⟨hdt, -, hheads, hdim, hlay⟩ := hf
  unfold recallOne
  simp only [← hdt, ← hheads, ← hdim, ← hlay]
  by_cases h₁ : c.headDim ≠ rec.headDim ∨ c.kvHeads ≠ rec.nHeads
  · simp only [hl, ne_eq, not_true, if_false, if_pos h₁]
    exact ⟨_, fun disk disk' => ⟨rfl, rfl⟩⟩
  · have h₂ : c.kvDtype ≠ rec.dtype := by
      intro h₂
      rw [not_or, not_not, not_not] at h₁
      exact hfit ⟨h₁.1, h₁.2, h₂⟩
    simp only [hl, ne_eq, not_true, if_false, if_neg h₁, if_pos h₂]
    exact ⟨_, fun disk disk' => ⟨rfl, rfl⟩⟩

/-- `c'` has the resident rows of `c` moved up by `n`; the slots below `n` are as they were. -/
structure Shifted (c c' : KVCache) (n : ℕ) : Prop where
  wf : c'.WF
  frame : c'.frame = c.frame
  room : c.currentPos + n ≤ c'.capacity
  high : ∀ x, ∀ h < c.kvHeads, ∀ p, c.headStartOf h ≤ p → p < c.currentPos →
    c'.rowsOf x h (p + n) = c.rowsOf x h p
  low : ∀ x, ∀ h < c.kvHeads, ∀ p, c.headStartOf h ≤ p → p < c.currentPos → p < n →
    c'.rowsOf x h p = c.rowsOf x h p

theorem keeps_recallRoom (hc : c.WF) {n : ℕ} {b : Bool} {c₁ : KVCache}
    (h : recallRoom c n = .ok (b, c₁)) : Keeps c c₁ ∧ c.currentPos + n ≤ c₁.capacity := by
  unfold recallRoom at h
  split_ifs at h with hcap
  · exact keeps_ensureCapacity hc h
  · cases h
    exact ⟨Keeps.refl hc, Nat.not_lt.mp hcap⟩

theorem shifted_recallShift (hl : c.layout = .headMajor) {n : ℕ} {c₁ : KVCache} (hk : Keeps c c₁)
    (hroom : c.currentPos + n ≤ c₁.capacity) :
    ∃ c₂, recallShift c c₁ n = .ok c₂ ∧ Shifted c c₂ n ∧ c₂.geometry = c₁.geometry := by
  have hpos : c₁.currentPos = c.currentPos := congrArg Frame.currentPos hk.frame
  have hfmt : c₁.format = c.format := congrArg Frame.format hk.frame
  have hheads : c₁.kvHeads = c.kvHeads := congrArg Format.kvHeads hfmt
  have hl₁ : c₁.layout = .headMajor := (congrArg Format.layout hfmt).trans hl
  unfold recallShift
  split_ifs with h0
  · obtain ⟨c₂, hok, hR⟩ := rewrites_shiftPositions hk.wf (fun _ => hl₁)
      (r := ⟨0, n, c.currentPos⟩) ⟨by simp only; omega, by simp only; omega⟩
    have hwf := hR.wf hk.wf
    have hrows := hR.rows
    obtain ⟨kb, vb, -, -, rfl⟩ := hR.frame
    refine ⟨_, hok, ⟨hwf, hk.frame, hroom, fun x h hh p hlo hp => ?_,
      fun x h hh p hlo hp hn => ?_⟩, rfl⟩
    · rw [hrows x h (hheads ▸ hh), move_of_hits ⟨by simp only; omega, by simp only; omega⟩]
      simp only [Nat.zero_add, Nat.add_sub_cancel]
      exact hk.rows x h hh p hlo hp
    · rw [hrows x h (hheads ▸ hh), move_of_not_hits fun hit =>
        by have := hit.1; simp only at this; omega]
      exact hk.rows x h hh p hlo hp
  · exact ⟨_, rfl, ⟨hk.wf, hk.frame, hroom, fun x h hh p hlo hp => absurd hp (by omega),
      fun x h hh p hlo hp => absurd hp (by omega)⟩, rfl⟩

/-- `c'` is `c` with the first `n` slots of every head loaded from a dump. -/
structure Loads (c c' : KVCache) (n : ℕ) (dump : Half → List UInt8) : Prop where
  wf : c'.WF
  frame : c'.frame = { c.frame with currentPos := c.currentPos + n }
  geometry : c'.geometry = { c.geometry with currentPos := c.currentPos + n }
  rows : ∀ x, ∀ h < c.kvHeads, ∀ p < c.capacity, c'.rowsOf x h p =
    if p < n then FlatMem.rows c.rowBytes (dump x) (h * n + p) else c.rowsOf x h p

/-- **Loading a dump of the right size** succeeds and puts its rows in front. -/
theorem loads_loadRecord (hc : c.WF) (hl : c.layout = .headMajor) (hfit : Fits c rec)
    (hf : c.kvDtype = .f16 ∨ c.kvDtype = .f32) (hroom : c.currentPos + rec.tokenCount ≤ c.capacity)
    {disk : Disk} {dump : Half → List UInt8} (hk : disk.files rec.kPath = some (dump .key))
    (hv : disk.files rec.vPath = some (dump .value))
    (hlen : ∀ x, (dump x).length = c.kvHeads * (rec.tokenCount * c.rowBytes)) :
    ∃ c', loadRecord disk c rec = (.ok rec.tokenCount, c') ∧ Loads c c' rec.tokenCount dump := by
  obtain ⟨h₁, h₂, h₃⟩ := hfit
  have hrow := rowBytes_of_float hc.stored hf
  have hunit : ∀ a, a * rec.headDim * rec.dtype.size = a * c.rowBytes := by
    intro a
    rw [hrow, ← h₁, ← h₃, Nat.mul_assoc]
  obtain ⟨kb, hkb, hkok, hkrows⟩ := writeHeads_ok (hlen .key) (hc.size .key) (by omega)
  obtain ⟨vb, hvb, hvok, hvrows⟩ := writeHeads_ok (hlen .value) (hc.size .value) (by omega)
  unfold loadRecord
  simp only [hk, hv, hunit, ← h₂, hlen]
  rw [if_neg (by simp [Nat.mul_comm])]
  simp only [show c.buffer .key = c.kBuffer from rfl, show c.buffer .value = c.vBuffer from rfl]
    at hkok hvok
  rw [hkok, hvok]
  have hhwm := hc.hwm
  refine ⟨_, rfl, ⟨hc.stored, hc.dtype, hc.desc, ?_, hroom, ?_, hc.cap, fun h => ?_,
    fun ho hs => ?_⟩, rfl, rfl, fun x h hh p hp => ?_⟩
  · rintro (_ | _)
    · exact (hc.size .key).trans_eq hkb.symm
    · exact (hc.size .value).trans_eq hvb.symm
  · exact Nat.max_le.mpr ⟨hhwm, hroom⟩
  · exact (hc.starts h).trans (Nat.le_add_right _ _)
  · exact absurd (hs.symm.trans hl) (by decide)
  · have hslot := slot_headMajor hl p h
    rw [show c.rowsOf x h p = _ from headRows_of_lt hp, hslot]
    refine (if_pos hp).trans ?_
    cases x
    · exact (congrArg (FlatMem.rows c.rowBytes kb) hslot).trans (hkrows h hh p hp)
    · exact (congrArg (FlatMem.rows c.rowBytes vb) hslot).trans (hvrows h hh p hp)

/-- Both files of the record are there, in the size it was dumped with. -/
def Readable (disk : Disk) (rec : SwapRecord) (dump : Half → List UInt8) : Prop :=
  disk.files rec.kPath = some (dump .key) ∧ disk.files rec.vPath = some (dump .value) ∧
    ∀ x, (dump x).length = rec.tokenCount * rec.headDim * rec.dtype.size * rec.nHeads

theorem loadRecord_of_not_readable {disk : Disk} (h : ∀ dump, ¬ Readable disk rec dump) :
    ∃ e, ∀ c, loadRecord disk c rec = (.error e, c) := by
  unfold loadRecord
  cases hk : disk.files rec.kPath with
  | none => exact ⟨_, fun c => rfl⟩
  | some kb =>
    cases hv : disk.files rec.vPath with
    | none => exact ⟨_, fun c => rfl⟩
    | some vb =>
      have hne : kb.length ≠ rec.tokenCount * rec.headDim * rec.dtype.size * rec.nHeads ∨
          vb.length ≠ rec.tokenCount * rec.headDim * rec.dtype.size * rec.nHeads := by
        by_contra hall
        rw [not_or, not_not, not_not] at hall
        refine h (fun x => if x = .key then kb else vb) ⟨hk, hv, ?_⟩
        rintro (_ | _)
        · exact hall.1
        · exact hall.2
      simp only [if_pos hne]
      exact ⟨_, fun c => rfl⟩

theorem loadRecord_congr {disk disk' : Disk} (hk : disk.files rec.kPath = disk'.files rec.kPath)
    (hv : disk.files rec.vPath = disk'.files rec.vPath) (c : KVCache) :
    loadRecord disk c rec = loadRecord disk' c rec := by
  unfold loadRecord
  rw [hk, hv]

theorem Readable.length_eq {disk : Disk} {dump : Half → List UInt8} (h : Readable disk rec dump)
    (hs : c.IsStored) (hfit : Fits c rec) (hf : c.kvDtype = .f16 ∨ c.kvDtype = .f32) (x : Half) :
    (dump x).length = c.kvHeads * (rec.tokenCount * c.rowBytes) := by
  obtain ⟨h₁, h₂, h₃⟩ := hfit
  rw [h.2.2 x, rowBytes_of_float hs hf, ← h₁, ← h₂, ← h₃]
  ring

/-- The record is put back: it fits and there is room for it. -/
def Takes (c : KVCache) (rec : SwapRecord) : Prop :=
  Fits c rec ∧ (c.currentPos + rec.tokenCount ≤ c.capacity ∨
    (c.memory.isSome ∧ c.currentPos + rec.tokenCount ≤ c.maxSeqLen))

instance (c : KVCache) (rec : SwapRecord) : Decidable (Takes c rec) :=
  inferInstanceAs (Decidable (_ ∧ (_ ∨ (_ ∧ _))))

theorem recallRoom_of_not_takes (hfit : Fits c rec) (h : ¬ Takes c rec) :
    ∃ e, recallRoom c rec.tokenCount = .error e := by
  have hroom : ¬ (c.currentPos + rec.tokenCount ≤ c.capacity ∨
    (c.memory.isSome ∧ c.currentPos + rec.tokenCount ≤ c.maxSeqLen)) := fun hr => h ⟨hfit, hr⟩
  rw [not_or, not_and] at hroom
  unfold recallRoom ensureCapacity
  rw [if_pos (Nat.not_le.mp hroom.1)]
  simp only
  rw [if_neg hroom.1]
  split_ifs with hmax
  · exact ⟨_, rfl⟩
  · have hm : c.memory = none := by
      by_contra hm
      exact hmax (Nat.not_le.mp (hroom.2 (Option.isSome_iff_ne_none.mpr hm)))
    simp only [grow, hm]
    exact ⟨_, rfl⟩

end Recall

end SwapHandler

end ArgusEngine
