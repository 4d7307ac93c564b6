import ArgusEngine.Lib.Cells
import ArgusEngine.Lib.Checked

/-!
# Q/K rows

The converter to GGUF interleaves the two halves of every attention head in the Q and K weights. The
loader and `auf_tool` undo that with a function of their own each; both as in a release build,
without the debug assertions.

* `unpermuteQkRows`, `unpermuteQkRowsLocal`: the two functions;
* `sourceRow`: the row of the file that becomes a given row;
* `rows_unpermuteQkRows`: the rows of the result;
* **`unpermuteQkRows_inverts`**: the rows of a converted tensor come back in their order.
-/

namespace ArgusEngine

namespace Loader

open FlatMem CellArray SlotMem Checked

variable {ε : Type}

/-- `unpermute_qk_rows`: row `j` of a head is taken from row `2 * j` of the head in its first half
and from row `2 * (j - half) + 1` in its second. -/
def unpermuteQkRows (src : List UInt8) (nHead headDim rowSizeBytes : ℕ) :
    Except (Fault ε) (List UInt8) := do
  let half := headDim / 2
  let dst := List.replicate src.length (0 : UInt8)
  (List.range nHead).foldlM (fun dst h => do
    let headBase := h * headDim
    (List.range headDim).foldlM (fun dst j => do
      let srcInHead := if j < half then 2 * j else 2 * (j - half) + 1
      let srcRow := headBase + srcInHead
      let dstRow := headBase + j
      let srcOff := srcRow * rowSizeBytes
      let dstOff := dstRow * rowSizeBytes
      let row ← index src srcOff (srcOff + rowSizeBytes)
      copyAt dst dstOff row) dst) dst

/-- `unpermute_qk_rows_local`, the copy of `auf_tool`. -/
def unpermuteQkRowsLocal (src : List UInt8) (nHead headDim rowSizeBytes : ℕ) :
    Except (Fault ε) (List UInt8) := do
  let half := headDim / 2
  let dst := List.replicate src.length (0 : UInt8)
  (List.range nHead).foldlM (fun dst h => do
    let headBase := h * headDim
    (List.range headDim).foldlM (fun dst j => do
      let srcInHead := if j < half then 2 * j else 2 * (j - half) + 1
      let srcRow := headBase + srcInHead
      let dstRow := headBase + j
      let srcOff := srcRow * rowSizeBytes
      let dstOff := dstRow * rowSizeBytes
      let row ← index src srcOff (srcOff + rowSizeBytes)
      copyAt dst dstOff row) dst) dst

theorem length_unpermuteQkRowsLocal {src out : List UInt8} {nHead headDim rowSizeBytes : ℕ}
    (h : unpermuteQkRowsLocal (ε := ε) src nHead headDim rowSizeBytes = .ok out) :
    out.length = src.length := by
  unfold unpermuteQkRowsLocal at h
  refine keeps_foldlM (P := fun b : List UInt8 => b.length = src.length)
    (fun head _ b b' hb hstep => ?_) h List.length_replicate
  refine keeps_foldlM (P := fun b : List UInt8 => b.length = src.length)
    (fun j _ c c' hc hcopy => ?_) hstep hb
  obtain ⟨row, -, hrow⟩ := ok_bind.mp hcopy
  exact (length_of_copyAt hrow).trans hc

/-! ## The row map -/

/-- Inside a head: where row `j` of the result comes from. -/
def sourceInHead (headDim j : ℕ) : ℕ := if j < headDim / 2 then 2 * j else 2 * (j - headDim / 2) + 1

/-- The row of the source that becomes row `i`. -/
def sourceRow (headDim i : ℕ) : ℕ := i / headDim * headDim + sourceInHead headDim (i % headDim)

variable {nHead headDim w : ℕ}

theorem sourceInHead_lt (heven : headDim % 2 = 0) {j : ℕ} (hj : j < headDim) :
    sourceInHead headDim j < headDim := by
  unfold sourceInHead
  split_ifs <;> omega

theorem sourceRow_add (h : ℕ) {j : ℕ} (hj : j < headDim) :
    sourceRow headDim (h * headDim + j) = h * headDim + sourceInHead headDim j := by
  have hdiv : (h * headDim + j) / headDim = h := by
    rw [Nat.add_comm, Nat.add_mul_div_right _ _ (by omega), Nat.div_eq_of_lt hj, Nat.zero_add]
  rw [sourceRow, hdiv, Nat.mul_add_mod_self_right, Nat.mod_eq_of_lt hj]

theorem sourceRow_half (heven : headDim % 2 = 0) (h : ℕ) {p s : ℕ}
    (hp : p < headDim / 2) (hs : s < 2) : sourceRow headDim (h * headDim + s * (headDim / 2) + p) =
    h * headDim + 2 * p + s := by
  obtain rfl | rfl : s = 0 ∨ s = 1 := by omega
  · rw [Nat.zero_mul, Nat.add_zero, sourceRow_add h (by omega), sourceInHead,
      if_pos hp, Nat.add_zero]
  · rw [Nat.one_mul, Nat.add_assoc, sourceRow_add h (by omega), sourceInHead, if_neg (by omega),
      Nat.add_sub_cancel_left, Nat.add_assoc]

theorem exists_half (heven : headDim % 2 = 0) {j : ℕ} (hj : j < headDim) :
    ∃ p < headDim / 2, ∃ s < 2, j = s * (headDim / 2) + p := by
  by_cases hlow : j < headDim / 2
  · exact ⟨j, hlow, 0, by decide, by omega⟩
  · exact ⟨j - headDim / 2, by omega, 1, by decide, by omega⟩

/-- **The row map is a bijection inside each head.** -/
theorem bijOn_sourceRow (heven : headDim % 2 = 0) (h : ℕ) : Set.BijOn (sourceRow headDim)
    (Set.Ico (h * headDim) (h * headDim + headDim))
      (Set.Ico (h * headDim) (h * headDim + headDim)) := by
  have hin : ∀ {i}, i ∈ Set.Ico (h * headDim) (h * headDim + headDim) → ∃ j < headDim,
    i = h * headDim + j :=
    fun hi => ⟨_, Nat.sub_lt_left_of_lt_add hi.1 hi.2, (Nat.add_sub_cancel' hi.1).symm⟩
  refine ⟨fun i hi => ?_, fun i hi i' hi' heq => ?_, fun i hi => ?_⟩
  · obtain ⟨j, hj, rfl⟩ := hin hi
    have := sourceInHead_lt heven hj
    rw [sourceRow_add h hj]
    exact ⟨Nat.le_add_right _ _, by omega⟩
  · obtain ⟨j, hj, rfl⟩ := hin hi
    obtain ⟨j', hj', rfl⟩ := hin hi'
    rw [sourceRow_add h hj, sourceRow_add h hj'] at heq
    unfold sourceInHead at heq
    split_ifs at heq <;> omega
  · obtain ⟨j, hj, rfl⟩ := hin hi
    have hs : j % 2 < 2 := Nat.mod_lt j (by decide)
    have hp : j / 2 < headDim / 2 := by omega
    refine ⟨h * headDim + j % 2 * (headDim / 2) + j / 2, ?_, ?_⟩
    · have hle : j % 2 * (headDim / 2) ≤ 1 * (headDim / 2) := Nat.mul_le_mul_right _ (by omega)
      exact ⟨by omega, by omega⟩
    · rw [sourceRow_half heven h hp hs]
      omega

/-! ## The result -/

/-- The rows of a tensor as an array. -/
def rowCells (w : ℕ) (b : List UInt8) : Cells (List UInt8) := ⟨b.length, rows w b⟩

theorem writes_copyRow {src dst : List UInt8} {a e n : ℕ} (hsrc : src.length = n * w)
    (hdst : dst.length = n * w) (ha : a < n) (he : e < n) : ∃ dst',
      (index src (a * w) (a * w + w) >>= copyAt dst (e * w) : Except (Fault ε) (List UInt8)) =
      .ok dst' ∧ Writes {e} (fun _ => rows w src a) (rowCells w dst) (rowCells w dst') := by
  have hrow : a * w + w ≤ src.length := hsrc ▸ row_bound ha
  have hplace : e * w + w ≤ dst.length := hdst ▸ row_bound he
  have hlen : (slice src (a * w) w).length = w := length_slice hrow
  have hindex : index (ε := ε) src (a * w) (a * w + w) = .ok (slice src (a * w) w) := by
    rw [index_of_le ⟨Nat.le_add_right _ _, hrow⟩, Nat.add_sub_cancel_left]
  have hrows : rows w (blit (slice src (a * w) w) (0 * w) dst (e * w) (1 * w)) =
      place (rows w (slice src (a * w) w)) 0 (rows w dst) e 1 :=
    rows_blit (by omega) (by rw [Nat.add_mul]; omega)
  rw [Nat.zero_mul, Nat.one_mul] at hrows
  refine ⟨blit (slice src (a * w) w) 0 dst (e * w) w, ?_, length_blit _ _ _ _ _,
    fun p hp => ?_, fun p hp => ?_⟩
  · rw [hindex, ok_seq, copyAt_of_le (by omega), hlen]
  · cases hp
    change rows w (blit _ 0 dst (e * w) w) e = rows w src a
    rw [hrows, place_of_mem le_rfl (Nat.lt_succ_self e), Nat.sub_self, Nat.add_zero,
      rows, Nat.zero_mul, slice_slice src _ (by omega), Nat.add_zero]
    rfl
  · change rows w (blit _ 0 dst (e * w) w) p = rows w dst p
    rw [hrows, place_of_notMem fun hmem => hp (by rw [Set.mem_singleton_iff]; omega)]

/-- **The rows of the result**, each taken from its `sourceRow`. -/
theorem rows_unpermuteQkRows (heven : headDim % 2 = 0) {src : List UInt8}
    (hsrc : src.length = nHead * headDim * w) :
    ∃ out, unpermuteQkRows (ε := ε) src nHead headDim w = .ok out ∧ out.length = src.length ∧
      ∀ i < nHead * headDim, rows w out i = rows w src (sourceRow headDim i) := by
  have hstep : ∀ h ∈ List.range nHead, ∀ dst, (rowCells w dst).len = src.length → ∃ dst',
      ((List.range headDim).foldlM (fun dst j => do
        let row ← index src ((h * headDim + sourceInHead headDim j) * w)
          ((h * headDim + sourceInHead headDim j) * w + w)
        copyAt dst ((h * headDim + j) * w) row) dst : Except (Fault ε) (List UInt8)) = .ok dst' ∧
      Writes {i | ∃ j ∈ List.range headDim, i ∈ ({h * headDim + j} : Set ℕ)}
        (fun i => rows w src (sourceRow headDim i)) (rowCells w dst) (rowCells w dst') := by
    intro h hh dst hdst
    have hrow := row_bound (w := headDim) (List.mem_range.mp hh)
    refine Writes.exists_foldlM (fun j hj dst hdst => ?_) hdst
    have hj := List.mem_range.mp hj
    have hin := sourceInHead_lt heven hj
    obtain ⟨dst', hok, hw⟩ := writes_copyRow (ε := ε) hsrc (hdst.trans hsrc)
      (show h * headDim + sourceInHead headDim j < nHead * headDim by omega)
      (show h * headDim + j < nHead * headDim by omega)
    refine ⟨dst', hok, hw.len, fun p hp => ?_, hw.keep⟩
    rw [hw.hit p hp, Set.mem_singleton_iff.mp hp, sourceRow_add h hj]
  obtain ⟨out, hout, hw⟩ := Writes.exists_foldlM (v := rowCells w) hstep
    (b := List.replicate src.length 0) List.length_replicate
  refine ⟨out, hout, hw.len.trans List.length_replicate, fun i hi => hw.hit i ?_⟩
  have hd : 0 < headDim := Nat.pos_of_ne_zero fun h0 => by simp [h0] at hi
  refine ⟨i / headDim, List.mem_range.mpr (Nat.div_lt_of_lt_mul (by rwa [Nat.mul_comm])),
    i % headDim, List.mem_range.mpr (Nat.mod_lt i hd), ?_⟩
  rw [Set.mem_singleton_iff, Nat.div_add_mod']

theorem eq_of_rows {n : ℕ} {b b' : List UInt8} (hb : b.length = n * w) (hb' : b'.length = n * w)
    (h : ∀ i < n, rows w b i = rows w b' i) : b = b' := by
  have hslice : slice b (0 * w) (n * w) = slice b' (0 * w) (n * w) :=
    slice_eq_of_rows fun i hi => by rw [Nat.zero_add, h i hi]
  rw [Nat.zero_mul, slice, slice, List.drop_zero, List.drop_zero, List.take_of_length_le hb.le,
    List.take_of_length_le hb'.le] at hslice
  exact hslice

/-- **The converter is undone**: a tensor whose row `h * headDim + 2 * p + s` is the row `h *
headDim + s * (headDim / 2) + p` of `hf` gives `hf`. The rows of every head are permuted among
themselves, and the copy of `auf_tool` does the same. -/
theorem unpermuteQkRows_inverts (nHead : ℕ) (heven : headDim % 2 = 0) (w : ℕ) :
    (∀ hf gguf : List UInt8, hf.length = nHead * headDim * w → gguf.length = nHead * headDim * w →
      (∀ h < nHead, ∀ p < headDim / 2, ∀ s < 2,
        rows w gguf (h * headDim + 2 * p + s) = rows w hf (h * headDim + s * (headDim / 2) + p)) →
      unpermuteQkRows (ε := ε) gguf nHead headDim w = .ok hf) ∧
    (∃ source : ℕ → ℕ,
      (∀ h < nHead, Set.BijOn source (Set.Ico (h * headDim) (h * headDim + headDim))
        (Set.Ico (h * headDim) (h * headDim + headDim))) ∧
      ∀ src : List UInt8, src.length = nHead * headDim * w → ∃ out,
        unpermuteQkRows (ε := ε) src nHead headDim w = .ok out ∧ out.length = src.length ∧
        ∀ i < nHead * headDim, rows w out i = rows w src (source i)) ∧
    ∀ (src : List UInt8) (n d r : ℕ), unpermuteQkRowsLocal (ε := ε) src n d r =
      unpermuteQkRows src n d r := by
  refine ⟨fun hf gguf hhf hgguf hrows => ?_, ⟨sourceRow headDim, fun h _ => bijOn_sourceRow heven h,
    fun src hsrc => rows_unpermuteQkRows heven hsrc⟩, fun _ _ _ _ => rfl⟩
  obtain ⟨out, hout, hlen, hsource⟩ := rows_unpermuteQkRows (ε := ε) heven hgguf
  have heq : out = hf := by
    refine eq_of_rows (hlen.trans hgguf) hhf fun i hi => ?_
    have hd : 0 < headDim := Nat.pos_of_ne_zero fun h0 => by simp [h0] at hi
    have hh : i / headDim < nHead := Nat.div_lt_of_lt_mul (by rwa [Nat.mul_comm])
    obtain ⟨p, hp, s, hs, hj⟩ := exists_half heven (Nat.mod_lt i hd)
    have hi' : i = i / headDim * headDim + s * (headDim / 2) + p := by
      rw [Nat.add_assoc, ← hj, Nat.div_add_mod']
    rw [hsource i hi, hi', sourceRow_half heven _ hp hs]
    exact hrows _ hh p hp s hs
  rw [hout, heq]

/-- Two heads of six rows, where the row map is not its own inverse. -/
theorem unpermuteQkRows_two_heads :
    unpermuteQkRows (ε := Empty) [0, 3, 1, 4, 2, 5, 10, 13, 11, 14, 12, 15] 2 6 1 =
      .ok [0, 1, 2, 3, 4, 5, 10, 11, 12, 13, 14, 15] :=
  (unpermuteQkRows_inverts 2 (by decide) 1).1 _ _ rfl rfl (by decide)

end Loader

end ArgusEngine
