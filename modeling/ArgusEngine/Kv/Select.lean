import ArgusEngine.Kv.Merge
import ArgusEngine.Kv.Mirror

/-!
# Selective reads

`attention_into_selected` gathers the rows of some positions into fresh `f32` tensors and hands
these to `attention_gen`. The gather writes head after head; `attention_gen` infers the layout of
what it is handed from the shape, and the shape it is handed names the positions first.

* `gatherSelectedKv`, `attentionIntoSelected`: the gather and the call;
* `attentionGenRow`: the row that `attention_gen` takes as entry `t` of a KV head;
* `rows_gatherBuffer`: what the gather writes;
* **`selectsRows_iff`**: when the entries handed over are the rows selected;
* `select_reads_other_head`: a call where they are not.
-/

namespace ArgusEngine

open FlatMem SlotMem KVCache

inductive ReadGranularity where
  | token
  | page (pageSize : ℕ)
  deriving Repr, DecidableEq

/-- `page_indices_to_positions`: the positions of the pages, clamped to what is there. -/
def pageIndicesToPositions (pageIndices : List ℕ) (pageSize currentPos : ℕ) : List ℕ :=
  pageIndices.flatMap fun pi =>
    let start := pi * pageSize
    List.range' start (min (start + pageSize) currentPos - start)

/-! ## Layouts -/

/-- The layout `attention_gen` infers for a K tensor: HeadMajor is `[batch, kv_heads, capacity,
head_dim]`. -/
def isHeadMajorShape (kShape : List ℕ) (numHeadsKv : ℕ) : Bool :=
  decide (3 ≤ kShape.length) && decide (kShape.getD 1 0 = numHeadsKv) &&
    decide (kShape.getD 1 0 ≠ kShape.getD 2 0)

/-- The row of a K or V tensor that `attention_gen` takes as entry `t` of KV head `kvH`. -/
def attentionGenRow (kShape : List ℕ) (numHeadsKv t kvH : ℕ) : ℕ :=
  if isHeadMajorShape kShape numHeadsKv then kvH * kShape.getD 2 0 + t else t * numHeadsKv + kvH

/-- The values of row `r` of a typed tensor, as the arms of `attention_gen` read them. -/
def tensorRow (P : Platform) (t : Tensor) (headDim r : ℕ) : List P.F :=
  match t.dtype with
  | .f32 => P.f32s t.bytes (r * headDim) headDim
  | .f16 => (List.range headDim).map fun d => P.ofF16 (slice t.bytes ((r * headDim + d) * 2) 2)
  | .q4_0 => (List.range (headDim / QK4_0)).flatMap fun bi =>
      P.ofQ4 (slice t.bytes ((r * (headDim / QK4_0) + bi) * blockQ4_0Size) blockQ4_0Size)
  | _ => []

/-- The row that `attention_into` without a window hands to `attention_gen` as entry `t` of KV head
`h`: the buffers go there as they are. -/
def fullRow (P : Platform) (c : KVCache) (x : Half) (h t : ℕ) : List P.F :=
  tensorRow P (c.buffer x) c.headDim (attentionGenRow c.kBuffer.shape c.kvHeads t h)

/-! ## The gather -/

section Gather

variable (P : Platform) (c : KVCache)

/-- One row of `gather_selected_kv`; the offsets are those of a HeadMajor store. -/
def gatherRow (t : Tensor) (h pos : ℕ) : List P.F :=
  match c.kvDtype with
  | .f32 => P.f32s t.bytes (h * c.capacity * c.headDim + pos * c.headDim) c.headDim
  | .f16 => (List.range c.headDim).map fun d =>
      P.ofF16 (slice t.bytes ((h * c.capacity * c.headDim + pos * c.headDim + d) * 2) 2)
  | .q4_0 =>
    let bps := c.headDim / QK4_0
    (List.range bps).flatMap fun bi =>
      P.ofQ4 (slice t.bytes ((h * c.capacity * bps + pos * bps + bi) * blockQ4_0Size) blockQ4_0Size)
  | _ => []

/-- The loop of `gather_selected_kv` over one buffer. -/
def gatherBuffer (t : Tensor) (select : List ℕ) : List P.F :=
  let nSel := select.length
  (List.range c.kvHeads ×ˢ select.zipIdx).foldl (fun out (x : ℕ × ℕ × ℕ) =>
    let dst := x.1 * nSel * c.headDim + x.2.2 * c.headDim
    blit (gatherRow P c t x.1 x.2.1) 0 out dst c.headDim)
    (List.replicate (c.kvHeads * nSel * c.headDim) (P.ofF32 [0, 0, 0, 0]))

def gatherSelectedKv (select : List ℕ) : Except Fail (Half → List P.F) :=
  let dt := c.kvDtype.debug
  if c.kBuffer.buffer.isGpuBuffer || c.vBuffer.buffer.isGpuBuffer then
    .error (.err ("SelectiveRead (read-stage) gather requires a host-resident KV cache; got a " ++
      "GPU-resident cache. Selective read is not supported on GPU caches — use full read."))
  else if c.kvDtype ≠ .f32 ∧ c.kvDtype ≠ .f16 ∧ c.kvDtype ≠ .q4_0 then
    .error (.err s!"SelectiveRead: unsupported dtype {dt}")
  else .ok fun x => gatherBuffer P c (c.buffer x) select

/-- `host_snapshot`: the buffers read back to the host. -/
def hostSnapshot : KVCache :=
  let host (t : Tensor) : Tensor :=
    ⟨t.shape, { t.buffer with ptr := P.hostPtr, isGpuBuffer := false,
                              isHostManaged := true }, false⟩
  { c with
    kBuffer := host c.kBuffer
    vBuffer := host c.vBuffer
    headStart := []
    headStartDev := none
    headStartDirty := false
    memory := none }

/-- The positions a call selects. -/
def selectedPositions (select : List ℕ) : ReadGranularity → List ℕ
  | .token => select
  | .page pageSize => pageIndicesToPositions select pageSize c.currentPos

/-- The temporary K and V tensors handed to `attention_gen`, by their shape and their `f32`
contents. -/
structure Gathered (F : Type) where
  shape : List ℕ
  contents : Half → List F

/-- `attention_into_selected`; `none` where the output is filled with zeros instead. -/
def attentionIntoSelected (select : List ℕ) (granularity : ReadGranularity) :
    Except Fail (Option (Gathered P.F)) :=
  if c.currentPos = 0 ∨ select = [] then .ok none
  else
    let positions := selectedPositions c select granularity
    let nSel := positions.length
    if nSel = 0 then .ok none
    else
      let gatherCache := if c.kBuffer.buffer.isGpuBuffer then hostSnapshot P c else c
      match gatherSelectedKv P gatherCache positions with
      | .error e => .error e
      | .ok kv => .ok (some ⟨[1, nSel, c.kvHeads, c.headDim], kv⟩)

/-- What `attention_gen` takes as entry `i` of KV head `h`. -/
def Gathered.entry {F : Type} (g : Gathered F) (numHeadsKv headDim : ℕ) (x : Half)
    (h i : ℕ) : List F :=
  slice (g.contents x) (attentionGenRow g.shape numHeadsKv i h * headDim) headDim

/-- The entries handed over are the rows selected, and selecting everything is the full read. -/
structure SelectsRows (select : List ℕ) (granularity : ReadGranularity) : Prop where
  entries : ∃ r, attentionIntoSelected P c select granularity = .ok r ∧
    ∀ x, ∀ h < c.kvHeads, ∀ i < (selectedPositions c select granularity).length,
      r.map (fun g => g.entry c.kvHeads c.headDim x h i) =
        some (c.dequantize P (c.buffer x) ((selectedPositions c select granularity).getD i 0) h)
  full : selectedPositions c select granularity = List.range c.currentPos → c.isRagged = false →
    ∃ r, attentionIntoSelected P c select granularity = .ok r ∧
      ∀ x, ∀ h < c.kvHeads, ∀ i < c.currentPos,
        r.map (fun g => g.entry c.kvHeads c.headDim x h i) = some (fullRow P c x h i)

end Gather

/-! ## What the gather writes -/

section Entries

variable {P : Platform} {c : KVCache} {t : Tensor}

theorem lt_of_mem_selectedPositions {select : List ℕ} {granularity : ReadGranularity}
    (hres : granularity = .token → ∀ p ∈ select, p < c.currentPos) {p : ℕ}
    (hp : p ∈ selectedPositions c select granularity) : p < c.currentPos := by
  cases granularity with
  | token => exact hres rfl p hp
  | page pageSize =>
    simp only [selectedPositions, pageIndicesToPositions, List.mem_flatMap, List.mem_range'_1] at hp
    obtain ⟨pi, -, hp⟩ := hp
    omega

theorem dequantize_headMajor (hl : c.layout = .headMajor) (p h : ℕ) :
    c.dequantize P t p h = tensorRow P t c.headDim (h * c.capacity + p) := by
  have hrow : c.offset p h = (h * c.capacity + p) * c.headDim := by
    simp only [offset, hl]
    ring
  unfold dequantize tensorRow
  cases t.dtype <;> simp only [hrow, q4BlockOffset, hl]

theorem gatherRow_eq (ht : t.dtype = c.kvDtype) (h p : ℕ) :
    gatherRow P c t h p = tensorRow P t c.headDim (h * c.capacity + p) := by
  unfold gatherRow tensorRow
  simp only [ht, Nat.add_mul]

theorem length_gatherRow (hs : c.IsStored) (ho : c.kBuffer.buffer.desc = none) (h p : ℕ) :
    (gatherRow P c t h p).length = c.headDim := by
  unfold gatherRow
  rcases stored_cases hs ho with hk | hk | ⟨hk, h32⟩ <;> simp only [hk]
  · exact P.length_f32s _ _ _
  · simp
  · rw [length_flatMap_const fun _ => P.length_ofQ4 _, List.length_range, Nat.div_mul_cancel h32]

/-- **The gather writes head after head.** -/
theorem rows_gatherBuffer (hs : c.IsStored) (ho : c.kBuffer.buffer.desc = none)
    {select : List ℕ} {h i : ℕ} (hh : h < c.kvHeads) (hi : i < select.length) :
    rows c.headDim (gatherBuffer P c t select) (h * select.length + i) =
      gatherRow P c t h (select.getD i 0) := by
  -- an index of the loop is a head and a place of the selection
  have hmem : ∀ x ∈ List.range c.kvHeads ×ˢ select.zipIdx, x.1 < c.kvHeads ∧ x.2.2 < select.length ∧
      x.2.1 = select.getD x.2.2 0 := by
    rintro ⟨k, p, j⟩ hx
    obtain ⟨hk, hj⟩ := List.mem_product.mp hx
    have hget : select[j]? = some p := List.mk_mem_zipIdx_iff_getElem?.mp hj
    refine ⟨List.mem_range.mp hk, (List.getElem?_eq_some_iff.mp hget).1, ?_⟩
    rw [List.getD_eq_getElem?_getD, hget, Option.getD_some]
  have hloop := rows_foldl_blit (w := c.headDim) (fun x : ℕ × ℕ × ℕ => gatherRow P c t x.1 x.2.1)
    (a := fun _ => 0) (e := fun x => x.1 * select.length + x.2.2) (n := fun _ => 1)
    (l := List.range c.kvHeads ×ˢ select.zipIdx)
    (b := List.replicate (c.kvHeads * select.length * c.headDim) (P.ofF32 [0, 0, 0, 0]))
    (fun x _ => by rw [length_gatherRow hs ho]; omega) fun x hx => by
      obtain ⟨h₁, h₂, -⟩ := hmem x hx
      have := row_bound (w := select.length) h₁
      rw [List.length_replicate]
      exact Nat.mul_le_mul_right _ (by omega)
  unfold gatherBuffer
  simp only [Nat.zero_mul, Nat.one_mul, Nat.add_mul] at hloop
  simp only
  rw [hloop, foldl_place_of_mem _ _ (fun x : ℕ × ℕ × ℕ => x.1 * select.length + x.2.2) (fun _ => 1)
    (x := (h, select.getD i 0, i)) _ le_rfl (Nat.lt_succ_self _)]
  · simp only [Nat.sub_self, rows, slice, Nat.add_zero, Nat.zero_mul, List.drop_zero]
    exact List.take_of_length_le (length_gatherRow hs ho h _).le
  · rintro ⟨k, p, j⟩ hx hne ⟨h₁, h₂⟩
    obtain ⟨-, hj, hp⟩ := hmem _ hx
    simp only at h₁ h₂ hj hp
    obtain ⟨rfl, rfl⟩ := block_inj hj hi (a := k) (b := h) (by omega)
    exact hne (by rw [hp])
  · refine List.mem_product.mpr ⟨List.mem_range.mpr hh, List.mk_mem_zipIdx_iff_getElem?.mpr ?_⟩
    rw [List.getElem?_eq_getElem hi, List.getD_eq_getElem _ _ hi]

/-- **Entry `i` of head `h` is the `i * kvHeads + h`-th row that was written.** -/
theorem entry_attentionIntoSelected (hc : c.WF) (ho : c.kBuffer.buffer.desc = none)
    (hk : c.kBuffer.buffer.isGpuBuffer = false) (hv : c.vBuffer.buffer.isGpuBuffer = false)
    {select : List ℕ} {granularity : ReadGranularity}
    (hres : granularity = .token → ∀ p ∈ select, p < c.currentPos) :
    ∃ r, attentionIntoSelected P c select granularity = .ok r ∧
      ∀ x, ∀ h < c.kvHeads, ∀ i < (selectedPositions c select granularity).length,
        r.map (fun g => g.entry c.kvHeads c.headDim x h i) =
          some (gatherRow P c (c.buffer x)
            ((i * c.kvHeads + h) / (selectedPositions c select granularity).length)
            ((selectedPositions c select granularity).getD
              ((i * c.kvHeads + h) % (selectedPositions c select granularity).length) 0)) := by
  generalize hpos : selectedPositions c select granularity = positions
  have hlt : ∀ p ∈ positions, p < c.currentPos := by
    intro p hp
    rw [← hpos] at hp
    exact lt_of_mem_selectedPositions hres hp
  have hnil : c.currentPos = 0 ∨ select = [] → positions.length = 0 := by
    rintro (h0 | rfl)
    · rw [List.length_eq_zero_iff, List.eq_nil_iff_forall_not_mem]
      intro p hp
      have := hlt p hp
      omega
    · rw [← hpos]
      cases granularity <;> rfl
  unfold attentionIntoSelected
  simp only [hpos, hk, Bool.false_eq_true, if_false]
  by_cases hempty : c.currentPos = 0 ∨ select = []
  · rw [if_pos hempty]
    refine ⟨_, rfl, fun x h _ i hi => ?_⟩
    rw [hnil hempty] at hi
    omega
  rw [if_neg hempty]
  by_cases hzero : positions.length = 0
  · rw [if_pos hzero]
    exact ⟨_, rfl, fun x h _ i hi => by omega⟩
  have htyped : ¬ (c.kvDtype ≠ .f32 ∧ c.kvDtype ≠ .f16 ∧ c.kvDtype ≠ .q4_0) := by
    rintro ⟨h₁, h₂, h₃⟩
    rcases stored_cases hc.stored ho with h | h | h
    · exact h₁ h
    · exact h₂ h
    · exact h₃ h.1
  rw [if_neg hzero, gatherSelectedKv, hk, hv]
  simp only [Bool.or_self, Bool.false_eq_true, if_false, if_neg htyped]
  refine ⟨_, rfl, fun x h hh i hi => ?_⟩
  rw [Option.map_some, Option.some.injEq]
  -- the shape names the positions first, so it is never taken for HeadMajor
  have hrow : attentionGenRow [1, positions.length, c.kvHeads, c.headDim] c.kvHeads i h =
      (i * c.kvHeads + h) / positions.length * positions.length + (i * c.kvHeads + h) %
        positions.length := by
    rw [Nat.div_add_mod', attentionGenRow, if_neg]
    simp only [isHeadMajorShape, Bool.and_eq_true, decide_eq_true_eq]
    rintro ⟨⟨-, h₁⟩, h₂⟩
    exact h₂ h₁
  have hbound : i * c.kvHeads + h < positions.length * c.kvHeads :=
    Nat.lt_of_lt_of_le (Nat.add_lt_add_left hh _) (row_bound hi)
  unfold Gathered.entry
  simp only
  rw [hrow]
  exact rows_gatherBuffer hc.stored ho (Nat.div_lt_of_lt_mul hbound) (Nat.mod_lt _ (by omega))

end Entries

/-! ## When the entries are the rows -/

section Agreement

variable (P : Platform) (c : KVCache) (positions : List ℕ)

/-- The row written where entry `i` of head `h` is read holds the values of the row selected
there. -/
def RowsCoincide : Prop :=
  ∀ x, ∀ h < c.kvHeads, ∀ i < positions.length,
    c.dequantize P (c.buffer x) (positions.getD ((i * c.kvHeads + h) % positions.length) 0)
      ((i * c.kvHeads + h) / positions.length) = c.dequantize P (c.buffer x) (positions.getD i 0) h

/-- Everything is selected from a buffer with as many heads as slots, which the full read takes for
a SeqMajor one: then head `h` at position `t` has to hold the values of head `t` at position `h`. -/
def FullCoincides : Prop :=
  positions = List.range c.currentPos → c.isRagged = false → c.kvHeads = c.capacity →
    c.kvHeads ≤ 1 ∨ ∀ x, ∀ h < c.kvHeads, ∀ t < c.currentPos,
      c.dequantize P (c.buffer x) t h = c.dequantize P (c.buffer x) h t

variable {P c positions}

theorem rowsCoincide_of_le_one (h : c.kvHeads ≤ 1 ∨ positions.length ≤ 1) :
    RowsCoincide P c positions := by
  intro x k hk i hi
  rcases h with h | h
  · obtain rfl : k = 0 := by omega
    have hone : c.kvHeads = 1 := by omega
    rw [hone, Nat.mul_one, Nat.add_zero, Nat.mod_eq_of_lt hi, Nat.div_eq_of_lt hi]
  · obtain rfl : i = 0 := by omega
    have hone : positions.length = 1 := by omega
    rw [hone, Nat.zero_mul, Nat.zero_add, Nat.mod_one, Nat.div_one]

/-- **Where no head repeats a key row of another head**, rows that coincide come from one head or
one position: entry `0` of the last head is read from another head. -/
theorem le_one_of_rowsCoincide (hlt : ∀ p ∈ positions, p < c.currentPos)
    (hkeys : ∀ h < c.kvHeads, ∀ h' < c.kvHeads, ∀ p < c.currentPos, ∀ p' < c.currentPos,
      c.dequantize P c.kBuffer p h = c.dequantize P c.kBuffer p' h' → h = h')
    (hrows : RowsCoincide P c positions) : c.kvHeads ≤ 1 ∨ positions.length ≤ 1 := by
  by_contra hne
  rw [not_or, Nat.not_le, Nat.not_le] at hne
  obtain ⟨hH, hn⟩ := hne
  have hget : ∀ j < positions.length, positions.getD j 0 < c.currentPos := by
    intro j hj
    rw [List.getD_eq_getElem _ _ hj]
    exact hlt _ (List.getElem_mem hj)
  have hlast := hrows .key (c.kvHeads - 1) (by omega) 0 (by omega)
  rw [Nat.zero_mul, Nat.zero_add] at hlast
  have hdiv : (c.kvHeads - 1) / positions.length < c.kvHeads - 1 := Nat.div_lt_self (by omega) hn
  have := hkeys _ (by omega) _ (by omega) _ (hget _ (Nat.mod_lt _ (by omega)))
    _ (hget 0 (by omega)) hlast
  omega

theorem fullRow_eq (hl : c.layout = .headMajor)
    (hshape : c.kBuffer.shape = c.shapeAt c.capacity) (x : Half) (h t : ℕ) : fullRow P c x h t =
      if c.kvHeads = c.capacity then c.dequantize P (c.buffer x) h t
        else c.dequantize P (c.buffer x) t h := by
  have hdims : c.kBuffer.shape = [1, c.kvHeads, c.capacity, c.headDim] := by
    rw [hshape, shapeAt, hl]
  unfold fullRow attentionGenRow isHeadMajorShape
  rw [hdims, dequantize_headMajor hl, dequantize_headMajor hl]
  split_ifs with h₁ h₂ h₂
  · simp [h₂] at h₁
  · rfl
  · rw [h₂]
  · simp [h₂] at h₁

end Agreement

/-- **A selective read hands over the rows selected** exactly with one KV head or one position, or
where the rows that the two layouts exchange hold the same values; where no head repeats a key row
of another head, that is with one head or one position only. -/
theorem selectsRows_iff (P : Platform) {c : KVCache} (hc : c.WF) (hl : c.layout = .headMajor)
    (ho : c.isOpaque = false) (hk : c.kBuffer.buffer.isGpuBuffer = false)
    (hv : c.vBuffer.buffer.isGpuBuffer = false) (hshape : c.kBuffer.shape = c.shapeAt c.capacity)
    (select : List ℕ) (granularity : ReadGranularity)
    (hres : granularity = .token → ∀ p ∈ select, p < c.currentPos) :
    (SelectsRows P c select granularity ↔
      (c.kvHeads ≤ 1 ∨ (selectedPositions c select granularity).length ≤ 1 ∨
        RowsCoincide P c (selectedPositions c select granularity)) ∧
      FullCoincides P c (selectedPositions c select granularity)) ∧
    ((∀ h < c.kvHeads, ∀ h' < c.kvHeads, ∀ p < c.currentPos, ∀ p' < c.currentPos,
        c.dequantize P c.kBuffer p h = c.dequantize P c.kBuffer p' h' → h = h') →
      RowsCoincide P c (selectedPositions c select granularity) →
      c.kvHeads ≤ 1 ∨ (selectedPositions c select granularity).length ≤ 1) := by
  have hdesc : c.kBuffer.buffer.desc = none := by simpa [isOpaque] using ho
  have hlt : ∀ p ∈ selectedPositions c select granularity, p < c.currentPos :=
    fun p hp => lt_of_mem_selectedPositions hres hp
  refine ⟨?_, le_one_of_rowsCoincide hlt⟩
  obtain ⟨r, hr, hentry⟩ := entry_attentionIntoSelected (P := P) hc hdesc hk hv hres
  generalize hpos : selectedPositions c select granularity = positions at hentry hlt
  simp only [gatherRow_eq (hc.dtype_buffer _), ← dequantize_headMajor hl] at hentry
  -- the entries are the rows selected exactly when the exchanged rows coincide
  have hrows : (c.kvHeads ≤ 1 ∨ positions.length ≤ 1 ∨ RowsCoincide P c positions) ↔
      ∀ x, ∀ h < c.kvHeads, ∀ i < positions.length,
      r.map (fun g => g.entry c.kvHeads c.headDim x h i) =
        some (c.dequantize P (c.buffer x) (positions.getD i 0) h) := by
    have hco : (c.kvHeads ≤ 1 ∨ positions.length ≤ 1 ∨ RowsCoincide P c positions) ↔
      RowsCoincide P c positions := by
      rw [← or_assoc, or_iff_right_iff_imp]
      exact rowsCoincide_of_le_one
    rw [hco]
    refine forall_congr' fun x => forall₄_congr fun h hh i hi => ?_
    rw [hentry x h hh i hi, Option.some.injEq]
  rw [hrows]
  constructor
  · rintro ⟨⟨r', hr', hall⟩, hfull⟩
    rw [hr, Except.ok.injEq] at hr'
    subst hr'
    rw [hpos] at hall hfull
    refine ⟨hall, fun hrange hrag hcap => .inr fun x h hh t ht => ?_⟩
    obtain ⟨r', hr', hread⟩ := hfull hrange hrag
    rw [hr, Except.ok.injEq] at hr'
    subst hr'
    have htpos : t < positions.length := by rw [hrange, List.length_range]; exact ht
    have h₁ := hall x h hh t htpos
    rw [hread x h hh t ht, Option.some.injEq, fullRow_eq hl hshape, if_pos hcap] at h₁
    rw [h₁, hrange, List.getD_eq_getElem _ _ (by simpa using ht), List.getElem_range]
  · rintro ⟨hall, hfull⟩
    refine ⟨⟨r, hr, by rw [hpos]; exact hall⟩, fun hrange hrag => ⟨r, hr, fun x h hh t ht => ?_⟩⟩
    rw [hpos] at hrange
    have htpos : t < positions.length := by rw [hrange, List.length_range]; exact ht
    have hget : positions.getD t 0 = t := by
      rw [hrange, List.getD_eq_getElem _ _ (by simpa using ht), List.getElem_range]
    rw [hall x h hh t htpos, hget, fullRow_eq hl hshape]
    split_ifs with hcap
    · rcases hfull hrange hrag hcap with hone | hsym
      · have := hc.pos
        obtain rfl : h = 0 := by omega
        obtain rfl : t = 0 := by omega
        rfl
      · rw [hsym x h hh t ht]
    · rfl

/-- `raggedCache` without its hole: an F32 cache of two heads and three positions. -/
def uniformCache : KVCache := raggedCache.clearHeadStarts

theorem uniformCache_wf : uniformCache.WF := by
  refine ⟨by decide, rfl, rfl, ?_, by decide, by decide, by decide, fun h => ?_, by decide⟩
  · rintro (_ | _) <;> decide
  · exact (List.getD_nil ..).trans_le (Nat.zero_le _)

/-- The last of three pages of one position: its row of each head. -/
theorem selectsRows_one : SelectsRows .fixedPoint uniformCache [2] (.page 1) := by
  have hiff := (selectsRows_iff .fixedPoint uniformCache_wf rfl rfl rfl rfl rfl [2]
    (.page 1) nofun).1
  exact hiff.mpr ⟨.inr (.inl (by decide)), nofun⟩

/-- **Selecting everything reads the wrong head.** Two heads, three positions, all selected: entry
`2` of head `0` is the row of head `1` at position `1`. -/
theorem select_reads_other_head : ¬ SelectsRows .fixedPoint uniformCache [0, 1, 2] .token := by
  rintro ⟨⟨r, hr, hrows⟩, -⟩
  cases hr
  have hrow : (some [5] : Option (List Int)) = some [3] := hrows .key 0 (by decide) 2 (by decide)
  exact absurd hrow (by decide)

end ArgusEngine
