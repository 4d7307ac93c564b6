import Mathlib.Data.List.Basic
import ArgusEngine.Kv.Geometry
import ArgusEngine.Kv.Values

/-!
# Rows as values, row by row

`dequantize` and `writeTypedRow` go through one row: `rowValues` reads the values of a row,
`valuesRow` makes a row of values. A merge replaces row `into` of a head by `mergedRow`, a function
of the rows of that head.

* `dequantize_eq`, `writeTypedRow_eq`: the readers and the writer in terms of rows;
* **`agree_mergeBuffer`**: on two caches of one geometry whose resident rows agree, merges that read
  no hole into a resident row have the same outcome and leave resident rows that agree.
-/

namespace ArgusEngine

open FlatMem SlotMem Outcomes

theorem Platform.agree_encodeViaDescriptor (P : Platform) (d : KVLayoutDesc) {src src' : List P.F}
    {dst dst' : List UInt8} (hs : src'.length = src.length)
    (hd : dst.length = src.length / d.blockElems * d.blockBytes.getD 0)
    (hd' : dst'.length = src.length / d.blockElems * d.blockBytes.getD 0) :
    Agree (fun a b => a = P.encodeRow d src ∧ b = P.encodeRow d src')
      (P.encodeViaDescriptor d src dst) (P.encodeViaDescriptor d src' dst') := by
  have hl : dst.length = (P.encodeRow d src).length := by rw [P.length_encodeRow, hd]
  have hl' : dst'.length = (P.encodeRow d src').length := by rw [P.length_encodeRow, hs, hd']
  have hout : Agree (fun _ _ => True) (P.encodeViaDescriptor d src dst)
    (P.encodeViaDescriptor d src' dst') := by
    unfold encodeViaDescriptor
    simp only [hs, hd, hd']
    rw [if_neg (Nat.lt_irrefl _), if_neg (Nat.lt_irrefl _)]
    split_ifs
    · exact .error _
    · exact .ok trivial
    · exact .error _
  cases h : P.encodeViaDescriptor d src dst with
  | error e =>
    rw [h] at hout
    cases h' : P.encodeViaDescriptor d src' dst' <;> rw [h'] at hout <;> cases hout
    exact .error _
  | ok a =>
    rw [h] at hout
    cases h' : P.encodeViaDescriptor d src' dst' <;> rw [h'] at hout <;> cases hout
    exact .ok ⟨encodeViaDescriptor_ok h hl, encodeViaDescriptor_ok h' hl'⟩

namespace KVCache

/-! ## Values of a row -/

section Values

variable (P : Platform) (c : KVCache)

/-- The values of a row. -/
def rowValues (row : List UInt8) : List P.F :=
  match c.kBuffer.buffer.desc with
  | some d => P.decodeViaDescriptor d row c.headDim
  | none => match c.kvDtype with
    | .f32 => P.f32s row 0 c.headDim
    | .f16 => (List.range c.headDim).map fun d => P.ofF16 (slice row (d * 2) 2)
    | .q4_0 => (List.range (c.headDim / QK4_0)).flatMap fun bi =>
        P.ofQ4 (slice row (bi * blockQ4_0Size) blockQ4_0Size)
    | _ => []

/-- The row of `headDim` values. -/
def valuesRow (vals : List P.F) : List UInt8 :=
  match c.kBuffer.buffer.desc with
  | some d => P.encodeRow d vals
  | none => match c.kvDtype with
    | .f32 => vals.flatMap P.toF32
    | .f16 => vals.flatMap P.toF16
    | .q4_0 =>
      (List.range (c.headDim / QK4_0)).flatMap fun bi => P.toQ4 (slice vals (bi * QK4_0) QK4_0)
    | _ => []

variable {P c}

theorem stored_cases (hs : c.IsStored) (hd : c.kBuffer.buffer.desc = none) :
    c.kvDtype = .f32 ∨ c.kvDtype = .f16 ∨ (c.kvDtype = .q4_0 ∧ QK4_0 ∣ c.headDim) := by
  unfold IsStored at hs
  rwa [hd] at hs

theorem length_flatMap_const {α β : Type*} {l : List α} {f : α → List β} {k : ℕ}
    (h : ∀ x, (f x).length = k) : (l.flatMap f).length = l.length * k := by
  rw [List.length_flatMap, List.map_congr_left fun x _ => h x, List.map_const',
    List.sum_replicate_nat]

theorem length_rowValues (hs : c.IsStored) (row : List UInt8) :
    (c.rowValues P row).length = c.headDim := by
  unfold rowValues
  cases hd : c.kBuffer.buffer.desc with
  | some d =>
    unfold IsStored at hs
    rw [hd] at hs
    simp only [Platform.decodeViaDescriptor]
    rw [length_flatMap_const fun _ => P.length_unpackBlock d _, List.length_range,
      Nat.div_mul_cancel hs.2.2.2]
  | none =>
    rcases stored_cases hs hd with h | h | ⟨h, h32⟩ <;> simp only [h]
    · exact P.length_f32s _ _ _
    · simp
    · rw [length_flatMap_const fun _ => P.length_ofQ4 _, List.length_range, Nat.div_mul_cancel h32]

theorem length_valuesRow (hs : c.IsStored) {vals : List P.F} (hv : vals.length = c.headDim) :
    (c.valuesRow P vals).length = c.rowBytes := by
  unfold valuesRow
  cases hd : c.kBuffer.buffer.desc with
  | some d =>
    simp only
    rw [P.length_encodeRow, hv, (rowBytes_of_desc hs hd).1, (rowBytes_of_desc hs hd).2]
  | none =>
    rcases stored_cases hs hd with h | h | ⟨h, h32⟩ <;> simp only [h]
    · rw [length_flatMap_const P.length_toF32, hv, rowBytes_of_float hs (.inr h), h]; rfl
    · rw [length_flatMap_const P.length_toF16, hv, rowBytes_of_float hs (.inl h), h]; rfl
    · rw [length_flatMap_const fun _ => P.length_toQ4 _, List.length_range]
      simp [rowBytes, perHead, headUnits, isOpaque, isQ4, hd, show c.kBuffer.dtype = .q4_0 from h,
        h, DType.typeSize]

/-- **The typed reader reads the row.** -/
theorem dequantize_eq (hs : c.IsStored) (hd : c.kBuffer.buffer.desc = none) {t : Tensor}
    (ht : t.dtype = c.kvDtype) (p h : ℕ) :
    c.dequantize P t p h = c.rowValues P (c.readRow t p h) := by
  have ho : c.isOpaque = false := by simp [isOpaque, hd]
  have hq : c.isQ4 = decide (c.kvDtype = .q4_0) := rfl
  unfold dequantize rowValues readRow
  rw [ht, ho, hq]
  simp only [hd, Bool.false_eq_true, if_false, decide_eq_true_eq]
  rcases stored_cases hs hd with hk | hk | ⟨hk, h32⟩ <;>
    simp only [hk, reduceCtorEq, if_false, if_true]
  · refine List.map_congr_left fun i hi => ?_
    have hi' := List.mem_range.mp hi
    rw [Nat.zero_add, slice_slice _ _ (by simp only [DType.size]; omega)]
    congr 2
    simp only [DType.size]
    ring
  · refine List.map_congr_left fun i hi => ?_
    have hi' := List.mem_range.mp hi
    rw [slice_slice _ _ (by simp only [DType.size]; omega)]
    congr 2
    simp only [DType.size]
    ring
  · refine List.flatMap_congr fun i hi => ?_
    have hi' := row_bound (w := blockQ4_0Size) (List.mem_range.mp hi)
    rw [slice_slice _ _ hi', Nat.add_mul]

/-- **The typed writer replaces the row.** -/
theorem writeTypedRow_eq (hs : c.IsStored) (hd : c.kBuffer.buffer.desc = none)
    (t : Tensor) (p h : ℕ) (vals : List P.F) : c.writeTypedRow P t p h c.kvDtype vals =
      t.withBytes (blit (c.valuesRow P vals) 0 t.bytes (c.slot p h * c.rowBytes) c.rowBytes) := by
  have hoff : c.offset p h * c.kvDtype.size = c.slot p h * (c.headDim * c.kvDtype.size) := by
    unfold offset slot
    cases c.layout <;> simp only <;> ring
  unfold writeTypedRow valuesRow
  rcases stored_cases hs hd with hk | hk | ⟨hk, h32⟩
  · rw [rowBytes_of_float hs (.inr hk), ← hoff]
    simp only [hk, hd]
    rfl
  · rw [rowBytes_of_float hs (.inl hk), ← hoff]
    simp only [hk, hd]
    rfl
  · have hrow : c.rowBytes = c.headDim / QK4_0 * blockQ4_0Size := by
      simp [rowBytes, perHead, headUnits, isOpaque, isQ4, hd, show c.kBuffer.dtype = .q4_0 from hk,
        hk, DType.typeSize]
    have hslot : c.q4BlockOffset p h (c.headDim / QK4_0) * blockQ4_0Size =
      c.slot p h * c.rowBytes := by
      rw [hrow]
      unfold q4BlockOffset slot
      cases c.layout <;> simp only <;> ring
    simp only [hk, hd, hslot, hrow]

end Values

/-! ## Merges -/

/-- What row `into` becomes, from the rows of its head. -/
def mergedRow (P : Platform) (c : KVCache) (m : WeightedMerge P.F) (f : ℕ → List UInt8) :
    List UInt8 :=
  let scale := if c.kvDtype = .q4_0 then fun v => P.mul v m.intoWeight else P.mul m.intoWeight
  c.valuesRow P (P.mergeRow scale (c.rowValues P (f m.into))
    (m.source.map fun pw => (c.rowValues P (f pw.1), pw.2)))

/-- The merge reads no hole into a resident row. -/
def HoleSafe {F : Type} (c : KVCache) (m : WeightedMerge F) : Prop :=
  ∀ h < c.kvHeads, c.headStartOf h ≤ m.into → ∀ pw ∈ m.source, c.headStartOf h ≤ pw.1

instance {F : Type} (c : KVCache) (m : WeightedMerge F) : Decidable (c.HoleSafe m) :=
  inferInstanceAs (Decidable (∀ h < _, _ → ∀ pw ∈ _, _))

/-- Two buffers of a cache that agree on the resident rows. -/
def SameRows (c : KVCache) (t u : Tensor) : Prop :=
  ∀ h < c.kvHeads, ∀ p, c.headStartOf h ≤ p → p < c.currentPos → c.headRows t h p = c.headRows u h p

section Merge

variable {P : Platform} {c : KVCache} {m : WeightedMerge P.F} {t u : Tensor}

theorem length_mergedRow (hs : c.IsStored) (f : ℕ → List UInt8) :
    (c.mergedRow P m f).length = c.rowBytes := by
  refine length_valuesRow hs ?_
  rw [Platform.mergeRow, List.length_mapIdx, length_rowValues hs]

theorem mergedRow_congr {f g : ℕ → List UInt8} (hi : f m.into = g m.into)
    (hf : ∀ pw ∈ m.source, f pw.1 = g pw.1) : c.mergedRow P m f = c.mergedRow P m g := by
  unfold mergedRow
  rw [hi, List.map_congr_left (g := fun pw => (c.rowValues P (g pw.1), pw.2)) fun pw hpw =>
    by rw [hf pw hpw]]

theorem headRows_blitRow {row : List UInt8} (hrow : row.length = c.rowBytes)
    (hsize : c.capacity * c.kvHeads * c.rowBytes ≤ t.size) {q k : ℕ} (hq : q < c.capacity)
    (hk : k < c.kvHeads) {h : ℕ} (hh : h < c.kvHeads) (p : ℕ) :
    c.headRows (t.withBytes (blit row 0 t.bytes (c.slot q k * c.rowBytes) c.rowBytes)) h p =
      if h = k ∧ p = q then row else c.headRows t h p := by
  have hsize' : c.capacity * c.kvHeads * c.rowBytes ≤ t.bytes.length := hsize
  by_cases hp : p < c.capacity
  swap
  · rw [headRows_of_not_lt hp, headRows_of_not_lt hp, if_neg]
    rintro ⟨-, rfl⟩
    exact hp hq
  rw [headRows_of_lt hp, headRows_of_lt hp, Tensor.bytes_withBytes]
  have hsrc : (0 + 1) * c.rowBytes ≤ row.length := by omega
  have hdst : (c.slot q k + 1) * c.rowBytes ≤ t.bytes.length :=
    le_trans (Nat.mul_le_mul_right _ (slot_lt hq hk)) hsize'
  have hblit := rows_blit hsrc hdst
  rw [Nat.zero_mul, Nat.one_mul] at hblit
  rw [hblit]
  by_cases he : h = k ∧ p = q
  · obtain ⟨rfl, rfl⟩ := he
    rw [if_pos ⟨rfl, rfl⟩, place_of_mem le_rfl (Nat.lt_succ_self _), Nat.sub_self]
    simp only [rows, slice, Nat.zero_mul, List.drop_zero, Nat.add_zero]
    rw [← hrow, List.take_length]
  · rw [if_neg he, place_of_notMem]
    intro hmem
    have := slot_inj hp hq hh hk (by omega)
    exact he ⟨this.2, this.1⟩

/-- **One head of a merge writes its merged row**, or fails whatever the contents. -/
theorem agree_mergeHead (hs : c.IsStored) (ho : c.isOpaque = true → c.layout = .headMajor) {k : ℕ}
    (hinto : m.into < c.capacity) (hk : k < c.kvHeads) (ht : t.dtype = c.kvDtype)
    (hu : u.dtype = c.kvDtype) (hst : c.capacity * c.kvHeads * c.rowBytes ≤ t.size)
    (hsu : c.capacity * c.kvHeads * c.rowBytes ≤ u.size) : Agree (fun t' u' =>
        t' = t.withBytes (blit (c.mergedRow P m fun p => c.readRow t p k) 0 t.bytes
          (c.slot m.into k * c.rowBytes) c.rowBytes) ∧
        u' = u.withBytes (blit (c.mergedRow P m fun p => c.readRow u p k) 0 u.bytes
          (c.slot m.into k * c.rowBytes) c.rowBytes))
      (mergeHead P c m k t) (mergeHead P c m k u) := by
  unfold mergeHead
  cases hd : c.kBuffer.buffer.desc with
  | none =>
    have hone : ∀ {t : Tensor}, t.dtype = c.kvDtype →
        c.writeTypedRow P t m.into k t.dtype (P.mergeRow
          (if t.dtype = .q4_0 then fun v => P.mul v m.intoWeight else P.mul m.intoWeight)
          (c.dequantize P t m.into k) (m.source.map fun pw => (c.dequantize P t pw.1 k, pw.2))) =
        t.withBytes (blit (c.mergedRow P m fun p => c.readRow t p k) 0 t.bytes
          (c.slot m.into k * c.rowBytes) c.rowBytes) := by
      intro t ht
      simp only [dequantize_eq hs hd ht]
      rw [ht, writeTypedRow_eq hs hd]
      rfl
    exact .ok ⟨hone ht, hone hu⟩
  | some d =>
    have hop : c.isOpaque = true := by simp [isOpaque, hd]
    obtain ⟨hrow, hbytes⟩ := rowBytes_of_desc hs hd
    have hdtype : c.kvDtype ≠ .q4_0 := by
      unfold IsStored at hs
      rw [hd] at hs
      rw [hs.1]
      decide
    have hdeq : ∀ (t : Tensor) p, c.dequantizeOpaque P d t p k =
      c.rowValues P (c.readRow t p k) := by
      intro t p
      simp only [dequantizeOpaque, rowValues, readRow, hd, if_pos hop]
    have hmerged : ∀ t : Tensor, P.encodeRow d (P.mergeRow (P.mul m.intoWeight)
        (c.dequantizeOpaque P d t m.into k)
          (m.source.map fun pw => (c.dequantizeOpaque P d t pw.1 k, pw.2))) =
        c.mergedRow P m fun p => c.readRow t p k := by
      intro t
      simp only [hdeq, mergedRow, valuesRow, hd, if_neg hdtype]
    have hlen : ∀ t : Tensor, (P.mergeRow (P.mul m.intoWeight) (c.dequantizeOpaque P d t m.into k)
        (m.source.map fun pw => (c.dequantizeOpaque P d t pw.1 k, pw.2))).length = c.headDim := by
      intro t
      rw [Platform.mergeRow, List.length_mapIdx, hdeq, length_rowValues hs]
    have hslice : ∀ t : Tensor, c.capacity * c.kvHeads * c.rowBytes ≤ t.size →
        (slice t.bytes ((k * c.capacity + m.into) * c.opaqueBytesPerHead)
          c.opaqueBytesPerHead).length = c.headDim / d.blockElems * d.blockBytes.getD 0 := by
      intro t hsize
      rw [← hbytes]
      refine length_slice (le_trans ?_ hsize)
      rw [← hrow, ← slot_headMajor (ho hop), ← Nat.succ_mul]
      exact Nat.mul_le_mul_right _ (slot_lt hinto hk)
    have hE := P.agree_encodeViaDescriptor d ((hlen u).trans (hlen t).symm)
      (by rw [hlen]; exact hslice t hst) (by rw [hlen]; exact hslice u hsu)
    simp only
    generalize P.encodeViaDescriptor d _ (slice t.bytes _ _) = x at hE
    generalize P.encodeViaDescriptor d _ (slice u.bytes _ _) = y at hE
    cases hE with
    | error e => exact .error _
    | ok h =>
      obtain ⟨rfl, rfl⟩ := h
      refine .ok ?_
      simp only [hmerged, slot_headMajor (ho hop), hrow]
      exact ⟨trivial, trivial⟩

/-- `t` is `t₀` with other contents. -/
def Recoded (t₀ t : Tensor) : Prop := ∃ b, b.length = t₀.size ∧ t = t₀.withBytes b

theorem Recoded.dtype {t₀ t : Tensor} (h : Recoded t₀ t) : t.dtype = t₀.dtype := by
  obtain ⟨b, -, rfl⟩ := h
  rfl

theorem Recoded.size {t₀ t : Tensor} (h : Recoded t₀ t) : t.size = t₀.size := by
  obtain ⟨b, hb, rfl⟩ := h
  exact hb

theorem Recoded.blit {t₀ t : Tensor} (h : Recoded t₀ t) (src : List UInt8) (s e n : ℕ) :
    Recoded t₀ (t.withBytes (blit src s t.bytes e n)) := by
  obtain ⟨b, hb, rfl⟩ := h
  exact ⟨_, (length_blit _ _ _ _ _).trans hb, rfl⟩

/-- **Merges that read no hole keep resident rows in agreement.** -/
theorem agree_mergeBuffer (hs : c.IsStored) (ho : c.isOpaque = true → c.layout = .headMajor)
    (hpos : c.currentPos ≤ c.capacity) (x : Half) {merges : List (WeightedMerge P.F)}
    (hlt : ∀ m ∈ merges, m.into < c.currentPos ∧ ∀ pw ∈ m.source, pw.1 < c.currentPos)
    (hsafe : ∀ m ∈ merges, c.HoleSafe m) (ht : t.dtype = c.kvDtype) (hu : u.dtype = c.kvDtype)
    (hst : c.capacity * c.kvHeads * c.rowBytes ≤ t.size)
    (hsu : c.capacity * c.kvHeads * c.rowBytes ≤ u.size) (hrows : c.SameRows t u) :
    Agree (fun t' u' => Recoded t t' ∧ Recoded u u' ∧ c.SameRows t' u')
      (mergeBuffer P c x merges t) (mergeBuffer P c x merges u) := by
  refine Agree.foldlM (fun mk hmk t' u' hR => ?_) ⟨⟨_, rfl, rfl⟩, ⟨_, rfl, rfl⟩, hrows⟩
  obtain ⟨m, k⟩ := mk
  obtain ⟨hm, hk⟩ := List.mem_product.mp hmk
  have hk : k < c.kvHeads := List.mem_range.mp hk
  have hm : m ∈ merges := (List.mem_filter.mp hm).1
  obtain ⟨hinto, hsrc⟩ := hlt m hm
  obtain ⟨hT, hU, hrows⟩ := hR
  have hst' := hst.trans_eq hT.size.symm
  have hsu' := hsu.trans_eq hU.size.symm
  refine (agree_mergeHead hs ho (hinto.trans_le hpos) hk (hT.dtype.trans ht)
    (hU.dtype.trans hu) hst' hsu').mono fun a b hab => ?_
  obtain ⟨rfl, rfl⟩ := hab
  refine ⟨hT.blit _ _ _ _, hU.blit _ _ _ _, fun h hh p hlo hp => ?_⟩
  rw [headRows_blitRow (length_mergedRow hs _) hst' (hinto.trans_le hpos) hk hh,
    headRows_blitRow (length_mergedRow hs _) hsu' (hinto.trans_le hpos) hk hh]
  split_ifs with he
  · obtain ⟨rfl, rfl⟩ := he
    have hread : ∀ q, c.headStartOf h ≤ q → q < c.currentPos →
      c.readRow t' q h = c.readRow u' q h := by
      intro q hq hq'
      rw [readRow_eq hs ho, readRow_eq hs ho, ← headRows_of_lt (hq'.trans_le hpos),
        ← headRows_of_lt (hq'.trans_le hpos)]
      exact hrows h hh q hq hq'
    exact mergedRow_congr (hread _ hlo hp) fun pw hpw =>
      hread _ (hsafe m hm h hh hlo pw hpw) (hsrc pw hpw)
  · exact hrows h hh p hlo hp

theorem mergeBuffer_of_geometry {d : KVCache} (h : c.geometry = d.geometry) (x : Half)
    (merges : List (WeightedMerge P.F)) (t : Tensor) :
    mergeBuffer P c x merges t = mergeBuffer P d x merges t := by
  obtain ⟨hf, -, -, -, hcap, -⟩ := frame_eq h
  simp only [format, Format.mk.injEq] at hf
  obtain ⟨-, hdesc, hheads, hdim, hlay⟩ := hf
  have hmerge : mergeHead P c = mergeHead P d := by
    funext m k t
    simp only [mergeHead, opaqueBytesPerHead, dequantizeOpaque, dequantize, writeTypedRow,
      offset, q4BlockOffset, hdesc, hcap, hheads, hdim, hlay]
  unfold mergeBuffer
  rw [hmerge, hheads]

end Merge

end KVCache

end ArgusEngine
