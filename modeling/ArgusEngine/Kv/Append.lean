import ArgusEngine.Kv.Resize

/-!
# Appending tokens and dropping a prefix

`update` scatters the seq-major rows of its input behind the cursor, copied as they are or, in an
opaque store, encoded block by block. `prune_prefix` shifts the rest of every head down.

* `Input c newK newV n`: tensors the callers of `update` pass, `n` tokens in the cache's type
  (`f32` for an opaque store);
* `inputRow`: the row that token `s` of the input becomes;
* **`appends_update`**: the cache after a successful `update`;
* **`rewrites_prunePrefix`**: the cache after `prune_prefix`.
-/

namespace ArgusEngine

open FlatMem SlotMem

/-- The bytes `encode_via_descriptor` makes of a run of values. -/
def Platform.encodeRow (P : Platform) (d : KVLayoutDesc) (src : List P.F) : List UInt8 :=
  (List.range (src.length / d.blockElems)).flatMap fun bi =>
    P.encodeBlock d (slice src (bi * d.blockElems) d.blockElems)

theorem Platform.length_encodeRow (P : Platform) (d : KVLayoutDesc) (src : List P.F) :
    (P.encodeRow d src).length = src.length / d.blockElems * d.blockBytes.getD 0 := by
  unfold encodeRow
  rw [List.length_flatMap]
  simp only [P.length_encodeBlock, List.map_const', List.length_range, List.sum_replicate_nat]

theorem Platform.length_f32s (P : Platform) (b : List UInt8) (off n : ℕ) :
    (P.f32s b off n).length = n := by
  simp [f32s]

theorem Platform.encodeViaDescriptor_ok {P : Platform} {d : KVLayoutDesc} {src : List P.F}
    {dst enc : List UInt8} (h : P.encodeViaDescriptor d src dst = .ok enc)
    (hl : dst.length = (P.encodeRow d src).length) : enc = P.encodeRow d src := by
  unfold encodeViaDescriptor at h
  simp only at h
  split_ifs at h
  cases h
  rw [← encodeRow, ← hl, List.drop_length, List.append_nil]

namespace KVCache

/-- The input half of `update`. -/
def input (newK newV : Tensor) : Half → Tensor
  | .key => newK
  | .value => newV

/-- Tensors that hold `n` tokens for `c`: seq-major rows in the cache's type, or `f32` values for an
opaque store. -/
structure Input (c : KVCache) (newK newV : Tensor) (n : ℕ) : Prop where
  seqLen : newK.shape.getD 1 0 = n
  dtype : c.isOpaque = false → ∀ x, (input newK newV x).dtype = c.kvDtype
  size : c.isOpaque = false → ∀ x, n * c.kvHeads * c.rowBytes ≤ (input newK newV x).size

/-- The row that token `s` of an input half becomes, for head `h`. -/
def inputRow (P : Platform) (c : KVCache) (t : Tensor) (s h : ℕ) : List UInt8 :=
  match c.kBuffer.buffer.desc with
  | none => rows c.rowBytes t.bytes (s * c.kvHeads + h)
  | some d => P.encodeRow d (P.f32s t.bytes (s * (c.kvHeads * c.headDim) + h * c.headDim) c.headDim)

theorem inputRow_of_format (P : Platform) {c c' : KVCache} (h : c'.format = c.format) (t : Tensor)
    (s k : ℕ) : c'.inputRow P t s k = c.inputRow P t s k := by
  have hrow := rowBytes_of_format h
  simp only [format, Format.mk.injEq] at h
  unfold inputRow
  rw [hrow, h.2.1, h.2.2.1, h.2.2.2.1]

theorem Input.of_format {c c' : KVCache} {newK newV : Tensor} {n : ℕ} (h : c'.format = c.format)
    (hin : c.Input newK newV n) : c'.Input newK newV n := by
  have hrow := rowBytes_of_format h
  have hop := isOpaque_of_format h
  simp only [format, Format.mk.injEq] at h
  refine ⟨hin.seqLen, fun ho x => ?_, fun ho x => ?_⟩
  · rw [hin.dtype (hop.symm.trans ho) x, h.1]
  · rw [h.2.2.1, hrow]
    exact hin.size (hop.symm.trans ho) x

/-! ## The typed write loop -/

section Typed

variable {c : KVCache} {t buf : Tensor} {n : ℕ} {direct : Bool}

theorem appendTyped_eq (c : KVCache) (direct : Bool) (n : ℕ) (t buf : Tensor) :
    ∃ b, b.length = buf.size ∧ c.appendTyped direct n t buf = buf.withBytes b := by
  unfold appendTyped
  cases c.layout with
  | seqMajor => exact ⟨_, length_blit _ _ _ _ _, rfl⟩
  | headMajor =>
    simp only
    split_ifs
    · exact ⟨_, length_foldl_blit _ _, Tensor.foldl_withBytes
        (fun x b => blit t.bytes _ b _ _) _ _⟩
    · exact ⟨_, length_foldl_blit _ _, Tensor.foldl_withBytes
        (fun x b => blit t.bytes _ b _ _) _ _⟩

theorem appendTyped_headMajor (hs : c.IsStored) (hl : c.layout = .headMajor)
    (ho : c.isOpaque = false) (ht : t.dtype = c.kvDtype)
    (hd : direct = true → c.kvDtype = .f16 ∨ c.kvDtype = .f32) :
    c.appendTyped direct n t buf =
      buf.withBytes ((List.range n ×ˢ List.range c.kvHeads).foldl (fun b x =>
      blit t.bytes ((x.1 * c.kvHeads + x.2) * c.rowBytes) b
        ((x.2 * c.capacity + (c.currentPos + x.1)) * c.rowBytes) (1 * c.rowBytes)) buf.bytes) := by
  unfold appendTyped
  rw [hl]
  simp only [headUnits_eq hs, posUnits_eq hs ho]
  rw [← Tensor.foldl_withBytes (fun (x : ℕ × ℕ) b =>
    blit t.bytes ((x.1 * c.kvHeads + x.2) * c.rowBytes)
      b ((x.2 * c.capacity + (c.currentPos + x.1)) * c.rowBytes) (1 * c.rowBytes))]
  split_ifs with hbranch
  · simp only [Bool.and_eq_true, Bool.not_eq_true'] at hbranch
    have hrow := rowBytes_of_float hs (hd hbranch.2)
    have hper : c.perHead = c.headDim := by
      simp only [perHead, headUnits, ho, hbranch.1, Bool.false_eq_true, if_false]
    congr 1
    funext u x
    rw [hrow, hper]
    congr 2 <;> ring
  · congr 1
    funext u x
    simp only [Tensor.copySlice, ht, rowBytes]
    congr 2 <;> ring

/-- **The typed write loop**: token `s` lands behind the cursor, every other row stays. -/
theorem rows_appendTyped (hc : c.WF) (ho : c.isOpaque = false) (ht : t.dtype = c.kvDtype)
    (hin : n * c.kvHeads * c.rowBytes ≤ t.size)
    (hbuf : c.capacity * c.kvHeads * c.rowBytes ≤ buf.size) (hn : c.currentPos + n ≤ c.capacity)
    (hd : direct = true → c.kvDtype = .f16 ∨ c.kvDtype = .f32) {h p : ℕ} (hh : h < c.kvHeads)
    (hp : p < c.capacity) : rows c.rowBytes (c.appendTyped direct n t buf).bytes (c.slot p h) =
      if c.currentPos ≤ p ∧ p < c.currentPos + n then
        rows c.rowBytes t.bytes ((p - c.currentPos) * c.kvHeads + h)
      else rows c.rowBytes buf.bytes (c.slot p h) := by
  have hin' : n * c.kvHeads * c.rowBytes ≤ t.bytes.length := hin
  have hbuf' : c.capacity * c.kvHeads * c.rowBytes ≤ buf.bytes.length := hbuf
  cases hl : c.layout with
  | seqMajor =>
    have hunit : ∀ a, a * c.posUnits * c.kvDtype.typeSize = a * c.kvHeads * c.rowBytes := by
      intro a; rw [posUnits_eq hc.stored ho]; unfold rowBytes; ring
    unfold appendTyped slot
    rw [hl]
    simp only [Tensor.copySlice, Tensor.bytes_withBytes, ht, hunit, Nat.zero_mul]
    rw [← Nat.zero_mul c.rowBytes, rows_blit (by rwa [Nat.zero_add])
      (by
        rw [← Nat.add_mul]
        exact (Nat.mul_le_mul_right _ (Nat.mul_le_mul_right _ hn)).trans hbuf')]
    rw [← Nat.zero_mul c.kvHeads, place_interleaved _ _ _ _ _ hh]
    unfold place
    simp only [Nat.zero_add]
  | headMajor =>
    rw [appendTyped_headMajor hc.stored hl ho ht hd, slot_headMajor hl, Tensor.bytes_withBytes,
      rows_foldl_blit (fun _ => t.bytes) (n := fun _ => 1)]
    · exact foldl_place_scatter (fun _ => rows c.rowBytes t.bytes)
        _ (rows c.rowBytes buf.bytes) hn hp hh
    · intro x hx
      obtain ⟨h₁, h₂⟩ := List.mem_product.mp hx
      refine le_trans (Nat.mul_le_mul_right _ ?_) hin'
      have := row_bound (w := c.kvHeads) (List.mem_range.mp h₁)
      have := List.mem_range.mp h₂
      omega
    · intro x hx
      obtain ⟨h₁, h₂⟩ := List.mem_product.mp hx
      refine le_trans (Nat.mul_le_mul_right _ ?_) hbuf'
      have := row_bound (w := c.capacity) (List.mem_range.mp h₂)
      have := List.mem_range.mp h₁
      rw [Nat.mul_comm c.capacity]
      omega

end Typed

/-! ## The opaque write loop -/

section Opaque

variable {P : Platform} {c : KVCache} {d : KVLayoutDesc}

/-- **The opaque write loop** places the encoded rows one by one. -/
theorem rows_appendOpaque (hs : c.IsStored) (hd : c.kBuffer.buffer.desc = some d) (src : List UInt8)
    (l : List (ℕ × ℕ)) : ∀ (t t' : Tensor), c.appendOpaque P d src l t = (.ok (), t') →
      (∀ x ∈ l, x.2 < c.kvHeads) → c.capacity * c.kvHeads * c.rowBytes ≤ t.size →
      ∃ b, b.length = t.size ∧ t' = t.withBytes b ∧ rows c.rowBytes b = l.foldl (fun f x =>
        place (fun _ => P.encodeRow d
          (P.f32s src (x.1 * (c.kvHeads * c.headDim) + x.2 * c.headDim) c.headDim)) 0 f
          (x.2 * c.capacity + (c.currentPos + x.1)) 1) (rows c.rowBytes t.bytes) := by
  obtain ⟨hrow, hbph⟩ := rowBytes_of_desc hs hd
  induction l with
  | nil =>
    intro t t' h _ _
    cases h
    exact ⟨t.bytes, rfl, rfl, rfl⟩
  | cons x l ih =>
    obtain ⟨s, h⟩ := x
    intro t t' hok hl hsize
    have hsize' : c.capacity * c.kvHeads * c.rowBytes ≤ t.bytes.length := hsize
    have hh : h < c.kvHeads := hl (s, h) List.mem_cons_self
    rw [appendOpaque] at hok
    split_ifs at hok with hcap
    · cases hok
    split at hok
    · cases hok
    rename_i enc henc
    have hoff : h * (c.capacity * c.opaqueBytesPerHead) + (c.currentPos + s) *
      c.opaqueBytesPerHead =
        (h * c.capacity + (c.currentPos + s)) * c.rowBytes := by rw [hrow]; ring
    have hbound : (h * c.capacity + (c.currentPos + s) + 1) * c.rowBytes ≤ t.bytes.length := by
      refine le_trans (Nat.mul_le_mul_right _ ?_) hsize'
      have := row_bound (w := c.capacity) hh
      rw [Nat.mul_comm c.capacity]
      omega
    have hlen : ∀ off, (P.encodeRow d (P.f32s src off c.headDim)).length = c.rowBytes := by
      intro off
      rw [P.length_encodeRow, P.length_f32s, hrow, hbph]
    rw [hoff, ← hrow] at henc hok
    have henc' := Platform.encodeViaDescriptor_ok henc (by
      rw [hlen, length_slice]
      rwa [← Nat.succ_mul])
    rw [henc'] at hok
    obtain ⟨b, hb, he, hrows⟩ := ih _ _ hok (fun y hy => hl y (List.mem_cons_of_mem _ hy))
      (hsize'.trans_eq (length_blit _ _ _ _ _).symm)
    refine ⟨b, hb.trans (length_blit _ _ _ _ _), he, ?_⟩
    rw [hrows, List.foldl_cons]
    congr 1
    rw [Tensor.bytes_withBytes]
    set row := P.encodeRow d (P.f32s src (s * (c.kvHeads * c.headDim) + h * c.headDim)
      c.headDim) with hrow'
    have hblit := rows_blit (w := c.rowBytes) (a := 0) (n := 1)
      (show (0 + 1) * c.rowBytes ≤ row.length by rw [hlen]; omega) hbound
    rw [Nat.zero_mul, Nat.one_mul] at hblit
    rw [hblit]
    funext q
    unfold place
    split_ifs with hq
    · -- the whole encoded row is its only row
      have hq0 : 0 + (q - (h * c.capacity + (c.currentPos + s))) = 0 := by omega
      simp only [hq0]
      unfold rows slice
      rw [Nat.zero_mul, List.drop_zero, List.take_of_length_le (hlen _).le]
    · rfl

end Opaque

/-! ## `update` -/

section Update

variable {P : Platform} {c : KVCache} {newK newV : Tensor} {n : ℕ}

/-- `c'` is `c` with `n` tokens appended: `row x s h` is row `s` of head `h` in half `x`. -/
structure Appends (c c' : KVCache) (n : ℕ) (row : Half → ℕ → ℕ → List UInt8) : Prop where
  wf : c'.WF
  frame : c'.frame = { c.frame with currentPos := c.currentPos + n }
  old : ∀ x, ∀ h < c.kvHeads, ∀ p, c.headStartOf h ≤ p → p < c.currentPos →
    c'.rowsOf x h p = c.rowsOf x h p
  new : ∀ x, ∀ h < c.kvHeads, ∀ s < n, c'.rowsOf x h (c.currentPos + s) = row x s h

theorem keeps_makeRoom (hc : c.WF) {c' : KVCache} (h : c.makeRoom n = .ok c') :
    Keeps c c' ∧ c.currentPos + n ≤ c'.capacity := by
  unfold makeRoom at h
  split_ifs at h with h₁ h₂
  · obtain ⟨hk, hcap⟩ := keeps_grow hc h
    exact ⟨hk, by omega⟩
  · cases h
    exact ⟨Keeps.refl hc, by omega⟩

/-- Two buffers rewritten behind the cursor, and the cursor advanced. -/
theorem appends_advancePos (hc : c.WF) (ho : c.isOpaque = true → c.layout = .headMajor)
    {kt vt : Tensor} {row : Half → ℕ → ℕ → List UInt8} (hn : c.currentPos + n ≤ c.capacity)
    (hk : ∃ b, b.length = c.kBuffer.size ∧ kt = c.kBuffer.withBytes b)
    (hv : ∃ b, b.length = c.vBuffer.size ∧ vt = c.vBuffer.withBytes b)
    (hrows : ∀ x, ∀ h < c.kvHeads, ∀ p < c.capacity,
      rows c.rowBytes (input kt vt x).bytes (c.slot p h) =
      if c.currentPos ≤ p ∧ p < c.currentPos + n then row x (p - c.currentPos) h
      else rows c.rowBytes (c.buffer x).bytes (c.slot p h)) :
    Appends c ({ c with kBuffer := kt, vBuffer := vt }.advancePos n) n row := by
  obtain ⟨kb, hkb, rfl⟩ := hk
  obtain ⟨vb, hvb, rfl⟩ := hv
  have hhwm := hc.hwm
  have hget : ∀ x, ∀ h < c.kvHeads, ∀ p < c.capacity,
      (({ c with kBuffer := c.kBuffer.withBytes kb,
                 vBuffer := c.vBuffer.withBytes vb }).advancePos n).rowsOf
        x h p = if c.currentPos ≤ p ∧ p < c.currentPos + n then row x (p - c.currentPos) h
          else rows c.rowBytes (c.buffer x).bytes (c.slot p h) := by
    intro x h hh p hp
    rw [← hrows x h hh p hp]
    cases x <;> exact if_pos hp
  refine ⟨⟨hc.stored, hc.dtype, hc.desc, ?_, hn, ?_, hc.cap, ?_, ?_⟩, rfl, ?_, ?_⟩
  · rintro (_ | _)
    · exact (hc.size .key).trans_eq hkb.symm
    · exact (hc.size .value).trans_eq hvb.symm
  · exact max_le hhwm hn
  · exact fun h => (hc.starts h).trans (Nat.le_add_right _ _)
  · intro hop hl
    rw [show c.layout = .headMajor from ho hop] at hl
    cases hl
  · intro x h hh p _ hp
    have hcap : p < c.capacity := by omega
    rw [hget x h hh p hcap, if_neg (by omega)]
    exact (if_pos hcap).symm
  · intro x h hh s hs
    rw [hget x h hh _ (by omega), if_pos ⟨by omega, by omega⟩, Nat.add_sub_cancel_left]

theorem appends_updateOpaque (hc : c.WF) (hin : c.Input newK newV n)
    (hn : c.currentPos + n ≤ c.capacity) {c' : KVCache}
    (h : c.updateOpaque P newK newV = (.ok (), c')) :
    Appends c c' n fun x s k => c.inputRow P (input newK newV x) s k := by
  unfold updateOpaque at h
  rw [hin.seqLen] at h
  simp only at h
  split at h
  · cases h
  rename_i d hd
  split_ifs at h with hl
  · cases h
  have hl' : c.layout = .headMajor := not_not.mp hl
  -- the two write loops, each taken apart
  generalize hK : appendOpaque P c d newK.bytes (List.range n ×ˢ List.range c.kvHeads)
    c.kBuffer = rk at h
  obtain ⟨ek, kt⟩ := rk
  cases ek with
  | error e => cases h
  | ok _ =>
    generalize hV : appendOpaque P c d newV.bytes (List.range n ×ˢ List.range c.kvHeads)
      c.vBuffer = rv at h
    obtain ⟨ev, vt⟩ := rv
    cases ev with
    | error e => cases h
    | ok _ =>
      cases h
      have hmem : ∀ x ∈ List.range n ×ˢ List.range c.kvHeads, x.2 < c.kvHeads :=
        fun x hx => List.mem_range.mp (List.mem_product.mp hx).2
      obtain ⟨kb, hkb, hkt, hkr⟩ := rows_appendOpaque hc.stored hd _ _ _ _ hK hmem (hc.size .key)
      obtain ⟨vb, hvb, hvt, hvr⟩ := rows_appendOpaque hc.stored hd _ _ _ _ hV hmem (hc.size .value)
      refine appends_advancePos hc (fun _ => hl') hn ⟨kb, hkb, hkt⟩ ⟨vb, hvb, hvt⟩
        fun x h hh p hp => ?_
      have hrow : ∀ t s k, c.inputRow P t s k = P.encodeRow d
          (P.f32s t.bytes (s * (c.kvHeads * c.headDim) + k * c.headDim) c.headDim) := by
        intro t s k; simp only [inputRow, hd]
      rw [hrow, slot_headMajor hl']
      cases x
      · rw [show (input kt vt .key).bytes = kb from congrArg Tensor.bytes hkt, hkr]
        exact foldl_place_scatter _ (fun _ => 0) _ hn hp hh
      · rw [show (input kt vt .value).bytes = vb from congrArg Tensor.bytes hvt, hvr]
        exact foldl_place_scatter _ (fun _ => 0) _ hn hp hh

/-- **The cache after a successful `update`.** -/
theorem appends_update (hc : c.WF) (hin : c.Input newK newV n) {c' : KVCache}
    (h : c.update P newK newV = (.ok (), c')) :
    Appends c c' n fun x s k => c.inputRow P (input newK newV x) s k := by
  unfold update at h
  rw [hin.seqLen] at h
  simp only at h
  split at h
  · cases h
  rename_i c₁ hroom
  obtain ⟨hk, hcap⟩ := keeps_makeRoom hc hroom
  have hfmt : c₁.format = c.format := congrArg Frame.format hk.frame
  have hpos : c₁.currentPos = c.currentPos := congrArg Frame.currentPos hk.frame
  have hheads : c₁.kvHeads = c.kvHeads := congrArg Format.kvHeads hfmt
  have hin₁ := hin.of_format hfmt
  have hop := isOpaque_of_format hfmt
  rw [← hpos] at hcap
  -- it is enough to know the append from the cache with room made
  suffices hA : Appends c₁ c' n fun x s k => c₁.inputRow P (input newK newV x) s k by
    refine ⟨hA.wf,
      by rw [hA.frame, hk.frame, hpos], fun x h hh p hlo hp => ?_, fun x h hh s hs => ?_⟩
    · rw [hA.old x h (hheads ▸ hh) p _ (hpos ▸ hp), hk.rows x h hh p hlo hp]
      rw [headStartOf, show c₁.headStart = c.headStart from congrArg Frame.headStart hk.frame]
      exact hlo
    · rw [← hpos, hA.new x h (hheads ▸ hh) s hs, inputRow_of_format P hfmt]
  by_cases ho : c₁.isOpaque = true
  · rw [if_pos ho] at h
    exact appends_updateOpaque hk.wf hin₁ hcap h
  · rw [if_neg ho] at h
    cases h
    have ho' : c₁.isOpaque = false := by simpa using ho
    have hdesc : c₁.kBuffer.buffer.desc = none := by simpa [isOpaque] using ho'
    have hdirect : c₁.canDirectCopy newK = true → c₁.kvDtype = .f16 ∨ c₁.kvDtype = .f32 := by
      intro hd
      simp only [canDirectCopy, Bool.and_eq_true, Bool.or_eq_true, decide_eq_true_eq] at hd
      exact hd.1.1.1.1
    refine appends_advancePos hk.wf (fun h => absurd h ho) hcap (c₁.appendTyped_eq _ _ _ _)
      (c₁.appendTyped_eq _ _ _ _) fun x h hh p hp => ?_
    have hrow : ∀ s k, c₁.inputRow P (input newK newV x) s k =
        rows c₁.rowBytes (input newK newV x).bytes (s * c₁.kvHeads + k) := by
      intro s k; simp only [inputRow, hdesc]
    rw [hrow]
    have key := rows_appendTyped hk.wf ho' (hin₁.dtype ho' x) (hin₁.size ho' x)
      (hk.wf.size x) hcap hdirect hh hp
    cases x <;> exact key

end Update

/-! ## `prune_prefix` -/

section Prune

variable {P : Platform} {c : KVCache}

theorem headStartOf_eq_zero (h : c.isRagged = false) (k : ℕ) : c.headStartOf k = 0 := by
  unfold headStartOf
  rcases Nat.lt_or_ge k c.headStart.length with hk | hk
  · rw [List.getD_eq_getElem _ _ hk]
    simp only [isRagged, List.any_eq_false, decide_eq_true_eq] at h
    have := h _ (List.getElem_mem hk)
    omega
  · exact List.getD_eq_default _ _ hk

theorem headStarts_getD (c : KVCache) {k : ℕ} (hk : k < c.kvHeads) :
    c.headStarts.getD k 0 = c.headStartOf k := by
  unfold headStarts
  rw [List.getD_eq_getElem _ _ (by simpa using hk)]
  simp

theorem getD_map_min (l : List ℕ) (n k : ℕ) : (l.map (min · n)).getD k 0 = min (l.getD k 0) n := by
  rcases Nat.lt_or_ge k l.length with hk | hk
  · rw [List.getD_eq_getElem _ _ (by simpa using hk), List.getD_eq_getElem _ _ hk, List.getElem_map]
  · rw [List.getD_eq_default _ _ (by simpa using hk), List.getD_eq_default _ _ hk, Nat.zero_min]

theorem headStartOf_setHeadStarts (c : KVCache) (starts : List ℕ) (k : ℕ) :
    (c.setHeadStarts starts).headStartOf k = min (starts.getD k 0) c.currentPos := by
  have hdef : (c.setHeadStarts starts).headStartOf k =
      (if starts.all (· = 0) then [] else starts.map (min · c.currentPos)).getD k 0 := rfl
  rw [hdef]
  split_ifs with hz
  · rcases Nat.lt_or_ge k starts.length with hk | hk
    · rw [List.getD_eq_getElem starts _ hk]
      have := List.all_eq_true.mp hz _ (List.getElem_mem hk)
      simp only [decide_eq_true_eq] at this
      simp [this]
    · rw [List.getD_eq_default starts _ hk]
      simp
  · exact getD_map_min starts c.currentPos k

theorem headStartOf_setCurrentPos (c : KVCache) (n k : ℕ) :
    (c.setCurrentPos n).headStartOf k = min (c.headStartOf k) n := by
  unfold setCurrentPos
  split_ifs with hn
  · rw [hn, Nat.min_zero]
    exact List.getD_nil ..
  · exact getD_map_min c.headStart n k

theorem WF.setCurrentPos (hc : c.WF) {n : ℕ} (hn : n ≤ c.capacity)
    (ho : c.isOpaque = true → c.layout = .seqMajor → n = 0) : (c.setCurrentPos n).WF := by
  have hstart : ∀ h, (c.setCurrentPos n).headStartOf h ≤ n := fun h => by
    rw [headStartOf_setCurrentPos]; exact Nat.min_le_right _ _
  unfold KVCache.setCurrentPos at hstart ⊢
  split_ifs with h0
  · rw [if_pos h0] at hstart
    exact ⟨hc.stored, hc.dtype, hc.desc, hc.size, hn, Nat.zero_le _, hc.cap, hstart, ho⟩
  · rw [if_neg h0] at hstart
    exact ⟨hc.stored, hc.dtype, hc.desc, hc.size, hn, hc.hwm, hc.cap, hstart, ho⟩

theorem setCurrentPos_same (c : KVCache) (n : ℕ) : (c.setCurrentPos n).currentPos = n ∧
    (c.setCurrentPos n).format = c.format ∧ ∀ x h,
      (c.setCurrentPos n).rowsOf x h = c.rowsOf x h := by
  unfold setCurrentPos
  split_ifs
  · exact ⟨rfl, rfl, fun x h => by cases x <;> rfl⟩
  · exact ⟨rfl, rfl, fun x h => by cases x <;> rfl⟩

theorem WF.setHeadStarts (hc : c.WF) (starts : List ℕ) : (c.setHeadStarts starts).WF :=
  ⟨hc.stored, hc.dtype, hc.desc, hc.size, hc.pos, hc.hwm, hc.cap,
    fun h => by rw [headStartOf_setHeadStarts]; exact Nat.min_le_right _ _, hc.seqMajor⟩

theorem WF.clearHeadStarts (hc : c.WF) : c.clearHeadStarts.WF :=
  ⟨hc.stored, hc.dtype, hc.desc, hc.size, hc.pos, hc.hwm, hc.cap, fun _ =>
    (List.getD_nil ..).trans_le (Nat.zero_le _), hc.seqMajor⟩

/-- `c'` is `c` without its first `n` positions; a hole shrinks by as much. -/
structure Prunes (c c' : KVCache) (n : ℕ) : Prop where
  wf : c'.WF
  format : c'.format = c.format
  maxSeqLen : c'.maxSeqLen = c.maxSeqLen
  memory : c'.memory.isSome = c.memory.isSome
  pos : c'.currentPos = c.currentPos - n
  starts : ∀ h < c.kvHeads, c'.headStartOf h = c.headStartOf h - n
  rows : ∀ x, ∀ h < c.kvHeads, ∀ p, c'.headStartOf h ≤ p → p < c'.currentPos →
    c'.rowsOf x h p = c.rowsOf x h (p + n)

theorem headStartOf_shrinkHoles (hc : c.WF) (n h : ℕ) :
    (if c.isRagged = true then c.setHeadStarts (c.headStarts.map (· - n)) else c).headStartOf h =
      if h < c.kvHeads then c.headStartOf h - n else 0 := by
  have hstart := hc.starts h
  split_ifs with hr hh hh
  · have hget : (c.headStarts.map (· - n)).getD h 0 = c.headStartOf h - n := by
      rw [← c.headStarts_getD hh, List.getD_eq_getElem _ _ (by simpa [headStarts] using hh),
        List.getD_eq_getElem _ _ (by simpa [headStarts] using hh), List.getElem_map]
    rw [headStartOf_setHeadStarts, hget]
    omega
  · rw [headStartOf_setHeadStarts, List.getD_eq_default _ _ (by simpa [headStarts] using hh)]
    exact Nat.zero_min _
  · rw [headStartOf_eq_zero (by simpa using hr), Nat.zero_sub]
  · exact headStartOf_eq_zero (by simpa using hr) h

/-- The shift, the new cursor and the release of `prune_prefix`, on a cache with its holes
shrunk. -/
theorem prunes_shift_release (hc : c.WF) {n : ℕ} (hn : n < c.currentPos)
    (hstart : ∀ h, c.headStartOf h ≤ c.currentPos - n) :
    ¬ (c.layout = .seqMajor ∧ c.isOpaque = true) ∧
    ∃ k c', { c with
        kBuffer := c.shiftBuffer ⟨n, 0, c.currentPos - n⟩ c.kBuffer
        vBuffer := c.shiftBuffer ⟨n, 0, c.currentPos - n⟩ c.vBuffer
        currentPos := c.currentPos - n }.releaseUnusedPages P = .ok (k, c') ∧
      c'.WF ∧ c'.frame = { c.frame with currentPos := c.currentPos - n } ∧
      ∀ x, ∀ h < c.kvHeads, ∀ p, c.headStartOf h ≤ p → p < c.currentPos - n →
        c'.rowsOf x h p = c.rowsOf x h (p + n) := by
  have hpos := hc.pos
  have hop := hc.opaque_headMajor (Nat.zero_lt_of_lt hn)
  have hseq : ¬ (c.layout = .seqMajor ∧ c.isOpaque = true) := by
    rintro ⟨hl, ho⟩
    rw [hop ho] at hl
    cases hl
  refine ⟨hseq, ?_⟩
  have hR : Rewrites c _ fun _ f => move f ⟨n, 0, c.currentPos - n⟩ :=
    rewrites_of_buffers (c.shiftBuffer_eq ⟨n, 0, c.currentPos - n⟩) fun x h hh =>
      headRows_shiftBuffer hc.stored (hc.dtype_buffer x) (hc.size x)
        (show n + (c.currentPos - n) ≤ c.capacity by omega)
        (show 0 + (c.currentPos - n) ≤ c.capacity by omega) hop hh
  have hwf := hR.wf hc
  obtain ⟨kb, vb, -, -, he⟩ := hR.frame
  have hk : c.shiftBuffer ⟨n, 0, c.currentPos - n⟩ c.kBuffer = c.kBuffer.withBytes kb :=
    congrArg kBuffer he
  have hv : c.shiftBuffer ⟨n, 0, c.currentPos - n⟩ c.vBuffer = c.vBuffer.withBytes vb :=
    congrArg vBuffer he
  have hrows := hR.rows
  rw [hk, hv] at hwf hrows ⊢
  have hc₂ : ({ c with
      kBuffer := c.kBuffer.withBytes kb
      vBuffer := c.vBuffer.withBytes vb
      currentPos := c.currentPos - n } : KVCache).WF :=
    ⟨hwf.stored, hwf.dtype, hwf.desc, hwf.size, (Nat.sub_le _ _).trans hpos,
      hwf.hwm, hwf.cap, hstart, fun ho hl => absurd ⟨hl, ho⟩ hseq⟩
  obtain ⟨k, c', hok, hK⟩ := keeps_releaseUnusedPages P hc₂
  refine ⟨k, c', hok, hK.wf, hK.frame, fun x h hh p hlo hp => ?_⟩
  rw [hK.rows x h hh p hlo hp]
  have := congrFun (hrows x h hh) p
  rw [move_of_hits ⟨Nat.zero_le _, by simpa using hp⟩] at this
  simp only [Nat.sub_zero] at this
  rw [Nat.add_comm p, ← this]
  cases x <;> rfl

/-- **`prune_prefix` of a prefix succeeds and drops it.** -/
theorem prunes_prunePrefix (hc : c.WF) {n : ℕ} (hn : n ≤ c.currentPos) :
    ∃ c', c.prunePrefix P n = .ok c' ∧ Prunes c c' n := by
  have hstart := hc.starts
  unfold prunePrefix
  simp only
  by_cases h₀ : n = 0
  · subst h₀
    rw [if_pos rfl]
    exact ⟨c, rfl, hc, rfl, rfl, rfl, rfl, fun _ _ => rfl, fun _ _ _ _ _ _ => rfl⟩
  rw [if_neg h₀, if_neg (by omega)]
  by_cases h₁ : c.currentPos - n = 0
  · rw [if_pos h₁]
    refine ⟨_, rfl, ⟨hc.stored, hc.dtype, hc.desc, hc.size, Nat.zero_le _,
      Nat.zero_le _, hc.cap, ?_, fun _ _ => rfl⟩, rfl, rfl, rfl, h₁.symm, fun h _ => ?_,
      fun x h _ p _ hp => absurd hp (Nat.not_lt_zero p)⟩
    · exact fun h => Nat.le_of_eq (List.getD_nil ..)
    · have := hstart h
      exact (List.getD_nil ..).trans (by omega)
  rw [if_neg h₁]
  have hholes := headStartOf_shrinkHoles hc n
  set c₁ := if c.isRagged = true then c.setHeadStarts (c.headStarts.map (· - n)) else c with hc₁
  have hsame : c₁.WF ∧ c₁.format = c.format ∧ c₁.currentPos = c.currentPos ∧
      c₁.maxSeqLen = c.maxSeqLen ∧ c₁.memory = c.memory ∧ ∀ x h, c₁.rowsOf x h = c.rowsOf x h := by
    rw [hc₁]
    split_ifs
    · exact ⟨hc.setHeadStarts _, rfl, rfl, rfl, rfl, fun x h => by cases x <;> rfl⟩
    · exact ⟨hc, rfl, rfl, rfl, rfl, fun _ _ => rfl⟩
  obtain ⟨hwf, hfmt, hpos, hmax, hmem, hrows⟩ := hsame
  have hheads : c₁.kvHeads = c.kvHeads := congrArg Format.kvHeads hfmt
  obtain ⟨hno, k, c', hok, hwf', hframe, hrows'⟩ := prunes_shift_release (P := P)
    (n := n) hwf (by omega) fun h => by have := hstart h; rw [hholes, hpos]; split_ifs <;> omega
  have hno' : ¬ (c.layout = .seqMajor ∧ c.isOpaque = true) := by
    rwa [isOpaque_of_format hfmt, show c₁.layout = c.layout from congrArg Format.layout hfmt] at hno
  rw [hpos] at hok
  rw [if_neg hno', hok]
  have hstarts' : ∀ h, c'.headStartOf h = c₁.headStartOf h := by
    intro h
    unfold headStartOf
    rw [show c'.headStart = c₁.headStart from congrArg Frame.headStart hframe]
  refine ⟨c', rfl, hwf', (congrArg Frame.format hframe).trans hfmt,
    (congrArg Frame.maxSeqLen hframe).trans hmax,
    (congrArg Frame.dynamic hframe).trans (congrArg Option.isSome hmem), ?_, fun h hh => ?_, ?_⟩
  · rw [show c'.currentPos = c₁.currentPos - n from congrArg Frame.currentPos hframe, hpos]
  · rw [hstarts', hholes, if_pos hh]
  · intro x h hh p hlo hp
    rw [← hrows]
    refine hrows' x h (hheads ▸ hh) p (hstarts' h ▸ hlo) ?_
    rwa [show c'.currentPos = c₁.currentPos - n from congrArg Frame.currentPos hframe] at hp

end Prune

end KVCache

end ArgusEngine
