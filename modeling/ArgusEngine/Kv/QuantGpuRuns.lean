import ArgusEngine.Kv.QuantGpuFlush

/-!
# Runs of a quantized-window cache on a device

* `Held`, `Sized`: what holds between two calls, and the room in the block buffers;
* `Next`: what a call on a healthy device does to it, `Ends`: how a call stops;
* **`after_updateGpu`**: an update keeps it;
* **`after_assembleViewGpu`**, **`after_getViewGpu`**: the view shows every token.
-/

namespace ArgusEngine

open CellArray FlatMem Effects

variable {V H : Type}

namespace GpuQuantCache

variable {c c' : GpuQuantCache V H} {codec : GpuCodec V H}

/-! ## The state between two calls -/

/-- What holds between two calls, whatever widths the cache went through. -/
structure Held (c : GpuQuantCache V H) : Prop where
  total_le : c.q2Tokens + c.resPos ≤ c.maxSeqLen
  resPos_le : c.resPos ≤ c.resCap
  q2_le : c.q2Tokens ≤ c.slab.attnCap
  attnShape : AttnShape c
  resShape : ResShape c
  sixteen : c.bits = .sixteen → c.q2Tokens = 0 ∧ c.resCap = c.maxSeqLen ∧
    (∀ x, c.gpuQ2Blocks x = 0) ∧ ∀ x, c.slab.q2 x = none
  blocks : ∀ w, c.bits = .quantized w → ∀ x, ∃ q, c.slab.q2 x = some q
  /-- The device residual is there, unless `max_seq_len` is no more than one group. -/
  residual : 32 < c.maxSeqLen → ∀ x, (c.slab.res x).isSome

/-- The block buffers are sized for width `a`, and the counts are those of the flushed tokens. -/
structure Sized (a : QuantBits) (c : GpuQuantCache V H) : Prop where
  inside : Inside c
  aligned : ∀ w, c.bits = .quantized w → (32 ∣ c.resCap ∧ c.resCap ∣ c.q2Tokens) ∨
    (c.resCap < 32 ∧ c.q2Tokens = 0)
  width : ∀ w, c.bits = .quantized w → w.blockBytes ≤ a.blockBytes
  room : ∀ w, c.bits = .quantized w → ∀ x q, c.slab.q2 x = some q →
    c.blockCount x c.maxSeqLen * a.blockBytes ≤ q.length
  counts : ∀ w, c.bits = .quantized w → ∀ x, c.gpuQ2Blocks x = c.blockCount x c.q2Tokens

/-- What a call on a healthy device does to the state between two calls. -/
structure Next (c c' : GpuQuantCache V H) : Prop where
  frame : Frame c c'
  held : Held c'
  sized : ∀ a, Sized a c → Sized a c'

theorem blockCount_mono (c : GpuQuantCache V H) (x : Side) {m n : ℕ} (h : m ≤ n) :
    c.blockCount x m ≤ c.blockCount x n := by
  cases x with
  | key => exact Nat.mul_le_mul_right _ (Nat.mul_le_mul_right _ (Nat.div_le_div_right h))
  | value => exact Nat.mul_le_mul_right _ (Nat.mul_le_mul_right _ h)

theorem Frame.blockCount_eq (h : Frame c c') (x : Side) (n : ℕ) :
    c'.blockCount x n = c.blockCount x n := by
  cases x <;> simp only [blockCount, h.kvHeads, h.headDim]

theorem blockCount_add (c : GpuQuantCache V H) (x : Side) {m F : ℕ} (hm : 32 ∣ m) :
    c.blockCount x m + c.newBlocks F (F / 32) x = c.blockCount x (m + F) := by
  cases x with
  | key =>
    obtain ⟨k, rfl⟩ := hm
    simp only [blockCount, newBlocks]
    rw [Nat.mul_add_div (by decide), Nat.mul_div_cancel_left k (by decide),
      Nat.add_mul, Nat.add_mul]
  | value =>
    simp only [blockCount, newBlocks]
    ring

theorem Sized.dvd {a : QuantBits} {w : QuantBits} (h : Sized a c) (hbits : c.bits = .quantized w) :
    32 ∣ c.q2Tokens := by
  rcases h.aligned w hbits with ⟨h₁, h₂⟩ | ⟨-, h₀⟩
  · exact h₁.trans h₂
  · exact h₀ ▸ dvd_zero 32

theorem hasRoom_of_le {a w : QuantBits} {F : ℕ} (hwidth : w.blockBytes ≤ a.blockBytes)
    (hroom : ∀ x q, c.slab.q2 x = some q → c.blockCount x c.maxSeqLen * a.blockBytes ≤ q.length)
    (hcounts : ∀ x, c.gpuQ2Blocks x = c.blockCount x c.q2Tokens) (hdvd : 32 ∣ c.q2Tokens)
    (hF : c.q2Tokens + F ≤ c.maxSeqLen) : HasRoom w (c.newBlocks F (F / 32)) c := by
  intro x q hq
  rw [hcounts x, blockCount_add c x hdvd]
  calc c.blockCount x (c.q2Tokens + F) * w.blockBytes
      ≤ c.blockCount x c.maxSeqLen * a.blockBytes := Nat.mul_le_mul (blockCount_mono c x hF) hwidth
    _ ≤ q.length := hroom x q hq

/-! ## Appending tokens -/

theorem len_gatherRows {input : SeqTensor V} {r r' : Cells V} (h : c.gatherRows input r = some r') :
    r'.len = r.len := by
  refine foldlM_keeps (I := fun b : Cells V => b.len = r.len) (fun s _ b b' hb hs => ?_) h rfl
  exact foldlM_keeps (I := fun b : Cells V => b.len = r.len)
    (fun h _ b b' hb hc => (len_of_copyFrom hc).trans hb) hs hb

variable {there : Prop}

theorem moves_unwrap {α : Type} {o : Option α} (hthere : there → o.isSome) :
    Moves Steady (fun e => there → e ≠ .missing) (unwrap o) c := by
  cases o with
  | none => exact moves_throw fun h => absurd (hthere h) Bool.false_ne_true
  | some x => exact moves_pure x

theorem moves_gatherUpdate {x : Side} {input : SeqTensor V}
    (hthere : there → (c.slab.res x).isSome) :
    Moves Steady (fun e => there → e ≠ .missing) (gatherUpdate healthy x input) c := by
  refine Moves.get_bind ?_
  simp only [Moves, after_bind, after_unwrap, after_request_healthy, after_orPanic, after_modify]
  refine ⟨fun r hr => ⟨fun r' h => steady_setRes hr (len_gatherRows h), fun _ =>
    ⟨Std.Refl.refl c, fun _ hm => by cases hm⟩⟩,
    fun hnone => ⟨Std.Refl.refl c, fun h => ?_⟩⟩
  have hsome := hthere h
  rw [hnone] at hsome
  cases hsome

theorem moves_copyRow {x : Side} {input : Cells V} {s t h : ℕ}
    (hthere : there → (c.slab.res x).isSome) :
    Moves Steady (fun e => there → e ≠ .missing) (copyRow healthy x input s t h) c := by
  refine Moves.get_bind ?_
  simp only [Moves, copySlice, after_bind, after_unwrap, after_request_healthy,
    after_orErr, after_modify]
  refine ⟨fun r hr => ⟨fun r' h => steady_setRes hr (len_of_copyFrom h), fun _ =>
    ⟨Std.Refl.refl c, fun _ hm => by cases hm⟩⟩,
    fun hnone => ⟨Std.Refl.refl c, fun h => ?_⟩⟩
  have hsome := hthere h
  rw [hnone] at hsome
  cases hsome

theorem Kept.isSome_res (h : Kept c c') (x : Side) :
    (c'.slab.res x).isSome = (c.slab.res x).isSome := by
  rw [← Option.isSome_map (f := Cells.len), h.res x, Option.isSome_map]

/-- A batch only changes the contents of the residual. -/
theorem moves_writeBatch {newK newV : SeqTensor V} {written batch : ℕ}
    (hthere : there → ∀ x, (c.slab.res x).isSome) :
    Moves Steady (fun e => there → e ≠ .missing)
      (writeBatch healthy newK newV written batch) c := by
  have hlater : ∀ {c'}, Steady c c' → ∀ x, there → (c'.slab.res x).isSome := by
    intro c' hc x h
    rw [hc.isSome_res x]
    exact hthere h x
  refine Moves.get_bind ?_
  split_ifs
  · refine (moves_unwrap fun h => hthere h .key).bind fun _ c₁ h₁ => ?_
    refine (moves_unwrap fun h => hthere h .value).bind fun _ c₂ h₂ => ?_
    have h₁₂ : Steady c c₂ := IsTrans.trans _ _ _ h₁ h₂
    refine (moves_gatherUpdate (hlater h₁₂ .key)).bind fun _ c₃ h₃ => ?_
    exact moves_gatherUpdate (hlater (IsTrans.trans _ _ _ h₁₂ h₃) .value)
  · refine Moves.forM fun s _ c₁ h₁ => Moves.forM fun h _ c₂ h₂ => ?_
    have h₁₂ : Steady c c₂ := IsTrans.trans _ _ _ h₁ h₂
    refine (moves_copyRow (hlater h₁₂ .key)).bind fun _ c₃ h₃ => ?_
    exact moves_copyRow (hlater (IsTrans.trans _ _ _ h₁₂ h₃) .value)

theorem Held.steady (h : Held c) (hs : Steady c c') : Held c' where
  total_le := by rw [hs.q2Tokens, hs.resPos, hs.maxSeqLen]; exact h.total_le
  resPos_le := by rw [hs.resPos, hs.resCap]; exact h.resPos_le
  q2_le := by rw [hs.q2Tokens]; exact h.q2_le.trans hs.attnCap
  attnShape := hs.attnShape h.attnShape
  resShape := h.resShape.kept hs.toKept
  sixteen := by
    rw [hs.bits, hs.q2Tokens, hs.resCap, hs.maxSeqLen, hs.gpuQ2Blocks, hs.sameQ2]; exact h.sixteen
  blocks := by rw [hs.bits, hs.sameQ2]; exact h.blocks
  residual := by
    intro hmax x
    rw [hs.isSome_res x]
    exact h.residual (hs.maxSeqLen ▸ hmax) x

theorem Sized.steady {a : QuantBits} (h : Sized a c) (hs : Steady c c') : Sized a c' where
  inside := by unfold Inside; rw [hs.uploads]; exact h.inside
  aligned := by rw [hs.bits, hs.q2Tokens, hs.resCap]; exact h.aligned
  width := by rw [hs.bits]; exact h.width
  room := by
    intro w hw x q hq
    rw [hs.blockCount_eq, hs.maxSeqLen]
    exact h.room w (hs.bits ▸ hw) x q (hs.sameQ2 ▸ hq)
  counts := by
    intro w hw x
    rw [hs.gpuQ2Blocks, hs.blockCount_eq, hs.q2Tokens]
    exact h.counts w (hs.bits ▸ hw) x

theorem Next.of_steady (h : Held c) (hs : Steady c c') : Next c c' :=
  ⟨hs.toFrame, h.steady hs, fun _ ha => ha.steady hs⟩

theorem Next.trans {c'' : GpuQuantCache V H} (h : Next c c') (h' : Next c' c'') : Next c c'' :=
  ⟨IsTrans.trans _ _ _ h.frame h'.frame, h'.held, fun a ha => h'.sized a (h.sized a ha)⟩

/-- How a call stops: on a missing buffer only where the residual may be missing, and with an `Err`
only between two states. -/
def Ends (c : GpuQuantCache V H) (e : GpuFault) (c' : GpuQuantCache V H) : Prop :=
  (e = .missing → 0 < c.maxSeqLen ∧ c.maxSeqLen ≤ 32) ∧ (e.isErr = true → Next c c')

theorem Ends.of_next {c₁ : GpuQuantCache V H} {e : GpuFault} (h : Next c c₁) (he : Ends c₁ e c') :
    Ends c e c' :=
  ⟨fun hm => by rw [← h.frame.maxSeqLen]; exact he.1 hm, fun hm => h.trans (he.2 hm)⟩

theorem ends_of_moves {e : GpuFault} (h : Held c) (hs : Steady c c') (hpos : 0 < c.maxSeqLen)
    (he : 32 < c.maxSeqLen → e ≠ .missing) : Ends c e c' :=
  ⟨fun hm => ⟨hpos, Nat.le_of_not_lt fun hlt => he hlt hm⟩, fun _ => .of_steady h hs⟩

theorem held_of_kept {w : QuantBits} (h : Held c) (hbits : c.bits = .quantized w) (hk : Kept c c') :
    Held c' where
  total_le := by rw [hk.q2Tokens, hk.resPos, hk.maxSeqLen]; exact h.total_le
  resPos_le := by rw [hk.resPos, hk.resCap]; exact h.resPos_le
  q2_le := by rw [hk.q2Tokens]; exact h.q2_le.trans hk.attnCap
  attnShape := hk.attnShape h.attnShape
  resShape := h.resShape.kept hk
  sixteen := fun h16 => by rw [hk.bits, hbits] at h16; cases h16
  blocks := fun w' hw' x => by
    obtain ⟨q, hq⟩ := h.blocks w hbits x
    obtain ⟨q', hq', -⟩ := hk.exists_q2 hq
    exact ⟨q', hq'⟩
  residual := fun hmax x => by
    rw [hk.isSome_res x]
    exact h.residual (hk.maxSeqLen ▸ hmax) x

theorem Flushed.resShape {F : ℕ} (hf : Flushed F c c') (h : ResShape c) : ResShape c' := by
  have hsome : ∀ x, (c'.slab.res x).isSome = (c.slab.res x).isSome := by
    intro x
    rw [← Option.isSome_map (f := Cells.len), hf.res x, Option.isSome_map]
  refine ⟨fun x r hr => ?_, fun x y hx => ?_⟩
  · have hx := hf.res x
    rw [hr, Option.map_some] at hx
    obtain ⟨r₀, hr₀, hlen⟩ := Option.map_eq_some_iff.mp hx.symm
    rw [hf.kvHeads, hf.resCap, hf.headDim, ← h.len x r₀ hr₀, hlen]
  · rw [hsome y]
    exact h.both x y (by rw [← hsome x]; exact hx)

theorem Flushed.exists_q2 {F : ℕ} (hf : Flushed F c c') {x : Side} {q : List UInt8}
    (hq : c.slab.q2 x = some q) : ∃ q', c'.slab.q2 x = some q' ∧ q'.length = q.length := by
  have hx := hf.q2 x
  rw [hq, Option.map_some] at hx
  exact Option.map_eq_some_iff.mp hx

/-- **A full residual is flushed**: the tokens are those of `res_cap`, or none. -/
theorem next_of_flushed {w : QuantBits} (h : Held c) (hbits : c.bits = .quantized w)
    (hfull : c.resPos = c.resCap) (hf : Flushed c.flushTokens c c') : Next c c' where
  frame := hf.toFrame
  held :=
    { total_le := by
        have := h.total_le
        have : c.flushTokens ≤ c.resPos := Nat.div_mul_le_self _ _
        rw [hf.q2Tokens, hf.resPos, hf.maxSeqLen]
        omega
      resPos_le := by
        have := h.resPos_le
        rw [hf.resPos, hf.resCap]
        omega
      q2_le := by rw [hf.q2Tokens]; exact hf.fits h.q2_le
      attnShape := hf.attnShape
      resShape := hf.resShape h.resShape
      sixteen := fun h16 => by rw [hf.bits, hbits] at h16; cases h16
      blocks := fun w' hw' x => by
        obtain ⟨q, hq⟩ := h.blocks w hbits x
        obtain ⟨q', hq', -⟩ := hf.exists_q2 hq
        exact ⟨q', hq'⟩
      residual := fun hmax x => by
        rw [← Option.isSome_map (f := Cells.len), hf.res x, Option.isSome_map]
        exact h.residual (hf.maxSeqLen ▸ hmax) x }
  sized := fun a ha =>
    { inside := hf.inside ha.inside
      aligned := fun w' _ => by
        rw [hf.resCap, hf.q2Tokens]
        rcases ha.aligned w hbits with ⟨h₁, h₂⟩ | ⟨h₁, h₂⟩
        · have hF : c.flushTokens = c.resCap := by
            rw [flushTokens, hfull, Nat.div_mul_cancel h₁]
          exact .inl ⟨h₁, by rw [hF]; exact Nat.dvd_add_self_right.mpr h₂⟩
        · have hF : c.flushTokens = 0 := by
            rw [flushTokens, hfull, Nat.div_eq_of_lt h₁, Nat.zero_mul]
          exact .inr ⟨h₁, by rw [hF, h₂]⟩
      width := by rw [hf.bits]; exact ha.width
      room := fun w' hw' x q' hq' => by
        obtain ⟨q, hq⟩ := h.blocks w hbits x
        obtain ⟨q'', hq'', hlen⟩ := hf.exists_q2 hq
        obtain rfl := Option.some.inj (hq''.symm.trans hq')
        rw [hf.blockCount_eq, hf.maxSeqLen, hlen]
        exact ha.room w hbits x q hq
      counts := fun w' hw' x => by
        rw [hf.gpuQ2Blocks, ha.counts w hbits x, blockCount_add c x (ha.dvd hbits),
          hf.blockCount_eq, hf.q2Tokens] }

theorem next_advance (h : Held c) {n : ℕ} (htotal : c.q2Tokens + c.resPos + n ≤ c.maxSeqLen)
    (hcap : c.resPos + n ≤ c.resCap) : Next c { c with resPos := c.resPos + n } where
  frame := ⟨rfl, rfl, rfl, rfl⟩
  held :=
    { total_le := by rw [← Nat.add_assoc]; exact htotal
      resPos_le := hcap
      q2_le := h.q2_le
      attnShape := ⟨h.attnShape.len, h.attnShape.exists_of_pos⟩
      resShape := ⟨h.resShape.len, h.resShape.both⟩
      sixteen := h.sixteen, blocks := h.blocks, residual := h.residual }
  sized := fun _ ha => ⟨ha.inside, ha.aligned, ha.width, ha.room, ha.counts⟩

variable [Zero V] [Zero H]

theorem after_makeRoom (h : Held c) (hroom : c.q2Tokens + c.resPos < c.maxSeqLen) :
    After (onlyIf (c.resPos ≥ c.resCap) (flushResidualGpu codec healthy))
      (fun _ c' => Next c c' ∧ c'.q2Tokens + c'.resPos = c.q2Tokens + c.resPos) (Ends c) c := by
  rw [after_onlyIf]
  refine ⟨fun hge => ?_, fun _ => ⟨.of_steady h (Std.Refl.refl c), rfl⟩⟩
  have hfull : c.resPos = c.resCap := Nat.le_antisymm h.resPos_le hge
  cases hbits : c.bits with
  | sixteen =>
    obtain ⟨hq2, hcap, -⟩ := h.sixteen hbits
    omega
  | quantized w =>
    refine (after_flushResidualGpu hbits h.attnShape h.resShape (h.blocks w hbits)
      h.total_le h.resPos_le).mono (fun _ c' hf => ⟨next_of_flushed h hbits hfull hf, ?_⟩)
        fun e c' he => ⟨fun hm => absurd hm he.1, fun hm => ?_⟩
    · have : c.flushTokens ≤ c.resPos := Nat.div_mul_le_self _ _
      rw [hf.q2Tokens, hf.resPos]
      omega
    · obtain ⟨hno, hk⟩ := he.2 hm
      refine ⟨hk.toFrame, held_of_kept h hbits hk, fun a ha => absurd ?_ hno⟩
      have hF : c.flushTokens / 32 = c.resPos / 32 := Nat.mul_div_cancel _ (by decide)
      have hle : c.flushTokens ≤ c.resPos := Nat.div_mul_le_self _ _
      rw [← hF]
      exact hasRoom_of_le (ha.width w hbits) (ha.room w hbits) (ha.counts w hbits) (ha.dvd hbits)
        (by have := h.total_le; omega)

/-- **The loop of `update_gpu`** keeps it, with room for the rest of the tokens. -/
theorem after_updateLoop {newK newV : SeqTensor V} (passes written : ℕ) (h : Held c)
    (hfit : c.q2Tokens + c.resPos + (newK.tokens - written) ≤ c.maxSeqLen) :
    After (updateLoop codec healthy newK newV passes written) (fun _ c' => Next c c')
      (Ends c) c := by
  induction passes generalizing c written with
  | zero =>
    rw [updateLoop, after_ite]
    exact ⟨fun _ => ⟨nofun, nofun⟩, fun _ => .of_steady h (Std.Refl.refl c)⟩
  | succ passes ih =>
    rw [updateLoop, after_ite]
    refine ⟨fun hlt => ?_, fun _ => .of_steady h (Std.Refl.refl c)⟩
    rw [after_bind, after_get]
    refine (after_makeRoom h (by omega)).bind fun _ c₁ h₁ => ?_
    obtain ⟨hnext, htotal⟩ := h₁
    rw [after_bind, after_get]
    have hmax := hnext.frame.maxSeqLen
    refine (After.mono (moves_writeBatch hnext.held.residual) (fun _ _ hs => hs) fun e c' he =>
      Ends.of_next hnext (ends_of_moves hnext.held he.1 (by omega) he.2)).bind fun _ c₂ h₂ => ?_
    rw [after_bind, after_modify]
    have hheld₂ := hnext.held.steady h₂
    have hadvance := next_advance (n := min (newK.tokens - written) (c₁.resCap - c₁.resPos)) hheld₂
      (by rw [h₂.q2Tokens, h₂.resPos, h₂.maxSeqLen]; omega)
      (by rw [h₂.resPos, h₂.resCap]; have := hnext.held.resPos_le; omega)
    have hto := (hnext.trans (.of_steady hnext.held h₂)).trans hadvance
    refine (ih _ hadvance.held ?_).mono (fun _ _ hn => hto.trans hn) fun e c' he =>
      Ends.of_next hto he
    change c₂.q2Tokens + (c₂.resPos + min (newK.tokens - written) (c₁.resCap - c₁.resPos)) +
      _ ≤ c₂.maxSeqLen
    rw [h₂.q2Tokens, h₂.resPos, h₂.maxSeqLen]
    omega

/-- **`update`** keeps what holds between two calls. -/
theorem after_updateGpu {newK newV : SeqTensor V} (h : Held c) :
    After (updateGpu codec healthy newK newV) (fun _ c' => Next c c') (Ends c) c := by
  rw [updateGpu, after_bind, after_get, after_ite]
  refine ⟨fun _ => ⟨nofun, fun _ => .of_steady h (Std.Refl.refl c)⟩, fun hle =>
    after_updateLoop _ _ h ?_⟩
  unfold QuantizedRecentWindowCache.totalTokens at hle
  omega

/-! ## The view -/

omit [Zero V] [Zero H] in
theorem len_scatterRows {res : Cells V} {attn attn' : Cells H}
    (h : c.scatterRows codec res attn = some attn') : attn'.len = attn.len := by
  refine foldlM_keeps (I := fun b : Cells H => b.len = attn.len) (fun h _ b b' hb hs => ?_) h rfl
  exact foldlM_keeps (I := fun b : Cells H => b.len = attn.len)
    (fun t _ b b' hb hc => (len_of_copyFrom hc).trans hb) hs hb

omit [Zero V] [Zero H] in
theorem scatterRows_isSome {res : Cells V} {attn : Cells H} {cap : ℕ} (hpos : c.resPos ≤ c.resCap)
    (hres : res.len = c.kvHeads * c.resCap * c.headDim)
    (hattn : attn.len = cap * c.kvHeads * c.headDim) (hcap : c.q2Tokens + c.resPos ≤ cap) :
    ∃ attn', c.scatterRows codec res attn = some attn' := by
  have hstep : ∀ h ∈ List.range c.kvHeads, ∀ t ∈ List.range c.resPos, ∀ b : Cells H,
    b.len = attn.len →
      ∃ b', b.copyFrom (c.attnIdx (c.q2Tokens + t) h 0) c.headDim ⟨res.len, codec.narrow ∘ res.cell⟩
        (h * c.resCap * c.headDim + t * c.headDim) = some b' ∧ b'.len = attn.len := by
    intro h hh t ht b hb
    have hh' := List.mem_range.mp hh
    have ht' := List.mem_range.mp ht
    refine ⟨_, if_pos ⟨?_, ?_⟩, hb⟩
    · rw [hb, hattn]
      exact flat_row_le _ (by omega) hh'
    · change _ ≤ res.len
      rw [hres]
      exact flat_row_le _ hh' (by omega)
  obtain ⟨attn', hscatter, -⟩ := foldlM_isSome (I := fun b : Cells H => b.len = attn.len)
    (fun h hh b hb => foldlM_isSome (hstep h hh) hb) rfl
  exact ⟨attn', hscatter⟩

/-- The value of a token in the view: of the attention buffer for a flushed token, else of the
residual. -/
def viewCell (codec : GpuCodec V H) (c : GpuQuantCache V H) (x : Side) (t h ch : ℕ) : Option H :=
  if t < c.q2Tokens then (c.slab.attn x).map fun a => a.cell (c.attnIdx t h ch)
  else (c.slab.res x).map fun r =>
    codec.narrow (r.cell (h * c.resCap * c.headDim + (t - c.q2Tokens) * c.headDim + ch))

omit [Zero V] [Zero H] in
theorem cell_scatterRows {res : Cells V} {attn attn' : Cells H}
    (h : c.scatterRows codec res attn = some attn') : ∀ t h ch, h < c.kvHeads → ch < c.headDim →
    attn'.cell (c.attnIdx t h ch) =
      if c.q2Tokens ≤ t ∧ t < c.q2Tokens + c.resPos then
        codec.narrow (res.cell (h * c.resCap * c.headDim + (t - c.q2Tokens) * c.headDim + ch))
      else attn.cell (c.attnIdx t h ch) := by
  have hw := Writes.foldlM (f := unflatten c.kvHeads c.headDim fun t h ch =>
      codec.narrow (res.cell (h * c.resCap * c.headDim + (t - c.q2Tokens) * c.headDim + ch)))
    (S := fun h => {p | ∃ t ∈ List.range c.resPos,
      p ∈ Set.Ico (c.attnIdx (c.q2Tokens + t) h 0) (c.attnIdx (c.q2Tokens + t) h 0 + c.headDim)})
    (fun h hh b b' _ hb =>
      Writes.foldlM (fun t ht r r' _ hr => Writes.of_copyFrom hr fun ch hch => ?_) rfl hb)
    rfl h
  · intro t h ch hh hch
    split_ifs with ht
    · rw [hw.hit, QuantizedRecentWindowCache.attnIdx, unflatten_apply _ hh hch]
      refine ⟨h, List.mem_range.mpr hh, t - c.q2Tokens, List.mem_range.mpr (by omega), ?_⟩
      rw [Nat.add_sub_cancel' ht.1, QuantizedRecentWindowCache.attnIdx,
        QuantizedRecentWindowCache.attnIdx, Set.mem_Ico]
      omega
    · refine hw.keep _ ?_
      rintro ⟨h', hh', t', ht', hle, hlt⟩
      obtain ⟨ch', heq⟩ := Nat.exists_eq_add_of_le hle
      -- the two flat indices decode to one token
      have htok := congrArg (unflatten c.kvHeads c.headDim fun t _ _ => t) heq
      rw [QuantizedRecentWindowCache.attnIdx, QuantizedRecentWindowCache.attnIdx, Nat.add_zero,
        unflatten_apply _ hh hch, unflatten_apply _ (List.mem_range.mp hh') (by omega)] at htok
      have := List.mem_range.mp ht'
      omega
  · rw [QuantizedRecentWindowCache.attnIdx, Nat.add_zero,
      unflatten_apply _ (List.mem_range.mp hh) hch, Nat.add_sub_cancel_left]
    rfl

/-- The attention buffers hold the view. -/
structure Assembled (codec : GpuCodec V H) (c c' : GpuQuantCache V H) :
    Prop extends Steady c c' where
  fits : c.q2Tokens + c.resPos ≤ c'.slab.attnCap
  sameRes : c'.slab.res = c.slab.res
  cell : ∀ x a, c'.slab.attn x = some a → ∀ t < c.q2Tokens + c.resPos,
    ∀ h < c.kvHeads, ∀ ch < c.headDim, some (a.cell (c.attnIdx t h ch)) = c.viewCell codec x t h ch

/-- One side holds the view, the other one is as it was. -/
structure Scattered (codec : GpuCodec V H) (x : Side) (c c' : GpuQuantCache V H) :
    Prop extends Steady c c' where
  sameCap : c'.slab.attnCap = c.slab.attnCap
  sameRes : c'.slab.res = c.slab.res
  other : ∀ y, y ≠ x → c'.slab.attn y = c.slab.attn y
  cell : ∀ a a' r, c.slab.attn x = some a → c'.slab.attn x = some a' → c.slab.res x = some r →
    ∀ t h ch, h < c.kvHeads → ch < c.headDim → a'.cell (c.attnIdx t h ch) =
      if c.q2Tokens ≤ t ∧ t < c.q2Tokens + c.resPos then
        codec.narrow (r.cell (h * c.resCap * c.headDim + (t - c.q2Tokens) * c.headDim + ch))
      else a.cell (c.attnIdx t h ch)

omit [Zero V] [Zero H] in
theorem after_scatterResidual {x : Side} (hthere : there → (c.slab.res x).isSome)
    (hattn : (c.slab.attn x).isSome) (hshape : AttnShape c) (hres : ResShape c)
    (hpos : c.resPos ≤ c.resCap) (hcap : c.q2Tokens + c.resPos ≤ c.slab.attnCap) :
    After (scatterResidual codec healthy x)
      (fun _ c' => Scattered codec x c c' ∧ (c.slab.res x).isSome)
      (fun e _ => e = .missing ∧ ¬ there) c := by
  obtain ⟨a, ha⟩ := Option.isSome_iff_exists.mp hattn
  rw [scatterResidual, after_bind, after_get, ha, after_bind, after_unwrap]
  refine ⟨fun r hr => ?_, fun hnone => ⟨rfl, fun h => ?_⟩⟩
  · obtain ⟨a₁, hscatter⟩ : ∃ a₁, c.scatterRows codec r a = some a₁ :=
      scatterRows_isSome hpos (hres.len x r hr) (hshape.len x a ha) hcap
    simp only [after_bind, after_unwrap_some, after_request_healthy, hscatter]
    refine ⟨⟨steady_setAttn ha (len_scatterRows hscatter), rfl, rfl, fun y hy =>
      Function.update_of_ne hy .., fun a₀ a' r₀ ha₀ ha' hr₀ => ?_⟩, by rw [hr]; rfl⟩
    obtain rfl := Option.some.inj (ha.symm.trans ha₀)
    obtain rfl := Option.some.inj (hr.symm.trans hr₀)
    have ha₁ : some a₁ = some a' := (attn_setAttn x a₁ c).symm.trans ha'
    rw [← Option.some.inj ha₁]
    exact cell_scatterRows hscatter
  · have hsome := hthere h
    rw [hnone] at hsome
    cases hsome

omit [Zero V] [Zero H] in
theorem Scattered.cell_of {c₀ : GpuQuantCache V H} {x : Side} (hs : Steady c₀ c)
    (h : Scattered codec x c c') {a a' : Cells H} {r : Cells V} (ha : c.slab.attn x = some a)
    (ha' : c'.slab.attn x = some a') (hr : c.slab.res x = some r) {t k ch : ℕ} (hk : k < c₀.kvHeads)
    (hch : ch < c₀.headDim) : a'.cell (c₀.attnIdx t k ch) =
      if c₀.q2Tokens ≤ t ∧ t < c₀.q2Tokens + c₀.resPos then
        codec.narrow (r.cell (k * c₀.resCap * c₀.headDim + (t - c₀.q2Tokens) * c₀.headDim + ch))
      else a.cell (c₀.attnIdx t k ch) := by
  have hcell := h.cell a a' r ha ha' hr t k ch (hs.kvHeads ▸ hk) (hs.headDim ▸ hch)
  simp only [QuantizedRecentWindowCache.attnIdx, hs.kvHeads, hs.headDim, hs.q2Tokens, hs.resPos,
    hs.resCap] at hcell ⊢
  exact hcell

omit [Zero V] [Zero H] in
theorem Grown.flushed {needed : ℕ} (hg : Grown needed c c') (h : Held c) {x : Side} {a : Cells H}
    (ha : c'.slab.attn x = some a) {t k ch : ℕ} (ht : t < c.q2Tokens) (hk : k < c.kvHeads)
    (hch : ch < c.headDim) : some (a.cell (c.attnIdx t k ch)) = c.viewCell codec x t k ch := by
  have hcap := h.q2_le
  obtain ⟨a₀, ha₀⟩ := h.attnShape.exists_of_pos (by omega) x
  obtain ⟨a', ha', hcell⟩ := hg.cell x a₀ ha₀
  obtain rfl := Option.some.inj (ha.symm.trans ha')
  rw [viewCell, if_pos ht, ha₀, Option.map_some, hcell]
  rw [h.attnShape.len x a₀ ha₀]
  exact flat_lt (by omega) hk hch

omit [Zero V] in
/-- **`assemble_view_gpu`** puts the view into the attention buffers, unless the residual is
missing. -/
theorem after_assembleViewGpu (h : Held c) :
    After (assembleViewGpu codec healthy) (fun _ c' => Assembled codec c c')
    (fun e _ => e = .missing ∧ ¬ (32 < c.maxSeqLen ∨ c.maxSeqLen = 0)) c := by
  rw [assembleViewGpu, after_bind, after_get]
  refine ((after_ensureGpuAttnCapacity h.attnShape h.total_le).mono (fun _ _ hg => hg) fun _ _ hf =>
    hf.elim).bind fun _ c₁ hg => ?_
  have hs := hg.steady
  have hres : c₁.slab.res = c.slab.res := by rw [hg.eq]
  have htotal : c₁.q2Tokens + c₁.resPos = c.q2Tokens + c.resPos := by rw [hs.q2Tokens, hs.resPos]
  have hmax : c.resPos ≤ c.maxSeqLen := by have := h.total_le; omega
  rw [after_onlyIf]
  refine ⟨fun hpos => ?_, fun hzero => ⟨hs, hg.needed_le, hres, fun x a ha t ht k hk ch hch => ?_⟩⟩
  · have hattn : ∀ x, (c₁.slab.attn x).isSome := fun x =>
      Option.isSome_iff_exists.mpr (hg.shape.exists_of_pos (by have := hg.needed_le; omega) x)
    have hthere : ∀ x, 32 < c.maxSeqLen ∨ c.maxSeqLen = 0 → (c₁.slab.res x).isSome := by
      rintro x (hlt | hzero)
      · rw [hres]
        exact h.residual hlt x
      · omega
    have hfits : c₁.q2Tokens + c₁.resPos ≤ c₁.slab.attnCap := htotal ▸ hg.needed_le
    have hpos₁ : c₁.resPos ≤ c₁.resCap := by rw [hs.resPos, hs.resCap]; exact h.resPos_le
    refine (after_scatterResidual (hthere .key) (hattn .key) hg.shape (h.resShape.kept hs.toKept)
      hpos₁ hfits).bind fun _ c₂ hk => ?_
    obtain ⟨hk, hresK⟩ := hk
    have hs₂ : Steady c c₂ := IsTrans.trans _ _ _ hs hk.toSteady
    refine (after_scatterResidual (by rw [hk.sameRes]; exact hthere .value)
      (by rw [hk.other .value (by decide)]; exact hattn .value) (hk.attnShape hg.shape)
        (h.resShape.kept hs₂.toKept)
      (by rw [hk.resPos, hk.resCap]; exact hpos₁)
        (by rw [hk.q2Tokens, hk.resPos, hk.sameCap]; exact hfits)).mono
      (fun _ c₃ hv => ?_) fun _ _ he => he
    obtain ⟨hv, hresV⟩ := hv
    refine ⟨IsTrans.trans _ _ _ hs₂ hv.toSteady, ?_, ?_, fun x a ha t ht k hkv ch hch => ?_⟩
    · rw [hv.sameCap, hk.sameCap]
      exact hg.needed_le
    · rw [hv.sameRes, hk.sameRes, hres]
    · obtain ⟨a₁, ha₁⟩ := Option.isSome_iff_exists.mp (hattn x)
      have hcell : ∃ r, c.slab.res x = some r ∧ a.cell (c.attnIdx t k ch) =
          if c.q2Tokens ≤ t ∧ t < c.q2Tokens + c.resPos then
            codec.narrow (r.cell (k * c.resCap * c.headDim + (t - c.q2Tokens) * c.headDim + ch))
          else a₁.cell (c.attnIdx t k ch) := by
        cases x with
        | key =>
          obtain ⟨r, hr⟩ := Option.isSome_iff_exists.mp hresK
          exact ⟨r, hres ▸ hr, hk.cell_of hs ha₁
            ((hv.other .key (by decide)).symm.trans ha) hr hkv hch⟩
        | value =>
          obtain ⟨r, hr⟩ := Option.isSome_iff_exists.mp hresV
          exact ⟨r, by rw [← hres, ← hk.sameRes]; exact hr,
            hv.cell_of hs₂ ((hk.other .value (by decide)).trans ha₁) ha hr hkv hch⟩
      obtain ⟨r, hr, hcell⟩ := hcell
      by_cases hlt : t < c.q2Tokens
      · rw [hcell, if_neg (by omega)]
        exact hg.flushed h ha₁ hlt hkv hch
      · rw [hcell, if_pos (by omega), viewCell, if_neg hlt, hr, Option.map_some]
  · exact hg.flushed h ha (by omega) hk hch

/-- The value of a token in the views of `get_view`. -/
def GpuView.cell (c : GpuQuantCache V H) (v : GpuView V H) (x : Side) (t h ch : ℕ) :
    Option (V ⊕ H) :=
  match v with
  | .empty => none
  | .residual k v => some (.inl ((x.pick k v).cell (h * c.resCap * c.headDim + t * c.headDim + ch)))
  | .attention k v => some (.inr ((x.pick k v).cell (c.attnIdx t h ch)))

/-- The value `get_view` is to show: of the residual at 16 bits, else of the assembled view. -/
def shown (codec : GpuCodec V H) (c : GpuQuantCache V H) (x : Side) (t h ch : ℕ) : Option (V ⊕ H) :=
  match c.bits with
  | .sixteen =>
    (c.slab.res x).map fun r => .inl (r.cell (h * c.resCap * c.headDim + t * c.headDim + ch))
  | .quantized _ => (c.viewCell codec x t h ch).map .inr

omit [Zero V] in
/-- **`get_view`** shows every token, unless the residual is missing. -/
theorem after_getViewGpu (h : Held c) : After (getViewGpu codec healthy)
    (fun v c' => Steady c c' ∧ ∀ x, ∀ t < c.totalTokens, ∀ k < c.kvHeads, ∀ ch < c.headDim,
      v.cell c x t k ch = c.shown codec x t k ch)
    (fun e _ => e = .missing ∧ 0 < c.maxSeqLen ∧ c.maxSeqLen ≤ 32) c := by
  rw [getViewGpu, after_bind, after_get, after_ite]
  refine ⟨fun hzero => ⟨Std.Refl.refl c, fun x t ht => by rw [hzero] at ht; cases ht⟩,
    fun hne => ?_⟩
  have hmax : 0 < c.maxSeqLen := by
    have := h.total_le
    unfold QuantizedRecentWindowCache.totalTokens at hne
    omega
  have hthere : ∀ x, c.slab.res x = none → c.maxSeqLen ≤ 32 := by
    intro x hnone
    by_contra hlt
    have hsome := h.residual (by omega) x
    rw [hnone] at hsome
    cases hsome
  cases hbits : c.bits with
  | sixteen =>
    simp only [after_bind, after_unwrap, after_pure]
    refine ⟨fun k hk => ⟨fun v hv => ⟨Std.Refl.refl c, fun x t _ h _ ch _ => ?_⟩, fun hnone =>
      ⟨trivial, hmax, hthere _ hnone⟩⟩, fun hnone => ⟨trivial, hmax, hthere _ hnone⟩⟩
    cases x with
    | key => simp only [shown, hbits, hk, Option.map_some]; rfl
    | value => simp only [shown, hbits, hv, Option.map_some]; rfl
  | quantized w =>
    refine ((After.ignored (after_assembleViewGpu h) fun e c' he hc => ?_).mono (fun _ _ ha => ha)
      fun e c' he => ?_).bind fun _ c₁ ha => ?_
    · rw [he.1] at hc
      cases hc
    · exact ⟨he.1.1, hmax, by have := he.1.2; omega⟩
    have hattn : ∀ x, ∃ a, c₁.slab.attn x = some a := fun x =>
      (ha.attnShape h.attnShape).exists_of_pos (by
        have := ha.fits
        unfold QuantizedRecentWindowCache.totalTokens at hne
        omega) x
    obtain ⟨k, hk⟩ := hattn .key
    obtain ⟨v, hv⟩ := hattn .value
    rw [after_bind, after_get, hk, hv]
    refine ⟨ha.toSteady, fun x t ht h hh ch hch => ?_⟩
    rw [shown, hbits]
    change some (Sum.inr _) = (c.viewCell codec x t h ch).map Sum.inr
    cases x with
    | key => rw [← ha.cell .key k hk t ht h hh ch hch]; rfl
    | value => rw [← ha.cell .value v hv t ht h hh ch hch]; rfl

end GpuQuantCache

end ArgusEngine
