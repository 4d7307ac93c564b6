import ArgusEngine.Kv.QuantGpuRuns
import ArgusEngine.Kv.QuantRefine

/-!
# The bit transitions of a quantized-window cache on a device

* **`after_transitionToSixteenGpu`**: all tokens go to a residual on the device;
* **`after_transitionFromSixteenGpu`**: the block buffers are allocated for the new width and the
  residual is flushed;
* **`after_transitionQuantizedGpu`**: the blocks are quantized again, and are cut off where the new
  ones are larger (`overwrite`).
-/

namespace ArgusEngine

open CellArray FlatMem Effects

variable {V H : Type}

namespace GpuQuantCache

variable {c c' : GpuQuantCache V H} {codec : GpuCodec V H}

/-- The dimensions stay. -/
structure Dims (c c' : GpuQuantCache V H) : Prop where
  kvHeads : c'.kvHeads = c.kvHeads
  headDim : c'.headDim = c.headDim
  maxSeqLen : c'.maxSeqLen = c.maxSeqLen

theorem Frame.dims (h : Frame c c') : Dims c c' := ⟨h.kvHeads, h.headDim, h.maxSeqLen⟩

theorem Dims.trans {c'' : GpuQuantCache V H} (h : Dims c c') (h' : Dims c' c'') : Dims c c'' :=
  ⟨h'.kvHeads.trans h.kvHeads, h'.headDim.trans h.headDim, h'.maxSeqLen.trans h.maxSeqLen⟩

theorem Dims.blockCount_eq (h : Dims c c') (x : Side) (n : ℕ) :
    c'.blockCount x n = c.blockCount x n := by
  cases x <;> simp only [blockCount, h.kvHeads, h.headDim]

/-- A call that is no `Err`, and stops on a missing buffer only where the residual may be
missing. -/
def Breaks (c : GpuQuantCache V H) (e : GpuFault) : Prop :=
  (e = .missing → 0 < c.maxSeqLen ∧ c.maxSeqLen ≤ 32) ∧ e.isErr = false

theorem breaks_panic (text : String) : Breaks c (.panic text) := ⟨nofun, rfl⟩

theorem after_writeBuffer {β : Type} {site : Site} {t src : Cells β}
    {Q : Cells β → GpuQuantCache V H → Prop} {E : GpuFault → GpuQuantCache V H → Prop}
    (hQ : src.len = t.len → Q src c) (hE : E (.panic "write_buffer: size mismatch") c) :
    After (writeBuffer healthy site t src) Q E c := by
  by_cases h : src.len = t.len
  · exact (after_writeBuffer_healthy h).mpr (hQ h)
  · rw [writeBuffer, if_neg h]
    exact hE

variable [Zero V] [Zero H]

/-! ## To 16 bits -/

omit [Zero V] in
theorem after_readAttn {x : Side} {n : ℕ} (hshape : AttnShape c)
    (hn : n ≤ c.slab.attnCap * c.kvHeads * c.headDim) :
    After (readAttn codec healthy x n) (fun _ c' => c' = c) (fun _ _ => False) c := by
  rw [readAttn, after_bind, after_get]
  cases ha : c.slab.attn x with
  | none => exact rfl
  | some a =>
    simp only [readBuffer, after_bind, after_request_healthy, after_ite, after_pure]
    exact ⟨fun _ => trivial, fun hlt => absurd ((hshape.len x a ha).symm ▸ hn) hlt⟩

/-- **A quantized width to 16**: all tokens stand in a residual of `max_seq_len` tokens, and there
are no blocks. -/
theorem after_transitionToSixteenGpu (h : Held c) : After (transitionToSixteenGpu codec healthy)
    (fun _ c' => c'.bits = .sixteen ∧ Dims c c' ∧ Held c' ∧ c'.uploads = c.uploads)
      (fun e _ => Breaks c e) c := by
  rw [transitionToSixteenGpu, after_bind, after_get]
  refine ((After.ignored (after_assembleViewGpu h) fun e c' he hc => ?_).mono (fun _ _ ha => ha)
    fun e c' he => ?_).bind fun _ c₁ ha => ?_
  · rw [he.1] at hc
    cases hc
  · exact ⟨fun _ => by have := he.1.2; omega, he.2⟩
  have hn : c.slab.attnCap * c.kvHeads * c.headDim ≤ c₁.slab.attnCap * c₁.kvHeads * c₁.headDim := by
    rw [ha.kvHeads, ha.headDim]
    exact Nat.mul_le_mul_right _ (Nat.mul_le_mul_right _ ha.attnCap)
  have hshape := ha.attnShape h.attnShape
  refine ((after_readAttn hshape hn).mono (fun _ _ h => h) fun _ _ h => h.elim).bind
    fun attnK c' hc => ?_
  rw [hc]
  refine ((after_readAttn hshape hn).mono (fun _ _ h => h) fun _ _ h => h.elim).bind
    fun attnV c' hc => ?_
  rw [hc, after_bind, after_orPanic]
  refine ⟨fun resK _ => ?_, fun _ => breaks_panic _⟩
  rw [after_bind, after_orPanic]
  refine ⟨fun resV _ => ?_, fun _ => breaks_panic _⟩
  rw [after_bind, after_modify, after_bind, after_alloc_healthy, after_bind]
  refine after_writeBuffer (fun hlenK => ?_) (breaks_panic _)
  rw [after_bind, after_alloc_healthy, after_bind]
  refine after_writeBuffer (fun hlenV => ?_) (breaks_panic _)
  rw [after_modify]
  have htotal := h.total_le
  refine ⟨rfl, ⟨ha.kvHeads, ha.headDim, ha.maxSeqLen⟩, ?_, ha.uploads⟩
  exact
    { total_le := by
        change 0 + (c.q2Tokens + c.resPos) ≤ c₁.maxSeqLen
        rw [ha.maxSeqLen]
        omega
      resPos_le := by
        change c.q2Tokens + c.resPos ≤ c₁.maxSeqLen
        rw [ha.maxSeqLen]
        exact htotal
      q2_le := Nat.zero_le _
      attnShape := ⟨nofun, nofun⟩
      resShape := by
        refine ⟨fun x r hr => ?_, fun _ _ _ => rfl⟩
        change r.len = c₁.kvHeads * c₁.maxSeqLen * c₁.headDim
        rw [← Option.some.inj hr, ha.kvHeads, ha.maxSeqLen, ha.headDim]
        cases x
        · exact hlenK
        · exact hlenV
      sixteen := fun _ => ⟨rfl, rfl, fun _ => rfl, fun _ => rfl⟩
      blocks := nofun
      residual := fun _ _ => rfl }

/-! ## From 16 bits -/

omit [Zero V] [Zero H] in
theorem flushed_zero (hshape : AttnShape c) : Flushed 0 c c :=
  ⟨⟨rfl, rfl, rfl, rfl⟩, rfl, rfl, rfl, fun _ => rfl, fun _ => rfl, hshape, id, fun x =>
    by cases x <;> simp [newBlocks],
    id⟩

omit [Zero V] [Zero H] in
/-- A new block buffer has room for all tokens: with a residual of whole groups, or one for all
tokens. -/
theorem blockCount_le_maxBlocks (c : GpuQuantCache V H) {residualSize : ℕ} (hpos : 0 < residualSize)
    (hres : 32 ∣ residualSize ∨ c.maxSeqLen ≤ residualSize) (x : Side) :
    c.blockCount x c.maxSeqLen ≤ maxBlocks c.maxSeqLen residualSize c.kvHeads c.headDim x := by
  have hceil : c.maxSeqLen ≤ (c.maxSeqLen + residualSize - 1) / residualSize * residualSize := by
    have := Nat.lt_div_mul_add (a := c.maxSeqLen + residualSize - 1) hpos
    omega
  cases x with
  | key =>
    refine Nat.mul_le_mul_right _ (Nat.mul_le_mul_right _ ?_)
    rcases hres with hdvd | hle
    · rw [← Nat.mul_div_assoc _ hdvd]
      exact Nat.div_le_div_right hceil
    · rcases Nat.eq_zero_or_pos c.maxSeqLen with hzero | hmax
      · rw [hzero]
        exact Nat.zero_le _
      · calc c.maxSeqLen / 32 ≤ residualSize / 32 := Nat.div_le_div_right hle
          _ ≤ (c.maxSeqLen + residualSize - 1) / residualSize * (residualSize / 32) :=
            Nat.le_mul_of_pos_left _ (Nat.div_pos (by omega) hpos)
  | value =>
    change c.maxSeqLen * c.kvHeads * (c.headDim / 32) ≤
      (c.maxSeqLen + residualSize - 1) / residualSize * c.kvHeads * residualSize * (c.headDim / 32)
    refine Nat.mul_le_mul_right _ ?_
    rw [Nat.mul_right_comm]
    exact Nat.mul_le_mul_right _ hceil

omit [Zero H] in
theorem after_uploadResidual {x : Side} {newElems : ℕ} : After (uploadResidual healthy x newElems)
    (fun _ c' => ∃ r, r.len = newElems ∧ c' = setRes x r c)
      (fun e _ => ∃ text, e = .panic text) c := by
  rw [uploadResidual, after_bind, after_get, after_bind, after_alloc_healthy, after_bind]
  exact after_writeBuffer (fun hlen => ⟨_, hlen, rfl⟩) ⟨_, rfl⟩

omit [Zero H] in
theorem after_emptyResidual {x : Side} {newElems : ℕ} : After (emptyResidual healthy x newElems)
    (fun _ c' => ∃ r, r.len = newElems ∧ c' = setRes x r c)
      (fun e _ => ∃ text, e = .panic text) c := by
  rw [emptyResidual, after_bind, after_alloc_healthy]
  exact ⟨_, rfl, rfl⟩

/-- The residual has room for at most 32 tokens, and is on the device when it had room for more; no
block and no token moved. -/
structure Shrunk (c c' : GpuQuantCache V H) : Prop where
  dims : Dims c c'
  bits : c'.bits = c.bits
  q2Tokens : c'.q2Tokens = c.q2Tokens
  resPos : c'.resPos = c.resPos
  resCap : c'.resCap = min 32 c.resCap
  attn : c'.slab.attn = c.slab.attn
  attnCap : c'.slab.attnCap = c.slab.attnCap
  q2 : c'.slab.q2 = c.slab.q2
  gpuQ2Blocks : c'.gpuQ2Blocks = c.gpuQ2Blocks
  uploads : c'.uploads = c.uploads
  resShape : ResShape c'
  residual : 32 < c.resCap → ∀ x, (c'.slab.res x).isSome

omit [Zero V] [Zero H] in
theorem resShape_of_none (hres : ∀ x, c.slab.res x = none) : ResShape c := by
  refine ⟨fun x r hr => ?_, fun x y hx => ?_⟩
  · rw [hres x] at hr
    cases hr
  · rw [hres x] at hx
    cases hx

omit [Zero V] [Zero H] in
theorem shrunk_setRes (hcap : 32 < c.resCap) {resK resV k v : Cells V}
    (hk : k.len = c.kvHeads * 32 * c.headDim) (hv : v.len = c.kvHeads * 32 * c.headDim) :
    Shrunk c (setRes .value v (setRes .key k { c with resK := resK, resV := resV,
                                                      resCap := 32 })) := by
  refine ⟨⟨rfl, rfl, rfl⟩, rfl, rfl, rfl, (Nat.min_eq_left hcap.le).symm, rfl, rfl, rfl, rfl, rfl,
    ⟨fun x r hr => ?_, fun _ y _ => ?_⟩, fun _ x => ?_⟩
  · cases x with
    | key => exact Option.some.inj hr ▸ hk
    | value => exact Option.some.inj hr ▸ hv
  · cases y <;> rfl
  · cases x <;> rfl

omit [Zero H] in
theorem after_shrinkResidualGpu (hres : ∀ x, c.slab.res x = none) :
    After (onlyIf (32 < c.resCap) (shrinkResidualGpu healthy)) (fun _ c' => Shrunk c c')
    (fun e _ => ∃ text, e = .panic text) c := by
  rw [after_onlyIf]
  refine ⟨fun hcap => ?_, fun hcap =>
    ⟨⟨rfl, rfl, rfl⟩, rfl, rfl, rfl, (Nat.min_eq_right (by omega)).symm, rfl, rfl, rfl,
    rfl, rfl, resShape_of_none hres, fun h => absurd h hcap⟩⟩
  rw [shrinkResidualGpu, after_bind, after_get, after_bind, after_orPanic]
  refine ⟨fun resK _ => ?_, fun _ => ⟨_, rfl⟩⟩
  rw [after_bind, after_orPanic]
  refine ⟨fun resV _ => ?_, fun _ => ⟨_, rfl⟩⟩
  rw [after_bind, after_modify, hres .key, after_ite]
  refine ⟨fun _ => ?_, fun _ => ?_⟩
  · refine after_uploadResidual.bind fun _ c₁ h₁ => ?_
    obtain ⟨k, hk, rfl⟩ := h₁
    refine after_uploadResidual.mono (fun _ c₂ h₂ => ?_) fun _ _ h => h
    obtain ⟨v, hv, rfl⟩ := h₂
    exact shrunk_setRes hcap hk hv
  · refine after_emptyResidual.bind fun _ c₁ h₁ => ?_
    obtain ⟨k, hk, rfl⟩ := h₁
    refine after_emptyResidual.mono (fun _ c₂ h₂ => ?_) fun _ _ h => h
    obtain ⟨v, hv, rfl⟩ := h₂
    exact shrunk_setRes hcap hk hv

/-- The state a 16-bit cache flushes from: the blocks allocated, the device residual released. -/
structure Prepared (w : QuantBits) (c c' : GpuQuantCache V H) : Prop where
  dims : Dims c c'
  bits : c'.bits = .quantized w
  q2Tokens : c'.q2Tokens = 0
  resPos : c'.resPos = c.resPos
  resCap : c'.resCap = c.maxSeqLen
  attnShape : AttnShape c'
  res : ∀ x, c'.slab.res x = none
  q2 : ∀ x, c'.slab.q2 x =
    some (.replicate (bufferBytes c.maxSeqLen (max c.maxSeqLen 32) c.kvHeads c.headDim w x) 0)
  gpuQ2Blocks : ∀ x, c'.gpuQ2Blocks x = 0
  uploads : c'.uploads = c.uploads

omit [Zero V] [Zero H] in
theorem Prepared.blockCount_le {w : QuantBits} (hp : Prepared w c c') {x : Side} {q : List UInt8}
    (hq : c'.slab.q2 x = some q) : c'.blockCount x c'.maxSeqLen * w.blockBytes ≤ q.length := by
  obtain rfl := Option.some.inj ((hp.q2 x).symm.trans hq)
  rw [List.length_replicate, hp.dims.blockCount_eq, hp.dims.maxSeqLen]
  refine le_trans (Nat.mul_le_mul_right _ ?_) (le_max_left _ _)
  exact blockCount_le_maxBlocks c (lt_of_lt_of_le (by decide) (le_max_right _ _))
    (.inr (le_max_left _ _)) x

omit [Zero V] [Zero H] in
/-- After the flush and the return of the residual the cache is between two calls again. -/
theorem Prepared.held {w : QuantBits} {c₁ c₂ : GpuQuantCache V H}
    (hp : Prepared w c c₁) (h : Held c) (h16 : c.bits = .sixteen)
    (hf : Flushed c₁.flushTokens c₁ c₂) (hs : Shrunk c₂ c') : c'.bits = .quantized w ∧ Dims c c' ∧
    Held c' ∧ (Inside c → Sized w c') := by
  obtain ⟨-, hcap, -, -⟩ := h.sixteen h16
  have hpos := h.resPos_le
  have hF : c₁.flushTokens = c.resPos / 32 * 32 := by rw [flushTokens, hp.resPos]
  have hF_le : c.resPos / 32 * 32 ≤ c.resPos := Nat.div_mul_le_self _ _
  have hrest : c.resPos - c.resPos / 32 * 32 < 32 := by
    have := Nat.lt_div_mul_add (a := c.resPos) (b := 32) (by decide)
    omega
  -- the numbers after the flush
  have hbits₂ : c₂.bits = .quantized w := hf.bits.trans hp.bits
  have hq2₂ : c₂.q2Tokens = c.resPos / 32 * 32 := by rw [hf.q2Tokens, hp.q2Tokens, hF, Nat.zero_add]
  have hpos₂ : c₂.resPos = c.resPos - c.resPos / 32 * 32 := by rw [hf.resPos, hp.resPos, hF]
  have hcap₂ : c₂.resCap = c.maxSeqLen := hf.resCap.trans hp.resCap
  have hdims₂ : Dims c c₂ := hp.dims.trans hf.toFrame.dims
  have hfits₂ : c₂.q2Tokens ≤ c₂.slab.attnCap := by
    rw [hf.q2Tokens]
    exact hf.fits (hp.q2Tokens ▸ Nat.zero_le _)
  have hblocks₂ : ∀ x, ∃ q, c₂.slab.q2 x = some q ∧
    c₂.blockCount x c₂.maxSeqLen * w.blockBytes ≤ q.length := by
    intro x
    obtain ⟨q, hq, hlen⟩ := hf.exists_q2 (hp.q2 x)
    refine ⟨q, hq, ?_⟩
    rw [hf.blockCount_eq, hf.maxSeqLen, hlen]
    exact hp.blockCount_le (hp.q2 x)
  have hcounts₂ : ∀ x, c₂.gpuQ2Blocks x = c₂.blockCount x c₂.q2Tokens := by
    intro x
    have hadd := blockCount_add c₁ x (F := c₁.flushTokens) (dvd_zero 32)
    have hzero : c₁.blockCount x 0 = 0 := by cases x <;> simp [blockCount]
    rw [hf.gpuQ2Blocks, hp.gpuQ2Blocks, hf.blockCount_eq, hf.q2Tokens, hp.q2Tokens, ← hadd, hzero]
  have hinside₂ : Inside c → Inside c₂ := fun hin =>
    hf.inside (by unfold Inside; rw [hp.uploads]; exact hin)
  have hcap' : c'.resCap = min 32 c.maxSeqLen := by rw [hs.resCap, hcap₂]
  refine ⟨hs.bits.trans hbits₂, hdims₂.trans hs.dims, ?_, fun hin => ?_⟩
  · exact
      { total_le := by
          rw [hs.q2Tokens, hs.resPos, hs.dims.maxSeqLen, hq2₂, hpos₂, hdims₂.maxSeqLen]; omega
        resPos_le := by rw [hs.resPos, hcap', hpos₂]; omega
        q2_le := by rw [hs.q2Tokens, hs.attnCap]; exact hfits₂
        attnShape := by
          refine ⟨fun x a ha => ?_, fun hlt x => ?_⟩
          · rw [hs.attnCap, hs.dims.kvHeads, hs.dims.headDim]
            exact hf.attnShape.len x a (hs.attn ▸ ha)
          · rw [hs.attn]
            exact hf.attnShape.exists_of_pos (hs.attnCap ▸ hlt) x
        resShape := hs.resShape
        sixteen := fun h16 => by rw [hs.bits, hbits₂] at h16; cases h16
        blocks := fun _ _ x => by
          obtain ⟨q, hq, -⟩ := hblocks₂ x
          exact ⟨q, by rw [hs.q2, hq]⟩
        residual := fun hmax =>
          hs.residual (by rw [hcap₂, ← (hdims₂.trans hs.dims).maxSeqLen]; exact hmax) }
  · exact
      { inside := by unfold Inside; rw [hs.uploads]; exact hinside₂ hin
        aligned := fun _ _ => by
          rw [hcap', hs.q2Tokens, hq2₂]
          by_cases hmax : c.maxSeqLen < 32
          · refine .inr ⟨by omega, ?_⟩
            rw [Nat.div_eq_of_lt (by omega), Nat.zero_mul]
          · rw [Nat.min_eq_left (by omega)]
            exact .inl ⟨dvd_refl _, dvd_mul_left _ _⟩
        width := fun w' hw' => by
          rw [hs.bits, hbits₂] at hw'
          cases hw'
          exact le_rfl
        room := fun _ _ x q hq => by
          obtain ⟨q', hq', hlen⟩ := hblocks₂ x
          rw [hs.q2, hq'] at hq
          obtain rfl := Option.some.inj hq
          rw [hs.dims.blockCount_eq, hs.dims.maxSeqLen]
          exact hlen
        counts := fun _ _ x => by
          rw [hs.gpuQ2Blocks, hs.dims.blockCount_eq, hs.q2Tokens]
          exact hcounts₂ x }

omit [Zero V] [Zero H] in
theorem after_allocateGpuQBlocks {w : QuantBits} (hnone : c.slab.q2 .key = none) :
    After (allocateGpuQBlocks healthy w)
    (fun _ c' => c' = { c with slab := { c.slab with q2 := fun x => some (.replicate
      (bufferBytes c.maxSeqLen (max c.resCap 32) c.kvHeads c.headDim w x) 0) } })
        (fun _ _ => False) c := by
  rw [allocateGpuQBlocks, after_bind, after_get, hnone, after_ite]
  exact ⟨nofun, fun _ => rfl⟩

/-- The flush of a prepared cache: there is room for it. -/
theorem Prepared.after_flush {w : QuantBits} (hp : Prepared w c c') (h : Held c)
    (h16 : c.bits = .sixteen) : After (onlyIf (32 ≤ c'.resPos) (flushResidualGpu codec healthy))
    (fun _ c₂ => Flushed c'.flushTokens c' c₂)
      (fun e _ => Breaks c e) c' := by
  obtain ⟨-, hcap, -, -⟩ := h.sixteen h16
  have hpos := h.resPos_le
  rw [after_onlyIf]
  refine ⟨fun _ => ?_, fun hlt => ?_⟩
  · refine (after_flushResidualGpu hp.bits hp.attnShape (resShape_of_none hp.res)
      (fun x => ⟨_, hp.q2 x⟩) ?_ ?_).mono (fun _ _ hf => hf) fun e _ he =>
      ⟨fun hm => absurd hm he.1, Bool.eq_false_iff.mpr fun hm => (he.2 hm).1 ?_⟩
    · rw [hp.q2Tokens, hp.resPos, hp.dims.maxSeqLen]
      omega
    · rw [hp.resPos, hp.resCap]
      omega
    · have hF : c'.flushTokens / 32 = c'.resPos / 32 := Nat.mul_div_cancel _ (by decide)
      have hle : c'.flushTokens ≤ c'.resPos := Nat.div_mul_le_self _ _
      rw [← hF]
      refine hasRoom_of_le (le_refl w.blockBytes) (fun x q hq => hp.blockCount_le hq) (fun x => ?_)
        (hp.q2Tokens ▸ dvd_zero 32) ?_
      · rw [hp.gpuQ2Blocks, hp.q2Tokens]
        cases x <;> simp [blockCount]
      · rw [hp.q2Tokens, hp.dims.maxSeqLen]
        have := hp.resPos
        omega
  · have hF : c'.flushTokens = 0 := by rw [flushTokens, Nat.div_eq_of_lt (by omega), Nat.zero_mul]
    rw [hF]
    exact flushed_zero hp.attnShape

/-- **16 to a quantized width**: no call fails and there is room for every flush. -/
theorem after_transitionFromSixteenGpu {w : QuantBits} (h : Held c) (h16 : c.bits = .sixteen) :
    After (transitionFromSixteenGpu codec healthy w)
      (fun _ c' => c'.bits = .quantized w ∧ Dims c c' ∧ Held c' ∧ (Inside c → Sized w c'))
        (fun e _ => Breaks c e) c := by
  obtain ⟨hq2, hcap, hcounts, hnone⟩ := h.sixteen h16
  have hres₀ : ResShape (switchBits w c) := ⟨h.resShape.len, h.resShape.both⟩
  rw [transitionFromSixteenGpu, after_bind, after_modify]
  refine (After.mono (moves_readResidual hres₀) (fun _ _ hs => hs) fun e c' he => ?_).bind
    fun _ c₁ h₁ => ?_
  · obtain ⟨text, rfl⟩ := he.2
    exact breaks_panic text
  refine (After.mono (moves_readResidual (hres₀.kept h₁.toKept)) (fun _ _ hs => hs)
    fun e c' he => ?_).bind fun _ c₂ h₂ => ?_
  · obtain ⟨text, rfl⟩ := he.2
    exact breaks_panic text
  have hs : Steady (switchBits w c) c₂ := IsTrans.trans _ _ _ h₁ h₂
  have hshape₂ := hs.attnShape ⟨h.attnShape.len, h.attnShape.exists_of_pos⟩
  have hnone₂ : (releaseResidual c₂).slab.q2 .key = none :=
    (congrFun hs.sameQ2 .key).trans (hnone .key)
  rw [after_bind, after_modify]
  refine ((after_allocateGpuQBlocks hnone₂).mono (fun _ _ h => h) fun _ _ hf =>
    hf.elim).bind fun _ c₃ hc₃ => ?_
  have hcap₂ : c₂.resCap = c.maxSeqLen := hs.resCap.trans hcap
  have hp : Prepared w c c₃ := by
    rw [hc₃]
    refine ⟨⟨hs.kvHeads, hs.headDim, hs.maxSeqLen⟩, hs.bits, hs.q2Tokens.trans hq2,
      hs.resPos, hcap₂, ⟨hshape₂.len, hshape₂.exists_of_pos⟩, fun _ => rfl, fun x => ?_,
      fun x => ?_, hs.uploads⟩
    · change some (List.replicate (bufferBytes c₂.maxSeqLen (max c₂.resCap 32)
        c₂.kvHeads c₂.headDim w x) 0) = _
      rw [hcap₂, hs.maxSeqLen, hs.kvHeads, hs.headDim]
      rfl
    · change c₂.gpuQ2Blocks x = 0
      rw [hs.gpuQ2Blocks]
      exact hcounts x
  rw [after_bind, after_get]
  refine (hp.after_flush h h16).bind fun _ c₄ hf => ?_
  have hres₄ : ∀ x, c₄.slab.res x = none := by
    intro x
    have hx := hf.res x
    rw [hp.res x, Option.map_none, Option.map_eq_none_iff] at hx
    exact hx
  rw [after_bind, after_get]
  refine ((after_shrinkResidualGpu hres₄).mono (fun _ _ h => h) fun e _ he => ?_).bind
    fun _ c₅ hshrunk => ?_
  · obtain ⟨text, rfl⟩ := he
    exact breaks_panic text
  · rw [after_modify]
    exact hp.held h h16 hf ⟨⟨hshrunk.dims.kvHeads, hshrunk.dims.headDim, hshrunk.dims.maxSeqLen⟩,
      hshrunk.bits, hshrunk.q2Tokens, hshrunk.resPos, hshrunk.resCap, hshrunk.attn, hshrunk.attnCap,
      hshrunk.q2, hshrunk.gpuQ2Blocks, hshrunk.uploads,
      ⟨hshrunk.resShape.len, hshrunk.resShape.both⟩, hshrunk.residual⟩

/-! ## Between quantized widths -/

omit [Zero V] [Zero H] in
theorem Frame.newBlocks_eq (h : Frame c c') (flushTokens nGroups : ℕ) :
    c'.newBlocks flushTokens nGroups = c.newBlocks flushTokens nGroups := by
  funext x
  cases x <;> simp only [newBlocks, h.kvHeads, h.headDim]

omit [Zero V] [Zero H] in
theorem mul_newBlocks_le (c : GpuQuantCache V H) (x : Side) {flush r n : ℕ}
    (h : (flush + 1) * r ≤ n) : flush * c.newBlocks r (r / 32) x + c.newBlocks r (r / 32) x ≤
    c.blockCount x n := by
  rw [← Nat.succ_mul]
  cases x with
  | key =>
    have hgroups : (flush + 1) * (r / 32) ≤ n / 32 := by
      rw [Nat.le_div_iff_mul_le (by decide), Nat.mul_assoc]
      exact le_trans (Nat.mul_le_mul_left _ (Nat.div_mul_le_self r 32)) h
    change (flush + 1) * (r / 32 * c.kvHeads * c.headDim) ≤ n / 32 * c.kvHeads * c.headDim
    rw [← Nat.mul_assoc, ← Nat.mul_assoc]
    exact Nat.mul_le_mul_right _ (Nat.mul_le_mul_right _ hgroups)
  | value =>
    change (flush + 1) * (c.kvHeads * r * (c.headDim / 32)) ≤ n * c.kvHeads * (c.headDim / 32)
    rw [← Nat.mul_assoc, ← Nat.mul_assoc, Nat.mul_right_comm (flush + 1)]
    exact Nat.mul_le_mul_right _ (Nat.mul_le_mul_right _ h)

/-- The block buffers begin with these blocks. -/
def Stores (vk vv : List (List UInt8)) (c : GpuQuantCache V H) : Prop :=
  ∀ x q, c.slab.q2 x = some q → (x.pick vk vv).flatten <+: q

/-- Blocks that stand in the buffers were uploaded again. -/
structure Refilled (room : Prop) (c c' : GpuQuantCache V H) : Prop extends Kept c c' where
  same : room → c'.slab.q2 = c.slab.q2
  inside : Inside c → Inside c'

omit [Zero V] [Zero H] in
theorem Refilled.setCounts {room : Prop} (h : Refilled room c c') (counts : Side → ℕ) :
    Refilled room c { c' with gpuQ2Blocks := counts } :=
  ⟨{ h.toKept with attnShape := fun hs => ⟨(h.attnShape hs).len, (h.attnShape hs).exists_of_pos⟩ },
    h.same, h.inside⟩

/-- The blocks the attention buffers are filled from. -/
structure Refills (w : QuantBits) (newQk newQv : QuantizedBlocks (List UInt8))
    (vk vv : List (List UInt8)) (c : GpuQuantCache V H) : Prop where
  bits : c.bits = .quantized w
  attnShape : AttnShape c
  q2 : ∀ x, ∃ q, c.slab.q2 x = some q
  fits : c.q2Tokens ≤ c.slab.attnCap
  keys : BlocksOf w (c.blockCount .key c.q2Tokens) newQk vk
  values : BlocksOf w (c.blockCount .value c.q2Tokens) newQv vv

omit [Zero V] [Zero H] in
theorem blit_part {v : List (List UInt8)} {q : List UInt8} {k s n : ℕ}
    (hsize : ∀ b ∈ v, b.length = k) (hle : s + n ≤ v.length) (hpre : v.flatten <+: q) :
    blit (slice v s n).flatten 0 q (s * k) (slice v s n).flatten.length = q := by
  have hflat : v.flatten.length = v.length * k := by
    rw [List.length_flatten, List.map_congr_left hsize, List.map_const', List.sum_replicate_nat]
  have hin : s * k + n * k ≤ v.flatten.length := by
    rw [hflat, ← Nat.add_mul]
    exact Nat.mul_le_mul_right _ hle
  have hpart : slice v.flatten (s * k) (n * k) = slice q (s * k) (n * k) := by
    refine slice_ext fun i hi => ?_
    obtain ⟨rest, rfl⟩ := hpre
    rw [List.getElem?_append_left (by omega)]
  have hq := hin.trans hpre.length_le
  rw [flatten_slice hsize hle, hpart, length_slice hq, blit_slice_self hq]

omit [Zero H] in
theorem after_reflush {w : QuantBits} {newQk newQv : QuantizedBlocks (List UInt8)}
    {vk vv : List (List UInt8)} {c₀ : GpuQuantCache V H} {flush : ℕ}
    (hr : Refills w newQk newQv vk vv c₀) (h : Refilled (Stores vk vv c₀) c₀ c)
    (hflush : flush < c₀.q2Tokens / c₀.resCap) : After (reflush codec healthy newQk newQv flush)
    (fun _ c' => Refilled (Stores vk vv c₀) c₀ c')
      (Halts (Stores vk vv c₀) c₀) c := by
  have hpos : 0 < c₀.resCap := by
    by_contra hzero
    rw [Nat.eq_zero_of_not_pos hzero, Nat.div_zero] at hflush
    cases hflush
  have hle : (flush + 1) * c₀.resCap ≤ c₀.q2Tokens := (Nat.le_div_iff_mul_le hpos).mp hflush
  have hend := fun x => mul_newBlocks_le c₀ x hle
  obtain ⟨flushQk, hextK, hflushK⟩ := hr.keys.extract (hend .key)
  obtain ⟨flushQv, hextV, hflushV⟩ := hr.values.extract (hend .value)
  have hnew := h.newBlocks_eq c₀.resCap (c₀.resCap / 32)
  rw [reflush, after_bind, after_get]
  simp only [h.resCap, hnew, hextK, hextV, orPanic, pure_bind]
  rw [after_bind, after_modify]
  have hkept := (h.setCounts fun x => flush * c₀.newBlocks c₀.resCap (c₀.resCap / 32) x).toKept
  have hq : ∀ x, ∃ q, c.slab.q2 x = some q := by
    intro x
    obtain ⟨q, hq⟩ := hr.q2 x
    obtain ⟨q', hq', -⟩ := h.exists_q2 hq
    exact ⟨q', hq'⟩
  have hcount : ∀ x, (x.pick vk vv).length = c₀.blockCount x c₀.q2Tokens ∧ ∀ b ∈ x.pick vk vv,
    b.length = w.blockBytes := by
    intro x
    cases x
    · exact ⟨hr.keys.count, hr.keys.size⟩
    · exact ⟨hr.values.count, hr.values.size⟩
  refine (after_uploadAndDequantFlushWith hkept (h.bits.trans hr.bits)
    (hkept.attnShape hr.attnShape) hq hpos ?_ (by rw [← hnew] at hflushK; exact hflushK)
      (by rw [← hnew] at hflushV; exact hflushV) fun hroom x q hx => ?_).bind
    fun _ c' hu => ?_
  · refine le_trans ?_ (hr.fits.trans h.attnCap)
    rw [← Nat.succ_mul]
    exact hle
  · -- the pass ends inside the blocks the buffer begins with
    have hx' : c₀.slab.q2 x = some q := h.same hroom ▸ hx
    have hlen := (hroom x q hx').length_le
    rw [List.length_flatten, List.map_congr_left (hcount x).2, List.map_const',
      List.sum_replicate_nat, (hcount x).1] at hlen
    refine le_trans (Nat.mul_le_mul_right _ ?_) hlen
    rw [hkept.newBlocks_eq]
    exact hend x
  · rw [after_modify]
    refine Refilled.setCounts ⟨hkept.trans hu.toKept, fun hroom => ?_, fun hin =>
      hu.inside (h.inside hin)⟩ _
    funext x
    obtain ⟨q, hx⟩ := hr.q2 x
    have hx' : c.slab.q2 x = some q := h.same hroom ▸ hx
    have hpick : x.pick (slice vk (flush * c₀.newBlocks c₀.resCap (c₀.resCap / 32) .key)
        (c₀.newBlocks c₀.resCap (c₀.resCap / 32) .key))
          (slice vv (flush * c₀.newBlocks c₀.resCap (c₀.resCap / 32) .value)
        (c₀.newBlocks c₀.resCap (c₀.resCap / 32) .value)) = slice (x.pick vk vv)
        (flush * c₀.newBlocks c₀.resCap (c₀.resCap / 32) x)
          (c₀.newBlocks c₀.resCap (c₀.resCap / 32) x) := by
      cases x <;> rfl
    change c'.slab.q2 x = _
    rw [hu.written x q hx', hx, hnew, hpick]
    exact congrArg some (blit_part (hcount x).2 ((hcount x).1 ▸ hend x) (hroom x q hx))

/-- The first `n` blocks of a buffer, quantized again. -/
def requantizedBlocks (codec : GpuCodec V H) (w₀ w : QuantBits) (q : List UInt8) (n : ℕ) :
    List (List UInt8) :=
  (List.range n).map fun i =>
    codec.quantize w (codec.dequantize w₀ (slice q (i * w₀.blockBytes) w₀.blockBytes))

omit [Zero V] [Zero H] in
theorem requantizedBlocks_take {w₀ w : QuantBits} (q : List UInt8) (n : ℕ) :
    requantizedBlocks codec w₀ w (q.take (n * w₀.blockBytes)) n =
      requantizedBlocks codec w₀ w q n := by
  refine List.map_congr_left fun i hi => ?_
  have hi' : (i + 1) * w₀.blockBytes ≤ n * w₀.blockBytes :=
    Nat.mul_le_mul_right _ (List.mem_range.mp hi)
  rw [Nat.succ_mul] at hi'
  have hslice := slice_slice q 0 hi'
  rw [Nat.zero_add] at hslice
  rw [← hslice]
  rfl

omit [Zero V] [Zero H] in
theorem after_requantized {w₀ w : QuantBits} {raw : List UInt8} {n : ℕ} :
    After (requantized codec w₀ w raw n)
    (fun q c' => BlocksOf w n q (requantizedBlocks codec w₀ w raw n) ∧ c' = c)
      (fun e _ => Panics e) c := by
  rw [requantized, after_orPanic]
  refine ⟨fun q h => ⟨?_, rfl⟩, fun _ => ⟨_, rfl⟩⟩
  obtain ⟨new, rfl, hlen, hnew⟩ := QuantizedRecentWindowCache.requantize_eq_some h
  have heq : new = requantizedBlocks codec w₀ w raw n := by
    refine List.ext_getElem? fun i => ?_
    by_cases hi : i < n
    · obtain ⟨b, hb, hget⟩ := hnew i hi
      rw [List.getElem?_map, List.getElem?_range hi] at hb
      rw [hget, requantizedBlocks, List.getElem?_map, List.getElem?_range hi, ← Option.some.inj hb]
      rfl
    · rw [List.getElem?_eq_none (by omega),
        List.getElem?_eq_none (by simp [requantizedBlocks]; omega)]
  refine ⟨congrArg _ heq, by simp [requantizedBlocks], fun b hb => ?_⟩
  obtain ⟨i, -, rfl⟩ := List.mem_map.mp hb
  exact codec.length_quantize w _

omit [Zero V] [Zero H] in
theorem after_readBlocks {x : Side} {n : ℕ} {q : List UInt8} (hq : c.slab.q2 x = some q) :
    After (readBlocks healthy x n) (fun raw c' => raw = q.take n ∧ c' = c)
      (fun e c' => e ≠ .missing ∧ q.length < n ∧ c' = c) c := by
  rw [readBlocks, after_bind, after_get, hq]
  simp only [after_bind, after_request_healthy, after_ite, after_pure, after_throw]
  exact ⟨fun _ => ⟨trivial, trivial⟩, fun hlt => ⟨nofun, Nat.lt_of_not_le hlt, trivial⟩⟩

/-- The contents of a rewritten block buffer. -/
def overwrite (bytes q : List UInt8) : List UInt8 :=
  bytes.take q.length ++ .replicate (q.length - bytes.length) 0

omit [Zero V] [Zero H] in
theorem length_overwrite (bytes q : List UInt8) : (overwrite bytes q).length = q.length := by
  simp only [overwrite, List.length_append, List.length_take, List.length_replicate]
  omega

omit [Zero V] [Zero H] in
theorem prefix_overwrite {bytes q : List UInt8} (h : bytes.length ≤ q.length) :
    bytes <+: overwrite bytes q := by
  rw [overwrite, List.take_of_length_le h]
  exact List.prefix_append ..

omit [Zero V] [Zero H] in
theorem after_rewriteBlocks {x : Side} {bytes q : List UInt8} (hq : c.slab.q2 x = some q) :
    After (rewriteBlocks healthy x bytes)
      (fun _ c' => c' = setQ2 x (overwrite bytes q) c) (fun _ _ => False) c := by
  rw [rewriteBlocks, after_bind, after_get, hq]
  exact rfl

/-- What a transition between quantized widths leaves: the blocks at the new width, where there was
room for them. -/
structure Requantized (codec : GpuCodec V H) (w₀ w : QuantBits)
    (c c' : GpuQuantCache V H) : Prop where
  bits : c'.bits = .quantized w
  dims : Dims c c'
  held : Held c'
  sized : ∀ a, Sized a c → w.blockBytes ≤ a.blockBytes → Sized a c'
  stored : ∀ a, Sized a c → w.blockBytes ≤ a.blockBytes → ∀ x q q', c.slab.q2 x = some q →
    c'.slab.q2 x = some q' →
    (requantizedBlocks codec w₀ w q (c.blockCount x c.q2Tokens)).flatten <+: q'

/-- The state the loop starts from: the blocks rewritten, the width switched. -/
def rewritten (w : QuantBits) (vk vv : List (List UInt8)) (c : GpuQuantCache V H) :
    GpuQuantCache V H :=
  asQuantized w { c with slab := { c.slab with
    q2 := fun x => (c.slab.q2 x).map fun q => overwrite (x.pick vk vv).flatten q } }

omit [Zero V] [Zero H] in
theorem rewritten_eq {w : QuantBits} {vk vv : List (List UInt8)} {qk qv : List UInt8}
    (hk : c.slab.q2 .key = some qk) (hv : c.slab.q2 .value = some qv) :
    asQuantized w (setQ2 .value (overwrite vv.flatten qv)
      (setQ2 .key (overwrite vk.flatten qk) c)) = rewritten w vk vv c := by
  have hq2 : Function.update
    (Function.update c.slab.q2 .key (some (overwrite vk.flatten qk))) .value
      (some (overwrite vv.flatten qv)) = fun x => (c.slab.q2 x).map fun q =>
        overwrite (x.pick vk vv).flatten q := by
    funext x
    cases x with
    | key =>
      rw [Function.update_of_ne (by decide), Function.update_self, hk]
      rfl
    | value =>
      rw [Function.update_self, hv]
      rfl
  rw [rewritten, ← hq2]
  rfl

omit [Zero V] [Zero H] in
theorem held_rewritten {w₀ w : QuantBits} {vk vv : List (List UInt8)} (h : Held c)
    (hbits : c.bits = .quantized w₀) : Held (rewritten w vk vv c) where
  total_le := h.total_le
  resPos_le := h.resPos_le
  q2_le := h.q2_le
  attnShape := ⟨h.attnShape.len, h.attnShape.exists_of_pos⟩
  resShape := ⟨h.resShape.len, h.resShape.both⟩
  sixteen := nofun
  blocks := fun _ _ x => by
    obtain ⟨q, hq⟩ := h.blocks w₀ hbits x
    exact ⟨_, by rw [rewritten]; exact Option.map_eq_some_iff.mpr ⟨q, hq, rfl⟩⟩
  residual := h.residual

omit [Zero V] [Zero H] in
/-- **No block is cut off** where the buffers were sized for blocks at least as large. -/
theorem stores_rewritten {w₀ w a : QuantBits} {vk vv : List (List UInt8)} (h : Held c)
    (hbits : c.bits = .quantized w₀) (hs : Sized a c) (hwidth : w.blockBytes ≤ a.blockBytes)
    (hlen : ∀ x, (x.pick vk vv).flatten.length = c.blockCount x c.q2Tokens * w.blockBytes) :
    Stores vk vv (rewritten w vk vv c) := by
  intro x q hq
  obtain ⟨q₀, hq₀, rfl⟩ := Option.map_eq_some_iff.mp hq
  refine prefix_overwrite ?_
  rw [hlen x]
  calc c.blockCount x c.q2Tokens * w.blockBytes
      ≤ c.blockCount x c.maxSeqLen * a.blockBytes :=
        Nat.mul_le_mul (blockCount_mono c x (by have := h.total_le; omega)) hwidth
    _ ≤ q₀.length := hs.room w₀ hbits x q₀ hq₀

omit [Zero V] [Zero H] in
theorem requantized_of_refilled {w₀ w : QuantBits} {vk vv : List (List UInt8)} (h : Held c)
    (hbits : c.bits = .quantized w₀)
    (hv : ∀ x q, c.slab.q2 x = some q →
    x.pick vk vv = requantizedBlocks codec w₀ w q (c.blockCount x c.q2Tokens)) (hlen :
    ∀ x, (x.pick vk vv).flatten.length = c.blockCount x c.q2Tokens * w.blockBytes) (hr :
    Refilled (Stores vk vv (rewritten w vk vv c)) (rewritten w vk vv c) c') (hcounts :
    ∀ x, c'.gpuQ2Blocks x = c.blockCount x c.q2Tokens) : Requantized codec w₀ w c c' := by
  have hdims : Dims c c' := ⟨hr.kvHeads, hr.headDim, hr.maxSeqLen⟩
  have hcap : c'.resCap = c.resCap := hr.resCap
  have htokens : c'.q2Tokens = c.q2Tokens := hr.q2Tokens
  refine ⟨hr.bits, hdims, held_of_kept (w := w) (held_rewritten h hbits) rfl hr.toKept,
    fun a hs hwidth => ?_, fun a hs hwidth x q q' hq hq' => ?_⟩
  · exact
      { inside := hr.inside hs.inside
        aligned := fun _ _ => by rw [hcap, htokens]; exact hs.aligned w₀ hbits
        width := fun w' hw' => by
          rw [show c'.bits = .quantized w from hr.bits] at hw'
          cases hw'
          exact hwidth
        room := fun _ _ x q' hq' => by
          obtain ⟨q, hq⟩ := h.blocks w₀ hbits x
          obtain ⟨q'', hq'', hlen'⟩ :=
            hr.exists_q2 (x := x) (q := overwrite (x.pick vk vv).flatten q)
              (Option.map_eq_some_iff.mpr ⟨q, hq, rfl⟩)
          obtain rfl := Option.some.inj (hq''.symm.trans hq')
          rw [hlen', length_overwrite, hdims.blockCount_eq, hdims.maxSeqLen]
          exact hs.room w₀ hbits x q hq
        counts := fun _ _ x => by rw [hcounts x, hdims.blockCount_eq, htokens] }
  · have hstores := stores_rewritten h hbits hs hwidth hlen
    rw [← hv x q hq]
    exact hstores x q' (by rw [← hr.same hstores]; exact hq')

/-- How a transition between quantized widths stops: with an `Err` only where blocks of the new
width had no room. -/
def Overruns (w : QuantBits) (c : GpuQuantCache V H) (e : GpuFault)
    (c' : GpuQuantCache V H) : Prop :=
  e ≠ .missing ∧ (e.isErr = true → (∃ w', c'.bits = .quantized w') ∧ Dims c c' ∧ Held c' ∧
    ∀ a, Sized a c → ¬ w.blockBytes ≤ a.blockBytes)

omit [Zero V] [Zero H] in
theorem overruns_panics {w : QuantBits} {e : GpuFault} (h : Panics e) : Overruns w c e c' := by
  obtain ⟨text, rfl⟩ := h
  exact ⟨nofun, nofun⟩

omit [Zero V] [Zero H] in
theorem overruns_read {w₀ w : QuantBits} {e : GpuFault} {x : Side} {q : List UInt8} (h : Held c)
    (hbits : c.bits = .quantized w₀) (hq : c.slab.q2 x = some q) (he : e ≠ .missing)
    (hlt : q.length < c.blockCount x c.q2Tokens * w₀.blockBytes) : Overruns w c e c := by
  refine ⟨he, fun _ => ⟨⟨w₀, hbits⟩, ⟨rfl, rfl, rfl⟩, h, fun a hs _ =>
    absurd hlt (Nat.not_lt.mpr ?_)⟩⟩
  calc c.blockCount x c.q2Tokens * w₀.blockBytes
      ≤ c.blockCount x c.maxSeqLen * a.blockBytes :=
        Nat.mul_le_mul (blockCount_mono c x (by have := h.total_le; omega)) (hs.width w₀ hbits)
    _ ≤ q.length := hs.room w₀ hbits x q hq

omit [Zero V] [Zero H] in
/-- Without flushed tokens only the width changes. -/
theorem requantized_switchBits {w₀ w : QuantBits} (h : Held c) (hbits : c.bits = .quantized w₀)
    (hzero : c.q2Tokens = 0) : Requantized codec w₀ w c (switchBits w c) where
  bits := rfl
  dims := ⟨rfl, rfl, rfl⟩
  held :=
    { total_le := h.total_le, resPos_le := h.resPos_le, q2_le := h.q2_le
      attnShape := ⟨h.attnShape.len, h.attnShape.exists_of_pos⟩
      resShape := ⟨h.resShape.len, h.resShape.both⟩
      sixteen := nofun
      blocks := fun _ _ => h.blocks w₀ hbits
      residual := h.residual }
  sized := fun a hs hwidth =>
    { inside := hs.inside
      aligned := fun _ _ => hs.aligned w₀ hbits
      width := fun w' hw' => by
        cases hw'
        exact hwidth
      room := fun _ _ => hs.room w₀ hbits
      counts := fun _ _ => hs.counts w₀ hbits }
  stored := fun a hs hwidth x q q' hq hq' => by
    have hnone : c.blockCount x c.q2Tokens = 0 := by rw [hzero]; cases x <;> simp [blockCount]
    rw [hnone]
    exact List.nil_prefix

omit [Zero H] in
/-- **One quantized width to another.** -/
theorem after_transitionQuantizedGpu {w₀ w : QuantBits} (h : Held c)
    (hbits : c.bits = .quantized w₀) : After (transitionQuantizedGpu codec healthy w₀ w)
    (fun _ c' => Requantized codec w₀ w c c') (Overruns w c) c := by
  obtain ⟨qk, hqk⟩ := h.blocks w₀ hbits .key
  obtain ⟨qv, hqv⟩ := h.blocks w₀ hbits .value
  rw [transitionQuantizedGpu, after_bind, after_get, after_ite]
  refine ⟨fun hzero => requantized_switchBits h hbits hzero, fun _ => ?_⟩
  refine ((after_readBlocks hqk).mono (fun _ _ h => h) fun e c' he => ?_).bind fun kRaw c' hk => ?_
  · rw [he.2.2]
    exact overruns_read h hbits hqk he.1 he.2.1
  obtain ⟨rfl, hc⟩ := hk
  rw [hc]
  refine ((after_readBlocks hqv).mono (fun _ _ h => h) fun e c' he => ?_).bind fun vRaw c' hv => ?_
  · rw [he.2.2]
    exact overruns_read h hbits hqv he.1 he.2.1
  obtain ⟨rfl, hc⟩ := hv
  rw [hc]
  refine (after_requantized.mono (fun _ _ h => h) fun e _ he => overruns_panics he).bind
    fun newQk c' hk => ?_
  obtain ⟨hnewK, hc⟩ := hk
  rw [hc]
  refine (after_requantized.mono (fun _ _ h => h) fun e _ he => overruns_panics he).bind
    fun newQv c' hv => ?_
  obtain ⟨hnewV, hc⟩ := hv
  rw [requantizedBlocks_take] at hnewK hnewV
  generalize hvk : requantizedBlocks codec w₀ w qk (c.blockCount .key c.q2Tokens) = vk at hnewK
  generalize hvv : requantizedBlocks codec w₀ w qv (c.blockCount .value c.q2Tokens) = vv at hnewV
  rw [hc, hnewK.serialize, hnewV.serialize]
  refine ((after_rewriteBlocks hqk).mono (fun _ _ h => h) fun _ _ hf =>
    hf.elim).bind fun _ c₁ hc₁ => ?_
  have hqv₁ : c₁.slab.q2 .value = some qv := by
    rw [hc₁, q2_setQ2_of_ne (by decide), hqv]
  refine ((after_rewriteBlocks hqv₁).mono (fun _ _ h => h) fun _ _ hf =>
    hf.elim).bind fun _ c₂ hc₂ => ?_
  rw [after_bind, after_modify, hc₂, hc₁, rewritten_eq hqk hqv, after_ite]
  refine ⟨fun _ => overruns_panics ⟨_, rfl⟩, fun _ => ?_⟩
  have hheld := (held_rewritten h hbits : Held (rewritten w vk vv c))
  have hr : Refills w newQk newQv vk vv (rewritten w vk vv c) :=
    ⟨rfl, hheld.attnShape, hheld.blocks w rfl, hheld.q2_le, hnewK, hnewV⟩
  have hv : ∀ x q, c.slab.q2 x = some q → x.pick vk vv = requantizedBlocks codec w₀ w q
    (c.blockCount x c.q2Tokens) := by
    intro x q hq
    cases x with
    | key => rw [Option.some.inj (hq.symm.trans hqk), hvk]; rfl
    | value => rw [Option.some.inj (hq.symm.trans hqv), hvv]; rfl
  have hlen : ∀ x, (x.pick vk vv).flatten.length = c.blockCount x c.q2Tokens * w.blockBytes := by
    intro x
    cases x
    · exact hnewK.length_flatten
    · exact hnewV.length_flatten
  refine ((After.forM (fun flush hflush c' hc' => after_reflush hr hc' (List.mem_range.mp hflush))
    ⟨Kept.refl _, fun _ => rfl, id⟩).mono (fun _ _ h => h) fun e c' he => ?_).bind
      fun _ c' hc' => ?_
  · refine ⟨he.1, fun herr => ?_⟩
    obtain ⟨hno, hk⟩ := he.2 herr
    exact ⟨⟨w, hk.bits⟩, ⟨hk.kvHeads, hk.headDim, hk.maxSeqLen⟩, held_of_kept (w := w) hheld rfl hk,
      fun a hs hwidth => hno (stores_rewritten h hbits hs hwidth hlen)⟩
  · exact requantized_of_refilled h hbits hv hlen (hc'.setCounts _) fun _ => rfl

/-! ## The call -/

variable {dev : Site → Bool}

theorem transitionBitsGpu_same {bits : CacheBits} (hbits : c.bits = bits) :
    transitionBitsGpu codec dev bits c = .ok () c := by
  change (if bits = c.bits then pure () else _ : GpuM V H Unit) c = _
  rw [if_pos hbits.symm]
  rfl

theorem transitionBitsGpu_toSixteen (hbits : c.bits ≠ .sixteen) :
    transitionBitsGpu codec dev .sixteen c = transitionToSixteenGpu codec dev c := by
  change (if .sixteen = c.bits then pure () else _ : GpuM V H Unit) c = _
  rw [if_neg hbits.symm]

theorem transitionBitsGpu_fromSixteen {w : QuantBits} (hbits : c.bits = .sixteen) :
    transitionBitsGpu codec dev (.quantized w) c = transitionFromSixteenGpu codec dev w c := by
  change (if .quantized w = c.bits then pure () else _ : GpuM V H Unit) c = _
  rw [hbits]
  rfl

theorem transitionBitsGpu_quantized {w₀ w : QuantBits} (hbits : c.bits = .quantized w₀)
    (hne : w ≠ w₀) : transitionBitsGpu codec dev (.quantized w) c =
    transitionQuantizedGpu codec dev w₀ w c := by
  change (if .quantized w = c.bits then pure () else _ : GpuM V H Unit) c = _
  rw [hbits, if_neg fun h => hne (CacheBits.quantized.inj h)]

end GpuQuantCache

end ArgusEngine
