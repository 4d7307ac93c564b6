import ArgusEngine.Kv.QuantGpuStorage

/-!
# Failing bit transitions of a quantized-window cache on a device

`only site` is the device on which the calls at one site fail, and nothing else.

* `framed_*`: whatever fails in the steps behind the change of the width, the new width stays;
* **`harmless_of_same_bits`**: a transition that failed with the width unchanged failed at a
  `Harmless` site, before that change;
* `after_read_failed`, `after_blocks_failed`: a failure at a harmless site leaves the tokens alone;
* **`failed_transition_unharmed_iff`**: the cache is as before and stays usable just in these cases,
  when the device residual cannot get lost otherwise.
-/

namespace ArgusEngine

open CellArray FlatMem Effects Runs

variable {V H α : Type}

/-- The sites a transition reaches before it changes the width. -/
def Site.harmless : Site → Bool
  | .attnRead _ | .blockRead _ | .blockRewrite _ => true
  | _ => false

/-- No failure of a harmless site. -/
def GpuFault.Late (e : GpuFault) : Prop := ∀ site, e = .device site → site.harmless = false

namespace GpuQuantCache

variable {c c' : GpuQuantCache V H} {codec : GpuCodec V H} {dev : Site → Bool}

/-! ## The width behind the change -/

/-- However the call ends, the dimensions and the width are what they were; it asks for no harmless
site. -/
def Framed (x : GpuM V H α) : Prop := ∀ c, Moves Frame GpuFault.Late x c

theorem frame_setHost (x : Side) (r : Cells V) (c : GpuQuantCache V H) :
    Frame c (setHost x r c) := by
  cases x <;> exact ⟨rfl, rfl, rfl, rfl⟩

section Framed

variable {β : Type} {site : Site}

theorem late_panic (text : String) : (GpuFault.panic text).Late := by
  intro site h
  cases h

theorem late_err (text : String) : (GpuFault.err text).Late := by
  intro site h
  cases h

theorem late_missing : GpuFault.missing.Late := by
  intro site h
  cases h

theorem Framed.bind {x : GpuM V H α} {f : α → GpuM V H β} (hx : Framed x) (hf : ∀ a, Framed (f a)) :
    Framed (x >>= f) := fun c => (hx c).bind fun a c' _ => hf a c'

theorem Framed.get_bind {f : GpuQuantCache V H → GpuM V H β} (hf : ∀ c, Framed (f c)) :
    Framed (get >>= f) :=
  fun c => Moves.get_bind (hf c c)

theorem Framed.forM {ι : Type} {f : ι → GpuM V H Unit} {l : List ι} (hf : ∀ i, Framed (f i)) :
    Framed (l.forM f) :=
  fun _ => Moves.forM fun i _ c' _ => hf i c'

theorem framed_pure {a : α} : Framed (V := V) (H := H) (pure a) := fun _ => moves_pure a

theorem framed_throw {e : GpuFault} (he : e.Late) :
    Framed (V := V) (H := H) (throw e : GpuM V H α) :=
  fun _ => moves_throw he

theorem framed_modify {f : GpuQuantCache V H → GpuQuantCache V H} (hf : ∀ c, Frame c (f c)) :
    Framed (modify f) :=
  fun c => moves_modify (hf c)

theorem framed_ite {p : Prop} [Decidable p] {x y : GpuM V H α} (hx : Framed x) (hy : Framed y) :
    Framed (if p then x else y) := by
  split_ifs
  · exact hx
  · exact hy

theorem framed_onlyIf {p : Prop} [Decidable p] {x : GpuM V H Unit} (hx : Framed x) :
    Framed (onlyIf p x) :=
  framed_ite hx framed_pure

theorem framed_unwrap {o : Option α} : Framed (V := V) (H := H) (unwrap o) := by
  cases o with
  | none => exact framed_throw late_missing
  | some a => exact framed_pure

theorem framed_orPanic {text : String} {o : Option α} :
    Framed (V := V) (H := H) (orPanic text o) := by
  cases o with
  | none => exact framed_throw (late_panic text)
  | some a => exact framed_pure

theorem framed_orErr {text : String} {o : Option α} : Framed (V := V) (H := H) (orErr text o) := by
  cases o with
  | none => exact framed_throw (late_err text)
  | some a => exact framed_pure

theorem framed_request (hlate : site.harmless = false) :
    Framed (V := V) (H := H) (request dev site) := by
  refine framed_ite (framed_throw fun s hs => ?_) framed_pure
  cases hs
  exact hlate

theorem framed_alloc {n : ℕ} {x : β} (hlate : site.harmless = false) :
    Framed (V := V) (H := H) (alloc dev site n x) :=
  (framed_request hlate).bind fun _ => framed_pure

theorem framed_writeBuffer {t src : Cells β} (hlate : site.harmless = false) :
    Framed (V := V) (H := H) (writeBuffer dev site t src) :=
  framed_ite ((framed_request hlate).bind fun _ => framed_pure) (framed_throw (late_panic _))

theorem framed_readBuffer {t : Cells β} {n : ℕ} (hlate : site.harmless = false) :
    Framed (V := V) (H := H) (readBuffer dev site t n) :=
  (framed_request hlate).bind fun _ => framed_ite framed_pure (framed_throw (late_err _))

theorem framed_copySlice {src dst : Cells β} {s d n : ℕ} (hlate : site.harmless = false) :
    Framed (V := V) (H := H) (copySlice dev site src dst s d n) :=
  (framed_request hlate).bind fun _ => framed_orErr

theorem framed_copyOld {x : Side} {old : Option (Cells H)} {new : Cells H} {n : ℕ} :
    Framed (V := V) (copyOld dev x old new n) := by
  cases old with
  | none => exact framed_pure
  | some o => exact framed_ite (framed_copySlice rfl) framed_pure

variable [Zero V] [Zero H]

omit [Zero V] in
theorem framed_ensureGpuAttnCapacity {needed : ℕ} :
    Framed (V := V) (H := H) (ensureGpuAttnCapacity dev needed) := by
  refine .get_bind fun c => framed_ite framed_pure ?_
  refine (framed_alloc rfl).bind fun _ => (framed_alloc rfl).bind fun _ => ?_
  refine (framed_writeBuffer rfl).bind fun _ => (framed_writeBuffer rfl).bind fun _ => ?_
  refine framed_copyOld.bind fun _ => framed_copyOld.bind fun _ => ?_
  exact framed_modify fun _ => ⟨rfl, rfl, rfl, rfl⟩

omit [Zero V] [Zero H] in
theorem framed_allocateGpuQBlocks {w : QuantBits} :
    Framed (V := V) (H := H) (allocateGpuQBlocks dev w) := by
  refine .get_bind fun c => framed_ite framed_pure ?_
  refine (framed_request rfl).bind fun _ => (framed_request rfl).bind fun _ => ?_
  refine (framed_request rfl).bind fun _ => (framed_request rfl).bind fun _ => ?_
  exact framed_modify fun _ => ⟨rfl, rfl, rfl, rfl⟩

omit [Zero V] [Zero H] in
theorem framed_uploadBlocks {x : Side} {tokBase : ℕ} {bytes : List UInt8} {offset : ℕ} :
    Framed (V := V) (H := H) (uploadBlocks dev x tokBase bytes offset) := by
  refine .get_bind fun c => framed_unwrap.bind fun q => ?_
  refine .bind (framed_modify fun _ => ⟨rfl, rfl, rfl, rfl⟩) fun _ => ?_
  refine Framed.bind ?_ fun _ => framed_modify fun _ => ⟨rfl, rfl, rfl, rfl⟩
  exact framed_ite ((framed_request rfl).bind fun _ => framed_pure) (framed_throw (late_err _))

omit [Zero V] [Zero H] in
theorem framed_dequantFlush {x : Side} {nGroups flushTokens tokBase blockStart : ℕ} :
    Framed (dequantFlush codec dev x nGroups flushTokens tokBase blockStart) := by
  refine .get_bind fun c => framed_unwrap.bind fun q => framed_unwrap.bind fun a => ?_
  refine (framed_request rfl).bind fun _ => framed_orPanic.bind fun _ => ?_
  exact framed_modify fun _ => ⟨rfl, rfl, rfl, rfl⟩

omit [Zero H] in
theorem framed_dequantRows {x : Side} {nGroups flushTokens : ℕ}
    {tmp : QuantizedBlocks (List UInt8)} : Framed (dequantRows codec x nGroups flushTokens tmp) :=
    .get_bind fun _ => framed_orPanic

omit [Zero V] [Zero H] in
theorem framed_uploadRows {x : Side} {tokBase : ℕ} {rows : Cells V} :
    Framed (uploadRows codec dev x tokBase rows) := by
  refine .get_bind fun c => framed_unwrap.bind fun a => (framed_copySlice rfl).bind fun _ => ?_
  exact framed_modify fun _ => ⟨rfl, rfl, rfl, rfl⟩

omit [Zero H] in
theorem framed_uploadAndDequantFlushWith {flushTokens nGroups tokBase : ℕ}
    {tmpQk tmpQv : QuantizedBlocks (List UInt8)} :
    Framed (uploadAndDequantFlushWith codec dev flushTokens nGroups tokBase tmpQk tmpQv) := by
  refine .get_bind fun c => ?_
  cases c.bits with
  | sixteen => exact framed_throw (late_err _)
  | quantized w =>
    refine framed_orPanic.bind fun _ => framed_orPanic.bind fun _ => ?_
    refine framed_uploadBlocks.bind fun _ => framed_uploadBlocks.bind fun _ => ?_
    refine Framed.bind (framed_ite ?_ ?_) fun _ => framed_modify fun _ => ⟨rfl, rfl, rfl, rfl⟩
    · exact framed_dequantFlush.bind fun _ => framed_dequantFlush
    · refine framed_dequantRows.bind fun _ => framed_dequantRows.bind fun _ => ?_
      exact framed_uploadRows.bind fun _ => framed_uploadRows

omit [Zero V] [Zero H] in
theorem framed_readResidual {site : Side → Site} {x : Side} (hlate : (site x).harmless = false) :
    Framed (V := V) (H := H) (readResidual dev site x) := by
  refine .get_bind fun c => ?_
  cases c.slab.res x with
  | none => exact framed_pure
  | some r =>
    exact (framed_readBuffer hlate).bind fun _ => framed_orPanic.bind fun _ =>
      framed_modify (frame_setHost x _)

omit [Zero V] [Zero H] in
theorem framed_shiftResidual {flushTokens remaining : ℕ} {x : Side} :
    Framed (V := V) (H := H) (shiftResidual dev flushTokens remaining x) := by
  refine .get_bind fun c => framed_ite ?_ ?_
  · refine framed_unwrap.bind fun r => (framed_request rfl).bind fun _ =>
      framed_orErr.bind fun _ => ?_
    exact framed_modify fun _ => ⟨rfl, rfl, rfl, rfl⟩
  · exact framed_orPanic.bind fun _ => framed_modify (frame_setHost x _)

theorem framed_flushResidualGpu : Framed (flushResidualGpu codec dev) := by
  refine .get_bind fun c => framed_ite framed_pure ?_
  refine framed_ensureGpuAttnCapacity.bind fun _ => .get_bind fun c => ?_
  refine (framed_onlyIf ((framed_readResidual rfl).bind fun _ =>
    framed_readResidual rfl)).bind fun _ => ?_
  refine .get_bind fun c => framed_orPanic.bind fun _ => framed_orPanic.bind fun _ => ?_
  refine framed_uploadAndDequantFlushWith.bind fun _ =>
    .bind (framed_modify fun _ => ⟨rfl, rfl, rfl, rfl⟩) fun _ => ?_
  refine (framed_onlyIf (framed_shiftResidual.bind fun _ => framed_shiftResidual)).bind fun _ => ?_
  exact framed_modify fun _ => ⟨rfl, rfl, rfl, rfl⟩

omit [Zero H] in
theorem framed_overwriteResidual {x : Side} :
    Framed (V := V) (H := H) (overwriteResidual dev x) := by
  refine .get_bind fun c => ?_
  cases c.slab.res x with
  | none => exact framed_pure
  | some r =>
    refine framed_ite ((framed_writeBuffer rfl).bind fun _ => ?_) (framed_throw (late_panic _))
    exact framed_modify fun _ => ⟨rfl, rfl, rfl, rfl⟩

omit [Zero H] in
theorem framed_uploadResidual {x : Side} {newElems : ℕ} :
    Framed (V := V) (H := H) (uploadResidual dev x newElems) := by
  refine .get_bind fun c => (framed_alloc rfl).bind fun _ =>
    (framed_writeBuffer rfl).bind fun _ => ?_
  exact framed_modify fun _ => ⟨rfl, rfl, rfl, rfl⟩

omit [Zero H] in
theorem framed_emptyResidual {x : Side} {newElems : ℕ} :
    Framed (V := V) (H := H) (emptyResidual dev x newElems) :=
  (framed_alloc rfl).bind fun _ => framed_modify fun _ => ⟨rfl, rfl, rfl, rfl⟩

omit [Zero H] in
theorem framed_shrinkResidualGpu : Framed (V := V) (H := H) (shrinkResidualGpu dev) := by
  refine .get_bind fun c => framed_orPanic.bind fun _ => framed_orPanic.bind fun _ => ?_
  refine .bind (framed_modify fun _ => ⟨rfl, rfl, rfl, rfl⟩) fun _ =>
    framed_ite (framed_ite ?_ ?_) (framed_onlyIf ?_)
  · exact framed_overwriteResidual.bind fun _ => framed_overwriteResidual
  · exact framed_uploadResidual.bind fun _ => framed_uploadResidual
  · exact framed_emptyResidual.bind fun _ => framed_emptyResidual

omit [Zero H] in
theorem framed_reflush {newQk newQv : QuantizedBlocks (List UInt8)} {flush : ℕ} :
    Framed (reflush codec dev newQk newQv flush) := by
  refine .get_bind fun c => framed_orPanic.bind fun _ => framed_orPanic.bind fun _ => ?_
  refine .bind (framed_modify fun _ => ⟨rfl, rfl, rfl, rfl⟩) fun _ =>
    framed_uploadAndDequantFlushWith.bind fun _ => ?_
  exact framed_modify fun _ => ⟨rfl, rfl, rfl, rfl⟩

end Framed

/-! ## Where a transition fails -/

variable [Zero V] [Zero H]

/-- A device failure behind the change of the width. -/
def FailsLate (bits : CacheBits) (e : GpuFault) (c' : GpuQuantCache V H) : Prop :=
  ∀ s, e = .device s → s.harmless = false ∧ c'.bits = bits

omit [Zero V] [Zero H] in
theorem Framed.failsLate {x : GpuM V H α} (h : Framed x) :
    After x (fun _ _ => True) (FailsLate c.bits) c :=
  After.mono (h c) (fun _ _ _ => trivial) fun _ _ he s hs => ⟨he.2 s hs, he.1.bits⟩

/-- **16 to a quantized width** changes the width first. -/
theorem after_fromSixteen_failed {w : QuantBits} :
    After (transitionFromSixteenGpu codec dev w) (fun _ _ => True)
      (FailsLate (.quantized w)) c := by
  have hframed : Framed (do
      readResidual dev .resRead .key
      readResidual dev .resRead .value
      modify releaseResidual
      allocateGpuQBlocks dev w
      let c ← get
      onlyIf (32 ≤ c.resPos) (flushResidualGpu codec dev)
      let c ← get
      onlyIf (32 < c.resCap) (shrinkResidualGpu dev)
      modify fun c => { c with q2DeqTokens := 0 }) := by
    refine (framed_readResidual rfl).bind fun _ => (framed_readResidual rfl).bind fun _ => ?_
    refine .bind (framed_modify fun _ => ⟨rfl, rfl, rfl, rfl⟩) fun _ =>
      framed_allocateGpuQBlocks.bind fun _ => ?_
    refine .get_bind fun c => (framed_onlyIf framed_flushResidualGpu).bind fun _ => ?_
    refine .get_bind fun c => (framed_onlyIf framed_shrinkResidualGpu).bind fun _ => ?_
    exact framed_modify fun _ => ⟨rfl, rfl, rfl, rfl⟩
  rw [transitionFromSixteenGpu, after_bind, after_modify]
  exact hframed.failsLate

omit [Zero V] in
theorem after_readAttn_failed {x : Side} {n : ℕ} :
    After (readAttn codec dev x n) (fun _ c' => c' = c)
    (fun e c' => c' = c ∧ ∀ s, e = .device s → s = .attnRead x) c := by
  rw [readAttn, after_bind, after_get]
  cases c.slab.attn x with
  | none => exact rfl
  | some a =>
    simp only [readBuffer, after_bind, after_request, after_ite, after_pure, after_throw]
    refine ⟨fun _ => ⟨trivial, fun s hs => ?_⟩, fun _ =>
      ⟨fun _ => trivial, fun _ => ⟨trivial, fun s hs => ?_⟩⟩⟩
    · cases hs
      rfl
    · cases hs

omit [Zero H] in
theorem framed_regrow {newElems : ℕ} {resK resV : Cells V} : Framed (V := V) (H := H) (do
    let gpuRk ← alloc dev (.regrowAlloc .key) newElems 0
    let gpuRk ← writeBuffer dev (.regrowWrite .key) gpuRk resK
    let gpuRv ← alloc dev (.regrowAlloc .value) newElems 0
    let gpuRv ← writeBuffer dev (.regrowWrite .value) gpuRv resV
    modify fun c => { c with
      slab :=
        { res := fun x => some (x.pick gpuRk gpuRv)
          attn := fun _ => none, attnCap := 0, q2 := fun _ => none }
      gpuQ2Blocks := fun _ => 0 }) := by
  refine (framed_alloc rfl).bind fun _ => (framed_writeBuffer rfl).bind fun _ => ?_
  refine (framed_alloc rfl).bind fun _ => (framed_writeBuffer rfl).bind fun _ => ?_
  exact framed_modify fun _ => ⟨rfl, rfl, rfl, rfl⟩

/-- **A quantized width to 16** fails at a read of an attention buffer, in the state
`assemble_view_gpu` left, or with the width changed. -/
theorem after_toSixteen_failed {P : GpuQuantCache V H → Prop}
    (hview : After (ignored GpuFault.isErr (assembleViewGpu codec dev)) (fun _ => P)
      (fun e _ => e.isErr = false) c) :
    After (transitionToSixteenGpu codec dev) (fun _ _ => True)
      (fun e c' => ∀ s, e = .device s → ((∃ x, s = .attnRead x) ∧ P c') ∨
      (s.harmless = false ∧ c'.bits = .sixteen)) c := by
  rw [transitionToSixteenGpu, after_bind, after_get]
  refine (hview.mono (fun _ _ h => h) fun e c' he s hs => ?_).bind fun _ c₁ hP => ?_
  · rw [hs] at he
    cases he
  refine (after_readAttn_failed.mono (fun _ _ h => h) fun e c' he s hs =>
    .inl ⟨⟨_, he.2 s hs⟩, he.1 ▸ hP⟩).bind fun attnK c' hc => ?_
  rw [hc]
  refine (after_readAttn_failed.mono (fun _ _ h => h) fun e c' he s hs =>
    .inl ⟨⟨_, he.2 s hs⟩, he.1 ▸ hP⟩).bind fun attnV c' hc => ?_
  rw [hc, after_bind, after_orPanic]
  refine ⟨fun resK _ => ?_, fun _ s hs => by cases hs⟩
  rw [after_bind, after_orPanic]
  refine ⟨fun resV _ => ?_, fun _ s hs => by cases hs⟩
  rw [after_bind, after_modify]
  exact framed_regrow.failsLate.mono (fun _ _ h => h) fun e c' he s hs => .inr (he s hs)

/-- The tokens `get_view` shows are the same, and so is everything but the contents of the
buffers. -/
structure SameView (codec : GpuCodec V H) (c c' : GpuQuantCache V H) : Prop extends Kept c c' where
  view : ∀ x, ∀ t < c.totalTokens, ∀ h < c.kvHeads, ∀ ch < c.headDim,
    c'.viewCell codec x t h ch = c.viewCell codec x t h ch

omit [Zero V] [Zero H] in
theorem sameView_setQ2 {x : Side} {q q' : List UInt8} (hq : c.slab.q2 x = some q)
    (hlen : q'.length = q.length) : SameView codec c (setQ2 x q' c) :=
    ⟨kept_setQ2 c hq hlen c.uploads, fun _ _ _ _ _ _ _ => rfl⟩

omit [Zero V] [Zero H] in
theorem after_readBlocks_failed {x : Side} {n : ℕ} : After (readBlocks dev x n) (fun _ c' => c' = c)
    (fun e c' => c' = c ∧ ∀ s, e = .device s → s.harmless = true) c := by
  rw [readBlocks, after_bind, after_get]
  cases c.slab.q2 x with
  | none => exact rfl
  | some q =>
    simp only [after_bind, after_request, after_ite, after_pure, after_throw]
    refine ⟨fun _ => ⟨trivial, fun s hs => ?_⟩, fun _ =>
      ⟨fun _ => trivial, fun _ => ⟨trivial, fun s hs => ?_⟩⟩⟩
    · cases hs
      rfl
    · cases hs

omit [Zero V] [Zero H] in
theorem after_rewriteBlocks_failed (codec : GpuCodec V H) {x : Side} {bytes : List UInt8} :
    After (rewriteBlocks dev x bytes) (fun _ c' => SameView codec c c')
    (fun e c' => c' = c ∧ ∀ s, e = .device s → s.harmless = true) c := by
  rw [rewriteBlocks, after_bind, after_get]
  cases hq : c.slab.q2 x with
  | none => exact ⟨Kept.refl c, fun _ _ _ _ _ _ _ => rfl⟩
  | some q =>
    simp only [after_bind, after_request, after_modify]
    refine ⟨fun _ => ⟨trivial, fun s hs => ?_⟩, fun _ =>
      sameView_setQ2 hq (length_overwrite bytes q)⟩
    cases hs
    rfl

omit [Zero H] in
/-- **One quantized width to another** fails with the tokens left alone, or with the width
changed. -/
theorem after_quantized_failed {w₀ w : QuantBits} :
    After (transitionQuantizedGpu codec dev w₀ w) (fun _ _ => True)
    (fun e c' => ∀ s, e = .device s →
      (s.harmless = true ∧ SameView codec c c') ∨
      (s.harmless = false ∧ c'.bits = .quantized w)) c := by
  have hsame : SameView codec c c := ⟨Kept.refl c, fun _ _ _ _ _ _ _ => rfl⟩
  rw [transitionQuantizedGpu, after_bind, after_get, after_ite]
  refine ⟨fun _ => trivial, fun _ => ?_⟩
  refine (after_readBlocks_failed.mono (fun _ _ h => h) fun e c' he s hs =>
    .inl ⟨he.2 s hs, he.1 ▸ hsame⟩).bind fun kRaw c' hc => ?_
  rw [hc]
  refine (after_readBlocks_failed.mono (fun _ _ h => h) fun e c' he s hs =>
    .inl ⟨he.2 s hs, he.1 ▸ hsame⟩).bind fun vRaw c' hc => ?_
  rw [hc, after_bind, requantized, after_orPanic]
  refine ⟨fun newQk _ => ?_, fun _ s hs => by cases hs⟩
  rw [after_bind, requantized, after_orPanic]
  refine ⟨fun newQv _ => ?_, fun _ s hs => by cases hs⟩
  rw [after_bind, after_orPanic]
  refine ⟨fun kBytes _ => ?_, fun _ s hs => by cases hs⟩
  rw [after_bind, after_orPanic]
  refine ⟨fun vBytes _ => ?_, fun _ s hs => by cases hs⟩
  refine ((after_rewriteBlocks_failed codec).mono (fun _ _ h => h) fun e c' he s hs =>
    .inl ⟨he.2 s hs, he.1 ▸ hsame⟩).bind fun _ c₁ h₁ => ?_
  refine ((after_rewriteBlocks_failed codec).mono (fun _ _ h => h) fun e c' he s hs =>
    .inl ⟨he.2 s hs, he.1 ▸ h₁⟩).bind fun _ c₂ _ => ?_
  rw [after_bind, after_modify]
  have hframed : Framed (if c.resCap = 0 then throw (.panic "attempt to divide by zero")
      else do
        (List.range (c.q2Tokens / c.resCap)).forM (reflush codec dev newQk newQv)
        modify fun c' => { c' with gpuQ2Blocks := fun x => c.blockCount x c.q2Tokens }) := by
    refine framed_ite (framed_throw (late_panic _))
      (.bind (.forM fun _ => framed_reflush) fun _ => ?_)
    exact framed_modify fun _ => ⟨rfl, rfl, rfl, rfl⟩
  exact hframed.failsLate.mono (fun _ _ h => h) fun e c' he s hs => .inr (he s hs)

/-! ## What a harmless failure leaves -/

/-- The device on which just the calls at one site fail. -/
def only (site : Site) : Site → Bool := fun s => decide (s = site)

omit [Zero V] in
theorem assembleViewGpu_only {x : Side} :
    assembleViewGpu codec (only (.attnRead x)) = assembleViewGpu codec healthy := by
  simp only [assembleViewGpu, ensureGpuAttnCapacity, alloc, writeBuffer, copyOld, copySlice,
    scatterResidual, request, only, healthy, reduceCtorEq, decide_false]

omit [Zero V] [Zero H] in
theorem Assembled.sameView (ha : Assembled codec c c') (h : Held c) : SameView codec c c' := by
  refine ⟨ha.toKept, fun x t ht k hk ch hch => ?_⟩
  unfold viewCell
  rw [ha.q2Tokens]
  by_cases hlt : t < c.q2Tokens
  · have hpos : 0 < c.slab.attnCap := lt_of_lt_of_le (Nat.pos_of_ne_zero fun h0 => by omega) h.q2_le
    obtain ⟨a, ha'⟩ := (ha.attnShape h.attnShape).exists_of_pos (lt_of_lt_of_le hpos ha.attnCap) x
    have hcell := ha.cell x a ha' t ht k hk ch hch
    rw [viewCell, if_pos hlt] at hcell
    rw [if_pos hlt, if_pos hlt, ha', Option.map_some, ← hcell, QuantizedRecentWindowCache.attnIdx,
      QuantizedRecentWindowCache.attnIdx, ha.kvHeads, ha.headDim]
  · rw [if_neg hlt, if_neg hlt, ha.sameRes, ha.resCap, ha.headDim]

omit [Zero V] in
theorem ignored_assembleViewGpu :
    After (ignored GpuFault.isErr (assembleViewGpu codec dev)) (fun _ _ => True)
      (fun e _ => e.isErr = false) c :=
  (After.ignored after_trivial fun _ _ _ _ => trivial).mono (fun _ _ h => h) fun _ _ h => h.2

omit [Zero V] in
theorem ignored_assembleViewGpu_only {x : Side} (h : Held c) :
    After (ignored GpuFault.isErr (assembleViewGpu codec (only (.attnRead x))))
      (fun _ => SameView codec c)
      (fun e _ => e.isErr = false) c := by
  rw [assembleViewGpu_only]
  refine (After.ignored (after_assembleViewGpu h) fun e c' he hc => ?_).mono (fun _ _ ha =>
    ha.sameView h) fun _ _ he => he.2
  rw [he.1] at hc
  cases hc

/-- A transition that failed at a harmless site left the tokens alone, in a quantized cache. -/
theorem sameView_of_harmless {newBits : CacheBits} {site : Site} (h : Held c)
    (hsite : site.harmless = true)
    (herr : transitionBitsGpu codec (only site) newBits c = .error (.device site) c') :
    SameView codec c c' ∧ ∃ w, c.bits = .quantized w := by
  cases hbits : c.bits with
  | sixteen =>
    cases newBits with
    | sixteen =>
      rw [transitionBitsGpu_same hbits] at herr
      cases herr
    | quantized w =>
      rw [transitionBitsGpu_fromSixteen hbits] at herr
      have hlate := after_fromSixteen_failed.of_error herr site rfl
      rw [hsite] at hlate
      cases hlate.1
  | quantized w₀ =>
    refine ⟨?_, w₀, rfl⟩
    cases newBits with
    | sixteen =>
      rw [transitionBitsGpu_toSixteen (by rw [hbits]; exact nofun)] at herr
      rcases (after_toSixteen_failed ignored_assembleViewGpu).of_error herr site
        rfl with ⟨⟨x, hx⟩, -⟩ | hs
      · rw [hx] at herr
        rcases (after_toSixteen_failed (ignored_assembleViewGpu_only h)).of_error herr _
          rfl with ⟨-, hview⟩ | hs
        · exact hview
        · cases hs.1
      · rw [hsite] at hs
        cases hs.1
    | quantized w =>
      by_cases hw : w = w₀
      · rw [transitionBitsGpu_same (hw ▸ hbits)] at herr
        cases herr
      · rw [transitionBitsGpu_quantized hbits hw] at herr
        rcases after_quantized_failed.of_error herr site rfl with hs | hs
        · exact hs.2
        · rw [hsite] at hs
          cases hs.1

/-- **A failure at any other site leaves another width.** -/
theorem bits_ne_of_late {newBits : CacheBits} {site : Site} (hsite : site.harmless = false)
    (herr : transitionBitsGpu codec dev newBits c = .error (.device site) c') :
    c'.bits ≠ c.bits := by
  cases hbits : c.bits with
  | sixteen =>
    cases newBits with
    | sixteen =>
      rw [transitionBitsGpu_same hbits] at herr
      cases herr
    | quantized w =>
      rw [transitionBitsGpu_fromSixteen hbits] at herr
      rw [(after_fromSixteen_failed.of_error herr site rfl).2]
      exact nofun
  | quantized w₀ =>
    cases newBits with
    | sixteen =>
      rw [transitionBitsGpu_toSixteen (by rw [hbits]; exact nofun)] at herr
      rcases (after_toSixteen_failed ignored_assembleViewGpu).of_error herr site
        rfl with ⟨⟨x, rfl⟩, -⟩ | hs
      · cases hsite
      · rw [hs.2]
        exact nofun
    | quantized w =>
      by_cases hw : w = w₀
      · rw [transitionBitsGpu_same (hw ▸ hbits)] at herr
        cases herr
      · rw [transitionBitsGpu_quantized hbits hw] at herr
        rcases after_quantized_failed.of_error herr site rfl with hs | hs
        · rw [hsite] at hs
          cases hs.1
        · rw [hs.2]
          exact fun h => hw (CacheBits.quantized.inj h)

/-! ## The calls that follow -/

/-- Between two calls, with the given `max_seq_len`. -/
structure HeldAt (maxSeqLen : ℕ) (c : GpuQuantCache V H) : Prop extends Held c where
  max_eq : c.maxSeqLen = maxSeqLen

theorem after_transitionBitsGpu {newBits : CacheBits} {n : ℕ} (h : HeldAt n c) :
    After (transitionBitsGpu codec healthy newBits) (fun _ => HeldAt n)
      (fun e c' => (e = .missing → 0 < n ∧ n ≤ 32) ∧ (e.isErr = true → HeldAt n c')) c := by
  have hbreaks : ∀ {e : GpuFault} {c' : GpuQuantCache V H}, Breaks c e →
      (e = .missing → 0 < n ∧ n ≤ 32) ∧ (e.isErr = true → HeldAt n c') := by
    intro e c' he
    refine ⟨h.max_eq ▸ he.1, fun herr => ?_⟩
    rw [he.2] at herr
    cases herr
  rw [transitionBitsGpu, after_bind, after_get, after_ite]
  refine ⟨fun _ => h, fun _ => ?_⟩
  cases hbits : c.bits with
  | sixteen =>
    cases newBits with
    | sixteen =>
      exact (after_transitionToSixteenGpu h.toHeld).mono (fun _ c' h' =>
        ⟨h'.2.2.1, h'.2.1.maxSeqLen.trans h.max_eq⟩) fun e _ he => hbreaks he
    | quantized w =>
      exact (after_transitionFromSixteenGpu h.toHeld hbits).mono
        (fun _ c' h' => ⟨h'.2.2.1, h'.2.1.maxSeqLen.trans h.max_eq⟩) fun e _ he => hbreaks he
  | quantized w₀ =>
    cases newBits with
    | sixteen =>
      exact (after_transitionToSixteenGpu h.toHeld).mono (fun _ c' h' =>
        ⟨h'.2.2.1, h'.2.1.maxSeqLen.trans h.max_eq⟩) fun e _ he => hbreaks he
    | quantized w =>
      refine (after_transitionQuantizedGpu h.toHeld hbits).mono
        (fun _ c' h' => ⟨h'.held, h'.dims.maxSeqLen.trans h.max_eq⟩) fun e c' he =>
          ⟨fun hm => absurd hm he.1, fun herr => ?_⟩
      obtain ⟨-, hdims, hheld, -⟩ := he.2 herr
      exact ⟨hheld, hdims.maxSeqLen.trans h.max_eq⟩

/-- **Any call on a healthy device**: the state between two calls is kept, and a buffer is missing
only when `max_seq_len` is no more than one group. -/
theorem after_exec {op : GpuOp V} {n : ℕ} (h : HeldAt n c) :
    After (exec codec op) (fun _ => HeldAt n)
    (fun e c' => (e = .missing → 0 < n ∧ n ≤ 32) ∧ (e.isErr = true → HeldAt n c')) c := by
  have hnext : ∀ {c'}, Next c c' → HeldAt n c' := fun hn =>
    ⟨hn.held, hn.frame.maxSeqLen.trans h.max_eq⟩
  cases op with
  | update newK newV =>
    exact (after_updateGpu h.toHeld).mono (fun _ _ hn => hnext hn) fun e _ he =>
      ⟨h.max_eq ▸ he.1, fun herr => hnext (he.2 herr)⟩
  | reset => exact hnext (next_resetGpu h.toHeld)
  | transitionBits newBits => exact after_transitionBitsGpu h
  | getView =>
    refine ((after_getViewGpu h.toHeld).mono (fun _ _ h => h) fun e c' he =>
      ⟨fun _ => h.max_eq ▸ he.2, fun herr => ?_⟩).bind fun _ c' hv =>
      hnext (.of_steady h.toHeld hv.1)
    rw [he.1] at herr
    cases herr

theorem heldAt_step {op : GpuOp V} {n : ℕ} (h : HeldAt n c) (hstep : GpuStep codec op c c') :
    HeldAt n c' := by
  rcases hstep with hok | ⟨e, he, herr⟩
  · exact (after_exec h).of_ok hok
  · exact ((after_exec h).of_error herr).2 he

theorem heldAt_run {ops : List (GpuOp V)} {n : ℕ} (h : HeldAt n c)
    (hrun : Run (GpuStep codec) c ops c') : HeldAt n c' :=
  hrun.invariant (fun _ _ _ hs hstep => heldAt_step hs hstep) h

/-! ## A residual that gets lost -/

omit [Zero V] [Zero H] in
theorem restoreRows_none {B : Type} (c : QuantizedRecentWindowCache V B) (cap : ℕ)
    (attn res : Cells V) : c.restoreRows cap 0 attn res = some res := by
  unfold QuantizedRecentWindowCache.restoreRows
  induction List.range c.kvHeads with
  | nil => rfl
  | cons h l ih => exact ih

/-- An empty 16-bit cache whose host residual has the size of the device's. -/
structure EmptySixteen (c : GpuQuantCache V H) : Prop extends Held c where
  bits : c.bits = .sixteen
  resPos : c.resPos = 0
  there : ∀ x, (c.slab.res x).isSome
  host : ∀ x, (c.host x).len = c.kvHeads * c.resCap * c.headDim

omit [Zero V] in
theorem after_assembleViewGpu_empty (htokens : c.q2Tokens = 0) (hpos : c.resPos = 0) :
    After (assembleViewGpu codec healthy) (fun _ c' => c' = c) (fun _ _ => False) c := by
  rw [assembleViewGpu, after_bind, after_get, htokens, hpos, after_bind, ensureGpuAttnCapacity,
    after_bind, after_get, after_ite]
  exact ⟨fun _ => rfl, fun hlt => absurd (Nat.zero_le _) hlt⟩

theorem after_toSixteen_empty (h : Held c) (htokens : c.q2Tokens = 0) (hpos : c.resPos = 0) :
    After (transitionToSixteenGpu codec healthy)
      (fun _ c' => EmptySixteen c' ∧ c'.maxSeqLen = c.maxSeqLen)
      (fun _ _ => False) c := by
  have htotal : c.q2Tokens + c.resPos = 0 := by omega
  have hempty : After (transitionToSixteenGpu codec healthy)
    (fun _ c' => c'.resPos = 0 ∧ (∀ x, (c'.slab.res x).isSome) ∧
      ∀ x, (c'.host x).len = c'.kvHeads * c'.resCap * c'.headDim) (fun _ _ => False) c := by
    rw [transitionToSixteenGpu, after_bind, after_get]
    refine ((After.ignored (after_assembleViewGpu_empty htokens hpos) fun _ _ hf =>
      hf.elim).mono (fun _ _ h => h) fun _ _ hf => hf.1.elim).bind fun _ c' hc => ?_
    rw [hc]
    refine (after_readAttn h.attnShape le_rfl).bind fun attnK c' hc => ?_
    rw [hc]
    refine (after_readAttn h.attnShape le_rfl).bind fun attnV c' hc => ?_
    rw [hc, htotal, restoreRows_none, restoreRows_none, orPanic, pure_bind, orPanic, pure_bind,
      after_bind, after_modify, after_bind, after_alloc_healthy, after_bind]
    refine (after_writeBuffer_healthy rfl).mpr ?_
    rw [after_bind, after_alloc_healthy, after_bind]
    refine (after_writeBuffer_healthy rfl).mpr ?_
    exact ⟨rfl, fun _ => rfl, fun x => by cases x <;> rfl⟩
  refine (After.and (after_transitionToSixteenGpu h) hempty).mono (fun _ c' h' => ?_)
    fun _ _ hf => hf.2
  obtain ⟨⟨hbits, hdims, hheld, -⟩, hpos', hthere, hhost⟩ := h'
  exact ⟨⟨hheld, hbits, hpos', hthere, hhost⟩, hdims.maxSeqLen⟩

omit [Zero V] [Zero H] in
theorem after_readResidual {site : Side → Site} {x : Side} {r : Cells V}
    (hr : c.slab.res x = some r) (hlen : r.len = c.kvHeads * c.resCap * c.headDim)
    (hhost : (c.host x).len = c.kvHeads * c.resCap * c.headDim) :
    After (readResidual healthy site x) (fun _ c' => ∃ r', c' = setHost x r' c)
      (fun _ _ => False) c := by
  rw [readResidual, after_bind, after_get, hr]
  simp only [readBuffer, after_bind, after_request_healthy, after_ite, after_pure,
    after_orPanic, after_modify]
  refine ⟨fun _ => ⟨fun r' _ => ⟨r', rfl⟩, fun hnone => ?_⟩, fun hlt => absurd hlen.ge hlt⟩
  unfold Cells.copyFrom at hnone
  rw [if_pos ⟨by omega, by simp only [Cells.truncate]; omega⟩] at hnone
  cases hnone

/-- From an empty 16-bit cache of no more than one group the device residual does not come back. -/
theorem after_fromSixteen_empty {w : QuantBits} (h : EmptySixteen c) (hmax : c.maxSeqLen ≤ 32) :
    After (transitionFromSixteenGpu codec healthy w)
      (fun _ c' => (∀ x, c'.slab.res x = none) ∧ c'.q2Tokens = 0 ∧ c'.resPos = 0 ∧
        c'.resCap = c.maxSeqLen ∧
        c'.maxSeqLen = c.maxSeqLen) (fun _ _ => False) c := by
  obtain ⟨htokens, hcap, -, hnone⟩ := h.sixteen h.bits
  obtain ⟨rk, hrk⟩ := Option.isSome_iff_exists.mp (h.there .key)
  obtain ⟨rv, hrv⟩ := Option.isSome_iff_exists.mp (h.there .value)
  rw [transitionFromSixteenGpu, after_bind, after_modify]
  have hrk' : (switchBits w c).slab.res .key = some rk := hrk
  refine (after_readResidual hrk' (h.resShape.len .key rk hrk) (h.host .key)).bind fun _ c₁ h₁ => ?_
  obtain ⟨hostK, rfl⟩ := h₁
  have hrv' : (setHost .key hostK (switchBits w c)).slab.res .value = some rv := hrv
  refine (after_readResidual hrv' (h.resShape.len .value rv hrv) (h.host .value)).bind
    fun _ c₂ h₂ => ?_
  obtain ⟨hostV, rfl⟩ := h₂
  rw [after_bind, after_modify]
  have hnone' :
    (releaseResidual (setHost .value hostV (setHost .key hostK (switchBits w c)))).slab.q2
      .key = none :=
    hnone .key
  refine (after_allocateGpuQBlocks hnone').bind fun _ c₃ h₃ => ?_
  have hpos₃ : c₃.resPos = 0 := by
    rw [h₃]
    exact h.resPos
  have hcap₃ : c₃.resCap = c.maxSeqLen := by
    rw [h₃]
    exact hcap
  rw [after_bind, after_get, after_bind, after_onlyIf]
  refine ⟨fun hle => by omega, fun _ => ?_⟩
  rw [after_bind, after_get, after_bind, after_onlyIf]
  refine ⟨fun hlt => by omega, fun _ => ?_⟩
  refine ⟨fun x => ?_, ?_, hpos₃, hcap₃, ?_⟩
  · rw [h₃]
    rfl
  · rw [h₃]
    exact htokens
  · rw [h₃]
    rfl

theorem updateGpu_missing (hres : c.slab.res .key = none) (htokens : c.q2Tokens = 0)
    (hpos : c.resPos = 0) (hcap : c.resCap = c.maxSeqLen) (hmax : 0 < c.maxSeqLen) :
    After (updateGpu codec healthy ⟨1, .filled 0 0⟩ ⟨1, .filled 0 0⟩) (fun _ _ => False)
      (fun e _ => e = .missing) c := by
  have htotal : c.totalTokens = 0 := by
    rw [QuantizedRecentWindowCache.totalTokens, htokens, hpos]
  rw [updateGpu, after_bind, after_get, after_ite, htotal]
  refine ⟨fun hgt => absurd hgt (by simp only; omega), fun _ => ?_⟩
  rw [updateLoop, after_ite]
  refine ⟨fun _ => ?_, fun hlt => absurd Nat.one_pos hlt⟩
  rw [after_bind, after_get, after_bind, after_onlyIf]
  refine ⟨fun hge => by omega, fun _ => ?_⟩
  rw [after_bind, after_get, after_bind, writeBatch, after_bind, after_get, after_ite]
  refine ⟨fun _ => ?_, fun hne => absurd ⟨rfl, ?_⟩ hne⟩
  · rw [hres]
    rfl
  · simp only
    omega

/-- **The lost residual**: through 16 bits and back, a quantized cache of no more than one group
loses it, and the next token panics. -/
theorem exists_missing {w : QuantBits} (h : Held c) (hbits : c.bits = .quantized w)
    (hpos : 0 < c.maxSeqLen) (hle : c.maxSeqLen ≤ 32) :
    ∃ ops c' op c'', Run (GpuStep codec) c ops c' ∧ exec codec op c' = .error .missing c'' := by
  obtain ⟨_, c₁, hto, h₁, hmax₁⟩ := (after_toSixteen_empty (next_resetGpu h).held rfl rfl :
    After (transitionToSixteenGpu codec healthy) ..).exists_ok
  obtain ⟨_, c₂, hback, hres, htokens, hpos₂, hcap, hmax₂⟩ :=
    (after_fromSixteen_empty h₁ (hmax₁.trans_le hle) : After
      (transitionFromSixteenGpu codec healthy w) ..).exists_ok
  have hmax : c₂.maxSeqLen = c.maxSeqLen := hmax₂.trans hmax₁
  obtain ⟨e, c₃, hupdate, rfl⟩ :=
    (updateGpu_missing (hres .key) htokens hpos₂ (hcap.trans hmax₂.symm)
      (hmax ▸ hpos) : After (updateGpu codec healthy _ _) ..).exists_error
  have hne : (resetGpu c).bits ≠ .sixteen := by
    change c.bits ≠ .sixteen
    rw [hbits]
    exact nofun
  have hstep₁ : GpuStep codec (.transitionBits .sixteen) (resetGpu c) c₁ :=
    .inl ((transitionBitsGpu_toSixteen hne).trans hto)
  have hstep₂ : GpuStep codec (.transitionBits (.quantized w)) c₁ c₂ :=
    .inl ((transitionBitsGpu_fromSixteen h₁.bits).trans hback)
  exact ⟨[.reset, .transitionBits .sixteen, .transitionBits (.quantized w)], c₂, .update _ _, c₃,
    .cons (.inl rfl) (.cons hstep₁ (.cons hstep₂ (.nil c₂))), hupdate⟩

/-! ## The cache after a failed transition -/

/-- The token values a call of `get_view` shows; `none` when it does not return. -/
def viewed (codec : GpuCodec V H) (c : GpuQuantCache V H) (x : Side) (t h ch : ℕ) :
    Option (Option (V ⊕ H)) :=
  match getViewGpu codec healthy c with
  | .ok v _ => some (v.cell c x t h ch)
  | .error _ _ => none

/-- What is to hold of the cache `c'` a failed transition leaves of `c`: the counters and the view
are as before, and no later call stops on a missing buffer. -/
structure Unharmed (codec : GpuCodec V H) (c c' : GpuQuantCache V H) : Prop where
  bits : c'.bits = c.bits
  q2Tokens : c'.q2Tokens = c.q2Tokens
  resPos : c'.resPos = c.resPos
  resCap : c'.resCap = c.resCap
  view : ∀ x, ∀ t < c.totalTokens, ∀ h < c.kvHeads, ∀ ch < c.headDim, c'.viewed codec x t h ch =
    c.viewed codec x t h ch
  later : ∀ ops c₁ op c₂, Run (GpuStep codec) c' ops c₁ → exec codec op c₁ ≠ .error .missing c₂

omit [Zero V] in
theorem viewed_eq (h : Held c) (hmax : c.maxSeqLen = 0 ∨ 32 < c.maxSeqLen) {x : Side} {t k ch : ℕ}
    (ht : t < c.totalTokens) (hk : k < c.kvHeads) (hch : ch < c.headDim) :
    c.viewed codec x t k ch = some (c.shown codec x t k ch) := by
  have hview : After (getViewGpu codec healthy) _ _ c := after_getViewGpu h
  unfold viewed
  cases hv : getViewGpu codec healthy c with
  | ok v c' => exact congrArg some ((hview.of_ok hv).2 x t ht k hk ch hch)
  | error e c' =>
    have := (hview.of_error hv).2
    omega

/-- **A transition fails harmlessly just when it fails before it changes the width**, and the
residual cannot get lost later for `max_seq_len` being no more than one group. -/
theorem failed_transition_unharmed_iff {kvHeads headDim maxSeqLen residualSize : ℕ}
    {bits newBits : CacheBits} {c₀ : GpuQuantCache V H} {ops : List (GpuOp V)} {site : Site}
    (hnew : newGpu kvHeads headDim maxSeqLen residualSize bits = some c₀)
    (hrun : Run (GpuStep codec) c₀ ops c)
    (herr : transitionBitsGpu codec (only site) newBits c = .error (.device site) c') :
    Unharmed codec c c' ↔ site.harmless = true ∧ (c.maxSeqLen = 0 ∨ 32 < c.maxSeqLen) := by
  have h : Held c := (heldAt_run ⟨(storage_newGpu hnew).held, rfl⟩ hrun).toHeld
  constructor
  · intro hu
    have hsite : site.harmless = true := by
      by_contra hlate
      exact bits_ne_of_late (Bool.eq_false_iff.mpr hlate) herr hu.bits
    refine ⟨hsite, ?_⟩
    by_contra hmax
    obtain ⟨hview, w, hbits⟩ := sameView_of_harmless h hsite herr
    have hmax' : c'.maxSeqLen = c.maxSeqLen := hview.maxSeqLen
    obtain ⟨ops', c₁, op, c₂, hrun', hmissing⟩ : ∃ ops c₁ op c₂, Run (GpuStep codec) c' ops c₁ ∧
        exec codec op c₁ = .error .missing c₂ :=
      exists_missing (held_of_kept h hbits hview.toKept) (hview.bits.trans hbits)
        (by omega) (by omega)
    exact hu.later ops' c₁ op c₂ hrun' hmissing
  · rintro ⟨hsite, hmax⟩
    obtain ⟨hview, w, hbits⟩ := sameView_of_harmless h hsite herr
    have h' : Held c' := held_of_kept h hbits hview.toKept
    have hmax' : c'.maxSeqLen = 0 ∨ 32 < c'.maxSeqLen := hview.maxSeqLen.symm ▸ hmax
    refine ⟨hview.bits, hview.q2Tokens, hview.resPos, hview.resCap, fun x t ht k hk ch hch => ?_,
      fun ops' c₁ op c₂ hrun' hmissing => ?_⟩
    · have ht' : t < c'.totalTokens := by
        unfold QuantizedRecentWindowCache.totalTokens at ht ⊢
        rw [hview.q2Tokens, hview.resPos]
        exact ht
      rw [viewed_eq h hmax ht hk hch, viewed_eq h' hmax' ht' (hview.kvHeads.symm ▸ hk)
        (hview.headDim.symm ▸ hch)]
      simp only [shown, hview.bits, hbits, hview.view x t ht k hk ch hch]
    · have hmissing' := ((after_exec (heldAt_run ⟨h', rfl⟩ hrun')).of_error hmissing).1 rfl
      omega

/-- A new 2-bit cache: the transition to 16 bits fails at the first read. -/
theorem failed_transition_unharmed_read :
    ∃ c c' : GpuQuantCache ℕ ℕ, newGpu 1 32 64 32 (.quantized .q2) = some c ∧
    transitionBitsGpu zeroCodec (only (.attnRead .key)) .sixteen c =
    .error (.device (.attnRead .key)) c' ∧ Unharmed zeroCodec c c' := by
  obtain ⟨c, c', hnew, herr, hmax⟩ : ∃ c c' : GpuQuantCache ℕ ℕ,
    newGpu 1 32 64 32 (.quantized .q2) = some c ∧
      transitionBitsGpu zeroCodec (only (.attnRead .key)) .sixteen c =
      .error (.device (.attnRead .key)) c' ∧ 32 < c.maxSeqLen := ⟨_, _, rfl, rfl, by decide⟩
  exact ⟨c, c', hnew, herr,
    (failed_transition_unharmed_iff hnew (.nil c) herr).mpr ⟨rfl, .inr hmax⟩⟩

/-- **A new 16-bit cache**: the transition to 4 bits fails at the first read, and leaves a 4-bit
cache. -/
theorem failed_transition_harms : ∃ c c' : GpuQuantCache ℕ ℕ, newGpu 1 32 64 32 .sixteen = some c ∧
    transitionBitsGpu zeroCodec (only (.resRead .key)) (.quantized .q4) c =
    .error (.device (.resRead .key)) c' ∧ c'.bits ≠ c.bits ∧ ¬ Unharmed zeroCodec c c' := by
  obtain ⟨c, c', hnew, herr⟩ : ∃ c c' : GpuQuantCache ℕ ℕ, newGpu 1 32 64 32 .sixteen = some c ∧
      transitionBitsGpu zeroCodec (only (.resRead .key)) (.quantized .q4) c =
        .error (.device (.resRead .key)) c' :=
    ⟨_, _, rfl, rfl⟩
  have hbits := bits_ne_of_late rfl herr
  exact ⟨c, c', hnew, herr, hbits, fun hu => hbits hu.bits⟩

end GpuQuantCache

end ArgusEngine
