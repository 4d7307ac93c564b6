import ArgusEngine.Kv.QuantGpuTransitions
import ArgusEngine.Lib.Runs

/-!
# The block storage of a quantized-window cache on a device

The block buffers are allocated for the width at construction, or for the one a cache goes to from
16 bits; no later transition allocates them again.

* `Storage a c`: the state between two calls, with block buffers allocated for width `a`;
* `Narrows a op`: the call does not go to blocks larger than those of `a`;
* **`storage_step`**, `storage_run`: such calls keep `Storage`, whatever they are;
* **`blockStorage_fits`**: in every run of them the buffers have room for all blocks of
  `max_seq_len` tokens.

A transition to larger blocks is not met by a larger buffer, not even when there is no block yet
(`widening_overruns`).
-/

namespace ArgusEngine

open CellArray FlatMem Effects Runs

variable {V H : Type} [Zero V] [Zero H]

namespace GpuQuantCache

variable {c c' : GpuQuantCache V H} {codec : GpuCodec V H}

/-! ## The transitions together -/

/-- The width the block buffers are allocated for, after a call; `none` when there are none. -/
def allocatedFor : Option QuantBits → GpuOp V → Option QuantBits
  | _, .transitionBits .sixteen => none
  | none, .transitionBits (.quantized w) => some w
  | a, _ => a

/-- A call that does not go to blocks larger than those the buffers were allocated for. -/
def Narrows (a : Option QuantBits) (op : GpuOp V) : Prop :=
  ∀ w₀ w, a = some w₀ → op = .transitionBits (.quantized w) → w.blockBytes ≤ w₀.blockBytes

/-- Every call of a run narrows, by the width allocated for at that call. -/
def NarrowsAll : Option QuantBits → List (GpuOp V) → Prop
  | _, [] => True
  | a, op :: ops => Narrows a op ∧ NarrowsAll (allocatedFor a op) ops

/-- The state between two calls, with block buffers allocated for width `a`. Without block buffers
every width will do. -/
structure Storage (a : Option QuantBits) (c : GpuQuantCache V H) : Prop where
  held : Held c
  none_iff : a = none ↔ c.bits = .sixteen
  sized : ∀ w, a = none ∨ a = some w → Sized w c

omit [Zero V] [Zero H] in
theorem Storage.inside {a : Option QuantBits} (h : Storage a c) : Inside c := by
  cases a with
  | none => exact (h.sized .q2 (.inl rfl)).inside
  | some w => exact (h.sized w (.inr rfl)).inside

omit [Zero V] [Zero H] in
theorem Storage.next {a : Option QuantBits} (h : Storage a c) (hn : Next c c') : Storage a c' :=
  ⟨hn.held, by rw [hn.frame.bits]; exact h.none_iff, fun w hw => hn.sized w (h.sized w hw)⟩

omit [Zero V] [Zero H] in
theorem Storage.exists_width {a : Option QuantBits} {w₀ : QuantBits} (h : Storage a c)
    (hbits : c.bits = .quantized w₀) : ∃ w, a = some w := by
  cases a with
  | some w => exact ⟨w, rfl⟩
  | none =>
    have h16 := h.none_iff.mp rfl
    rw [hbits] at h16
    cases h16

omit [Zero V] [Zero H] in
theorem storage_none (h16 : c.bits = .sixteen) (h : Held c) (hin : Inside c) : Storage none c := by
  have hno : ∀ {w}, c.bits ≠ .quantized w := by
    intro w hw
    rw [h16] at hw
    cases hw
  exact ⟨h, ⟨fun _ => h16, fun _ => rfl⟩, fun w _ =>
    ⟨hin, fun _ hw => absurd hw hno, fun _ hw => absurd hw hno, fun _ hw => absurd hw hno,
    fun _ hw => absurd hw hno⟩⟩

omit [Zero V] [Zero H] in
theorem storage_some {w w' : QuantBits} (hbits : c.bits = .quantized w')
    (h : Held c) (hs : Sized w c) : Storage (some w) c := by
  refine ⟨h, ⟨fun hw => ?_, fun h16 => ?_⟩, fun v hv => ?_⟩
  · cases hw
  · rw [hbits] at h16
    cases h16
  · rcases hv with hv | hv
    · cases hv
    · exact Option.some.inj hv ▸ hs

/-! ## One call -/

omit [Zero H] in
theorem next_resetGpu (h : Held c) : Next c (resetGpu c) where
  frame := ⟨rfl, rfl, rfl, rfl⟩
  held :=
    { total_le := Nat.zero_le _
      resPos_le := Nat.zero_le _
      q2_le := Nat.zero_le _
      attnShape := ⟨h.attnShape.len, h.attnShape.exists_of_pos⟩
      resShape := ⟨h.resShape.len, h.resShape.both⟩
      sixteen := fun h16 => ⟨rfl, (h.sixteen h16).2.1, fun _ => rfl, (h.sixteen h16).2.2.2⟩
      blocks := h.blocks
      residual := h.residual }
  sized := fun _ hs =>
    { inside := hs.inside
      aligned := fun w hw => (hs.aligned w hw).imp (fun h => ⟨h.1, dvd_zero _⟩) fun h => ⟨h.1, rfl⟩
      width := hs.width
      room := hs.room
      counts := fun _ _ x => by cases x <;> simp [resetGpu, blockCount] }

theorem storage_transitionBits {a : Option QuantBits} {newBits : CacheBits} (h : Storage a c)
    (hn : Narrows (V := V) a (.transitionBits newBits)) :
    After (transitionBitsGpu codec healthy newBits)
      (fun _ c' => Storage (allocatedFor (V := V) a (.transitionBits newBits)) c')
        (fun e _ => e.isErr = false) c := by
  rw [transitionBitsGpu, after_bind, after_get, after_ite]
  refine ⟨fun heq => ?_, fun _ => ?_⟩
  · rw [after_pure]
    cases newBits with
    | sixteen => exact storage_none heq.symm h.held h.inside
    | quantized w =>
      obtain ⟨w₀, rfl⟩ := h.exists_width heq.symm
      exact h
  cases hbits : c.bits with
  | sixteen =>
    obtain rfl := h.none_iff.mpr hbits
    cases newBits with
    | sixteen =>
      refine (after_transitionToSixteenGpu h.held).mono (fun _ c' h' => ?_) fun e _ he => he.2
      exact storage_none h'.1 h'.2.2.1 (by unfold Inside; rw [h'.2.2.2]; exact h.inside)
    | quantized w =>
      refine (after_transitionFromSixteenGpu h.held hbits).mono (fun _ c' h' => ?_)
        fun e _ he => he.2
      exact storage_some h'.1 h'.2.2.1 (h'.2.2.2 h.inside)
  | quantized w₀ =>
    obtain ⟨a, rfl⟩ := h.exists_width hbits
    cases newBits with
    | sixteen =>
      refine (after_transitionToSixteenGpu h.held).mono (fun _ c' h' => ?_) fun e _ he => he.2
      exact storage_none h'.1 h'.2.2.1 (by unfold Inside; rw [h'.2.2.2]; exact h.inside)
    | quantized w =>
      have hs := h.sized a (.inr rfl)
      have hwidth := hn a w rfl rfl
      refine (after_transitionQuantizedGpu h.held hbits).mono (fun _ c' h' => ?_) fun e _ he => ?_
      · exact storage_some h'.bits h'.held (h'.sized a hs hwidth)
      · exact Bool.eq_false_iff.mpr fun herr => (he.2 herr).2.2.2 a hs hwidth

/-- **One call** that does not widen. -/
theorem storage_step {a : Option QuantBits} {op : GpuOp V} (h : Storage a c) (hn : Narrows a op)
    (hstep : GpuStep codec op c c') : Storage (allocatedFor a op) c' := by
  cases op with
  | update newK newV =>
    rcases hstep with hok | ⟨e, he, herr⟩
    · exact h.next ((after_updateGpu h.held).of_ok hok)
    · exact h.next (((after_updateGpu h.held).of_error herr).2 he)
  | reset =>
    rcases hstep with hok | ⟨e, he, herr⟩
    · have hreset : EStateM.Result.ok () (resetGpu c) = .ok () c' := hok
      cases hreset
      exact h.next (next_resetGpu h.held)
    · cases herr
  | getView =>
    have hview : After (exec codec .getView) (fun _ => Next c) (fun e _ => e.isErr = false) c := by
      refine ((after_getViewGpu h.held).mono (fun _ _ h => h) fun e _ he => ?_).bind
        fun _ c' hv => ?_
      · rw [he.1]
        rfl
      · exact .of_steady h.held hv.1
    rcases hstep with hok | ⟨e, he, herr⟩
    · exact h.next (hview.of_ok hok)
    · exact absurd he (Bool.eq_false_iff.mp (hview.of_error herr))
  | transitionBits newBits =>
    have ht : After (transitionBitsGpu codec healthy newBits) _ _ c := storage_transitionBits h hn
    rcases hstep with hok | ⟨e, he, herr⟩
    · exact ht.of_ok hok
    · exact absurd he (Bool.eq_false_iff.mp (ht.of_error herr))

/-! ## Whole runs -/

theorem storage_run {a : Option QuantBits} {ops : List (GpuOp V)} (h : Storage a c)
    (hn : NarrowsAll a ops) (hrun : Run (GpuStep codec) c ops c') :
    Storage (ops.foldl allocatedFor a) c' := by
  induction hrun generalizing a with
  | nil => exact h
  | cons hstep _ ih => exact ih (storage_step h hn.1 hstep) hn.2

omit [Zero V] in
theorem narrowsAll_concat {a : Option QuantBits} {ops : List (GpuOp V)} {op : GpuOp V} :
    NarrowsAll a (ops ++ [op]) ↔ NarrowsAll a ops ∧ Narrows (ops.foldl allocatedFor a) op := by
  induction ops generalizing a with
  | nil => exact ⟨fun h => ⟨trivial, h.1⟩, fun h => ⟨h.2, trivial⟩⟩
  | cons o ops ih =>
    rw [List.cons_append, NarrowsAll, NarrowsAll, ih, List.foldl_cons, and_assoc]

/-- The width a new cache allocates its block buffers for. -/
def initialWidth : CacheBits → Option QuantBits
  | .sixteen => none
  | .quantized w => some w

theorem storage_newGpu {kvHeads headDim maxSeqLen residualSize : ℕ} {bits : CacheBits}
    (h : newGpu kvHeads headDim maxSeqLen residualSize bits = some c) :
    Storage (initialWidth bits) c := by
  obtain ⟨cache, hcache, h⟩ := Option.bind_eq_some_iff.mp h
  unfold QuantizedRecentWindowCache.newWithBits at hcache
  obtain ⟨hdims, hcache⟩ := Option.ite_none_right_eq_some.mp hcache
  obtain rfl := Option.some.inj hcache
  obtain rfl := Option.some.inj h
  cases bits with
  | sixteen =>
    refine storage_none rfl ?_ fun _ => nofun
    exact
      { total_le := Nat.zero_le _, resPos_le := Nat.zero_le _, q2_le := Nat.zero_le _
        attnShape := ⟨nofun, nofun⟩
        resShape := ⟨fun x r hr => by rw [← Option.some.inj hr]; rfl, fun _ _ _ => rfl⟩
        sixteen := fun _ => ⟨rfl, rfl, fun _ => rfl, fun _ => rfl⟩
        blocks := nofun
        residual := fun _ _ => rfl }
  | quantized w =>
    have hdvd : 32 ∣ residualSize := Nat.dvd_of_mod_eq_zero hdims.1
    refine storage_some rfl ?_ ?_
    · exact
        { total_le := Nat.zero_le _, resPos_le := Nat.zero_le _, q2_le := Nat.zero_le _
          attnShape := ⟨fun x a ha => by rw [← Option.some.inj ha]; rfl, fun _ _ => ⟨_, rfl⟩⟩
          resShape := ⟨fun x r hr => by rw [← Option.some.inj hr]; rfl, fun _ _ _ => rfl⟩
          sixteen := nofun
          blocks := fun _ _ _ => ⟨_, rfl⟩
          residual := fun _ _ => rfl }
    · refine ⟨fun _ => nofun, fun _ _ => .inl ⟨hdvd, dvd_zero _⟩, fun w' hw' => ?_,
        fun _ _ x q hq => ?_, fun _ _ x => ?_⟩
      · cases hw'
        exact le_rfl
      · rw [← Option.some.inj hq, List.length_replicate]
        refine le_trans (Nat.mul_le_mul_right _ ?_) (le_max_left _ _)
        exact blockCount_le_maxBlocks _ hdims.2.1 (.inl hdvd) x
      · cases x <;> simp [blockCount]

/-- What is to hold of the block storage of a cache at width `w`. -/
structure BlocksFit (w : QuantBits) (c : GpuQuantCache V H) : Prop where
  room : ∀ x, ∃ q, c.slab.q2 x = some q ∧ c.blockCount x c.maxSeqLen * w.blockBytes ≤ q.length
  counts : ∀ x, c.gpuQ2Blocks x = c.blockCount x c.q2Tokens

omit [Zero V] [Zero H] in
theorem Storage.blocksFit {a : Option QuantBits} {w : QuantBits} (h : Storage a c)
    (hbits : c.bits = .quantized w) : BlocksFit w c := by
  obtain ⟨a, rfl⟩ := h.exists_width hbits
  have hs := h.sized a (.inr rfl)
  refine ⟨fun x => ?_, hs.counts w hbits⟩
  obtain ⟨q, hq⟩ := h.held.blocks w hbits x
  exact ⟨q, hq, le_trans (Nat.mul_le_mul_left _ (hs.width w hbits)) (hs.room w hbits x q hq)⟩

/-- **The block storage fits**: in every run that does not widen, the buffers have room for the
blocks of `max_seq_len` tokens, the counts are those of the flushed tokens, every upload lies inside
its buffer, and a transition between quantized widths cuts no block off. -/
theorem blockStorage_fits {kvHeads headDim maxSeqLen residualSize : ℕ} {bits : CacheBits}
    {c₀ : GpuQuantCache V H} {ops : List (GpuOp V)}
    (hnew : newGpu kvHeads headDim maxSeqLen residualSize bits = some c₀)
    (hrun : Run (GpuStep codec) c₀ ops c) (hn : NarrowsAll (initialWidth bits) ops) :
    (∀ w, c.bits = .quantized w → BlocksFit w c) ∧ Inside c ∧ ∀ w₀ w c',
    c.bits = .quantized w₀ → w ≠ w₀ →
      NarrowsAll (initialWidth bits) (ops ++ [.transitionBits (.quantized w)]) →
      GpuStep codec (.transitionBits (.quantized w)) c c' → ∀ x q, c.slab.q2 x = some q →
      ∃ q', c'.slab.q2 x = some q' ∧
      (requantizedBlocks codec w₀ w q (c.blockCount x c.q2Tokens)).flatten <+: q' := by
  have h := storage_run (storage_newGpu hnew) hn hrun
  refine ⟨fun w hbits => h.blocksFit hbits, h.inside, fun w₀ w c' hbits hne hn' hstep x q hq => ?_⟩
  obtain ⟨a, ha⟩ := h.exists_width hbits
  have hs := h.sized a (.inr ha)
  have hwidth := (narrowsAll_concat.mp hn').2 a w ha rfl
  -- the call is the transition between quantized widths, which has room
  have hcall : exec codec (.transitionBits (.quantized w)) c =
    transitionQuantizedGpu codec healthy w₀ w c :=
    transitionBitsGpu_quantized hbits hne
  have hafter : After (transitionQuantizedGpu codec healthy w₀ w) _ _ c :=
    after_transitionQuantizedGpu h.held hbits
  rcases hstep with hok | ⟨e, he, herr⟩
  · have hr := hafter.of_ok (hcall ▸ hok)
    obtain ⟨q', hq'⟩ := hr.held.blocks w hr.bits x
    exact ⟨q', hq', hr.stored a hs hwidth x q q' hq hq'⟩
  · exact absurd hwidth (((hafter.of_error (hcall ▸ herr)).2 he).2.2.2 a hs)

/-- The kernels on blocks of zeros. -/
def zeroCodec : GpuCodec ℕ ℕ where
  quantize w _ := .replicate w.blockBytes 0
  dequantize _ _ _ := 0
  length_quantize _ _ := List.length_replicate
  narrow := id
  widen := id

theorem blockStorage_fits_narrowed :
    ∃ c₀ c : GpuQuantCache ℕ ℕ, newGpu 1 32 32 32 (.quantized .q8) = some c₀ ∧
    Run (GpuStep zeroCodec) c₀ [.reset, .transitionBits (.quantized .q4)] c ∧ BlocksFit .q4 c := by
  obtain ⟨c₀, c, hnew, hrun, hbits⟩ : ∃ c₀ c : GpuQuantCache ℕ ℕ,
    newGpu 1 32 32 32 (.quantized .q8) = some c₀ ∧
      Run (GpuStep zeroCodec) c₀ [.reset, .transitionBits (.quantized .q4)] c ∧
      c.bits = .quantized .q4 :=
    ⟨_, _, rfl, .cons (.inl rfl) (.cons (.inl rfl) (.nil _)), rfl⟩
  have hn : NarrowsAll (V := ℕ) (initialWidth (.quantized .q8))
    [.reset, .transitionBits (.quantized .q4)] := by
    refine ⟨fun w₀ w _ h => ?_, fun w₀ w h h' => ?_, trivial⟩
    · cases h
    · cases h
      cases h'
      decide
  exact ⟨c₀, c, hnew, hrun, (blockStorage_fits hnew hrun hn).1 .q4 hbits⟩

/-- **Widening**: a new cache goes from 2 to 8 bits, with the buffers of 2 bits. -/
theorem widening_overruns :
    ∃ c₀ c : GpuQuantCache ℕ ℕ, newGpu 1 32 32 32 (.quantized .q2) = some c₀ ∧
    Run (GpuStep zeroCodec) c₀ [.transitionBits (.quantized .q8)] c ∧ c.bits = .quantized .q8 ∧
    ¬ BlocksFit .q8 c := by
  refine ⟨_, _, rfl, .cons (.inl rfl) (.nil _), rfl, fun h => ?_⟩
  obtain ⟨q, hq, hle⟩ := h.room .key
  rw [← Option.some.inj hq, List.length_replicate] at hle
  revert hle
  decide

end GpuQuantCache

end ArgusEngine
