import ArgusEngine.Kv.QuantBuffers
import ArgusEngine.Kv.QuantGpu

/-!
# What the device calls of a quantized-window cache keep

The calls on a healthy device, one by one.

* `Kept`, `Steady`: only the contents of buffers change;
* `AttnShape`, `ResShape`: the sizes of the attention buffers and of the residual;
* **`after_uploadAndDequantFlushWith`**: the blocks of a flush go behind the stored ones, where
  there is room;
* **`after_flushResidualGpu`**: the whole groups of 32 tokens go from the residual to the block
  buffers.
-/

namespace ArgusEngine

open CellArray FlatMem Effects

variable {V H α β : Type}

/-! ## The device -/

section Device

variable {dev : Site → Bool} {s : GpuQuantCache V H} {E : GpuFault → GpuQuantCache V H → Prop}

theorem after_request {site : Site} {Q : Unit → GpuQuantCache V H → Prop} :
    After (request dev site) Q E s ↔ (dev site = true → E (.device site) s) ∧
    (¬ dev site = true → Q () s) := after_ite

theorem after_unwrap {o : Option α} {Q : α → GpuQuantCache V H → Prop} :
    After (unwrap o) Q E s ↔ (∀ x, o = some x → Q x s) ∧ (o = none → E .missing s) := by
  cases o with
  | none => exact ⟨fun h => ⟨nofun, fun _ => h⟩, fun h => h.2 rfl⟩
  | some x => exact ⟨fun h => ⟨fun y hy => Option.some.inj hy ▸ h, nofun⟩, fun h => h.1 x rfl⟩

theorem after_orPanic {text : String} {o : Option α} {Q : α → GpuQuantCache V H → Prop} :
    After (orPanic text o) Q E s ↔ (∀ x, o = some x → Q x s) ∧ (o = none → E (.panic text) s) := by
  cases o with
  | none => exact ⟨fun h => ⟨nofun, fun _ => h⟩, fun h => h.2 rfl⟩
  | some x => exact ⟨fun h => ⟨fun y hy => Option.some.inj hy ▸ h, nofun⟩, fun h => h.1 x rfl⟩

theorem after_orErr {text : String} {o : Option α} {Q : α → GpuQuantCache V H → Prop} :
    After (orErr text o) Q E s ↔ (∀ x, o = some x → Q x s) ∧ (o = none → E (.err text) s) := by
  cases o with
  | none => exact ⟨fun h => ⟨nofun, fun _ => h⟩, fun h => h.2 rfl⟩
  | some x => exact ⟨fun h => ⟨fun y hy => Option.some.inj hy ▸ h, nofun⟩, fun h => h.1 x rfl⟩

end Device

namespace GpuQuantCache

/-! ## The fields a call leaves alone -/

/-- The dimensions and the width. -/
structure Frame (c c' : GpuQuantCache V H) : Prop where
  bits : c'.bits = c.bits
  kvHeads : c'.kvHeads = c.kvHeads
  headDim : c'.headDim = c.headDim
  maxSeqLen : c'.maxSeqLen = c.maxSeqLen

instance : Std.Refl (Frame (V := V) (H := H)) := ⟨fun _ => ⟨rfl, rfl, rfl, rfl⟩⟩

instance : IsTrans (GpuQuantCache V H) Frame :=
  ⟨fun _ _ _ h h' => ⟨h'.bits.trans h.bits, h'.kvHeads.trans h.kvHeads, h'.headDim.trans h.headDim,
    h'.maxSeqLen.trans h.maxSeqLen⟩⟩

/-! ## Blocks and buffers -/

/-- `n` blocks of width `w`. -/
structure BlocksOf (w : QuantBits) (n : ℕ) (q : QuantizedBlocks (List UInt8))
    (v : List (List UInt8)) : Prop where
  eq : q = .blocks w v
  count : v.length = n
  size : ∀ b ∈ v, b.length = w.blockBytes

theorem BlocksOf.length_flatten {w : QuantBits} {n : ℕ} {q : QuantizedBlocks (List UInt8)}
    {v : List (List UInt8)} (h : BlocksOf w n q v) : v.flatten.length = n * w.blockBytes := by
  rw [List.length_flatten, List.map_congr_left h.size, List.map_const',
    List.sum_replicate_nat, h.count]

theorem BlocksOf.serialize {w : QuantBits} {n : ℕ} {q : QuantizedBlocks (List UInt8)}
    {v : List (List UInt8)} (h : BlocksOf w n q v) : serializeBlocks q 0 n = some v.flatten := by
  rw [h.eq, serializeBlocks, if_pos (by rw [Nat.zero_add, h.count]), slice, List.drop_zero,
    List.take_of_length_le h.count.le]

theorem BlocksOf.extract {w : QuantBits} {n : ℕ} {q : QuantizedBlocks (List UInt8)}
    {v : List (List UInt8)} (h : BlocksOf w n q v) {start count : ℕ} (hle : start + count ≤ n) :
    ∃ q', extractSubBlocks q start count = some q' ∧ BlocksOf w count q' (slice v start count) := by
  refine ⟨.blocks w (slice v start count), ?_, rfl, length_slice (h.count.symm ▸ hle),
    fun b hb => ?_⟩
  · rw [h.eq, extractSubBlocks, if_pos (h.count.symm ▸ hle)]
  · exact h.size b (List.mem_of_mem_drop (List.mem_of_mem_take hb))

/-- The attention buffers have room for `attn_cap` tokens, and are there when that is not none. -/
structure AttnShape (c : GpuQuantCache V H) : Prop where
  len : ∀ x a, c.slab.attn x = some a → a.len = c.slab.attnCap * c.kvHeads * c.headDim
  exists_of_pos : 0 < c.slab.attnCap → ∀ x, ∃ a, c.slab.attn x = some a

/-- Everything but the contents of the buffers, the block counts and the uploads. -/
structure Kept (c c' : GpuQuantCache V H) : Prop extends Frame c c' where
  q2Tokens : c'.q2Tokens = c.q2Tokens
  resPos : c'.resPos = c.resPos
  resCap : c'.resCap = c.resCap
  res : ∀ x, (c'.slab.res x).map Cells.len = (c.slab.res x).map Cells.len
  q2 : ∀ x, (c'.slab.q2 x).map List.length = (c.slab.q2 x).map List.length
  attnShape : AttnShape c → AttnShape c'
  attnCap : c.slab.attnCap ≤ c'.slab.attnCap

theorem Kept.refl (c : GpuQuantCache V H) : Kept c c :=
  ⟨⟨rfl, rfl, rfl, rfl⟩, rfl, rfl, rfl, fun _ => rfl, fun _ => rfl, id, le_rfl⟩

theorem Kept.trans {c c' c'' : GpuQuantCache V H} (h : Kept c c') (h' : Kept c' c'') :
    Kept c c'' where
  toFrame := IsTrans.trans _ _ _ h.toFrame h'.toFrame
  q2Tokens := h'.q2Tokens.trans h.q2Tokens
  resPos := h'.resPos.trans h.resPos
  resCap := h'.resCap.trans h.resCap
  res := fun x => (h'.res x).trans (h.res x)
  q2 := fun x => (h'.q2 x).trans (h.q2 x)
  attnShape := fun hs => h'.attnShape (h.attnShape hs)
  attnCap := h.attnCap.trans h'.attnCap

instance : Std.Refl (Kept (V := V) (H := H)) := ⟨Kept.refl⟩

instance : IsTrans (GpuQuantCache V H) Kept := ⟨fun _ _ _ => Kept.trans⟩

theorem Kept.exists_q2 {c c' : GpuQuantCache V H} (h : Kept c c') {x : Side} {q : List UInt8}
    (hq : c.slab.q2 x = some q) : ∃ q', c'.slab.q2 x = some q' ∧ q'.length = q.length := by
  have hx := h.q2 x
  rw [hq, Option.map_some] at hx
  exact Option.map_eq_some_iff.mp hx

@[simp] theorem attn_setAttn (x : Side) (a : Cells H) (c : GpuQuantCache V H) :
    (setAttn x a c).slab.attn x = some a :=
  Function.update_self ..

@[simp] theorem res_setRes (x : Side) (r : Cells V) (c : GpuQuantCache V H) :
    (setRes x r c).slab.res x = some r :=
  Function.update_self ..

@[simp] theorem q2_setQ2 (x : Side) (q : List UInt8) (c : GpuQuantCache V H) :
    (setQ2 x q c).slab.q2 x = some q :=
  Function.update_self ..

theorem q2_setQ2_of_ne {x y : Side} (h : y ≠ x) (q : List UInt8) (c : GpuQuantCache V H) :
    (setQ2 x q c).slab.q2 y = c.slab.q2 y := Function.update_of_ne h ..

theorem kept_setQ2 (c : GpuQuantCache V H) {x : Side} {q q' : List UInt8}
    (hq : c.slab.q2 x = some q) (hlen : q'.length = q.length) (us : List Upload) :
    Kept c (setQ2 x q' { c with uploads := us }) := by
  refine { Kept.refl c with q2 := fun y => ?_, attnShape := fun h => ⟨h.len, h.exists_of_pos⟩ }
  change (Function.update c.slab.q2 x (some q') y).map List.length = _
  by_cases hy : y = x
  · rw [hy, Function.update_self, hq, Option.map_some, Option.map_some, hlen]
  · rw [Function.update_of_ne hy]

theorem kept_setAttn (c : GpuQuantCache V H) {x : Side} {a a' : Cells H}
    (ha : c.slab.attn x = some a) (hlen : a'.len = a.len) : Kept c (setAttn x a' c) := by
  refine { Kept.refl c with attnShape := fun h => ⟨fun y b hb => ?_, fun hpos y => ?_⟩ }
  · change Function.update c.slab.attn x (some a') y = some b at hb
    by_cases hy : y = x
    · rw [hy, Function.update_self] at hb
      rw [← Option.some.inj hb, hlen]
      exact h.len x a ha
    · rw [Function.update_of_ne hy] at hb
      exact h.len y b hb
  · change ∃ b, Function.update c.slab.attn x (some a') y = some b
    by_cases hy : y = x
    · exact ⟨a', by rw [hy, Function.update_self]⟩
    · rw [Function.update_of_ne hy]
      exact h.exists_of_pos hpos y

theorem kept_setRes (c : GpuQuantCache V H) {x : Side} {r r' : Cells V} (hr : c.slab.res x = some r)
    (hlen : r'.len = r.len) : Kept c (setRes x r' c) := by
  refine { Kept.refl c with res := fun y => ?_, attnShape := fun h => ⟨h.len, h.exists_of_pos⟩ }
  change (Function.update c.slab.res x (some r') y).map Cells.len = _
  by_cases hy : y = x
  · rw [hy, Function.update_self, hr, Option.map_some, Option.map_some, hlen]
  · rw [Function.update_of_ne hy]

theorem kept_setHost (c : GpuQuantCache V H) (x : Side) (r : Cells V) : Kept c (setHost x r c) := by
  cases x <;> exact { Kept.refl c with attnShape := fun h => ⟨h.len, h.exists_of_pos⟩ }

/-! ## A device on which no call fails -/

section Healthy

variable {c : GpuQuantCache V H} {E : GpuFault → GpuQuantCache V H → Prop}

theorem after_request_healthy {site : Site} {Q : Unit → GpuQuantCache V H → Prop} :
    After (request healthy site) Q E c ↔ Q () c := Iff.rfl

theorem after_alloc_healthy {site : Site} {n : ℕ} {x : β} {Q : Cells β → GpuQuantCache V H → Prop} :
    After (alloc healthy site n x) Q E c ↔ Q (.filled n x) c := Iff.rfl

theorem after_writeBuffer_healthy {site : Site} {t src : Cells β}
    {Q : Cells β → GpuQuantCache V H → Prop} (h : src.len = t.len) :
    After (writeBuffer healthy site t src) Q E c ↔ Q src c := by
  rw [writeBuffer, if_pos h]
  rfl

theorem after_copySlice_healthy {site : Site} {src dst dst' : Cells β} {s d n : ℕ}
    {Q : Cells β → GpuQuantCache V H → Prop} (h : dst.copyFrom d n src s = some dst') :
    After (copySlice healthy site src dst s d n) Q E c ↔ Q dst' c := by
  rw [copySlice, after_bind, after_request_healthy, h]
  rfl

theorem after_copyOld {x : Side} {old : Option (Cells H)} {new : Cells H} {n : ℕ}
    (hold : ∀ o, old = some o → o.len = n) (hn : n ≤ new.len) :
    After (copyOld healthy x old new n) (fun a c' => c' = c ∧ a.len = new.len ∧
      ∀ o, old = some o → ∀ i < o.len, a.cell i = o.cell i) (fun _ _ => False) c := by
  cases old with
  | none => exact ⟨rfl, rfl, nofun⟩
  | some o =>
    have ho := hold o rfl
    unfold copyOld
    dsimp only
    split_ifs with hpos
    · obtain ⟨new', hcopy⟩ : ∃ new', new.copyFrom 0 n o 0 = some new' :=
        ⟨_, if_pos ⟨by omega, by omega⟩⟩
      obtain ⟨-, hnew⟩ := copyFrom_eq_some hcopy
      rw [after_copySlice_healthy hcopy]
      refine ⟨rfl, by rw [hnew], fun o' ho' i hi => ?_⟩
      obtain rfl := Option.some.inj ho'
      rw [hnew]
      change SlotMem.place o.cell 0 new.cell 0 n i = o.cell i
      rw [SlotMem.place_of_mem (Nat.zero_le _) (by omega), Nat.zero_add, Nat.sub_zero]
    · exact ⟨rfl, rfl, fun o' ho' i hi => by obtain rfl := Option.some.inj ho'; omega⟩

/-- The attention buffers have room for `needed` tokens and hold what they held; nothing else
changes. -/
structure Grown (needed : ℕ) (c c' : GpuQuantCache V H) : Prop where
  eq : c' = { c with slab := { c.slab with attn := c'.slab.attn, attnCap := c'.slab.attnCap } }
  needed_le : needed ≤ c'.slab.attnCap
  cap_le : c.slab.attnCap ≤ c'.slab.attnCap
  shape : AttnShape c'
  cell : ∀ x a, c.slab.attn x = some a → ∃ a', c'.slab.attn x = some a' ∧ ∀ i < a.len,
    a'.cell i = a.cell i

/-- **`ensure_gpu_attn_capacity`** makes room. -/
theorem after_ensureGpuAttnCapacity [Zero H] {needed : ℕ} (hshape : AttnShape c)
    (hneeded : needed ≤ c.maxSeqLen) :
    After (ensureGpuAttnCapacity healthy needed) (fun _ c' => Grown needed c c')
      (fun _ _ => False) c := by
  rw [ensureGpuAttnCapacity, after_bind, after_get, after_ite]
  refine ⟨fun hle => ⟨rfl, hle, le_rfl, hshape, fun x a ha => ⟨a, ha, fun _ _ => rfl⟩⟩,
    fun hlt => ?_⟩
  have hcap : needed ≤ min (2 ^ Nat.clog 2 needed) c.maxSeqLen :=
    le_min (Nat.le_pow_clog Nat.one_lt_two needed) hneeded
  have hroom : c.slab.attnCap * c.kvHeads * c.headDim ≤
      min (2 ^ Nat.clog 2 needed) c.maxSeqLen * c.kvHeads * c.headDim :=
    Nat.mul_le_mul_right _ (Nat.mul_le_mul_right _ (by omega))
  rw [after_bind, after_alloc_healthy, after_bind, after_alloc_healthy, after_bind,
    after_writeBuffer_healthy rfl, after_bind, after_writeBuffer_healthy rfl]
  refine (after_copyOld (hshape.len .key) hroom).bind fun newK c' hK => ?_
  obtain ⟨rfl, hlenK, hcellK⟩ := hK
  refine (after_copyOld (hshape.len .value) hroom).bind fun newV c' hV => ?_
  obtain ⟨rfl, hlenV, hcellV⟩ := hV
  refine ⟨rfl, hcap,
    by change _ ≤ min _ _; omega, ⟨fun x a ha => ?_, fun _ x => ⟨_, rfl⟩⟩,
    fun x a ha => ⟨_, rfl, ?_⟩⟩
  · obtain rfl := Option.some.inj ha
    cases x
    · exact hlenK
    · exact hlenV
  · cases x
    · exact hcellK a ha
    · exact hcellV a ha

/-- Only the contents of the attention buffers and of the residuals change. -/
structure Steady (c c' : GpuQuantCache V H) : Prop extends Kept c c' where
  sameQ2 : c'.slab.q2 = c.slab.q2
  gpuQ2Blocks : c'.gpuQ2Blocks = c.gpuQ2Blocks
  uploads : c'.uploads = c.uploads

instance : Std.Refl (Steady (V := V) (H := H)) := ⟨fun c => ⟨Kept.refl c, rfl, rfl, rfl⟩⟩

instance : IsTrans (GpuQuantCache V H) Steady :=
  ⟨fun _ _ _ h h' => ⟨h.toKept.trans h'.toKept, h'.sameQ2.trans h.sameQ2,
    h'.gpuQ2Blocks.trans h.gpuQ2Blocks, h'.uploads.trans h.uploads⟩⟩

theorem Grown.steady {needed : ℕ} {c' : GpuQuantCache V H} (h : Grown needed c c') :
    Steady c c' where
  bits := by rw [h.eq]
  kvHeads := by rw [h.eq]
  headDim := by rw [h.eq]
  maxSeqLen := by rw [h.eq]
  q2Tokens := by rw [h.eq]
  resPos := by rw [h.eq]
  resCap := by rw [h.eq]
  res := fun x => by rw [h.eq]
  q2 := fun x => by rw [h.eq]
  attnShape := fun _ => h.shape
  attnCap := h.cap_le
  sameQ2 := by rw [h.eq]
  gpuQ2Blocks := by rw [h.eq]
  uploads := by rw [h.eq]

theorem steady_setAttn {x : Side} {a a' : Cells H} (ha : c.slab.attn x = some a)
    (hlen : a'.len = a.len) : Steady c (setAttn x a' c) := ⟨kept_setAttn c ha hlen, rfl, rfl, rfl⟩

theorem steady_setRes {x : Side} {r r' : Cells V} (hr : c.slab.res x = some r)
    (hlen : r'.len = r.len) : Steady c (setRes x r' c) := ⟨kept_setRes c hr hlen, rfl, rfl, rfl⟩

theorem steady_setHost (x : Side) (r : Cells V) : Steady c (setHost x r c) := by
  refine ⟨kept_setHost c x r, ?_, ?_, ?_⟩ <;> cases x <;> rfl

/-- The call only panics. -/
abbrev Panics (e : GpuFault) : Prop := ∃ text, e = .panic text

omit c in
theorem len_writeBlock {a a' : Cells β} {idx : Fin 32 → ℕ} {block : Fin 32 → β}
    (h : writeBlock a idx block = some a') : a'.len = a.len :=
  foldlM_keeps (I := fun b : Cells β => b.len = a.len)
    (fun _ _ _ _ hb hset => (set_eq_some hset).2.len.trans hb) h rfl

omit c in
theorem len_dequantInto {blk : ℕ → Option (Fin 32 → V)} {conv : V → β} {idxs : List (Fin 32 → ℕ)}
    {out out' : Cells β} (h : dequantInto blk conv idxs out = some out') : out'.len = out.len := by
  refine foldlM_keeps (I := fun b : Cells β => b.len = out.len) (fun x _ b b' hb hstep => ?_) h rfl
  obtain ⟨vals, -, hwrite⟩ := Option.bind_eq_some_iff.mp hstep
  exact (len_writeBlock hwrite).trans hb

variable {codec : GpuCodec V H}

omit c in
theorem after_unwrap_some {c : GpuQuantCache V H} {x : α} {Q : α → GpuQuantCache V H → Prop} :
    After (unwrap (some x)) Q E c ↔ Q x c := Iff.rfl

theorem moves_dequantFlush {x : Side} {nGroups flushTokens tokBase blockStart : ℕ}
    {q : List UInt8} {a : Cells H} (hq : c.slab.q2 x = some q) (ha : c.slab.attn x = some a) :
    Moves Steady Panics (dequantFlush codec healthy x nGroups flushTokens tokBase blockStart)
      c := by
  simp only [Moves, dequantFlush, after_bind, after_get, hq, ha, after_unwrap_some,
    after_request_healthy, after_orPanic, after_modify]
  exact ⟨fun a' h => steady_setAttn ha (len_dequantInto h), fun _ => ⟨Std.Refl.refl c, _, rfl⟩⟩

theorem after_dequantRows [Zero V] {x : Side} {nGroups flushTokens : ℕ}
    {tmp : QuantizedBlocks (List UInt8)} : After (dequantRows codec x nGroups flushTokens tmp)
      (fun r c' => Steady c c' ∧ c' = c ∧ r.len = flushTokens * c.kvHeads * c.headDim)
      (fun e c' => Steady c c' ∧ Panics e) c := by
  simp only [dequantRows, after_bind, after_get, after_orPanic]
  exact ⟨fun r h => ⟨Std.Refl.refl c, trivial, len_dequantInto h⟩, fun _ =>
    ⟨Std.Refl.refl c, _, rfl⟩⟩

theorem moves_uploadRows {x : Side} {tokBase flushTokens : ℕ} {rows : Cells V} {a : Cells H}
    (ha : c.slab.attn x = some a) (hlen : a.len = c.slab.attnCap * c.kvHeads * c.headDim)
    (hrows : rows.len = flushTokens * c.kvHeads * c.headDim)
    (hcap : tokBase + flushTokens ≤ c.slab.attnCap) :
    Moves Steady Panics (uploadRows codec healthy x tokBase rows) c := by
  have hfits : tokBase * c.kvHeads * c.headDim + rows.len ≤ a.len := by
    rw [hrows, hlen, ← Nat.add_mul, ← Nat.add_mul]
    exact Nat.mul_le_mul_right _ (Nat.mul_le_mul_right _ hcap)
  obtain ⟨a', hcopy⟩ : ∃ a', a.copyFrom (tokBase * c.kvHeads * c.headDim) rows.len
      ⟨rows.len, codec.narrow ∘ rows.cell⟩ 0 = some a' := ⟨_, if_pos ⟨hfits, (Nat.zero_add _).le⟩⟩
  simp only [Moves, uploadRows, after_bind, after_get, ha, after_unwrap_some]
  rw [after_copySlice_healthy hcopy, after_modify]
  exact steady_setAttn ha (len_of_copyFrom hcopy)

theorem moves_dequantFlushed [Zero V] {w : QuantBits}
    {flushTokens nGroups tokBase kStart vStart : ℕ} {tmpQk tmpQv : QuantizedBlocks (List UInt8)}
    (hshape : AttnShape c) (hq : ∀ x, ∃ q, c.slab.q2 x = some q) (hpos : 0 < flushTokens)
    (hcap : tokBase + flushTokens ≤ c.slab.attnCap) :
    Moves Steady Panics (dequantFlushed codec healthy w flushTokens nGroups tokBase kStart vStart
      tmpQk tmpQv) c := by
  have hattn : ∀ {c'}, Steady c c' → ∀ x, ∃ a, c'.slab.attn x = some a ∧
      a.len = c'.slab.attnCap * c'.kvHeads * c'.headDim := by
    intro c' hc x
    have hshape' := hc.attnShape hshape
    obtain ⟨a, ha⟩ := hshape'.exists_of_pos (by have := hc.attnCap; omega) x
    exact ⟨a, ha, hshape'.len x a ha⟩
  unfold dequantFlushed
  split_ifs
  · obtain ⟨qk, hqk⟩ := hq .key
    obtain ⟨qv, hqv⟩ := hq .value
    obtain ⟨ak, hak, -⟩ := hattn (Std.Refl.refl c) .key
    refine (moves_dequantFlush hqk hak).bind fun _ c' hc => ?_
    obtain ⟨av, hav, -⟩ := hattn hc .value
    exact moves_dequantFlush (by rw [hc.sameQ2]; exact hqv) hav
  · refine Moves.bind_of after_dequantRows fun k c₁ _ hk => ?_
    obtain ⟨rfl, hk⟩ := hk
    refine Moves.bind_of after_dequantRows fun v c₁ _ hv => ?_
    obtain ⟨rfl, hv⟩ := hv
    obtain ⟨ak, hak, hlen⟩ := hattn (Std.Refl.refl c₁) .key
    refine (moves_uploadRows hak hlen hk hcap).bind fun _ c' hc => ?_
    obtain ⟨av, hav, hlen'⟩ := hattn hc .value
    refine moves_uploadRows hav hlen' ?_ (hcap.trans hc.attnCap)
    rw [hc.kvHeads, hc.headDim]
    exact hv

/-- All uploads so far lay inside their buffers. -/
def Inside (c : GpuQuantCache V H) : Prop := ∀ u ∈ c.uploads, u.offset + u.length ≤ u.size

/-- How a call stops on a healthy device: not on a missing buffer, and with an `Err` only where
there was no room, the cache being kept. -/
def Halts (room : Prop) (c : GpuQuantCache V H) (e : GpuFault) (c' : GpuQuantCache V H) : Prop :=
  e ≠ .missing ∧ (e.isErr = true → ¬ room ∧ Kept c c')

theorem halts_panics {room : Prop} {c c' : GpuQuantCache V H} {e : GpuFault} (h : Panics e) :
    Halts room c e c' := by
  obtain ⟨text, rfl⟩ := h
  exact ⟨nofun, nofun⟩

/-- One side of an upload. -/
structure UploadedSide (x : Side) (bytes : List UInt8) (offset : ℕ)
    (c c' : GpuQuantCache V H) : Prop extends Kept c c' where
  written : ∀ q, c.slab.q2 x = some q → c'.slab.q2 x = some (blit bytes 0 q offset bytes.length)
  other : ∀ y, y ≠ x → c'.slab.q2 y = c.slab.q2 y
  gpuQ2Blocks : c'.gpuQ2Blocks = c.gpuQ2Blocks
  inside : Inside c → Inside c'

theorem after_uploadBlocks {c₀ : GpuQuantCache V H} {room : Prop} {x : Side} {tokBase offset : ℕ}
    {bytes q : List UInt8} (hkept : Kept c₀ c) (hq : c.slab.q2 x = some q)
    (hroom : room → offset + bytes.length ≤ q.length) :
    After (uploadBlocks healthy x tokBase bytes offset)
      (fun _ c' => UploadedSide x bytes offset c c') (Halts room c₀) c := by
  simp only [uploadBlocks, after_bind, after_get, hq, after_unwrap_some, after_modify,
    writeBufferRange, after_ite, after_request_healthy, after_pure, after_throw]
  refine ⟨fun hle => ⟨kept_setQ2 c hq (length_blit ..) _, fun q' hq' => ?_, fun y hy => ?_, rfl,
    fun hin u hu => ?_⟩, fun hgt => ⟨nofun, fun _ => ⟨fun h => hgt (hroom h), hkept.trans ?_⟩⟩⟩
  · obtain rfl := Option.some.inj (hq.symm.trans hq')
    exact Function.update_self ..
  · exact Function.update_of_ne hy ..
  · rcases List.mem_append.mp hu with hu | hu
    · exact hin u hu
    · rw [List.mem_singleton.mp hu]
      exact hle
  · exact { Kept.refl c with attnShape := fun h => ⟨h.len, h.exists_of_pos⟩ }

/-- The serialized blocks of a flush are in the block buffers and counted. -/
structure Uploaded (w : QuantBits) (new : Side → ℕ) (vk vv : List (List UInt8))
    (c c' : GpuQuantCache V H) : Prop extends Kept c c' where
  written : ∀ x q, c.slab.q2 x = some q → c'.slab.q2 x = some (blit (x.pick vk vv).flatten 0 q
    (c.gpuQ2Blocks x * w.blockBytes) (x.pick vk vv).flatten.length)
  gpuQ2Blocks : ∀ x, c'.gpuQ2Blocks x = c.gpuQ2Blocks x + new x
  inside : Inside c → Inside c'

/-- The block buffers have room for `new` more blocks. -/
def HasRoom (w : QuantBits) (new : Side → ℕ) (c : GpuQuantCache V H) : Prop :=
  ∀ x q, c.slab.q2 x = some q → (c.gpuQ2Blocks x + new x) * w.blockBytes ≤ q.length

/-- **`upload_and_dequant_flush_with`** appends the blocks, or stops where there is no room. -/
theorem after_uploadAndDequantFlushWith [Zero V] {c₀ : GpuQuantCache V H}
    {room : Prop} {w : QuantBits} {flushTokens nGroups tokBase : ℕ}
    {tmpQk tmpQv : QuantizedBlocks (List UInt8)} {vk vv : List (List UInt8)} (hkept₀ : Kept c₀ c)
    (hbits : c.bits = .quantized w) (hshape : AttnShape c) (hq : ∀ x, ∃ q, c.slab.q2 x = some q)
    (hpos : 0 < flushTokens) (hcap : tokBase + flushTokens ≤ c.slab.attnCap)
    (hvk : BlocksOf w (c.newBlocks flushTokens nGroups .key) tmpQk vk)
    (hvv : BlocksOf w (c.newBlocks flushTokens nGroups .value) tmpQv vv)
    (hroom : room → HasRoom w (c.newBlocks flushTokens nGroups) c) :
    After (uploadAndDequantFlushWith codec healthy flushTokens nGroups tokBase tmpQk tmpQv)
      (fun _ c' => Uploaded w (c.newBlocks flushTokens nGroups) vk vv c c') (Halts room c₀) c := by
  obtain ⟨qk, hqk⟩ := hq .key
  obtain ⟨qv, hqv⟩ := hq .value
  rw [uploadAndDequantFlushWith, after_bind, after_get]
  simp only [hbits]
  rw [hvk.serialize, hvv.serialize]
  refine (after_uploadBlocks hkept₀ hqk fun h => ?_).bind fun _ c₁ h₁ => ?_
  · rw [hvk.length_flatten, ← Nat.add_mul]
    exact hroom h .key qk hqk
  refine (after_uploadBlocks (hkept₀.trans h₁.toKept) ((h₁.other .value (by decide)).trans hqv)
    fun h => ?_).bind fun _ c₂ h₂ => ?_
  · rw [hvv.length_flatten, ← Nat.add_mul]
    exact hroom h .value qv hqv
  have hwritten : ∀ x q, c.slab.q2 x = some q → c₂.slab.q2 x = some (blit (x.pick vk vv).flatten 0 q
      (c.gpuQ2Blocks x * w.blockBytes) (x.pick vk vv).flatten.length) := by
    intro x q hx
    cases x with
    | key =>
      rw [h₂.other .key (by decide)]
      exact h₁.written q hx
    | value => exact h₂.written q ((h₁.other .value (by decide)).trans hx)
  have hkept := h₁.toKept.trans h₂.toKept
  have hq₂ : ∀ x, ∃ q, c₂.slab.q2 x = some q := by
    intro x
    obtain ⟨q, hx⟩ := hq x
    exact ⟨_, hwritten x q hx⟩
  refine After.bind (After.mono (moves_dequantFlushed (hkept.attnShape hshape)
    hq₂ hpos (hcap.trans hkept.attnCap)) (fun _ _ h => h) fun e c' h => halts_panics h.2)
      fun _ c₃ h₃ => ?_
  have hkept₃ := hkept.trans h₃.toKept
  refine ⟨{ hkept₃ with attnShape := fun h =>
                          ⟨(hkept₃.attnShape h).len, (hkept₃.attnShape h).exists_of_pos⟩ },
    fun x q hx => ?_, fun x => ?_, fun hin => ?_⟩
  · exact (congrFun h₃.sameQ2 x).trans (hwritten x q hx)
  · change c₃.gpuQ2Blocks x + _ = _
    rw [h₃.gpuQ2Blocks, h₂.gpuQ2Blocks, h₁.gpuQ2Blocks]
  · change ∀ u ∈ c₃.uploads, _
    rw [h₃.uploads]
    exact h₂.inside (h₁.inside hin)

/-! ## The flush -/

/-- A residual on the device has room for `res_cap` tokens a head, and either both sides are there
or none. -/
structure ResShape (c : GpuQuantCache V H) : Prop where
  len : ∀ x r, c.slab.res x = some r → r.len = c.kvHeads * c.resCap * c.headDim
  both : ∀ x y, (c.slab.res x).isSome → (c.slab.res y).isSome

theorem ResShape.kept {c c' : GpuQuantCache V H} (h : ResShape c) (hkept : Kept c c') :
    ResShape c' := by
  have hsome : ∀ x, (c'.slab.res x).isSome = (c.slab.res x).isSome := by
    intro x
    rw [← Option.isSome_map (f := Cells.len), hkept.res x, Option.isSome_map]
  refine ⟨fun x r hr => ?_, fun x y hx => ?_⟩
  · have hx := hkept.res x
    rw [hr, Option.map_some] at hx
    obtain ⟨r₀, hr₀, hlen⟩ := Option.map_eq_some_iff.mp hx.symm
    rw [hkept.kvHeads, hkept.resCap, hkept.headDim, ← h.len x r₀ hr₀, hlen]
  · rw [hsome y]
    exact h.both x y (by rw [← hsome x]; exact hx)

theorem moves_readResidual {site : Side → Site} {x : Side} (hres : ResShape c) :
    Moves Steady Panics (readResidual healthy site x) c := by
  refine Moves.get_bind ?_
  cases hr : c.slab.res x with
  | none => exact moves_pure ()
  | some r =>
    simp only [Moves, readBuffer, after_bind, after_request_healthy, after_ite, after_pure,
      after_orPanic, after_modify]
    exact ⟨fun _ => ⟨fun host _ => steady_setHost x host, fun _ => ⟨Std.Refl.refl c, _, rfl⟩⟩,
      fun hlt => absurd (hres.len x r hr).ge hlt⟩

theorem moves_readResiduals (site : Side → Site) (hres : ResShape c) :
    Moves Steady Panics (onlyIf ((c.slab.res .key).isSome ∧ (c.slab.res .value).isSome) do
      readResidual healthy site .key
      readResidual healthy site .value) c := by
  unfold onlyIf
  split_ifs
  · exact (moves_readResidual hres).bind fun _ c' h => moves_readResidual (hres.kept h.toKept)
  · exact moves_pure ()

omit c in
theorem shiftRemaining_isSome {c : GpuQuantCache V H} {flushTokens remaining : ℕ} {r : Cells V}
    (hlen : r.len = c.kvHeads * c.resCap * c.headDim) (hcap : flushTokens + remaining ≤ c.resCap) :
    ∃ r', c.shiftRemaining flushTokens remaining r = some r' ∧ r'.len = r.len := by
  unfold QuantizedRecentWindowCache.shiftRemaining
  refine foldlM_isSome (I := fun b : Cells V => b.len = r.len) (fun h hh b hb => ?_) rfl
  refine ⟨_, if_pos ?_, hb⟩
  have hrow : h * (c.resCap * c.headDim) + c.resCap * c.headDim ≤ c.kvHeads *
    (c.resCap * c.headDim) :=
    row_bound (List.mem_range.mp hh)
  have hmul : flushTokens * c.headDim + remaining * c.headDim ≤ c.resCap * c.headDim := by
    rw [← Nat.add_mul]
    exact Nat.mul_le_mul_right _ hcap
  simp only [← Nat.mul_assoc] at hrow
  rw [hb, hlen]
  omega

theorem moves_shiftResidual {flushTokens remaining : ℕ} {x : Side} (hres : ResShape c)
    (hcap : flushTokens + remaining ≤ c.resCap) :
    Moves Steady Panics (shiftResidual healthy flushTokens remaining x) c := by
  refine Moves.get_bind ?_
  split_ifs with hsome
  · obtain ⟨r, hr⟩ := Option.isSome_iff_exists.mp (hres.both .key x hsome)
    obtain ⟨r', hshift, hlen⟩ := shiftRemaining_isSome (hres.len x r hr) hcap
    simp only [Moves, hr, after_bind, after_unwrap_some, after_request_healthy]
    rw [hshift]
    exact steady_setRes hr hlen
  · simp only [Moves, after_bind, after_orPanic, after_modify]
    exact ⟨fun r _ => steady_setHost x r, fun _ => ⟨Std.Refl.refl c, _, rfl⟩⟩

theorem moves_shiftResiduals {flushTokens remaining : ℕ} (hres : ResShape c)
    (hcap : flushTokens + remaining ≤ c.resCap) : Moves Steady Panics (onlyIf (0 < remaining) do
      shiftResidual healthy flushTokens remaining .key
      shiftResidual healthy flushTokens remaining .value) c := by
  unfold onlyIf
  split_ifs
  · exact (moves_shiftResidual hres hcap).bind fun _ c' h =>
      moves_shiftResidual (hres.kept h.toKept) (by rw [h.resCap]; exact hcap)
  · exact moves_pure ()

omit c in
theorem blocksOf_pushBlocks {w : QuantBits} {res : Cells V} {idxs : List (Fin 32 → ℕ)}
    {q : QuantizedBlocks (List UInt8)}
    (h : QuantizedRecentWindowCache.pushBlocks codec.toBlockCodec res idxs
      (.blocks w []) = some q) :
    ∃ v, BlocksOf w idxs.length q v := by
  refine ⟨_, QuantizedRecentWindowCache.pushBlocks_eq_some h, by simp, fun b hb => ?_⟩
  rw [List.nil_append] at hb
  obtain ⟨idx, -, rfl⟩ := List.mem_map.mp hb
  exact codec.length_quantize w _

/-- `F` tokens went from the residual to the block buffers. -/
structure Flushed (F : ℕ) (c c' : GpuQuantCache V H) : Prop extends Frame c c' where
  q2Tokens : c'.q2Tokens = c.q2Tokens + F
  resPos : c'.resPos = c.resPos - F
  resCap : c'.resCap = c.resCap
  res : ∀ x, (c'.slab.res x).map Cells.len = (c.slab.res x).map Cells.len
  q2 : ∀ x, (c'.slab.q2 x).map List.length = (c.slab.q2 x).map List.length
  attnShape : AttnShape c'
  fits : c.q2Tokens ≤ c.slab.attnCap → c.q2Tokens + F ≤ c'.slab.attnCap
  gpuQ2Blocks : ∀ x, c'.gpuQ2Blocks x = c.gpuQ2Blocks x + c.newBlocks F (F / 32) x
  inside : Inside c → Inside c'

/-- The tokens a flush takes: the whole groups of 32. -/
def flushTokens (c : GpuQuantCache V H) : ℕ := c.resPos / 32 * 32

/-- **`flush_residual_gpu`** takes the whole groups of the residual. -/
theorem after_flushResidualGpu [Zero V] [Zero H] {w : QuantBits} (hbits : c.bits = .quantized w)
    (hshape : AttnShape c) (hres : ResShape c) (hq : ∀ x, ∃ q, c.slab.q2 x = some q)
    (htotal : c.q2Tokens + c.resPos ≤ c.maxSeqLen) (hpos : c.resPos ≤ c.resCap) :
    After (flushResidualGpu codec healthy) (fun _ c' => Flushed c.flushTokens c c')
      (Halts (HasRoom w (c.newBlocks c.flushTokens (c.resPos / 32)) c) c) c := by
  have hF : c.flushTokens ≤ c.resPos := Nat.div_mul_le_self _ _
  have hdiv : c.flushTokens / 32 = c.resPos / 32 := Nat.mul_div_cancel _ (by decide)
  rw [flushResidualGpu, after_bind, after_get]
  change After (if c.flushTokens = 0 then pure () else _) _ _ c
  rw [after_ite]
  refine ⟨fun hzero => ?_, fun hne => ?_⟩
  · rw [after_pure, hzero]
    exact ⟨⟨rfl, rfl, rfl, rfl⟩, rfl, rfl, rfl, fun _ => rfl, fun _ => rfl, hshape, id,
      fun x => by cases x <;> simp [newBlocks], id⟩
  refine ((after_ensureGpuAttnCapacity hshape (by omega)).mono (fun _ _ h => h) fun _ _ h =>
    h.elim).bind fun _ c₁ h₁ => ?_
  have hsteady₁ := h₁.steady
  have hread := moves_readResiduals .flushRead (hres.kept hsteady₁.toKept)
  rw [after_bind, after_get]
  refine (After.mono hread (fun _ _ h => h) fun e c' h => halts_panics h.2).bind fun _ c₂ h₂ => ?_
  have hsteady : Steady c c₂ := IsTrans.trans _ _ _ hsteady₁ h₂
  have hkept := hsteady.toKept
  have hbits₂ : c₂.bits = .quantized w := hkept.bits.trans hbits
  rw [after_bind, after_get, after_bind, after_orPanic]
  refine ⟨fun tmpQk hpushK => ?_, fun _ => halts_panics ⟨_, rfl⟩⟩
  rw [after_bind, after_orPanic]
  refine ⟨fun tmpQv hpushV => ?_, fun _ => halts_panics ⟨_, rfl⟩⟩
  simp only [QuantizedRecentWindowCache.pushKeys, QuantizedRecentWindowCache.pushValues, hbits₂,
    QuantizedBlocks.new] at hpushK hpushV
  obtain ⟨vk, hvk⟩ := blocksOf_pushBlocks hpushK
  obtain ⟨vv, hvv⟩ := blocksOf_pushBlocks hpushV
  rw [length_nest, Nat.mul_left_comm, ← Nat.mul_assoc] at hvk
  rw [length_nest, ← Nat.mul_assoc] at hvv
  have hq₂ : ∀ x, ∃ q, c₂.slab.q2 x = some q := by
    rw [hsteady.sameQ2]
    exact hq
  have hnew : c₂.newBlocks c.flushTokens (c.resPos / 32) = c.newBlocks c.flushTokens
    (c.resPos / 32) := by
    funext x
    cases x <;> simp only [newBlocks, hkept.kvHeads, hkept.headDim]
  have hcap : c₂.q2Tokens + c.flushTokens ≤ c₂.slab.attnCap := by
    rw [hkept.q2Tokens]
    exact h₁.needed_le.trans h₂.attnCap
  refine (after_uploadAndDequantFlushWith hkept hbits₂ (hkept.attnShape hshape) hq₂
    (Nat.pos_of_ne_zero hne) hcap hvk hvv fun hroom x q' hx => ?_).bind fun _ c₃ h₃ => ?_
  · rw [hnew, hsteady.gpuQ2Blocks]
    exact hroom x q' (by rw [← hsteady.sameQ2]; exact hx)
  have hkept₃ := hkept.trans h₃.toKept
  rw [after_bind, after_modify]
  -- the residual keeps its shape, so the tokens left over can be moved to the front
  have hres₃ := hres.kept hkept₃
  have hres₄ : ResShape { c₃ with q2Tokens := c₃.q2Tokens + c.flushTokens,
                                  q2DeqTokens := c₃.q2Tokens + c.flushTokens } :=
    ⟨hres₃.len, hres₃.both⟩
  have hcap₃ : c.flushTokens + (c₂.resPos - c.flushTokens) ≤ c₃.resCap := by
    rw [hkept₃.resCap, hkept.resPos]
    omega
  have hshift := moves_shiftResiduals hres₄ hcap₃
  refine (After.mono hshift (fun _ _ h => h) fun e c' h => halts_panics h.2).bind fun _ c₅ h₅ => ?_
  rw [after_modify]
  have hshape₃ := hkept₃.attnShape hshape
  exact
    { bits := h₅.bits.trans hkept₃.bits
      kvHeads := h₅.kvHeads.trans hkept₃.kvHeads
      headDim := h₅.headDim.trans hkept₃.headDim
      maxSeqLen := h₅.maxSeqLen.trans hkept₃.maxSeqLen
      q2Tokens := h₅.q2Tokens.trans (congrArg (· + c.flushTokens) hkept₃.q2Tokens)
      resPos := congrArg (· - c.flushTokens) hkept.resPos
      resCap := h₅.resCap.trans hkept₃.resCap
      res := fun x => (h₅.res x).trans (hkept₃.res x)
      q2 := fun x => (h₅.q2 x).trans (hkept₃.q2 x)
      attnShape := ⟨(h₅.attnShape ⟨hshape₃.len, hshape₃.exists_of_pos⟩).len,
        (h₅.attnShape ⟨hshape₃.len, hshape₃.exists_of_pos⟩).exists_of_pos⟩
      fits := fun _ => (hkept.q2Tokens ▸ hcap).trans (h₃.attnCap.trans h₅.attnCap)
      gpuQ2Blocks := fun x => by
        rw [hdiv, ← hnew, ← hsteady.gpuQ2Blocks, ← h₃.gpuQ2Blocks x]
        exact congrFun h₅.gpuQ2Blocks x
      inside := fun hin => by
        change ∀ u ∈ c₅.uploads, _
        rw [h₅.uploads]
        refine h₃.inside ?_
        change ∀ u ∈ c₂.uploads, _
        rw [hsteady.uploads]
        exact hin }

end Healthy

end GpuQuantCache

end ArgusEngine
