import ArgusEngine.Kv.QuantHistory

/-!
# The buffers of a quantized-window cache

`ResHeld`, `AttnHeld` and `BlocksHeld` say that a residual, an attention buffer and a block list
hold the values of a function of token, head and channel. For each loop of the source one lemma says
what it holds afterwards:

* `putRow_held`, `shiftRemaining_held`, `compactResidual_held`, `restoreRows_held`: the residual;
* `copyResidual_held`, **`assembleBlocks_held`**: the attention buffers;
* `pushBlocks_eq_some`, **`BlocksHeld.append`**: the blocks of one more flush.
-/

namespace ArgusEngine

open CellArray SlotMem FlatMem

variable {V B : Type}

/-! ## Buffers -/

/-- The residual's `pos` tokens, the first of them token `off`. -/
structure ResHeld (H D cap pos off : ℕ) (F : ℕ → ℕ → ℕ → V) (res : Cells V) : Prop where
  len : res.len = H * cap * D
  cell : ∀ h < H, ∀ t < pos, ∀ ch < D, res.cell (h * cap * D + t * D + ch) = F (off + t) h ch

/-- The first `n` tokens of an attention buffer for `M` tokens. -/
structure AttnHeld (H D M n : ℕ) (F : ℕ → ℕ → ℕ → V) (attn : Cells V) : Prop where
  len : attn.len = M * H * D
  cell : ∀ t < n, ∀ h < H, ∀ ch < D, attn.cell (t * H * D + h * D + ch) = F t h ch

/-- Where flushes of `per` rows put the block of row `a`, head `h` and column `b`. -/
def blockSlot (H C per a h b : ℕ) : ℕ := a / per * (per * H * C) + (h * per + a % per) * C + b

/-- The blocks of `n` rows, as flushes of `per` rows store them. -/
structure BlocksHeld (codec : BlockCodec V B) (w : QuantBits) (H C per n : ℕ)
    (G : ℕ → ℕ → ℕ → Fin 32 → V) (bs : List B) : Prop where
  length : bs.length = n * (H * C)
  block : ∀ a < n, ∀ h < H, ∀ b < C,
    ∃ x, bs[blockSlot H C per a h b]? = some x ∧ codec.dequantize w x = G a h b

theorem blockSlot_flush {H C per r : ℕ} (hr : r < per) (flush h b : ℕ) :
    blockSlot H C per (flush * per + r) h b = flush * (H * (per * C)) +
      (h * (per * C) + (r * C + b)) := by
  have hdiv : (flush * per + r) / per = flush := by
    rw [Nat.add_comm, Nat.add_mul_div_right _ _ (by omega), Nat.div_eq_of_lt hr, Nat.zero_add]
  unfold blockSlot
  rw [hdiv, Nat.mul_add_mod_self_right, Nat.mod_eq_of_lt hr]
  ring

theorem blockSlot_first {H C per N j h b : ℕ} (hsafe : H = 1 ∨ N = per) (hj : j < N) (hh : h < H) :
    blockSlot H C per j h b = h * (N * C) + (j * C + b) := by
  unfold blockSlot
  rcases hsafe with rfl | rfl
  · obtain rfl : h = 0 := by omega
    have hsplit : j / per * (per * C) + j % per * C = j * C := by
      rw [← Nat.mul_assoc, ← Nat.add_mul, Nat.div_add_mod']
    rw [Nat.mul_one, Nat.zero_mul, Nat.zero_add, hsplit, Nat.zero_mul, Nat.zero_add]
  · rw [Nat.div_eq_of_lt hj, Nat.mod_eq_of_lt hj]
    ring

theorem ResHeld.zero {H D cap off : ℕ} {F : ℕ → ℕ → ℕ → V} {res : Cells V}
    (h : res.len = H * cap * D) :
    ResHeld H D cap 0 off F res := ⟨h, fun _ _ _ ht => absurd ht (Nat.not_lt_zero _)⟩

theorem AttnHeld.zero {H D M : ℕ} {F : ℕ → ℕ → ℕ → V} {attn : Cells V} (h : attn.len = M * H * D) :
    AttnHeld H D M 0 F attn := ⟨h, fun _ ht => absurd ht (Nat.not_lt_zero _)⟩

theorem BlocksHeld.zero {codec : BlockCodec V B} {w : QuantBits} {H C per : ℕ}
    {G : ℕ → ℕ → ℕ → Fin 32 → V} : BlocksHeld codec w H C per 0 G ([] : List B) :=
  ⟨(Nat.zero_mul _).symm, fun _ ha => absurd ha (Nat.not_lt_zero _)⟩

variable {H D cap pos off M n : ℕ} {F F' : ℕ → ℕ → ℕ → V}

theorem AttnHeld.congr {attn : Cells V} (h : AttnHeld H D M n F attn)
    (hF : ∀ t < n, ∀ h < H, ∀ ch < D, F' t h ch = F t h ch) : AttnHeld H D M n F' attn :=
  ⟨h.len, fun t ht k hk ch hch => (h.cell t ht k hk ch hch).trans (hF t ht k hk ch hch).symm⟩

theorem AttnHeld.mono {attn : Cells V} {n' : ℕ} (h : AttnHeld H D M n F attn) (hn : n' ≤ n) :
    AttnHeld H D M n' F attn :=
  ⟨h.len, fun t ht => h.cell t (Nat.lt_of_lt_of_le ht hn)⟩

theorem ResHeld.congr {res : Cells V} (h : ResHeld H D cap pos off F res)
    (hF : ∀ h < H, ∀ t < pos, ∀ ch < D, F' (off + t) h ch = F (off + t) h ch) :
    ResHeld H D cap pos off F' res :=
  ⟨h.len, fun k hk t ht ch hch => (h.cell k hk t ht ch hch).trans (hF k hk t ht ch hch).symm⟩

theorem AttnHeld.of_writes {S : Set ℕ} {n' : ℕ} {attn attn' : Cells V} (h : AttnHeld H D M n F attn)
    (hw : Writes S (unflatten H D F) attn attn')
    (hS : ∀ t, n ≤ t → t < n' → ∀ h < H, ∀ ch < D, t * H * D + h * D + ch ∈ S) :
    AttnHeld H D M n' F attn' := by
  refine ⟨hw.len.trans h.len, fun t ht k hk ch hch => ?_⟩
  rw [← unflatten_apply F hk hch]
  by_cases hp : t * H * D + k * D + ch ∈ S
  · exact hw.hit _ hp
  · have hlt : t < n := by
      by_contra hle
      exact hp (hS t (by omega) ht k hk ch hch)
    rw [hw.keep _ hp, unflatten_apply F hk hch]
    exact h.cell t hlt k hk ch hch

theorem BlocksHeld.congr {codec : BlockCodec V B} {w : QuantBits} {C per : ℕ}
    {G G' : ℕ → ℕ → ℕ → Fin 32 → V} {bs : List B} (h : BlocksHeld codec w H C per n G bs)
    (hG : ∀ a < n, ∀ h < H, ∀ b < C, G' a h b = G a h b) : BlocksHeld codec w H C per n G' bs := by
  refine ⟨h.length, fun a ha k hk b hb => ?_⟩
  rw [hG a ha k hk b hb]
  exact h.block a ha k hk b hb

/-- **One more flush of `N` rows**, when the slots of the new rows are the ones it writes. -/
theorem BlocksHeld.append {codec : BlockCodec V B} {w : QuantBits} {C per per' N : ℕ}
    {G G' : ℕ → ℕ → ℕ → Fin 32 → V} {bs : List B} {blk : ℕ → ℕ → ℕ → B}
    (h : BlocksHeld codec w H C per n G bs)
    (hold : ∀ a < n, ∀ h < H, ∀ b < C, blockSlot H C per' a h b = blockSlot H C per a h b ∧
    G' a h b = G a h b) (hnew : ∀ j < N, ∀ h < H, ∀ b < C, blockSlot H C per' (n + j) h b = n *
      (H * C) + (h * (N * C) + (j * C + b)) ∧ codec.dequantize w (blk h j b) = G' (n + j) h b) :
    BlocksHeld codec w H C per' (n + N) G' (bs ++ nest H N C blk) := by
  refine ⟨?_, fun a ha k hk b hb => ?_⟩
  · rw [List.length_append, h.length, length_nest, Nat.add_mul, Nat.mul_left_comm H]
  · by_cases hlt : a < n
    · obtain ⟨x, hx, hdeq⟩ := h.block a hlt k hk b hb
      obtain ⟨hslot, hG⟩ := hold a hlt k hk b hb
      exact ⟨x, by rw [hslot, List.getElem?_append_left (List.getElem?_eq_some_iff.mp hx).1, hx], by
        rw [hG, hdeq]⟩
    · obtain ⟨j, rfl⟩ := Nat.exists_eq_add_of_le (Nat.le_of_not_lt hlt)
      obtain ⟨hslot, hdeq⟩ := hnew j (by omega) k hk b hb
      refine ⟨blk k j b, ?_, hdeq⟩
      rw [hslot, List.getElem?_append_right (by rw [h.length]; omega), h.length,
        Nat.add_sub_cancel_left]
      exact getElem?_nest.mpr ⟨k, hk, j, by omega, b, hb, rfl, rfl⟩

namespace QuantizedRecentWindowCache

variable {codec : BlockCodec V B} {c : QuantizedRecentWindowCache V B}

/-- **The input row goes behind the residual's tokens.** -/
theorem putRow_held {input res res' : Cells V} {s : ℕ} (hcap : c.resPos < c.resCap)
    (h : ResHeld c.kvHeads c.headDim c.resCap c.resPos off F res)
    (hput : c.putRow input s res = some res') (hin : ∀ h < c.kvHeads, ∀ ch < c.headDim,
      input.cell (s * c.kvHeads * c.headDim + h * c.headDim + ch) = F (off + c.resPos) h ch) :
    ResHeld c.kvHeads c.headDim c.resCap (c.resPos + 1) off F res' := by
  have hw := Writes.foldlM (f := unflatten c.resCap c.headDim fun h t ch => F (off + t) h ch)
    (S := fun h => Set.Ico (h * c.resCap * c.headDim + c.resPos * c.headDim)
      (h * c.resCap * c.headDim + c.resPos * c.headDim + c.headDim))
        (fun h hh b b' _ hb => ?_) rfl hput
  · refine ⟨hw.len.trans h.len, fun k hk t ht ch hch => ?_⟩
    by_cases hp : t = c.resPos
    · subst hp
      rw [hw.hit _ ⟨k, List.mem_range.mpr hk, by simp only [Set.mem_Ico]; omega⟩,
        unflatten_apply _ hcap hch]
    · rw [hw.keep, h.cell k hk t (by omega) ch hch]
      rintro ⟨k', -, hle, hlt⟩
      obtain ⟨ch', heq⟩ := Nat.exists_eq_add_of_le hle
      -- the two flat indices decode to one triple
      have htok := congrArg (unflatten c.resCap c.headDim fun _ t _ => t) heq
      rw [unflatten_apply _ (by omega) hch, unflatten_apply _ hcap (by omega)] at htok
      exact hp htok
  · refine Writes.of_copyFrom hb fun ch hch => ?_
    rw [unflatten_apply _ hcap hch]
    exact hin h (List.mem_range.mp hh) ch hch

/-- **The leftover tokens of a flush move to the front.** -/
theorem shiftRemaining_held {flushTokens remaining : ℕ} {res res' : Cells V}
    (hcap : flushTokens + remaining ≤ c.resCap)
    (h : ResHeld c.kvHeads c.headDim c.resCap (flushTokens + remaining) off F res)
    (hshift : c.shiftRemaining flushTokens remaining res = some res') :
    ResHeld c.kvHeads c.headDim c.resCap remaining (off + flushTokens) F res' := by
  obtain ⟨hlen, hcell⟩ := foldlM_copyWithin hshift
  refine ⟨hlen.trans h.len, fun k hk t ht ch hch => ?_⟩
  have hmul : flushTokens * c.headDim + remaining * c.headDim ≤ c.resCap * c.headDim := by
    rw [← Nat.add_mul]
    exact Nat.mul_le_mul_right _ hcap
  have hrow : t * c.headDim + c.headDim ≤ remaining * c.headDim := row_bound ht
  have hmove : (List.range c.kvHeads).foldl (fun m j =>
    move m ⟨j * (c.resCap * c.headDim) + flushTokens * c.headDim,
      j * (c.resCap * c.headDim) + 0, remaining * c.headDim⟩) res.cell
        (k * (c.resCap * c.headDim) + (t * c.headDim + ch)) = _ :=
    foldl_move_blocks res.cell hmul (by omega) c.kvHeads (by omega)
  rw [if_pos hk, move_of_hits ⟨by simp only; omega, by simp only; omega⟩] at hmove
  simp only [Nat.add_zero, Nat.sub_zero, ← Nat.mul_assoc] at hmove
  rw [hcell, Nat.add_assoc, hmove, Nat.add_assoc off, ← h.cell k hk _ (by omega) ch hch,
    Nat.add_mul]
  simp only [Nat.add_assoc]

/-- **The leftover tokens of every head move together** when the residual shrinks to 32 tokens. -/
theorem compactResidual_held {res res' : Cells V} (hpos : c.resPos ≤ 32) (hcap : 32 < c.resCap)
    (h : ResHeld c.kvHeads c.headDim c.resCap c.resPos off F res)
    (hcompact : c.compactResidual res = some res') :
    ResHeld c.kvHeads c.headDim 32 c.resPos off F res' := by
  obtain ⟨mid, hmid, hres⟩ := Option.bind_eq_some_iff.mp hcompact
  obtain rfl := Option.some.inj hres
  have hlen : mid.len = res.len := by
    split_ifs at hmid with hc
    · exact (foldlM_copyWithin hmid).1
    · rw [Option.some.inj hmid]
  have hroom : c.kvHeads * 32 * c.headDim ≤ c.kvHeads * c.resCap * c.headDim :=
    Nat.mul_le_mul_right _ (Nat.mul_le_mul_left _ hcap.le)
  refine ⟨?_, fun k hk t ht ch hch => ?_⟩
  · change min (c.kvHeads * 32 * c.headDim) mid.len = _
    rw [hlen, h.len, Nat.min_eq_left hroom]
  · change mid.cell _ = _
    have hrow : t * c.headDim + c.headDim ≤ c.resPos * c.headDim := row_bound ht
    have hpos' : c.resPos * c.headDim ≤ 32 * c.headDim := Nat.mul_le_mul_right _ hpos
    rw [← h.cell k hk t ht ch hch]
    by_cases hc : 0 < c.resPos ∧ 1 < c.kvHeads
    · rw [if_pos hc] at hmid
      have hmove := foldl_move_strides hpos' (Nat.mul_le_mul_right c.headDim hcap.le) res.cell
        (show k ≤ c.kvHeads - 1 by omega) (show t * c.headDim + ch < c.resPos * c.headDim by omega)
      simp only [← Nat.mul_assoc] at hmove
      rw [(foldlM_copyWithin hmid).2]
      simp only [← Nat.mul_assoc, Nat.add_assoc]
      exact hmove
    · have hk0 : k = 0 := by omega
      rw [if_neg hc] at hmid
      rw [← Option.some.inj hmid, hk0, Nat.zero_mul, Nat.zero_mul, Nat.zero_mul]

/-- **The residual goes behind the flushed tokens of an attention buffer.** -/
theorem copyResidual_held {res attn : Cells V} (hpos : c.resPos ≤ c.resCap)
    (hfits : c.q2Tokens + c.resPos ≤ M)
    (hres : ResHeld c.kvHeads c.headDim c.resCap c.resPos c.q2Tokens F res)
    (hattn : AttnHeld c.kvHeads c.headDim M c.q2Tokens F attn) :
    ∃ attn', c.copyResidual res attn = some attn' ∧
      AttnHeld c.kvHeads c.headDim M (c.q2Tokens + c.resPos) F attn' := by
  have hstep : ∀ h ∈ List.range c.kvHeads, ∀ t ∈ List.range c.resPos, ∀ b : Cells V,
    b.len = attn.len →
      ∃ b', b.copyFrom (c.attnIdx (c.q2Tokens + t) h 0)
        c.headDim res (h * c.resCap * c.headDim + t * c.headDim) = some b' ∧ b'.len = attn.len := by
    intro h hh t ht b hb
    have hh' := List.mem_range.mp hh
    have ht' := List.mem_range.mp ht
    refine ⟨_, if_pos ⟨?_, ?_⟩, hb⟩
    · rw [hb, hattn.len]
      exact flat_row_le _ (by omega) hh'
    · rw [hres.len]
      exact flat_row_le _ hh' (by omega)
  obtain ⟨attn', hcopy, -⟩ := foldlM_isSome (I := fun b : Cells V => b.len = attn.len)
    (fun h hh b hb => foldlM_isSome (hstep h hh) hb) rfl
  refine ⟨attn', hcopy, ?_⟩
  have hw := Writes.foldlM (f := unflatten c.kvHeads c.headDim F)
    (S := fun h => {p | ∃ t ∈ List.range c.resPos,
      p ∈ Set.Ico (c.attnIdx (c.q2Tokens + t) h 0) (c.attnIdx (c.q2Tokens + t) h 0 + c.headDim)})
    (fun h hh b b' _ hb =>
    Writes.foldlM (fun t ht r r' _ hr => Writes.of_copyFrom hr fun ch hch => ?_) rfl hb) rfl hcopy
  · refine hattn.of_writes hw fun t hle hlt h hh ch hch => ?_
    refine ⟨h, List.mem_range.mpr hh, t - c.q2Tokens, List.mem_range.mpr (by omega), ?_⟩
    rw [Nat.add_sub_cancel' hle, attnIdx, Set.mem_Ico]
    omega
  · have hh' := List.mem_range.mp hh
    rw [hres.cell h hh' t (List.mem_range.mp ht) ch hch, attnIdx, Nat.add_zero,
      unflatten_apply F hh' hch]

/-- **The attention buffer's tokens go into a residual for `cap` tokens.** -/
theorem restoreRows_held {total : ℕ} {attn res res' : Cells V} (htotal : total ≤ cap)
    (hattn : AttnHeld c.kvHeads c.headDim M total F attn)
    (hlen : res.len = c.kvHeads * cap * c.headDim)
    (h : c.restoreRows cap total attn res = some res') :
    ResHeld c.kvHeads c.headDim cap total 0 F res' := by
  have hw := Writes.foldlM (f := unflatten cap c.headDim fun h t ch => F t h ch)
    (S := fun h => {p | ∃ t ∈ List.range total, p ∈ Set.Ico (h * cap * c.headDim + t * c.headDim)
      (h * cap * c.headDim + t * c.headDim + c.headDim)})
    (fun h hh b b' _ hb =>
    Writes.foldlM (fun t ht r r' _ hr => Writes.of_copyFrom hr fun ch hch => ?_) rfl hb) rfl h
  · refine ⟨hw.len.trans hlen, fun k hk t ht ch hch => ?_⟩
    rw [hw.hit _ ⟨k, List.mem_range.mpr hk, t, List.mem_range.mpr ht, by rw [Set.mem_Ico]; omega⟩,
      unflatten_apply _ (by omega) hch, Nat.zero_add]
  · have ht' := List.mem_range.mp ht
    rw [unflatten_apply _ (by omega) hch, attnIdx, Nat.add_zero]
    exact hattn.cell t ht' h (List.mem_range.mp hh) ch hch

theorem pushBlocks_eq_some {res : Cells V} {idxs : List (Fin 32 → ℕ)} {w : QuantBits} {bs : List B}
    {q : QuantizedBlocks B} (h : pushBlocks codec res idxs (.blocks w bs) = some q) :
    q = .blocks w (bs ++ idxs.map fun idx => codec.quantize w fun t => res.cell (idx t)) := by
  induction idxs generalizing bs with
  | nil =>
    rw [List.map_nil, List.append_nil]
    exact (Option.some.inj h).symm
  | cons idx idxs ih =>
    obtain ⟨q', hq', hrest⟩ := Option.bind_eq_some_iff.mp h
    obtain ⟨vals, hvals, hpush⟩ := Option.bind_eq_some_iff.mp hq'
    unfold readBlock at hvals
    split_ifs at hvals
    obtain rfl := Option.some.inj hvals
    obtain rfl := Option.some.inj hpush
    rw [ih hrest, List.map_cons, List.append_assoc, List.singleton_append]

theorem writeBlock_isSome {a : Cells V} {idx : Fin 32 → ℕ} (block : Fin 32 → V)
    (h : ∀ t, idx t < a.len) : ∃ a', writeBlock a idx block = some a' ∧ a'.len = a.len := by
  refine foldlM_isSome (I := fun b : Cells V => b.len = a.len) (fun t _ b hb => ?_) rfl
  have hin : idx t < b.len := hb ▸ h t
  exact ⟨_, if_pos hin, hb⟩

theorem writes_of_writeBlock {a a' : Cells V} {idx : Fin 32 → ℕ} {block : Fin 32 → V} {f : ℕ → V}
    (h : writeBlock a idx block = some a') (hf : ∀ t, block t = f (idx t)) :
    Writes (Set.range idx) f a a' := by
  have hw := Writes.foldlM (f := f) (fun t _ b b' _ hb => Writes.of_set hb (hf t)) rfl h
  refine hw.congr ?_
  ext p
  simp [eq_comm]

/-- **The new flushes' blocks are read from the slots they were stored in.** -/
theorem assembleBlocks_held {w : QuantBits} {bs : List B} {C per old new bpf : ℕ}
    {G : ℕ → ℕ → ℕ → Fin 32 → V} {out : ℕ → ℕ → ℕ → ℕ → Fin 32 → ℕ} {f : ℕ → V} {attn : Cells V}
    (hbpf : bpf = c.kvHeads * (per * C)) (hold : old ≤ new)
    (hbs : BlocksHeld codec w c.kvHeads C per (new * per) G bs)
    (hout : ∀ flush < new, ∀ h < c.kvHeads, ∀ r < per, ∀ b < C, ∀ i, out flush h r b i < attn.len ∧
      G (flush * per + r) h b i = f (out flush h r b i)) :
    ∃ attn', c.assembleBlocks codec (.blocks w bs) old new bpf per C out attn = some attn' ∧
      Writes {p | ∃ flush, old ≤ flush ∧ flush < new ∧ ∃ h < c.kvHeads, ∃ r < per, ∃ b < C,
        p ∈ Set.range (out flush h r b)} f attn attn' := by
  -- what stands at a counted position of the loop's list
  have hblock :
    ∀ x ∈ ((List.range' old (new - old)).flatMap fun flush => nest c.kvHeads per C fun h r b =>
      (flush, h, r, b)).zipIdx (old * bpf), ∃ flush, old ≤ flush ∧ flush < new ∧
        ∃ h < c.kvHeads, ∃ r < per,
      ∃ b < C, x.1 = (flush, h, r, b) ∧ (QuantizedBlocks.blocks w bs).dequantizeBlock codec x.2 =
        some (G (flush * per + r) h b) := by
    rintro ⟨x, idx⟩ hx
    obtain ⟨i, hi, h, hh, r, hr, b, hb, rfl, rfl⟩ := mem_zipIdx_nest.mp hx
    have hrow : (old + i) * per + r < new * per :=
      Nat.lt_of_lt_of_le (Nat.add_lt_add_left hr _) (row_bound (by omega))
    obtain ⟨blk, hblk, hdeq⟩ := hbs.block _ hrow h hh b hb
    refine ⟨old + i, by omega, by omega, h, hh, r, hr, b, hb, rfl, ?_⟩
    rw [blockSlot_flush hr] at hblk
    rw [QuantizedBlocks.dequantizeBlock, hbpf, ← Nat.add_assoc, ← Nat.add_mul, hblk,
      Option.map_some, hdeq]
  have hstep :
    ∀ x ∈ ((List.range' old (new - old)).flatMap fun flush => nest c.kvHeads per C fun h r b =>
      (flush, h, r, b)).zipIdx (old * bpf), ∀ a : Cells V, a.len = attn.len →
      ∃ a', assembleBlock codec (.blocks w bs) out a x = some a' ∧ a'.len = attn.len := by
    intro x hx a ha
    obtain ⟨flush, -, hlt, h, hh, r, hr, b, hb, hx', hdeq⟩ := hblock x hx
    simp only [assembleBlock, hdeq, Option.bind_eq_bind, Option.bind_some, hx']
    rw [← ha]
    exact writeBlock_isSome _ fun i => ha ▸ (hout flush hlt h hh r hr b hb i).1
  obtain ⟨attn', hattn, -⟩ := foldlM_isSome hstep rfl
  have hw := Writes.foldlM (f := f)
    (S := fun x : (ℕ × ℕ × ℕ × ℕ) × ℕ => Set.range (out x.1.1 x.1.2.1 x.1.2.2.1 x.1.2.2.2))
    (fun x hx a a' ha h => ?_) rfl hattn
  · refine ⟨attn', hattn, hw.congr ?_⟩
    ext p
    constructor
    · rintro ⟨x, hx, hp⟩
      obtain ⟨flush, hle, hlt, h, hh, r, hr, b, hb, hx', -⟩ := hblock x hx
      rw [hx'] at hp
      exact ⟨flush, hle, hlt, h, hh, r, hr, b, hb, hp⟩
    · rintro ⟨flush, hle, hlt, h, hh, r, hr, b, hb, hp⟩
      refine ⟨((flush, h, r, b), _),
        mem_zipIdx_nest.mpr ⟨flush - old, by omega, h, hh, r, hr, b, hb, rfl, ?_⟩, hp⟩
      rw [Nat.add_sub_cancel' hle]
  · obtain ⟨flush, -, hlt, h', hh, r, hr, b, hb, hx', hdeq⟩ := hblock x hx
    simp only [assembleBlock, hdeq, Option.bind_eq_bind, Option.bind_some, hx'] at h ⊢
    exact writes_of_writeBlock h fun i => (hout flush hlt h' hh r hr b hb i).2

end QuantizedRecentWindowCache

end ArgusEngine
