import ArgusEngine.Kv.Attention
import ArgusEngine.Lib.Folds
import ArgusEngine.Lib.OnlineSoftmax
import ArgusEngine.Lib.Slots
import Mathlib.Analysis.SpecialFunctions.Exp
import Mathlib.Analysis.SpecialFunctions.Sqrt

/-!
# Tiled attention

The prefill kernel of the host: tiles of query rows against tiles of keys, one running softmax for
each row. The arithmetic is exact, over an ordered field with an exponential and a square root; a
logit is then always finite.

* `naiveAttentionHead`: the reference of the tests, for one head without a mask;
* `flashAttentionHeadFrom`, `flashAttentionForwardStrided`: the kernel, for one head and for all of
  them;
* `band`: the keys a query row attends to;
* **`flashAttentionHeadFrom_row`**, `flashAttentionHeadFrom_frame`: whatever the tiles, strides,
  window and first resident slot, a row of the output is the softmax average over its band, and
  nothing else is written;
* **`flashAttentionForwardStrided_row`**: all heads, in any order.
-/

namespace ArgusEngine.Attn

open OnlineSoftmax SlotMem

/-- The operations of `f32` the kernels use, taken exactly. -/
structure FloatOps (K : Type*) [Field K] [LinearOrder K] extends Exponential K where
  sqrt : K → K

/-- The operations on the reals. -/
noncomputable def FloatOps.real : FloatOps ℝ where
  exp := Real.exp
  pos := Real.exp_pos
  add := Real.exp_add
  sqrt := Real.sqrt

variable {K : Type*} [Field K] [LinearOrder K]

/-- The operands of one head: where the slices begin in their buffers, and the arguments of the
kernel. -/
structure HeadArgs where
  qOff : ℕ
  kvOff : ℕ
  outOff : ℕ
  qStride : ℕ
  kStride : ℕ
  vStride : ℕ
  outStride : ℕ
  qLen : ℕ
  kvLen : ℕ
  headDim : ℕ
  qStartPos : ℕ
  windowSize : Option ℕ
  kvStart : ℕ

section Kernel

variable (F : FloatOps K) (p : HeadArgs) (q k v : ℕ → K)

/-- `1.0 / (head_dim as f32).sqrt()`. -/
def scale (headDim : ℕ) : K := 1 / F.sqrt (headDim : K)

/-- The dot product of two rows of `headDim` entries. -/
def dot (headDim : ℕ) (qPtr kPtr : ℕ) : K :=
  ((List.range headDim).map fun d => q (qPtr + d) * k (kPtr + d)).sum

namespace HeadArgs

/-- The logit of query row `r` and key `c`. -/
def logit (r c : ℕ) : K :=
  dot q k p.headDim (p.qOff + r * p.qStride) (p.kvOff + c * p.kStride) * scale F p.headDim

def value (c d : ℕ) : K := v (p.kvOff + c * p.vStride + d)

/-- `causal_ok && window_ok && resident_ok`. -/
def inBand (globalQ globalC : ℕ) : Bool :=
  decide (globalC ≤ globalQ) && (p.windowSize.all fun ws => decide (globalC + ws > globalQ)) &&
    decide (p.kvStart ≤ globalC)

/-- The key tile has no key for the rows `rStart..rEnd`. -/
def skips (rStart rEnd cStart cEnd : ℕ) : Bool :=
  decide (cStart > rEnd - 1 + p.qStartPos) || decide (cEnd ≤ p.kvStart) ||
    (p.windowSize.any fun ws => decide (cEnd + ws ≤ rStart + p.qStartPos + 1))

end HeadArgs

/-- `sij`: the logits of a row against the keys of a tile, the masked ones `-∞`. -/
def HeadArgs.tileLogit (cStart globalR c : ℕ) : WithBot K :=
  if p.inBand (globalR + p.qStartPos) (cStart + c)
    then ((p.logit F q k globalR (cStart + c) : K) : WithBot K) else ⊥

/-- `if val > row_max { row_max = val }`. -/
def runningMax (s : ℕ → WithBot K) (n : ℕ) : WithBot K :=
  (List.range n).foldl (fun m c => if m < s c then s c else m) ⊥

/-- One query row against one key tile, from its running state. -/
def flashRow (cStart curBc globalR : ℕ) (st : Acc K (Fin p.headDim)) : Acc K (Fin p.headDim) :=
  let valid : ℕ → Bool := fun c => p.inBand (globalR + p.qStartPos) (cStart + c)
  let sij := p.tileLogit F q k cStart globalR
  if (List.range curBc).any valid then
    let mNew := max st.m (runningMax sij curBc)
    let pRow : ℕ → K := fun c => F.rescale (sij c) (mNew.unbotD 0)
    let alpha := F.rescale st.m (mNew.unbotD 0)
    { m := mNew
      l := st.l * alpha + ((List.range curBc).map pRow).sum
      o := fun d => st.o d * alpha +
        ((List.range curBc).map fun c => if valid c then pRow c * p.value v (cStart + c) d
          else 0).sum }
  else st

/-- The states of the rows of query tile `i` after all key tiles. -/
def flashTile (br bc i : ℕ) : ℕ → Acc K (Fin p.headDim) :=
  let rStart := i * br
  let rEnd := min (rStart + br) p.qLen
  (List.range (divCeil p.kvLen bc)).foldl (fun st j =>
    let cStart := j * bc
    let cEnd := min (cStart + bc) p.kvLen
    if p.skips rStart rEnd cStart cEnd then st
    else fun r => if r < rEnd - rStart then flashRow F p q k v cStart (cEnd - cStart)
      (rStart + r) (st r) else st r)
    fun _ => .empty

/-- The normalised row of a state. -/
def finishRow {headDim : ℕ} (st : Acc K (Fin headDim)) (x : ℕ) : K :=
  let invL := if st.l = 0 then 0 else 1 / st.l
  if h : x < headDim then st.o ⟨x, h⟩ * invL else 0

/-- `flash_attention_head_from`; `flash_attention_head` is the case `kvStart = 0`. -/
def flashAttentionHeadFrom (br bc : ℕ) (out : ℕ → K) : ℕ → K :=
  (List.range (divCeil p.qLen br)).foldl (fun out i =>
    (List.range (min (i * br + br) p.qLen - i * br)).foldl (fun out r =>
      place (finishRow (flashTile F p q k v br bc i r))
        0 out (p.outOff + (i * br + r) * p.outStride) p.headDim) out)
    out

end Kernel

/-- The arguments of a forward pass over all heads. -/
structure ForwardArgs where
  nHeadsQ : ℕ
  nHeadsKv : ℕ
  qLen : ℕ
  kvLen : ℕ
  headDim : ℕ
  qStride : ℕ
  kStride : ℕ
  vStride : ℕ
  outStride : ℕ
  kvHeadStride : ℕ
  qStartPos : ℕ
  windowSize : Option ℕ
  kvStart : Option (List ℕ)

namespace ForwardArgs

variable (a : ForwardArgs)

def kvHead (h : ℕ) : ℕ := h / (a.nHeadsQ / a.nHeadsKv)

/-- What the kernel of query head `h` gets. -/
abbrev head (h : ℕ) : HeadArgs where
  qOff := h * a.headDim
  kvOff := a.kvHead h * a.kvHeadStride
  outOff := h * a.headDim
  qStride := a.qStride
  kStride := a.kStride
  vStride := a.vStride
  outStride := a.outStride
  qLen := a.qLen
  kvLen := a.kvLen
  headDim := a.headDim
  qStartPos := a.qStartPos
  windowSize := a.windowSize
  kvStart := (a.kvStart.map fun s => s.getD (a.kvHead h) 0).getD 0

end ForwardArgs

/-- `flash_attention_forward_strided`, the portable path: the heads run in parallel, each on its own
rows of the output; `order` is the one they happen to take. -/
def flashAttentionForwardStrided (F : FloatOps K) (a : ForwardArgs) (q k v : ℕ → K)
    (br bc : ℕ) (order : List ℕ) (out : ℕ → K) : ℕ → K :=
  order.foldl (fun out h => flashAttentionHeadFrom F (a.head h) q k v br bc out) out

/-- `naive_attention_head`, on rows that follow one another. -/
def naiveAttentionHead (F : FloatOps K) (q k v : ℕ → K) (seqLen headDim : ℕ)
    (out : ℕ → K) : ℕ → K :=
  let scores : ℕ → ℕ → K := fun i j => dot q k headDim (i * headDim) (j * headDim) * scale F headDim
  let soft : ℕ → ℕ → K := fun i =>
    let maxVal : WithBot K :=
      (List.range seqLen).foldl (fun a j => max a (scores i j : WithBot K)) ⊥
    let e : ℕ → K := fun j => F.exp (scores i j - maxVal.unbotD 0)
    let sum := ((List.range seqLen).map e).sum
    fun j => e j / sum
  (List.range seqLen).foldl (fun out i =>
    place (fun d => ((List.range seqLen).map fun j => soft i j * v (j * headDim + d)).sum)
      0 out (i * headDim) headDim)
    out

/-! ## One row -/

section Row

variable {F : FloatOps K} {p : HeadArgs} {q k v : ℕ → K}

/-- The keys that query row `r` attends to. -/
def HeadArgs.band (p : HeadArgs) (r : ℕ) : List ℕ :=
  (List.range p.kvLen).filter (p.inBand (r + p.qStartPos))

/-- Keys with their logits and value rows. -/
def HeadArgs.scored (p : HeadArgs) (F : FloatOps K) (q k v : ℕ → K) (r : ℕ) (keys : List ℕ) :
    List (K × (Fin p.headDim → K)) :=
  keys.map fun c => (p.logit F q k r c, fun d => p.value v c d)

/-- **What a query row is to get**: the softmax average over its band. -/
def HeadArgs.attended (p : HeadArgs) (F : FloatOps K) (q k v : ℕ → K) (r : ℕ)
    (d : Fin p.headDim) : K :=
  F.average (p.scored F q k v r (p.band r)) d

theorem inBand_iff (p : HeadArgs) (r c : ℕ) :
    p.inBand r c = true ↔ InBand p.windowSize p.kvStart r c := by
  cases hw : p.windowSize <;> simp [HeadArgs.inBand, InBand, hw, and_assoc]

theorem tileLogit_of_valid {cStart r c : ℕ} (h : p.inBand (r + p.qStartPos) (cStart + c) = true) :
    p.tileLogit F q k cStart r c = p.logit F q k r (cStart + c) := if_pos h

theorem rescale_tileLogit (cStart r c : ℕ) (M : K) :
    F.rescale (p.tileLogit F q k cStart r c) M =
      if p.inBand (r + p.qStartPos) (cStart + c) then F.exp (p.logit F q k r (cStart + c) - M)
        else 0 := by
  by_cases h : p.inBand (r + p.qStartPos) (cStart + c) = true
  · rw [if_pos h, tileLogit_of_valid h]
    simp [Exponential.rescale]
  · rw [if_neg h, HeadArgs.tileLogit, if_neg h]
    simp [Exponential.rescale]

omit [Field K] in
theorem runningMax_ne_bot {s : ℕ → WithBot K} {n c : ℕ} (hc : c < n) (h : s c ≠ ⊥) :
    runningMax s n ≠ ⊥ := by
  intro hmax
  have hle : s c ≤ runningMax s n := (le_foldl_max s (List.range n) ⊥).2 c (List.mem_range.mpr hc)
  exact h (le_bot_iff.mp (hmax ▸ hle))

/-- The keys of a tile that are in the band of row `r`. -/
def HeadArgs.tileBand (p : HeadArgs) (r cStart curBc : ℕ) : List ℕ :=
  ((List.range curBc).filter fun c => p.inBand (r + p.qStartPos) (cStart + c)).map (cStart + ·)

/-- A row absorbs the keys of a tile that are in its band. -/
theorem flashRow_sums {st : Acc K (Fin p.headDim)} {xs : List (K × (Fin p.headDim → K))}
    (h : st.Sums F.toExponential xs) (cStart curBc r : ℕ) :
    (flashRow F p q k v cStart curBc r st).Sums F.toExponential
      (xs ++ p.scored F q k v r (p.tileBand r cStart curBc)) := by
  by_cases hany : ((List.range curBc).any fun c => p.inBand (r + p.qStartPos) (cStart + c)) = true
  · have hne : max st.m (runningMax (p.tileLogit F q k cStart r) curBc) ≠ ⊥ := by
      obtain ⟨c, hc, hok⟩ := List.any_eq_true.mp hany
      have hmax := runningMax_ne_bot (s := p.tileLogit F q k cStart r) (List.mem_range.mp hc)
        (by rw [tileLogit_of_valid hok]; exact WithBot.coe_ne_bot)
      exact fun h => hmax (max_eq_bot.mp h).2
    obtain ⟨M, hM⟩ := WithBot.ne_bot_iff_exists.mp hne
    have hl : ((List.range curBc).map fun c => F.rescale (p.tileLogit F q k cStart r c) M).sum =
        ((p.scored F q k v r (p.tileBand r cStart curBc)).map fun y => F.exp (y.1 - M)).sum := by
      simp only [rescale_tileLogit, sum_map_ite, HeadArgs.scored, HeadArgs.tileBand, List.map_map]
      rfl
    have ho : ∀ d : Fin p.headDim,
      ((List.range curBc).map fun c => if p.inBand (r + p.qStartPos) (cStart + c) then
          F.rescale (p.tileLogit F q k cStart r c) M * p.value v (cStart + c) d else 0).sum =
        ((p.scored F q k v r (p.tileBand r cStart curBc)).map fun y =>
          F.exp (y.1 - M) * y.2 d).sum := by
      intro d
      rw [sum_map_ite]
      simp only [HeadArgs.scored, HeadArgs.tileBand, List.map_map]
      refine congrArg List.sum (List.map_congr_left fun c hc => ?_)
      rw [rescale_tileLogit, if_pos (List.mem_filter.mp hc).2]
      rfl
    have hstep : flashRow F p q k v cStart curBc r st =
        ⟨M, st.l * F.rescale st.m M +
            ((p.scored F q k v r (p.tileBand r cStart curBc)).map fun y => F.exp (y.1 - M)).sum,
          fun d => st.o d * F.rescale st.m M +
            ((p.scored F q k v r (p.tileBand r cStart curBc)).map fun y =>
              F.exp (y.1 - M) * y.2 d).sum⟩ := by
      unfold flashRow
      simp only
      rw [if_pos hany, ← hM, ← hl]
      simp only [← ho, WithBot.unbotD_coe]
    rw [hstep]
    exact h.absorb _ M
  · have hnil : p.tileBand r cStart curBc = [] := by
      rw [HeadArgs.tileBand, List.map_eq_nil_iff, List.filter_eq_nil_iff]
      exact fun c hc hok => hany (List.any_eq_true.mpr ⟨c, hc, hok⟩)
    have hstep : flashRow F p q k v cStart curBc r st = st := if_neg hany
    rw [hstep, hnil]
    simpa [HeadArgs.scored] using h

end Row

/-! ## Tiles -/

theorem range_tile {n b t : ℕ} (ht : t < divCeil n b) (hb : 0 < b) :
    List.range (min ((t + 1) * b) n) =
      List.range (min (t * b) n) ++ (List.range (min (t * b + b) n - t * b)).map (t * b + ·) := by
  have hlt : t * b < n := by
    unfold divCeil at ht
    have h := Nat.mul_le_mul_right b
      (Nat.le_of_lt_succ (Nat.lt_succ_of_le (Nat.le_of_lt_succ (Nat.succ_le_succ ht))))
    have hd := Nat.div_mul_le_self (n + b - 1) b
    rw [Nat.succ_mul] at h
    omega
  rw [Nat.min_eq_left hlt.le, ← List.range_add, Nat.succ_mul]
  congr 1
  omega

theorem tiles_cover {n b : ℕ} (hb : 0 < b) : min (divCeil n b * b) n = n := by
  have h₁ := Nat.div_add_mod' (n + b - 1) b
  have h₂ := Nat.mod_lt (n + b - 1) hb
  unfold divCeil
  omega

section Tiles

variable {F : FloatOps K} {p : HeadArgs} {q k v : ℕ → K}

/-- A tile that is skipped has no key in the band of its rows. -/
theorem tileBand_of_skips {rStart rEnd cStart cEnd r : ℕ} (hr : r < rEnd - rStart)
    (hskip : p.skips rStart rEnd cStart cEnd = true) :
    p.tileBand (rStart + r) cStart (cEnd - cStart) = [] := by
  rw [HeadArgs.tileBand, List.map_eq_nil_iff, List.filter_eq_nil_iff]
  intro c hc hok
  rw [List.mem_range] at hc
  rw [inBand_iff] at hok
  obtain ⟨hcausal, hwin, hres⟩ := hok
  unfold HeadArgs.skips at hskip
  rcases hw : p.windowSize with _ | ws
  · simp only [hw, Option.any_none, Bool.or_false, Bool.or_eq_true, decide_eq_true_eq] at hskip
    omega
  · have := hwin ws hw
    simp only [hw, Option.any_some, Bool.or_eq_true, decide_eq_true_eq] at hskip
    omega

/-- The state of a row after all key tiles holds the sums over its band. -/
theorem flashTile_sums {br bc : ℕ} (hbc : 0 < bc) (i : ℕ) {r : ℕ}
    (hr : r < min (i * br + br) p.qLen - i * br) :
    (flashTile F p q k v br bc i r).Sums F.toExponential
      (p.scored F q k v (i * br + r) (p.band (i * br + r))) := by
  set tile := fun (st : ℕ → Acc K (Fin p.headDim)) j =>
    let cStart := j * bc
    let cEnd := min (cStart + bc) p.kvLen
    if p.skips (i * br) (min (i * br + br) p.qLen) cStart cEnd then st
    else fun r => if r < min (i * br + br) p.qLen - i * br then
      flashRow F p q k v cStart (cEnd - cStart) (i * br + r) (st r) else st r with htile
  -- after `t` tiles, the keys below `t * bc` are in
  have hrun : ∀ t ≤ divCeil p.kvLen bc,
    ((List.range t).foldl tile (fun _ => .empty) r).Sums F.toExponential
      (p.scored F q k v (i * br + r)
        ((List.range (min (t * bc) p.kvLen)).filter (p.inBand (i * br + r + p.qStartPos)))) := by
    intro t
    induction t with
    | zero =>
      intro _
      simpa [HeadArgs.scored] using Acc.sums_empty
    | succ t ih =>
      intro ht
      have hprev := ih (by omega)
      rw [List.range_succ, List.foldl_append, range_tile (by omega) hbc, List.filter_append,
        HeadArgs.scored, List.map_append]
      have hkeys : ((List.range (min (t * bc + bc) p.kvLen - t * bc)).map (t * bc + ·)).filter
          (p.inBand (i * br + r + p.qStartPos)) =
          p.tileBand (i * br + r) (t * bc) (min (t * bc + bc) p.kvLen - t * bc) := by
        rw [List.filter_map]
        rfl
      rw [hkeys]
      simp only [List.foldl_cons, List.foldl_nil]
      rw [htile]
      simp only
      by_cases hskip : p.skips (i * br) (min (i * br + br) p.qLen) (t * bc)
        (min (t * bc + bc) p.kvLen) = true
      · rw [if_pos hskip, tileBand_of_skips hr hskip, List.map_nil, List.append_nil]
        exact hprev
      · rw [if_neg hskip, if_pos hr]
        exact flashRow_sums hprev _ _ _
  have hall := hrun _ le_rfl
  rw [tiles_cover hbc] at hall
  exact hall

theorem finishRow_eq {headDim : ℕ} {st : Acc K (Fin headDim)} {xs : List (K × (Fin headDim → K))}
    (h : st.Sums F.toExponential xs) (d : Fin headDim) : finishRow st d = F.average xs d := by
  rw [finishRow, dif_pos d.2, ← h.average_eq d]
  split_ifs with hl
  · rw [hl, mul_zero, div_zero]
  · rw [mul_one_div]

end Tiles

/-! ## The output -/

section Output

variable {F : FloatOps K} {p : HeadArgs} {q k v : ℕ → K} {br bc : ℕ}

/-- The rows in the order the tiles write them. -/
def tileRows (qLen br : ℕ) : List (ℕ × ℕ) :=
  (List.range (divCeil qLen br)).flatMap fun i =>
    (List.range (min (i * br + br) qLen - i * br)).map fun r => (i, r)

theorem mem_tileRows {qLen i r : ℕ} (hbr : 0 < br) :
    (i, r) ∈ tileRows qLen br ↔ r < br ∧ i * br + r < qLen := by
  simp only [tileRows, List.mem_flatMap, List.mem_range, List.mem_map, Prod.mk.injEq]
  constructor
  · rintro ⟨i', -, r', hr, rfl, rfl⟩
    omega
  · rintro ⟨hr, hlt⟩
    refine ⟨i, ?_, r, by omega, rfl, rfl⟩
    obtain ⟨i', hi', r', hr', heq⟩ := (tile_iff hbr qLen (i * br + r)).mpr hlt
    obtain ⟨rfl, rfl⟩ := block_inj (n := br) (by omega) hr heq
    exact hi'

theorem flashAttentionHeadFrom_eq (out : ℕ → K) :
    flashAttentionHeadFrom F p q k v br bc out =
      (tileRows p.qLen br).foldl (fun out x =>
        place (finishRow (flashTile F p q k v br bc x.1 x.2))
          0 out (p.outOff + (x.1 * br + x.2) * p.outStride) p.headDim) out := by
  rw [tileRows, List.foldl_flatMap]
  simp only [List.foldl_map]
  rfl

/-- **A row of the output** is the softmax average over the keys of its band, whatever the tiles. -/
theorem flashAttentionHeadFrom_row (F : FloatOps K) (p : HeadArgs) (q k v : ℕ → K)
    (hbr : 0 < br) (hbc : 0 < bc) (hstride : p.headDim ≤ p.outStride) (out : ℕ → K) {r : ℕ}
    (hr : r < p.qLen) (d : Fin p.headDim) :
    flashAttentionHeadFrom F p q k v br bc out (p.outOff + r * p.outStride + d) =
      p.attended F q k v r d := by
  have hmod : r / br * br + r % br = r := Nat.div_add_mod' r br
  have hlt := Nat.mod_lt r hbr
  have hmem : (r / br, r % br) ∈ tileRows p.qLen br := (mem_tileRows hbr).mpr ⟨hlt, by omega⟩
  have hd := d.2
  rw [flashAttentionHeadFrom_eq,
    foldl_place_of_mem (fun x => finishRow (flashTile F p q k v br bc x.1 x.2)) (fun _ => 0)
      (fun x => p.outOff + (x.1 * br + x.2) * p.outStride) (fun _ => p.headDim) hmem
      (by simp only; rw [hmod]; omega) (by simp only; rw [hmod]; omega)]
  · have hpos : 0 + (p.outOff + r * p.outStride + (d : ℕ) -
      (p.outOff + (r / br * br + r % br) * p.outStride)) =
        (d : ℕ) := by rw [hmod]; omega
    simp only
    rw [hpos, finishRow_eq (flashTile_sums hbc (r / br) (by omega))]
    simp only [hmod]
    rfl
  · rintro ⟨i, r'⟩ hx hne ⟨h₁, h₂⟩
    obtain ⟨hr', hlt'⟩ := (mem_tileRows hbr).mp hx
    simp only at h₁ h₂
    -- another row begins at least a stride away
    have hrow : i * br + r' ≠ r := by
      intro heq
      obtain ⟨rfl, rfl⟩ := block_inj (n := br) hr' hlt (heq.trans hmod.symm)
      exact hne rfl
    rcases Nat.lt_or_gt_of_ne hrow with h | h
    · have := Nat.mul_le_mul_right p.outStride (Nat.succ_le_of_lt h)
      rw [Nat.succ_mul] at this
      omega
    · have := Nat.mul_le_mul_right p.outStride (Nat.succ_le_of_lt h)
      rw [Nat.succ_mul] at this
      omega

theorem flashAttentionHeadFrom_frame (F : FloatOps K) (p : HeadArgs) (q k v : ℕ → K)
    (hbr : 0 < br) (out : ℕ → K) {x : ℕ}
    (hx : ∀ r < p.qLen, ¬ (p.outOff + r * p.outStride ≤ x ∧
    x < p.outOff + r * p.outStride + p.headDim)) :
    flashAttentionHeadFrom F p q k v br bc out x = out x := by
  rw [flashAttentionHeadFrom_eq]
  have hmiss : ∀ y ∈ tileRows p.qLen br, ¬ (p.outOff + (y.1 * br + y.2) * p.outStride ≤ x ∧
      x < p.outOff + (y.1 * br + y.2) * p.outStride + p.headDim) := by
    rintro ⟨i, r⟩ hy
    exact hx _ ((mem_tileRows hbr).mp hy).2
  rw [foldl_place_of_notMem (fun y : ℕ × ℕ => finishRow (flashTile F p q k v br bc y.1 y.2))
    (fun _ => 0) (fun y => p.outOff + (y.1 * br + y.2) * p.outStride) (fun _ => p.headDim) hmiss]

end Output

/-! ## All heads -/

section Heads

variable {F : FloatOps K} {a : ForwardArgs} {q k v : ℕ → K}

theorem head_cells {n headDim stride h h' r r' d x : ℕ} (hstride : n * headDim ≤ stride)
    (hh : h < n) (hh' : h' < n) (hd : d < headDim) (hx : x = h * headDim + r * stride + d)
    (h₁ : h' * headDim + r' * stride ≤ x) (h₂ : x < h' * headDim + r' * stride + headDim) :
    h' = h ∧ r' = r := by
  have hcol : ∀ {m e}, m < n → e < headDim → m * headDim + e < stride := by
    intro m e hm he
    have := Nat.mul_le_mul_right headDim (Nat.succ_le_of_lt hm)
    rw [Nat.succ_mul] at this
    omega
  obtain ⟨e, he, hxe⟩ : ∃ e < headDim, x = h' * headDim + r' * stride + e :=
    ⟨x - (h' * headDim + r' * stride), by omega,
    by omega⟩
  obtain ⟨hr, hc⟩ := block_inj (n := stride) (a := r') (b := r) (hcol hh' he)
    (hcol hh hd) (by omega)
  exact ⟨(block_inj (n := headDim) he hd hc).1, hr⟩

/-- **A forward pass over all heads**, in whatever order they run. -/
theorem flashAttentionForwardStrided_row (F : FloatOps K) (a : ForwardArgs) (q k v : ℕ → K)
    {br bc : ℕ} (hbr : 0 < br) (hbc : 0 < bc) (hstride : a.nHeadsQ * a.headDim ≤ a.outStride)
    {order : List ℕ} (horder : order.Perm (List.range a.nHeadsQ)) (out : ℕ → K) {h r : ℕ}
    (hh : h < a.nHeadsQ) (hr : r < a.qLen) (d : Fin a.headDim) :
    flashAttentionForwardStrided F a q k v br bc order out (h * a.headDim + r * a.outStride + d) =
      (a.head h).attended F q k v r d := by
  have hdim : a.headDim ≤ a.outStride := (Nat.le_mul_of_pos_left _ (by omega)).trans hstride
  refine Folds.foldl_only (fun out : ℕ → K => out (h * a.headDim + r * a.outStride + d)) (x := h)
    (horder.mem_iff.mpr (List.mem_range.mpr hh)) (fun out => ?_) (fun h' hmem hne out => ?_) out
  · exact flashAttentionHeadFrom_row F (a.head h) q k v hbr hbc hdim out hr d
  · refine flashAttentionHeadFrom_frame F (a.head h') q k v hbr out fun r' _ hcell => hne ?_
    exact (head_cells hstride hh (List.mem_range.mp (horder.mem_iff.mp hmem))
      d.2 rfl hcell.1 hcell.2).1

end Heads

/-! ## The reference -/

/-- The arguments of the reference, as those of the kernel. -/
abbrev naiveArgs (seqLen headDim qStartPos : ℕ) : HeadArgs where
  qOff := 0
  kvOff := 0
  outOff := 0
  qStride := headDim
  kStride := headDim
  vStride := headDim
  outStride := headDim
  qLen := seqLen
  kvLen := seqLen
  headDim := headDim
  qStartPos := qStartPos
  windowSize := none
  kvStart := 0

theorem naiveAttentionHead_row (F : FloatOps K) (q k v : ℕ → K) (seqLen headDim : ℕ)
    (out : ℕ → K) {i : ℕ} (hi : i < seqLen) (d : Fin headDim) :
    naiveAttentionHead F q k v seqLen headDim out (i * headDim + d) = F.average
      ((naiveArgs seqLen headDim 0).scored F q k v i (List.range seqLen)) d := by
  unfold naiveAttentionHead
  have hd := d.2
  rw [foldl_place_of_mem _ (fun _ => 0) (fun i => i * headDim) (fun _ => headDim)
    (List.mem_range.mpr hi) (by omega) (by omega)]
  · simp only [Nat.zero_add, Nat.add_sub_cancel_left]
    rw [← two_pass _ (((List.range seqLen).foldl (fun a j => max a
      ((dot q k headDim (i * headDim) (j * headDim) * scale F headDim : K) : WithBot K))
        ⊥).unbotD 0)]
    simp only [HeadArgs.scored, HeadArgs.logit, HeadArgs.value, naiveArgs,
      List.map_map, Nat.zero_add]
    rfl
  · rintro i' hi' hne ⟨h₁, h₂⟩
    obtain ⟨heq, -⟩ := block_inj (n := headDim) (a := i') (b := i)
      (i := i * headDim + d - i' * headDim) (j := d) (by omega) hd (by omega)
    exact hne heq

/-- **The kernel agrees with the reference**, where every key is within reach of every row. -/
theorem flashAttentionHeadFrom_naive (F : FloatOps K) (q k v : ℕ → K) {br bc : ℕ}
    (hbr : 0 < br) (hbc : 0 < bc) {seqLen headDim qStartPos : ℕ} (hreach : seqLen ≤ qStartPos + 1)
    (out out' : ℕ → K) {x : ℕ} (hx : x < seqLen * headDim) :
    flashAttentionHeadFrom F (naiveArgs seqLen headDim qStartPos) q k v br bc out x =
      naiveAttentionHead F q k v seqLen headDim out' x := by
  have hpos : 0 < headDim := Nat.pos_of_ne_zero fun h =>
    by rw [h, Nat.mul_zero] at hx; exact Nat.not_lt_zero _ hx
  have hrow : x / headDim < seqLen := Nat.div_lt_of_lt_mul (by rwa [Nat.mul_comm])
  have hmod : x / headDim * headDim + x % headDim = x := Nat.div_add_mod' x headDim
  have hlt := Nat.mod_lt x hpos
  have hband : (naiveArgs seqLen headDim qStartPos).band (x / headDim) = List.range seqLen := by
    refine List.filter_eq_self.mpr fun c hc => ?_
    have hc' : c < seqLen := List.mem_range.mp hc
    rw [inBand_iff]
    exact ⟨Nat.le_trans (by omega : c ≤ qStartPos) (Nat.le_add_left _ _), fun w hw =>
      by simp at hw, Nat.zero_le _⟩
  have hflash := flashAttentionHeadFrom_row F (naiveArgs seqLen headDim qStartPos)
    q k v hbr hbc le_rfl out hrow (⟨x % headDim, hlt⟩ : Fin headDim)
  have hnaive := naiveAttentionHead_row F q k v seqLen headDim out' hrow
    (⟨x % headDim, hlt⟩ : Fin headDim)
  have hcell : (naiveArgs seqLen headDim qStartPos).outOff +
      x / headDim * (naiveArgs seqLen headDim qStartPos).outStride + x % headDim = x := by
    simpa [naiveArgs] using hmod
  simp only [hcell, hmod] at hflash hnaive
  rw [hflash, hnaive, HeadArgs.attended, hband]
  rfl

theorem flashAttentionHeadFrom_naive_twoRows :
    flashAttentionHeadFrom FloatOps.real (naiveArgs 2 1 1) (fun i => (i : ℝ)) (fun i => (i : ℝ))
      (fun i => (i : ℝ)) 1 2
        (fun _ => 0) 1 =
      naiveAttentionHead FloatOps.real (fun i => (i : ℝ)) (fun i => (i : ℝ)) (fun i => (i : ℝ))
        2 1 (fun _ => 0) 1 :=
  flashAttentionHeadFrom_naive FloatOps.real _ _ _ Nat.one_pos Nat.two_pos (by decide)
    _ _ (by decide)

end ArgusEngine.Attn
