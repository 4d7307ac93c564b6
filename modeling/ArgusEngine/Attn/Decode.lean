import ArgusEngine.Attn.Flash
import Mathlib.Logic.Function.Basic

/-!
# Attention of one decode step

One query row for each head against the resident slots of the cache, by three kernels: the portable
one in three passes, and on `aarch64` one pass over the tokens for each head, or chunks of tokens
that the thread pool takes in any order and whose partial sums are merged. A key element that is not
a number makes its logit `-∞`.

* `attentionGen`: the portable kernel;
* `attentionGenF16NeonHeadParallel`, `attentionGenF16NeonFlash`, `attentionGenF16Neon`: the others,
  and the choice;
* `attentionGen_row`, `attentionGen_scores`: what the portable kernel writes;
* **`attentionGenF16Neon_eq`**: whichever path a call takes, and in whatever order heads and chunks
  run, it leaves exactly what the portable kernel leaves.
-/

namespace ArgusEngine.Attn

open OnlineSoftmax SlotMem

variable {K : Type*} [Field K] [LinearOrder K]

/-- The arguments of a decode step. -/
structure DecodeArgs where
  numHeadsQ : ℕ
  numHeadsKv : ℕ
  headDim : ℕ
  cacheSeqLen : ℕ
  kShape : List ℕ
  /-- The length of `scores_out`. -/
  scoresOut : Option ℕ

/-- The buffers a decode step writes. -/
structure Written (K : Type*) where
  out : ℕ → K
  scores : ℕ → K

namespace DecodeArgs

variable (a : DecodeArgs)

/-- HeadMajor: `[batch, kv_heads, capacity, head_dim]`. -/
def isHeadMajor : Bool :=
  decide (3 ≤ a.kShape.length) && decide (a.kShape.getD 1 0 = a.numHeadsKv) &&
    decide (a.kShape.getD 1 0 ≠ a.kShape.getD 2 0)

def capacity : ℕ := if a.isHeadMajor then a.kShape.getD 2 0 else 0

def gqaRatio : ℕ := a.numHeadsQ / a.numHeadsKv

/-- Where the row of a token begins. -/
def rowOff (kvH t : ℕ) : ℕ :=
  if a.isHeadMajor then (kvH * a.capacity + t) * a.headDim else (t * a.numHeadsKv + kvH) * a.headDim

def scoresStride : ℕ := match a.scoresOut with
  | some len => len / a.numHeadsQ
  | none => 0

/-- The row and the weights of one head go to their place. -/
def writeHead (h : ℕ) (w row : ℕ → K) (st : Written K) : Written K where
  out := place row 0 st.out (h * a.headDim) a.headDim
  scores := if a.scoresOut.isSome then place w 0 st.scores (h * a.scoresStride) a.cacheSeqLen
    else st.scores

end DecodeArgs

section Kernels

variable (F : FloatOps K) (q : ℕ → K) (k : ℕ → WithBot K) (v : ℕ → K)

/-- A logit: `-∞` where the key row has an element that is not a number. -/
def logitAt (headDim qPtr kPtr : ℕ) : WithBot K :=
  if (List.range headDim).all fun d => decide (k (kPtr + d) ≠ ⊥) then
    ((dot q (fun i => (k i).unbotD 0) headDim qPtr kPtr * scale F headDim : K) : WithBot K)
  else ⊥

/-- The softmax of the portable kernel. -/
def softmaxScores (s : ℕ → WithBot K) (n : ℕ) : ℕ → K :=
  let maxV := (List.range n).foldl (fun m t => if m < s t then s t else m) ⊥
  if maxV = ⊥ then fun _ => 1 / (n : K)
  else
    let e : ℕ → K := fun t => F.rescale (s t) (maxV.unbotD 0)
    let sumE := ((List.range n).map e).sum
    if sumE ≤ 0 then fun _ => 1 / (n : K) else fun t => e t / sumE

/-- `flash_apply_token`. -/
def flashApplyToken {n : ℕ} (rawS : WithBot K) (vRow : Fin n → K) (st : Acc K (Fin n)) :
    Acc K (Fin n) :=
  if rawS = ⊥ then st
  else
    let mNew := max st.m rawS
    let alpha := F.rescale st.m (mNew.unbotD 0)
    let beta := F.exp (rawS.unbotD 0 - mNew.unbotD 0)
    { m := mNew
      l := st.l * alpha + beta
      o := fun d => st.o d * alpha + vRow d * beta }

/-- Four tokens at a time, then the rest. -/
def fourWay (tStart len : ℕ) : List ℕ :=
  ((List.range (len / 4)).flatMap fun block => (List.range 4).map fun r =>
    tStart + block * 4 + r) ++ List.range' (tStart + len / 4 * 4) (len - len / 4 * 4)

/-- The running state after a sequence of tokens. -/
def scan {n : ℕ} (s : ℕ → WithBot K) (vRow : ℕ → Fin n → K) (ts : List ℕ) : Acc K (Fin n) :=
  ts.foldl (fun st t => flashApplyToken F (s t) (vRow t) st) .empty

/-- The mean of the value rows. -/
def uniformRow (off : ℕ → ℕ) (n x : ℕ) : K :=
  ((List.range n).map fun t => 1 / (n : K) * v (off t + x)).sum

/-- `flash_uniform_fallback`. -/
def flashUniformFallback (off : ℕ → ℕ) (cacheSeqLen : ℕ) : ℕ → K :=
  if cacheSeqLen = 0 then fun _ => 0 else uniformRow v off cacheSeqLen

variable (a : DecodeArgs)

/-- The logits of head `h`. -/
def DecodeArgs.logit (h t : ℕ) : WithBot K :=
  logitAt F q k a.headDim (h * a.headDim) (a.rowOff (h / a.gqaRatio) t)

/-- The value row of a token, for head `h`. -/
def DecodeArgs.value (h t : ℕ) (d : Fin a.headDim) : K := v (a.rowOff (h / a.gqaRatio) t + d)

/-- `attention_gen`, portable, one head. -/
def attentionGenHead (h : ℕ) (st : Written K) : Written K :=
  let scores := softmaxScores F (a.logit F q k h) a.cacheSeqLen
  a.writeHead h scores
    (fun x => ((List.range a.cacheSeqLen).map fun t =>
      scores t * v (a.rowOff (h / a.gqaRatio) t + x)).sum) st

/-- `attention_gen`; the heads run in parallel, in the order `heads`. -/
def attentionGen (heads : List ℕ) (st : Written K) : Written K :=
  heads.foldl (fun st h => attentionGenHead F q k v a h st) st

/-- `attention_gen_f16_neon_head_parallel`, one head: one pass over the tokens. -/
def headParallelHead (h : ℕ) (st : Written K) : Written K :=
  let s := a.logit F q k h
  let run := scan F s (a.value v h) (fourWay 0 a.cacheSeqLen)
  let fallbackUniform := decide (run.l ≤ 0) || decide (run.m = ⊥)
  let row : ℕ → K := fun x =>
    if fallbackUniform then uniformRow v (a.rowOff (h / a.gqaRatio)) a.cacheSeqLen x
    else if hx : x < a.headDim then run.o ⟨x, hx⟩ * (1 / run.l) else 0
  let w : ℕ → K := fun t =>
    if fallbackUniform then 1 / (a.cacheSeqLen : K)
    else if s t = ⊥ then 0 else F.exp ((s t).unbotD 0 - run.m.unbotD 0) * (1 / run.l)
  a.writeHead h w row st

def attentionGenF16NeonHeadParallel (heads : List ℕ) (st : Written K) : Written K :=
  heads.foldl (fun st h => headParallelHead F q k v a h st) st

def FLASH_DECODE_CHUNK_SIZE : ℕ := 1024

def FLASH_DECODE_THRESHOLD : ℕ := 1024

def flashChunkRange (chunkIdx cacheSeqLen chunkSize : ℕ) : ℕ × ℕ :=
  let start := chunkIdx * chunkSize
  (start, min (start + chunkSize) cacheSeqLen)

/-- `flash_chunk_worker`: the query heads of one KV head, on one chunk. An entry of `partials` is a
`PartialState` with its lanes of `partial_o`. -/
def flashChunkWorker (chunkSize : ℕ) (partials : ℕ → Acc K (Fin a.headDim)) (taskId : ℕ) :
    ℕ → Acc K (Fin a.headDim) :=
  let chunkIdx := taskId / a.numHeadsKv
  let kvH := taskId % a.numHeadsKv
  let range := flashChunkRange chunkIdx a.cacheSeqLen chunkSize
  let off : ℕ → ℕ := fun t => (kvH * a.capacity + t) * a.headDim
  (List.range a.gqaRatio).foldl (fun partials g =>
    let qH := kvH * a.gqaRatio + g
    Function.update partials (chunkIdx * a.numHeadsQ + qH)
      (scan F (fun t => logitAt F q k a.headDim (qH * a.headDim) (off t)) (fun t d => v (off t + d))
        (fourWay range.1 (range.2 - range.1)))) partials

/-- `flash_merge_partials`, one head. -/
def flashMergeHead (partials : ℕ → Acc K (Fin a.headDim)) (nChunks qH x : ℕ) : K :=
  let kvH := qH / a.gqaRatio
  let fallback := flashUniformFallback v (fun t => (kvH * a.capacity + t) * a.headDim)
    a.cacheSeqLen x
  let part : ℕ → Acc K (Fin a.headDim) := fun c => partials (c * a.numHeadsQ + qH)
  let mMax := (List.range nChunks).foldl (fun m c => if m < (part c).m then (part c).m else m) ⊥
  if mMax = ⊥ then fallback
  else
    let alpha : ℕ → K := fun c => F.rescale (part c).m (mMax.unbotD 0)
    let lTotal := ((List.range nChunks).map fun c => if (part c).m = ⊥ then 0
      else alpha c * (part c).l).sum
    if lTotal ≤ 0 then fallback
    else if hx : x < a.headDim then
      ((List.range nChunks).map fun c => if (part c).m = ⊥ then 0
        else alpha c * (part c).o ⟨x, hx⟩).sum * (1 / lTotal)
    else 0

/-- `attention_gen_f16_neon_flash`; the pool runs the tasks in the order `tasks`. -/
def attentionGenF16NeonFlash (heads tasks : List ℕ) (st : Written K) : Written K :=
  if a.isHeadMajor then
    let partials := tasks.foldl (flashChunkWorker F q k v a FLASH_DECODE_CHUNK_SIZE) fun _ => .empty
    let nChunks := divCeil a.cacheSeqLen FLASH_DECODE_CHUNK_SIZE
    (List.range a.numHeadsQ).foldl (fun st qH =>
      { st with out := place (flashMergeHead F v a partials nChunks qH) 0 st.out (qH * a.headDim)
                  a.headDim }) st
  else attentionGenF16NeonHeadParallel F q k v { a with scoresOut := none } heads st

/-- `attention_gen_f16_neon`. -/
def attentionGenF16Neon (heads tasks : List ℕ) (st : Written K) : Written K :=
  if a.cacheSeqLen < FLASH_DECODE_THRESHOLD ∨ a.scoresOut.isSome
    then attentionGenF16NeonHeadParallel F q k v a heads st
  else attentionGenF16NeonFlash F q k v a heads tasks st

/-- The tasks of the chunked path. -/
def DecodeArgs.flashTasks : ℕ := divCeil a.cacheSeqLen FLASH_DECODE_CHUNK_SIZE * a.numHeadsKv

end Kernels

/-! ## One head -/

section Head

variable [IsStrictOrderedRing K] {F : FloatOps K} {s : ℕ → WithBot K}

theorem softmaxScores_eq (s : ℕ → WithBot K) (n : ℕ) :
    softmaxScores F s n = softmaxWeight s (List.range n) F.toExponential := by
  funext t
  unfold softmaxScores
  simp only
  split_ifs with hmax hsum
  · rw [foldl_max_eq_bot] at hmax
    rw [softmaxWeight, if_pos hmax, List.length_range]
  · rw [foldl_max_eq_bot] at hmax
    rw [sum_rescale] at hsum
    exact absurd hsum (not_le.mpr (mul_pos (F.pos _) (liveTotal_pos hmax)))
  · rw [foldl_max_eq_bot] at hmax
    rw [sum_rescale, softmaxWeight, if_neg hmax]
    exact rescale_div _ t

theorem fourWay_eq (tStart len : ℕ) : fourWay tStart len = List.range' tStart len := by
  have hblocks : ∀ n, ((List.range n).flatMap fun block => (List.range 4).map fun r =>
    tStart + block * 4 + r) =
      List.range' tStart (n * 4) := by
    intro n
    induction n with
    | zero => rfl
    | succ n ih =>
      have hlast : (List.range 4).map (fun r => tStart + n * 4 + r) =
        List.range' (tStart + n * 4) 4 :=
        (List.range'_eq_map_range ..).symm
      rw [List.range_succ (n := n), List.flatMap_append, ih, List.flatMap_singleton,
        hlast, Nat.succ_mul, List.range'_append_1]
  rw [fourWay, hblocks, List.range'_append_1, Nat.add_sub_cancel' (Nat.div_mul_le_self len 4)]

variable {n : ℕ} {u : ℕ → Fin n → K}

omit [IsStrictOrderedRing K] in
theorem flashApplyToken_sums {st : Acc K (Fin n)} {xs : List (K × (Fin n → K))}
    (h : st.Sums F.toExponential xs) (t : ℕ) :
    (flashApplyToken F (s t) (u t) st).Sums F.toExponential (xs ++ live s u [t]) := by
  unfold flashApplyToken
  split_ifs with ht
  · have hnil : live s u [t] = [] := live_eq_nil.mpr (by simpa using ht)
    rwa [hnil, List.append_nil]
  · have hlive : live s u [t] = [((s t).unbotD 0, u t)] := by simp [live, ht]
    obtain ⟨M, hM⟩ := WithBot.ne_bot_iff_exists.mp
      (show max st.m (s t) ≠ ⊥ from fun hmax => ht (max_eq_bot.mp hmax).2)
    have hstep := h.absorb [((s t).unbotD 0, u t)] M
    rw [hlive]
    simp only [← hM, WithBot.unbotD_coe]
    simpa [mul_comm] using hstep

omit [IsStrictOrderedRing K] in
theorem scan_sums (ts : List ℕ) : (scan F s u ts).Sums F.toExponential (live s u ts) := by
  induction ts using List.reverseRecOn with
  | nil => exact Acc.sums_empty
  | append_singleton ts t ih =>
    rw [scan, List.foldl_append, List.foldl_cons, List.foldl_nil, live_append]
    exact flashApplyToken_sums ih t

theorem fallback_iff {st : Acc K (Fin n)} {ts : List ℕ}
    (h : st.Sums F.toExponential (live s u ts)) : (decide (st.l ≤ 0) || decide (st.m = ⊥)) = true ↔
    ∀ t ∈ ts, s t = ⊥ := by
  rw [Bool.or_eq_true, decide_eq_true_eq, decide_eq_true_eq, ← live_eq_nil (v := u)]
  rcases eq_or_ne st.m ⊥ with hm | hm
  · exact ⟨fun _ => (h.none hm).1, fun _ => .inr hm⟩
  · obtain ⟨M, hM⟩ := WithBot.ne_bot_iff_exists.mp hm
    have hl := (h.some M hM.symm).1
    constructor
    · rintro (hle | hbot)
      · by_contra hne
        rw [hl] at hle
        exact absurd hle (not_le.mpr (mul_pos (F.pos _) (Exponential.total_pos hne)))
      · exact absurd hbot hm
    · intro hnil
      left
      rw [hl, hnil, Exponential.total_nil, mul_zero]

omit [IsStrictOrderedRing K] in
theorem uniformRow_eq (v : ℕ → K) (off : ℕ → ℕ) (hbot : ∀ t ∈ List.range n, s t = ⊥)
    {m : ℕ} (d : Fin m) : uniformRow v off n d = softmaxRow s (fun t (d : Fin m) => v (off t + d))
    (List.range n) F.toExponential d := by
  rw [uniformRow, softmaxRow, if_pos hbot, List.length_range]

end Head

/-! ## What a kernel writes for a head -/

section Rows

variable (F : FloatOps K) (q : ℕ → K) (k : ℕ → WithBot K) (v : ℕ → K) (a : DecodeArgs)

/-- **What a head is to get**: the softmax average over the tokens that have a logit. -/
def DecodeArgs.attended (h : ℕ) (d : Fin a.headDim) : K :=
  softmaxRow (a.logit F q k h) (a.value v h) (List.range a.cacheSeqLen) F.toExponential d

/-- The weight of a token in it. -/
def DecodeArgs.weight (h t : ℕ) : K :=
  softmaxWeight (a.logit F q k h) (List.range a.cacheSeqLen) F.toExponential t

def DecodeArgs.attendedRow (h x : ℕ) : K :=
  if hx : x < a.headDim then a.attended F q k v h ⟨x, hx⟩ else 0

variable {F q k v a}

omit [Field K] [LinearOrder K] in
theorem writeHead_congr {h : ℕ} {w w' row row' : ℕ → K} (hw : ∀ t < a.cacheSeqLen, w t = w' t)
    (hrow : ∀ x < a.headDim, row x = row' x) (st : Written K) :
    a.writeHead h w row st = a.writeHead h w' row' st := by
  unfold DecodeArgs.writeHead
  rw [place_congr hrow, place_congr hw]

variable [IsStrictOrderedRing K]

theorem attentionGenHead_eq (h : ℕ) (st : Written K) :
    attentionGenHead F q k v a h st = a.writeHead h (a.weight F q k h)
      (a.attendedRow F q k v h) st := by
  refine writeHead_congr (fun t _ => ?_) (fun x hx => ?_) st
  · rw [softmaxScores_eq]
    rfl
  · rw [DecodeArgs.attendedRow, dif_pos hx, softmaxScores_eq]
    exact (softmaxRow_eq_sum (v := a.value v h) (⟨x, hx⟩ : Fin a.headDim)).symm

theorem headParallelHead_eq (h : ℕ) (st : Written K) :
    headParallelHead F q k v a h st = a.writeHead h (a.weight F q k h)
      (a.attendedRow F q k v h) st := by
  have hts : fourWay 0 a.cacheSeqLen = List.range a.cacheSeqLen := by
    rw [fourWay_eq, List.range_eq_range']
  have hsums := scan_sums (F := F) (s := a.logit F q k h) (u := a.value v h)
    (List.range a.cacheSeqLen)
  have hfall := fallback_iff hsums
  unfold headParallelHead
  simp only [hts]
  refine writeHead_congr (fun t _ => ?_) (fun x hx => ?_) st
  · by_cases hbot : ∀ t ∈ List.range a.cacheSeqLen, a.logit F q k h t = ⊥
    · rw [if_pos (hfall.mpr hbot), DecodeArgs.weight, softmaxWeight, if_pos hbot, List.length_range]
    · rw [if_neg (mt hfall.mp hbot), DecodeArgs.weight, softmaxWeight, if_neg hbot]
      have hm : (scan F (a.logit F q k h) (a.value v h) (List.range a.cacheSeqLen)).m ≠ ⊥ :=
        fun hm => hbot (hfall.mp
          (by rw [hm, decide_eq_true (rfl : (⊥ : WithBot K) = ⊥), Bool.or_true]))
      obtain ⟨M, hM⟩ := WithBot.ne_bot_iff_exists.mp hm
      rw [(hsums.some M hM.symm).1, ← hM, total_live, WithBot.unbotD_coe, mul_one_div]
      split_ifs with ht
      · rfl
      · rw [Exponential.exp_sub, mul_div_mul_left _ _ (F.pos _).ne']
  · have hrow : a.attendedRow F q k v h x = a.attended F q k v h ⟨x, hx⟩ := dif_pos hx
    rw [hrow]
    by_cases hbot : ∀ t ∈ List.range a.cacheSeqLen, a.logit F q k h t = ⊥
    · rw [if_pos (hfall.mpr hbot)]
      exact uniformRow_eq v (a.rowOff (h / a.gqaRatio)) hbot (⟨x, hx⟩ : Fin a.headDim)
    · rw [if_neg (mt hfall.mp hbot), dif_pos hx, mul_one_div, hsums.average_eq,
        DecodeArgs.attended, softmaxRow, if_neg hbot]

end Rows

/-! ## The chunks -/

section Chunks

variable {F : FloatOps K} {q : ℕ → K} {k : ℕ → WithBot K} {v : ℕ → K} {a : DecodeArgs}

/-- The tokens of a chunk. -/
def DecodeArgs.chunkTokens (a : DecodeArgs) (c : ℕ) : List ℕ :=
  let range := flashChunkRange c a.cacheSeqLen FLASH_DECODE_CHUNK_SIZE
  List.range' range.1 (range.2 - range.1)

theorem chunks_cover (n : ℕ) : ((List.range (divCeil n FLASH_DECODE_CHUNK_SIZE)).flatMap fun c =>
    List.range' (flashChunkRange c n FLASH_DECODE_CHUNK_SIZE).1
      ((flashChunkRange c n FLASH_DECODE_CHUNK_SIZE).2 -
        (flashChunkRange c n FLASH_DECODE_CHUNK_SIZE).1)) =
    List.range n := by
  have hb : 0 < FLASH_DECODE_CHUNK_SIZE := by decide
  have hbelow : ∀ t ≤ divCeil n FLASH_DECODE_CHUNK_SIZE, ((List.range t).flatMap fun c =>
      List.range' (flashChunkRange c n FLASH_DECODE_CHUNK_SIZE).1
        ((flashChunkRange c n FLASH_DECODE_CHUNK_SIZE).2 -
          (flashChunkRange c n FLASH_DECODE_CHUNK_SIZE).1)) =
      List.range (min (t * FLASH_DECODE_CHUNK_SIZE) n) := by
    intro t ht
    induction t with
    | zero => rw [Nat.zero_mul, Nat.zero_min]; rfl
    | succ t ih =>
      rw [List.range_succ, List.flatMap_append, ih (by omega), List.flatMap_singleton,
        range_tile (by omega) hb,
        ← List.range'_eq_map_range]
      rfl
  rw [hbelow _ le_rfl, tiles_cover hb]

theorem rowOff_headMajor (h : a.isHeadMajor = true) (kvH t : ℕ) :
    a.rowOff kvH t = (kvH * a.capacity + t) * a.headDim := if_pos h

/-- **The partial sums**: an entry is what its own task left there, whatever ran before and
after. -/
theorem partials_sums (hmajor : a.isHeadMajor = true) (hkv : a.numHeadsKv ∣ a.numHeadsQ)
    {tasks : List ℕ} (htasks : tasks.Perm (List.range a.flashTasks)) {c qH : ℕ}
    (hc : c < divCeil a.cacheSeqLen FLASH_DECODE_CHUNK_SIZE) (hq : qH < a.numHeadsQ) :
    (tasks.foldl (flashChunkWorker F q k v a FLASH_DECODE_CHUNK_SIZE) (fun _ => .empty)
      (c * a.numHeadsQ + qH)).Sums F.toExponential (live (a.logit F q k qH) (a.value v qH)
      (a.chunkTokens c)) := by
  obtain ⟨gqa, hgqa⟩ := hkv
  have hn : 0 < a.numHeadsKv := Nat.pos_of_ne_zero fun h0 =>
    by rw [hgqa, h0, Nat.zero_mul] at hq; omega
  have hratio : a.gqaRatio = gqa := by rw [DecodeArgs.gqaRatio, hgqa, Nat.mul_div_cancel_left _ hn]
  have hg : 0 < gqa := Nat.pos_of_ne_zero fun h0 => by rw [hgqa, h0, Nat.mul_zero] at hq; omega
  have hqmod : qH / gqa * gqa + qH % gqa = qH := Nat.div_add_mod' qH gqa
  have hqlt := Nat.mod_lt qH hg
  have hkvH : qH / gqa < a.numHeadsKv :=
    Nat.div_lt_of_lt_mul (by rw [Nat.mul_comm, ← hgqa]; exact hq)
  set task := c * a.numHeadsKv + qH / gqa with htask
  have htdiv : task / a.numHeadsKv = c := by
    rw [htask, Nat.mul_comm, Nat.mul_add_div hn, Nat.div_eq_of_lt hkvH, Nat.add_zero]
  have htmod : task % a.numHeadsKv = qH / gqa := by
    rw [htask, Nat.mul_comm, Nat.mul_add_mod, Nat.mod_eq_of_lt hkvH]
  have htlt : task < a.flashTasks := by
    have := Nat.mul_le_mul_right a.numHeadsKv (Nat.succ_le_of_lt hc)
    rw [Nat.succ_mul] at this
    unfold DecodeArgs.flashTasks
    omega
  -- an entry tells the chunk, the KV head and the place in the group
  have hentry : ∀ {t g}, g < gqa → t / a.numHeadsKv * a.numHeadsQ + (t % a.numHeadsKv * gqa + g) =
      c * a.numHeadsQ + qH → t = task ∧ g = qH % gqa := by
    intro t g hg' heq
    have hm := Nat.mod_lt t hn
    have hlt : t % a.numHeadsKv * gqa + g < a.numHeadsQ := by
      have := Nat.mul_le_mul_right gqa (Nat.succ_le_of_lt hm)
      rw [Nat.succ_mul] at this
      omega
    obtain ⟨hchunk, hhead⟩ := block_inj (n := a.numHeadsQ) hlt hq heq
    obtain ⟨hkv, hplace⟩ := block_inj (n := gqa) hg' hqlt (hhead.trans hqmod.symm)
    refine ⟨?_, hplace⟩
    rw [← Nat.div_add_mod t a.numHeadsKv, hchunk, hkv, htask, Nat.mul_comm]
  have hval := scan_sums (F := F) (s := a.logit F q k qH) (u := a.value v qH) (a.chunkTokens c)
  refine Eq.subst (motive := fun st : Acc K (Fin a.headDim) => st.Sums F.toExponential _) ?_ hval
  symm
  refine Folds.foldl_only (fun part : ℕ → Acc K (Fin a.headDim) =>
    part (c * a.numHeadsQ + qH)) (x := task) (htasks.mem_iff.mpr (List.mem_range.mpr htlt))
      (fun part => ?_) (fun t _ hne part => ?_) _
  · unfold flashChunkWorker
    simp only [hratio, htdiv, htmod]
    refine Folds.foldl_only (fun part : ℕ → Acc K (Fin a.headDim) => part (c * a.numHeadsQ + qH))
      (x := qH % gqa) (List.mem_range.mpr hqlt) (fun part => ?_) (fun g hg' hne part => ?_) part
    · rw [hqmod, Function.update_self, fourWay_eq]
      unfold DecodeArgs.logit DecodeArgs.value
      simp only [rowOff_headMajor hmajor, hratio]
      rfl
    · refine Function.update_of_ne (fun heq => hne ?_) _ _
      refine (hentry (t := task) (List.mem_range.mp hg') ?_).2
      rw [htdiv, htmod]
      exact heq.symm
  · unfold flashChunkWorker
    simp only [hratio]
    refine List.foldlRecOn (motive := fun part' : ℕ → Acc K (Fin a.headDim) =>
      part' (c * a.numHeadsQ + qH) = part (c * a.numHeadsQ + qH)) _ _ rfl fun part' ih g hg' => ?_
    rw [Function.update_of_ne (fun heq => hne (hentry (List.mem_range.mp hg') heq.symm).1), ih]

/-- **The merge**: the partial sums of the chunks give the average over all tokens. -/
theorem flashMergeHead_eq [IsStrictOrderedRing K] (hmajor : a.isHeadMajor = true)
    {part : ℕ → Acc K (Fin a.headDim)} {qH : ℕ}
    (hpart : ∀ c < divCeil a.cacheSeqLen FLASH_DECODE_CHUNK_SIZE,
      (part (c * a.numHeadsQ + qH)).Sums F.toExponential
      (live (a.logit F q k qH) (a.value v qH) (a.chunkTokens c))) {x : ℕ} (hx : x < a.headDim) :
    flashMergeHead F v a part (divCeil a.cacheSeqLen FLASH_DECODE_CHUNK_SIZE) qH x =
      a.attended F q k v qH ⟨x, hx⟩ := by
  set chunks := List.range (divCeil a.cacheSeqLen FLASH_DECODE_CHUNK_SIZE) with hchunks
  have hcover : chunks.flatMap (fun c => live (a.logit F q k qH) (a.value v qH) (a.chunkTokens c)) =
      live (a.logit F q k qH) (a.value v qH) (List.range a.cacheSeqLen) := by
    rw [← live_flatMap, hchunks]
    exact congrArg _ (chunks_cover a.cacheSeqLen)
  have hfall : (∀ t ∈ List.range a.cacheSeqLen, a.logit F q k qH t = ⊥) →
      flashUniformFallback v (fun t => (qH / a.gqaRatio * a.capacity + t) * a.headDim)
        a.cacheSeqLen x = a.attended F q k v qH ⟨x, hx⟩ := by
    intro hbot
    have hrow := uniformRow_eq (F := F) v (a.rowOff (qH / a.gqaRatio))
      hbot (⟨x, hx⟩ : Fin a.headDim)
    have hoff : (fun t => (qH / a.gqaRatio * a.capacity + t) * a.headDim) =
      a.rowOff (qH / a.gqaRatio) :=
      funext fun t => (rowOff_headMajor hmajor _ t).symm
    rw [flashUniformFallback, hoff]
    split_ifs with h0
    · refine Eq.trans ?_ hrow
      rw [uniformRow, h0]
      rfl
    · exact hrow
  have hmerge := fun M => sums_merge (E := F.toExponential)
    chunks (fun c => part (c * a.numHeadsQ + qH))
      (fun c => live (a.logit F q k qH) (a.value v qH) (a.chunkTokens c))
        (fun c hc => hpart c (List.mem_range.mp hc)) M
  simp only [hcover] at hmerge
  have hskip : ∀ (M : K) (c : ℕ) (y : K), (if (part (c * a.numHeadsQ + qH)).m = ⊥ then 0 else
      F.rescale (part (c * a.numHeadsQ + qH)).m M * y) =
        F.rescale (part (c * a.numHeadsQ + qH)).m M * y := by
    intro M c y
    split_ifs with h
    · rw [Exponential.rescale, if_pos h, zero_mul]
    · rfl
  unfold flashMergeHead
  simp only [hskip, ← hchunks]
  split_ifs with hmax hsum
  · rw [foldl_max_eq_bot] at hmax
    refine hfall (live_eq_nil (v := a.value v qH).mp ?_)
    rw [← hcover, List.flatMap_eq_nil_iff]
    exact fun c hc => ((hpart c (List.mem_range.mp hc)).none (hmax c hc)).1
  · refine hfall ?_
    by_contra hlive
    rw [(hmerge _).1, total_live] at hsum
    exact absurd hsum (not_le.mpr (mul_pos (F.pos _) (liveTotal_pos hlive)))
  · rw [(hmerge _).1, (hmerge _).2 ⟨x, hx⟩, mul_one_div, mul_div_mul_left _ _ (F.pos _).ne']
    rw [(hmerge _).1] at hsum
    have hlive : ¬ ∀ t ∈ List.range a.cacheSeqLen, a.logit F q k qH t = ⊥ := by
      intro hbot
      refine hsum (le_of_eq ?_)
      rw [live_eq_nil.mpr hbot, Exponential.total_nil, mul_zero]
    rw [DecodeArgs.attended, softmaxRow, if_neg hlive]
    rfl

end Chunks

/-! ## All heads -/

section Heads

variable {F : FloatOps K} {q : ℕ → K} {k : ℕ → WithBot K} {v : ℕ → K} {a : DecodeArgs}

omit [Field K] [LinearOrder K] in
theorem writeHead_perm (w row : ℕ → ℕ → K) {heads heads' : List ℕ} (hperm : heads.Perm heads')
    (hstride : a.scoresOut.isSome → a.cacheSeqLen ≤ a.scoresStride) (st : Written K) :
    heads.foldl (fun st h => a.writeHead h (w h) (row h) st) st =
      heads'.foldl (fun st h => a.writeHead h (w h) (row h) st) st := by
  have hapart : ∀ {h h' n stride : ℕ}, h ≠ h' → n ≤ stride →
      h * stride + n ≤ h' * stride ∨ h' * stride + n ≤ h * stride := by
    intro h h' n stride hne hn
    rcases Nat.lt_or_gt_of_ne hne with hlt | hlt
    · have := Nat.mul_le_mul_right stride (Nat.succ_le_of_lt hlt)
      rw [Nat.succ_mul] at this
      omega
    · have := Nat.mul_le_mul_right stride (Nat.succ_le_of_lt hlt)
      rw [Nat.succ_mul] at this
      omega
  refine hperm.foldl_eq' (fun h _ h' _ st => ?_) st
  rcases eq_or_ne h h' with rfl | hne
  · rfl
  · unfold DecodeArgs.writeHead
    congr 1
    · exact place_comm (hapart hne.symm le_rfl)
    · split_ifs with hsome
      · exact place_comm (hapart hne.symm (hstride hsome))
      · rfl

variable [IsStrictOrderedRing K]

theorem attentionGen_eq (heads : List ℕ) (st : Written K) : attentionGen F q k v a heads st =
    heads.foldl (fun st h => a.writeHead h (a.weight F q k h) (a.attendedRow F q k v h) st) st := by
  unfold attentionGen
  simp only [attentionGenHead_eq]

theorem attentionGenF16NeonHeadParallel_eq (heads : List ℕ) (st : Written K) :
    attentionGenF16NeonHeadParallel F q k v a heads st =
      heads.foldl (fun st h => a.writeHead h (a.weight F q k h)
        (a.attendedRow F q k v h) st) st := by
  unfold attentionGenF16NeonHeadParallel
  simp only [headParallelHead_eq]

theorem attentionGenF16NeonFlash_eq (hmajor : a.isHeadMajor = true) (hnone : a.scoresOut = none)
    (hkv : a.numHeadsKv ∣ a.numHeadsQ) (heads : List ℕ) {tasks : List ℕ}
    (htasks : tasks.Perm (List.range a.flashTasks)) (st : Written K) :
    attentionGenF16NeonFlash F q k v a heads tasks st = (List.range a.numHeadsQ).foldl
      (fun st h => a.writeHead h (a.weight F q k h) (a.attendedRow F q k v h) st) st := by
  unfold attentionGenF16NeonFlash
  simp only [if_pos hmajor]
  refine List.foldl_ext _ _ _ fun st qH hqH => ?_
  unfold DecodeArgs.writeHead
  rw [hnone]
  congr 1
  refine place_congr fun x hx => ?_
  rw [flashMergeHead_eq hmajor (fun c hc =>
    partials_sums hmajor hkv htasks hc (List.mem_range.mp hqH)) hx,
    DecodeArgs.attendedRow, dif_pos hx]

/-- **The paths of a decode step agree.** -/
theorem attentionGenF16Neon_eq (F : FloatOps K) (q : ℕ → K) (k : ℕ → WithBot K)
    (v : ℕ → K) (a : DecodeArgs) (hkv : a.numHeadsKv ∣ a.numHeadsQ)
    (hstride : a.scoresOut.isSome → a.cacheSeqLen ≤ a.scoresStride) {heads heads' tasks : List ℕ}
    (hheads : heads.Perm (List.range a.numHeadsQ)) (hheads' : heads'.Perm (List.range a.numHeadsQ))
    (htasks : tasks.Perm (List.range a.flashTasks)) (st : Written K) :
    attentionGenF16Neon F q k v a heads tasks st = attentionGen F q k v a heads' st := by
  rw [attentionGen_eq, writeHead_perm _ _ hheads' hstride]
  unfold attentionGenF16Neon
  split_ifs with hpath
  · rw [attentionGenF16NeonHeadParallel_eq, writeHead_perm _ _ hheads hstride]
  · have hnone : a.scoresOut = none := Option.not_isSome_iff_eq_none.mp fun h => hpath (.inr h)
    by_cases hmajor : a.isHeadMajor = true
    · exact attentionGenF16NeonFlash_eq hmajor hnone hkv heads htasks st
    · unfold attentionGenF16NeonFlash
      rw [if_neg hmajor, attentionGenF16NeonHeadParallel_eq, ← hnone]
      exact writeHead_perm _ _ hheads hstride st

end Heads

/-- Two query heads on one KV head, two chunks. -/
def longDecode : DecodeArgs where
  numHeadsQ := 2
  numHeadsKv := 1
  headDim := 1
  cacheSeqLen := 2000
  kShape := [1, 1, 4096, 1]
  scoresOut := none

theorem attentionGenF16Neon_eq_longDecode :
    attentionGenF16Neon FloatOps.real (fun i => (i : ℝ)) (fun i => ((i : ℝ) : WithBot ℝ))
      (fun i => (i : ℝ)) longDecode
        [1, 0] [1, 0] ⟨fun _ => 0, fun _ => 0⟩ =
      attentionGen FloatOps.real (fun i => (i : ℝ)) (fun i => ((i : ℝ) : WithBot ℝ))
        (fun i => (i : ℝ)) longDecode
        [0, 1] ⟨fun _ => 0, fun _ => 0⟩ :=
  attentionGenF16Neon_eq FloatOps.real (fun i => (i : ℝ)) (fun i => ((i : ℝ) : WithBot ℝ))
    (fun i => (i : ℝ)) longDecode (by decide) (by decide) (by decide) (by decide) (by decide)
      ⟨fun _ => 0, fun _ => 0⟩

end ArgusEngine.Attn
