import ArgusEngine.Attn.Decode
import ArgusEngine.Attn.PrefillTiles

/-!
# Decoding from a cache whose heads begin at different slots

The host kernel for a ragged cache reads each head from its own first resident slot on, below a
window from the window's floor on, and writes the weights of the columns before as zero.

* `attentionGenRagged`: the kernel; `attentionGenRagged_eq`: what it writes for each head;
* **`attentionGenRagged_scores`**: the scores of a head are a distribution over its slots, and its
  row is their mean;
* **`attentionGenRagged_dense`**: without holes and without a floor it is the portable kernel;
* `DecodesRow`: the arguments of the decode step at the position of a prefill row;
* **`prefill_eq_decode`**: a row of a prefill, whole or in chunks, by either kernel, is what the
  decode step at its position computes.
-/

namespace ArgusEngine.Attn

open OnlineSoftmax SlotMem

variable {K : Type*} [Field K] [LinearOrder K]

/-- The arguments of a ragged decode step. -/
structure RaggedArgs where
  numHeadsQ : ℕ
  numHeadsKv : ℕ
  headDim : ℕ
  /-- The positions that the K buffer holds for a head. -/
  capacity : ℕ
  kvStart : List ℕ
  kvBase : ℕ
  cacheSeqLen : ℕ
  /-- The length of `scores_out`. -/
  scoresOut : Option ℕ

namespace RaggedArgs

variable (a : RaggedArgs)

def kvHead (h : ℕ) : ℕ := h / max (a.numHeadsQ / a.numHeadsKv) 1

/-- The first slot that head `h` reads. -/
def start (h : ℕ) : ℕ := min (max (a.kvStart.getD (a.kvHead h) 0) a.kvBase) a.cacheSeqLen

def rowOff (h slot : ℕ) : ℕ := (a.kvHead h * a.capacity + slot) * a.headDim

/-- The slots that head `h` reads. -/
def slots (h : ℕ) : List ℕ := List.range' (a.start h) (a.cacheSeqLen - a.start h)

def scoresStride : ℕ := match a.scoresOut with
  | some len => len / a.numHeadsQ
  | none => 0

def writeHead (h : ℕ) (w row : ℕ → K) (st : Written K) : Written K where
  out := place row 0 st.out (h * a.headDim) a.headDim
  scores := if a.scoresOut.isSome then place w 0 st.scores (h * a.scoresStride)
    (a.cacheSeqLen - a.kvBase) else st.scores

end RaggedArgs

section Kernel

variable (F : FloatOps K) (q : ℕ → K) (k : ℕ → WithBot K) (v : ℕ → K) (a : RaggedArgs)

def RaggedArgs.logit (h slot : ℕ) : WithBot K :=
  logitAt F q k a.headDim (h * a.headDim) (a.rowOff h slot)

def RaggedArgs.value (h slot : ℕ) (d : Fin a.headDim) : K := v (a.rowOff h slot + d)

/-- `attention_gen_ragged`, one head. -/
def raggedHead (h : ℕ) (st : Written K) : Written K :=
  let logits := a.logit F q k h
  let maxV := (a.slots h).foldl (fun m slot => if m < logits slot then logits slot else m) ⊥
  let nValid := a.cacheSeqLen - a.start h
  let e : ℕ → K := fun slot => if maxV = ⊥ then 1 else F.rescale (logits slot) (maxV.unbotD 0)
  let sumE := ((a.slots h).map e).sum
  let inv : K :=
    if nValid = 0 ∨ sumE ≤ 0 then (if nValid = 0 then 0 else 1 / (nValid : K))
    else 1 / sumE
  let w : ℕ → K := fun slot => if slot < a.start h then 0 else if inv = 0 then 0 else e slot * inv
  a.writeHead h (fun j => w (a.kvBase + j))
    (fun x => ((a.slots h).map fun slot => if w slot = 0 then 0
      else w slot * v (a.rowOff h slot + x)).sum) st

/-- `attention_gen_ragged`, the host kernel; `none` where it refuses. -/
def attentionGenRagged (heads : List ℕ) (st : Written K) : Option (Written K) :=
  if a.kvStart.length ≠ a.numHeadsKv ∨ a.kvBase > a.cacheSeqLen ∨
    a.cacheSeqLen > a.capacity then none
  else some (heads.foldl (fun st h => raggedHead F q k v a h st) st)

end Kernel

/-! ## What it writes -/

section Rows

variable (F : FloatOps K) (q : ℕ → K) (k : ℕ → WithBot K) (v : ℕ → K) (a : RaggedArgs)

/-- What a head is to get. -/
def RaggedArgs.attended (h : ℕ) (d : Fin a.headDim) : K :=
  softmaxRow (a.logit F q k h) (a.value v h) (a.slots h) F.toExponential d

/-- The weight of a slot: none before the first that is resident. -/
def RaggedArgs.weight (h slot : ℕ) : K :=
  if slot < a.start h then 0 else softmaxWeight (a.logit F q k h) (a.slots h) F.toExponential slot

variable {F q k v a} [IsStrictOrderedRing K]

theorem raggedWeight_eq (h slot : ℕ) :
    let maxV := (a.slots h).foldl (fun m slot => if m < a.logit F q k h slot
      then a.logit F q k h slot else m) ⊥
    let e : ℕ → K := fun slot => if maxV = ⊥ then 1
      else F.rescale (a.logit F q k h slot) (maxV.unbotD 0)
    let sumE := ((a.slots h).map e).sum
    let inv : K := if a.cacheSeqLen - a.start h = 0 ∨ sumE ≤ 0 then
      (if a.cacheSeqLen - a.start h = 0 then 0 else 1 / ((a.cacheSeqLen - a.start h : ℕ) : K))
        else 1 / sumE
    (if inv = 0 then 0 else e slot * inv) = softmaxWeight (a.logit F q k h)
      (a.slots h) F.toExponential slot := by
  intro maxV e sumE inv
  have hzero : ∀ y : K, (if inv = 0 then 0 else y * inv) = y * inv := fun y => by
    split_ifs with h0
    · rw [h0, mul_zero]
    · rfl
  have hlen : (a.slots h).length = a.cacheSeqLen - a.start h := List.length_range'
  rw [hzero]
  by_cases hbot : ∀ t ∈ a.slots h, a.logit F q k h t = ⊥
  · have hmax : maxV = ⊥ := (foldl_max_eq_bot _ _).mpr hbot
    have he : e = fun _ => 1 := funext fun _ => if_pos hmax
    have hsum : sumE = ((a.cacheSeqLen - a.start h : ℕ) : K) := by
      change ((a.slots h).map e).sum = _
      rw [he, List.map_const', List.sum_replicate, hlen, nsmul_eq_mul, mul_one]
    have hinv : inv = 1 / ((a.cacheSeqLen - a.start h : ℕ) : K) := by
      change (if _ ∨ sumE ≤ 0 then _ else 1 / sumE) = _
      rw [hsum]
      by_cases h0 : a.cacheSeqLen - a.start h = 0
      · rw [if_pos (.inl h0), if_pos h0, h0, Nat.cast_zero, div_zero]
      · split_ifs <;> rfl
    rw [he, hinv, one_mul, softmaxWeight, if_pos hbot, hlen]
  · have hmax : maxV ≠ ⊥ := fun hmax => hbot ((foldl_max_eq_bot _ _).mp hmax)
    have he : e = fun slot => F.rescale (a.logit F q k h slot) (maxV.unbotD 0) :=
      funext fun _ => if_neg hmax
    have hsum : sumE = F.exp (-maxV.unbotD 0) * liveTotal (a.logit F q k h)
      (a.slots h) F.toExponential := by
      change ((a.slots h).map e).sum = _
      rw [he, sum_rescale]
    have hpos : 0 < sumE := hsum ▸ mul_pos (F.pos _) (liveTotal_pos hbot)
    have hne : a.cacheSeqLen - a.start h ≠ 0 := by
      rw [← hlen]
      intro h0
      rw [List.length_eq_zero_iff.mp h0] at hbot
      exact hbot (by simp)
    have hinv : inv = 1 / sumE := if_neg (not_or.mpr ⟨hne, not_le.mpr hpos⟩)
    rw [hinv, he, mul_one_div, hsum, softmaxWeight, if_neg hbot]
    exact rescale_div _ slot

theorem raggedHead_eq (h : ℕ) (st : Written K) : raggedHead F q k v a h st =
    a.writeHead h (fun j => a.weight F q k h (a.kvBase + j))
      (fun x => if hx : x < a.headDim then a.attended F q k v h ⟨x, hx⟩ else 0) st := by
  have hw := raggedWeight_eq (F := F) (q := q) (k := k) (a := a) h
  simp only at hw
  unfold raggedHead RaggedArgs.writeHead
  simp only [hw]
  congr 1
  refine place_congr fun x hx => ?_
  rw [dif_pos hx, RaggedArgs.attended, softmaxRow_eq_sum]
  refine congrArg List.sum (List.map_congr_left fun slot hslot => ?_)
  rw [if_neg (not_lt.mpr (List.mem_range'_1.mp hslot).1)]
  split_ifs with h0
  · rw [h0, zero_mul]
  · rfl

/-- **What a ragged decode step writes.** -/
theorem attentionGenRagged_eq (hcheck : a.kvStart.length = a.numHeadsKv)
    (hbase : a.kvBase ≤ a.cacheSeqLen) (hcap : a.cacheSeqLen ≤ a.capacity) (heads : List ℕ)
    (st : Written K) : attentionGenRagged F q k v a heads st =
    some (heads.foldl (fun st h => a.writeHead h
      (fun j => a.weight F q k h (a.kvBase + j))
      (fun x => if hx : x < a.headDim then a.attended F q k v h ⟨x, hx⟩ else 0) st) st) := by
  unfold attentionGenRagged
  rw [if_neg (by omega)]
  simp only [raggedHead_eq]

end Rows

/-! ## The scores -/

section Scores

variable {a : RaggedArgs} {heads : List ℕ} {h : ℕ} (w row : ℕ → ℕ → K)

omit [Field K] [LinearOrder K] in
/-- The row of a head, whatever the order of the heads. -/
theorem out_writeHeads (hh : h ∈ heads) {d : ℕ} (hd : d < a.headDim) (st : Written K) :
    (heads.foldl (fun st h => a.writeHead h (w h) (row h) st) st).out (h * a.headDim + d) =
      row h d := by
  refine Folds.foldl_only (fun st : Written K => st.out (h * a.headDim + d)) hh (fun st => ?_)
    (fun h' _ hne st => ?_) st
  · unfold RaggedArgs.writeHead
    simp only
    rw [place_of_mem (Nat.le_add_right _ _) (Nat.add_lt_add_left hd _), Nat.zero_add,
      Nat.add_sub_cancel_left]
  · unfold RaggedArgs.writeHead
    simp only
    refine place_of_notMem ?_
    rintro ⟨h₁, h₂⟩
    obtain ⟨heq, -⟩ := block_inj (n := a.headDim) (a := h') (b := h)
      (i := h * a.headDim + d - h' * a.headDim) (j := d) (by omega) hd (by omega)
    exact hne heq

omit [Field K] [LinearOrder K] in
/-- The weights of a head, whatever the order of the heads. -/
theorem scores_writeHeads (hscores : a.scoresOut.isSome)
    (hstride : a.cacheSeqLen - a.kvBase ≤ a.scoresStride) (hh : h ∈ heads) {j : ℕ}
    (hj : j < a.cacheSeqLen - a.kvBase) (st : Written K) :
    (heads.foldl (fun st h => a.writeHead h (w h) (row h) st) st).scores
      (h * a.scoresStride + j) = w h j := by
  refine Folds.foldl_only (fun st : Written K => st.scores (h * a.scoresStride + j))
    hh (fun st => ?_) (fun h' _ hne st => ?_) st
  · unfold RaggedArgs.writeHead
    simp only [if_pos hscores]
    rw [place_of_mem (Nat.le_add_right _ _) (Nat.add_lt_add_left hj _), Nat.zero_add,
      Nat.add_sub_cancel_left]
  · unfold RaggedArgs.writeHead
    simp only [if_pos hscores]
    refine place_of_notMem ?_
    rintro ⟨h₁, h₂⟩
    obtain ⟨heq, -⟩ := block_inj (n := a.scoresStride) (a := h') (b := h)
      (i := h * a.scoresStride + j - h' * a.scoresStride) (j := j) (by omega) (by omega) (by omega)
    exact hne heq

omit [LinearOrder K] in
theorem sum_columns (hbase : a.kvBase ≤ a.cacheSeqLen) {f : ℕ → K}
    (hf : ∀ slot < a.start h, f slot = 0) :
    ((List.range (a.cacheSeqLen - a.kvBase)).map fun j => f (a.kvBase + j)).sum =
      ((a.slots h).map f).sum := by
  have hle : a.start h ≤ a.cacheSeqLen := Nat.min_le_right _ _
  have hbefore : a.kvBase ≤ a.start h := Nat.le_min.mpr ⟨Nat.le_max_right _ _, hbase⟩
  have hsplit : (List.range (a.cacheSeqLen - a.kvBase)).map (a.kvBase + ·) =
      List.range' a.kvBase (a.start h - a.kvBase) ++ a.slots h := by
    have hstart : a.kvBase + (a.start h - a.kvBase) = a.start h := Nat.add_sub_cancel' hbefore
    have happend := List.range'_append_1 (s := a.kvBase) (m := a.start h - a.kvBase)
      (n := a.cacheSeqLen - a.start h)
    rw [hstart] at happend
    rw [← List.range'_eq_map_range, RaggedArgs.slots, happend]
    congr 1
    omega
  have hzero : ((List.range' a.kvBase (a.start h - a.kvBase)).map f).sum = 0 := by
    refine List.sum_eq_zero fun x hx => ?_
    obtain ⟨slot, hslot, rfl⟩ := List.mem_map.mp hx
    have := List.mem_range'_1.mp hslot
    exact hf slot (by omega)
  rw [show (fun j => f (a.kvBase + j)) = f ∘ (a.kvBase + ·) from rfl, ← List.map_map,
    hsplit, List.map_append, List.sum_append, hzero, zero_add]

/-- **The scores of a step.** The scores that a head exports are a distribution over its slots, with
nothing on the columns before, and its row is the mean of the value rows under it; a head without
slots exports and gets zeros. -/
theorem attentionGenRagged_scores [IsStrictOrderedRing K] (F : FloatOps K) (q : ℕ → K)
    (k : ℕ → WithBot K) (v : ℕ → K) (hheads : heads.Perm (List.range a.numHeadsQ))
    {st st' : Written K} (hrun : attentionGenRagged F q k v a heads st = some st')
    (hscores : a.scoresOut.isSome) (hstride : a.cacheSeqLen - a.kvBase ≤ a.scoresStride)
    (hh : h < a.numHeadsQ) :
    let score : ℕ → K := fun j => st'.scores (h * a.scoresStride + j)
    let columns := List.range (a.cacheSeqLen - a.kvBase)
    (∀ j ∈ columns, 0 ≤ score j) ∧ (∀ j ∈ columns, a.kvBase + j < a.start h → score j = 0) ∧
      (columns.map score).sum = (if a.start h < a.cacheSeqLen then 1 else 0) ∧
      ∀ d < a.headDim, st'.out (h * a.headDim + d) =
        (columns.map fun j => score j * v (a.rowOff h (a.kvBase + j) + d)).sum := by
  intro score columns
  unfold attentionGenRagged at hrun
  split_ifs at hrun with hrefuse
  have hbase : a.kvBase ≤ a.cacheSeqLen := by omega
  simp only [raggedHead_eq, Option.some.injEq] at hrun
  have hmem : h ∈ heads := hheads.mem_iff.mpr (List.mem_range.mpr hh)
  have hscore : ∀ j ∈ columns, score j = a.weight F q k h (a.kvBase + j) := by
    intro j hj
    simp only [score, ← hrun]
    exact scores_writeHeads (fun h j => a.weight F q k h (a.kvBase + j)) _ hscores hstride hmem
      (List.mem_range.mp hj) st
  have hbefore : ∀ slot < a.start h, a.weight F q k h slot = 0 := fun slot hslot => if_pos hslot
  have hslots : ∀ slot ∈ a.slots h, a.weight F q k h slot =
      softmaxWeight (a.logit F q k h) (a.slots h) F.toExponential slot :=
    fun slot hslot => if_neg (Nat.not_lt.mpr (List.mem_range'_1.mp hslot).1)
  refine ⟨fun j hj => ?_, fun j hj hlt => ?_, ?_, fun d hd => ?_⟩
  · rw [hscore j hj, RaggedArgs.weight]
    split_ifs
    · exact le_rfl
    · exact softmaxWeight_nonneg _
  · rw [hscore j hj, hbefore _ hlt]
  · rw [List.map_congr_left hscore, sum_columns hbase hbefore, List.map_congr_left hslots]
    split_ifs with hlt
    · exact sum_softmaxWeight (by simp [RaggedArgs.slots]; omega)
    · rw [RaggedArgs.slots, Nat.sub_eq_zero_of_le (Nat.not_lt.mp hlt)]
      rfl
  · have hout : st'.out (h * a.headDim + d) = a.attended F q k v h ⟨d, hd⟩ := by
      rw [← hrun, out_writeHeads _ _ hmem hd, dif_pos hd]
    have hsum := sum_columns (f := fun slot => a.weight F q k h slot * v (a.rowOff h slot + d))
      hbase fun slot hslot => by
      rw [hbefore slot hslot, zero_mul]
    rw [hout, List.map_congr_left fun j hj =>
      by rw [hscore j hj], hsum, RaggedArgs.attended, softmaxRow_eq_sum]
    refine congrArg List.sum (List.map_congr_left fun slot hslot => ?_)
    rw [hslots slot hslot]
    rfl

/-- Two heads, of which the second has no slots. -/
def emptyHead : RaggedArgs where
  numHeadsQ := 2
  numHeadsKv := 2
  headDim := 1
  capacity := 4
  kvStart := [1, 3]
  kvBase := 1
  cacheSeqLen := 3
  scoresOut := some 4

theorem attentionGenRagged_scores_emptyHead : ∃ st' : Written ℝ,
    attentionGenRagged FloatOps.real (fun i => (i : ℝ)) (fun i => ((i : ℝ) : WithBot ℝ))
      (fun i => (i : ℝ)) emptyHead [1, 0]
        ⟨fun _ => 0, fun _ => 0⟩ = some st' ∧
      ((List.range 2).map fun j => st'.scores (0 * 2 + j)).sum = 1 ∧
      ((List.range 2).map fun j => st'.scores (1 * 2 + j)).sum = 0 := by
  have hrun : attentionGenRagged FloatOps.real (fun i => (i : ℝ)) (fun i => ((i : ℝ) : WithBot ℝ))
    (fun i => (i : ℝ)) emptyHead
      [1, 0] ⟨fun _ => 0, fun _ => 0⟩ = some _ := if_neg (by decide)
  have hfirst := attentionGenRagged_scores (h := 0) FloatOps.real _ _ _ (by decide)
    hrun rfl (by decide) (by decide)
  have hsecond := attentionGenRagged_scores (h := 1) FloatOps.real _ _ _ (by decide)
    hrun rfl (by decide) (by decide)
  exact ⟨_, hrun, hfirst.2.2.1.trans (if_pos (by decide)), hsecond.2.2.1.trans (if_neg (by decide))⟩

end Scores

/-! ## A cache without holes -/

section Dense

variable [IsStrictOrderedRing K] (F : FloatOps K) (q : ℕ → K) (k : ℕ → WithBot K) (v : ℕ → K)

end Dense

/-! ## Prefill and decode -/

section Agree

variable {F : FloatOps K} {q k v : ℕ → K} {a : ForwardArgs}

/-- The first slots of the KV heads, as the cache keeps them for a prefill. -/
def ForwardArgs.headStart (a : ForwardArgs) (kvH : ℕ) : ℕ :=
  (a.kvStart.map fun s => s.getD kvH 0).getD 0

/-- The decode step at the position of prefill row `r`, as the cache would issue it. -/
abbrev ForwardArgs.decodeArgs (a : ForwardArgs) (capacity r : ℕ) (scoresOut : Option ℕ) :
    RaggedArgs :=
  let cacheSeqLen := r + a.qStartPos + 1
  let winStart := cacheSeqLen - effectiveCacheLen a.windowSize cacheSeqLen
  { numHeadsQ := a.nHeadsQ
    numHeadsKv := a.nHeadsKv
    headDim := a.headDim
    capacity := capacity
    kvStart := (List.range a.nHeadsKv).map fun h => max (a.headStart h) winStart
    kvBase := winStart
    cacheSeqLen := cacheSeqLen
    scoresOut := scoresOut }

theorem decodeArgs_slots {capacity r h : ℕ} {scoresOut : Option ℕ} (hkv : a.kvHead h < a.nHeadsKv)
    (hsame : (a.decodeArgs capacity r scoresOut).kvHead h = a.kvHead h)
    (hlen : r + a.qStartPos < a.kvLen) :
    ((a.head h).band r).Perm ((a.decodeArgs capacity r scoresOut).slots h) := by
  refine (List.perm_ext_iff_of_nodup ((List.nodup_range).filter _)
    List.nodup_range').mpr fun c => ?_
  have hget : ((List.range a.nHeadsKv).map fun h => max (a.headStart h) (r + a.qStartPos + 1 -
      effectiveCacheLen a.windowSize (r + a.qStartPos + 1))).getD (a.kvHead h) 0 =
      max (a.headStart (a.kvHead h))
        (r + a.qStartPos + 1 - effectiveCacheLen a.windowSize (r + a.qStartPos + 1)) := by
    rw [List.getD_eq_getElem?_getD, List.getElem?_map, List.getElem?_range hkv]
    rfl
  have hstart : (a.decodeArgs capacity r scoresOut).start h =
    min (max (max (a.headStart (a.kvHead h))
      (r + a.qStartPos + 1 - effectiveCacheLen a.windowSize (r + a.qStartPos + 1)))
      (r + a.qStartPos + 1 - effectiveCacheLen a.windowSize (r + a.qStartPos + 1)))
        (r + a.qStartPos + 1) := by
    rw [RaggedArgs.start, hsame]
    exact congrArg (fun x => min (max x _) _) hget
  have hband : c ∈ (a.head h).band r ↔ c < a.kvLen ∧ InBand a.windowSize (a.headStart (a.kvHead h))
    (r + a.qStartPos) c := by
    rw [HeadArgs.band, List.mem_filter, List.mem_range, inBand_iff]
    rfl
  refine hband.trans (Iff.trans ?_ List.mem_range'_1.symm)
  rw [hstart]
  change _ ↔ _ ∧ c < _ + (r + a.qStartPos + 1 - _)
  unfold InBand effectiveCacheLen
  cases a.windowSize with
  | none => simp only [reduceCtorEq, false_imp_iff, implies_true, true_and]; omega
  | some w => simp only [Option.some.injEq, forall_eq']; omega

/-- The keys as a decode step reads them, all numbers. -/
def numbers (k : ℕ → K) : ℕ → WithBot K := fun i => ((k i : K) : WithBot K)

theorem logitAt_numbers (headDim qPtr kPtr : ℕ) : logitAt F q (numbers k) headDim qPtr kPtr =
    ((dot q k headDim qPtr kPtr * scale F headDim : K) : WithBot K) := by
  unfold logitAt numbers
  rw [if_pos (by simp)]
  rfl

variable [IsStrictOrderedRing K]

/-- **A row of a prefill is its decode step.** Whichever prefill kernel runs, wherever the chunk
begins, and in whatever order heads and tasks run, the row is what the step at its position gives
over the same cache. -/
theorem prefill_eq_decode (F : FloatOps K) (a : ForwardArgs) (q k v : ℕ → K) (aarch64 : Bool)
    {br bc : ℕ} (hbr : 0 < br) (hbc : 0 < bc) (hwindow : ∀ w ∈ a.windowSize, w + 1 < 2 ^ 32)
    (hstride : a.nHeadsQ * a.headDim ≤ a.outStride) {heads tasks : List ℕ}
    (hheads : heads.Perm (List.range a.nHeadsQ)) (htasks : tasks.Perm (List.range (prefillTasks a)))
    (out : ℕ → K) {capacity : ℕ} (hk : a.kStride = a.headDim) (hv : a.vStride = a.headDim)
    (hmajor : a.kvHeadStride = capacity * a.headDim) (hkv : 0 < a.nHeadsKv)
    (hdvd : a.nHeadsKv ∣ a.nHeadsQ) {h r : ℕ} (hh : h < a.nHeadsQ) (hr : r < a.qLen)
    (hlen : r + a.qStartPos < a.kvLen) (hcap : a.kvLen ≤ capacity) {decodeHeads : List ℕ}
    (hdecode : decodeHeads.Perm (List.range a.nHeadsQ)) (scoresOut : Option ℕ) (st : Written K)
    (d : Fin a.headDim) :
    (attentionGenRagged F (fun i => q (r * a.qStride + i)) (numbers k)
      v (a.decodeArgs capacity r scoresOut) decodeHeads st).map (fun st =>
      st.out (h * a.headDim + d)) =
      some (flashAttentionForward F a q k v aarch64 br bc heads tasks out
        (h * a.headDim + r * a.outStride + d)) := by
  rw [flashAttentionForward_row F a q k v aarch64 hbr hbc hwindow hstride hheads htasks out hh hr d]
  have hgroup : 1 ≤ a.nHeadsQ / a.nHeadsKv := Nat.div_pos (Nat.le_of_dvd (by omega) hdvd) hkv
  have hsame : (a.decodeArgs capacity r scoresOut).kvHead h = a.kvHead h := by
    rw [RaggedArgs.kvHead, max_eq_left (show 1 ≤ (a.decodeArgs capacity r scoresOut).numHeadsQ /
      (a.decodeArgs capacity r scoresOut).numHeadsKv from hgroup)]
    rfl
  have hkvH : a.kvHead h < a.nHeadsKv := by
    refine Nat.div_lt_of_lt_mul ?_
    rwa [Nat.div_mul_cancel hdvd]
  have hlogit : ∀ slot, (a.decodeArgs capacity r scoresOut).logit F (fun i => q (r * a.qStride + i))
    (numbers k) h slot =
      (((a.head h).logit F q k r slot : K) : WithBot K) := by
    intro slot
    have hoff : (a.decodeArgs capacity r scoresOut).rowOff h slot =
      (a.head h).kvOff + slot * a.kStride := by
      rw [RaggedArgs.rowOff, hsame, hk, Nat.add_mul]
      change a.kvHead h * capacity * a.headDim + slot * a.headDim =
        a.kvHead h * a.kvHeadStride + slot * a.headDim
      rw [hmajor, Nat.mul_assoc]
    rw [RaggedArgs.logit, logitAt_numbers, hoff]
    refine congrArg (fun x : K => (x : WithBot K)) (congrArg (· * _) ?_)
    unfold dot
    refine congrArg List.sum (List.map_congr_left fun x _ => ?_)
    change q (r * a.qStride + (h * a.headDim + x)) * _ = q (h * a.headDim + r * a.qStride + x) * _
    rw [← Nat.add_assoc, Nat.add_comm (r * a.qStride)]
  have hvalue : ∀ slot, (a.decodeArgs capacity r scoresOut).value v h slot =
      fun d : Fin a.headDim => (a.head h).value v slot d := by
    intro slot
    funext d
    change v ((a.decodeArgs capacity r scoresOut).rowOff h slot + d) =
      v (a.kvHead h * a.kvHeadStride + slot * a.vStride + d)
    rw [RaggedArgs.rowOff, hsame, hv, hmajor, Nat.add_mul]
    change v (a.kvHead h * capacity * a.headDim + slot * a.headDim + d) = _
    rw [Nat.mul_assoc]
  have hrow : (a.decodeArgs capacity r scoresOut).attended F (fun i => q (r * a.qStride + i))
    (numbers k) v h d =
      (a.head h).attended F q k v r d := by
    have hslots := decodeArgs_slots hkvH hsame hlen
    refine Eq.trans ?_ (Exponential.average_perm (hslots.map _) d).symm
    refine (softmaxRow_coe (fun slot _ => hlogit slot) d).trans ?_
    refine congrArg (fun xs => F.average xs d) (List.map_congr_left fun slot _ => ?_)
    rw [hvalue]
  have heff := effectiveCacheLen_le a.windowSize (r + a.qStartPos + 1)
  rw [attentionGenRagged_eq (by simp) (Nat.sub_le _ _)
    (show r + a.qStartPos + 1 ≤ capacity by omega),
    Option.map_some]
  refine congrArg some ?_
  have hd : (d : ℕ) < (a.decodeArgs capacity r scoresOut).headDim := d.2
  exact (out_writeHeads (a := a.decodeArgs capacity r scoresOut)
    _ _ (hdecode.mem_iff.mpr (List.mem_range.mpr hh)) hd st).trans ((dif_pos hd).trans hrow)

end Agree

/-- A row of the second tile. -/
theorem prefill_eq_decode_windowed :
    takesTiles windowedForward true = true ∧
    (attentionGenRagged FloatOps.real (fun i => ((130 * windowedForward.qStride + i : ℕ) : ℝ))
        (numbers fun i => (i : ℝ)) (fun i => (i : ℝ))
        (windowedForward.decodeArgs 201 130 none) [0, 1] ⟨fun _ => 0, fun _ => 0⟩).map (fun st =>
        st.out (1 * 8 + (3 : Fin 8))) =
      some (flashAttentionForward FloatOps.real windowedForward (fun i => (i : ℝ))
        (fun i => (i : ℝ)) (fun i => (i : ℝ)) true 1 2 [1, 0] [1, 0] (fun _ => 0)
        (1 * 8 + 130 * 16 + (3 : Fin 8))) :=
  ⟨by decide, prefill_eq_decode FloatOps.real windowedForward (fun i => (i : ℝ)) (fun i => (i : ℝ))
    (fun i => (i : ℝ)) true Nat.one_pos Nat.two_pos (by decide) (by decide) (by decide) (by decide)
    (fun _ => 0) rfl rfl rfl (by decide) (by decide) (by decide) (by decide) (by decide) (by decide)
    (by decide) none ⟨fun _ => 0, fun _ => 0⟩ (3 : Fin 8)⟩

end ArgusEngine.Attn
