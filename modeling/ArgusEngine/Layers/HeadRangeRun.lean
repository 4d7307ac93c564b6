import ArgusEngine.Attn.Ragged
import ArgusEngine.Layers.HeadRange

/-!
# What the heads of a split compute

A `HeadJob` names the rows that the kernel of a head is handed; the decode kernels over whole
buffers read the same rows. Each row of a job is read here at its place, in floats for the query and
in elements of the cache for its rows.

* `HeadJob.run`: the softmax over the rows of a job, written where the job says;
* `HeadRangeCall.kernel`: the decode kernel that a call over all heads goes to;
* **`kernel_eq_runs`**: that kernel runs the jobs of the call, in whatever layout it sees;
* **`kernel_eq_ranges`**: the ranges of a split compute what the kernel computes.
-/

namespace ArgusEngine.Layers

open Checked OnlineSoftmax

variable {K : Type*} [Field K] [LinearOrder K]

/-! ## A job -/

namespace HeadJob

variable (F : Attn.FloatOps K) (q : ℕ → K) (k : ℕ → WithBot K) (v : ℕ → K)
  (elem headDim : ℕ) (j : HeadJob)

/-- The key rows, each with its value row. -/
def rows : List (Region × Region) := j.keys.zip j.values

/-- The logit of a key row. -/
def logit (r : Region × Region) : WithBot K :=
  Attn.logitAt F q k headDim (j.query.start / 4) (r.1.start / elem)

/-- The elements of a value row. -/
def value (r : Region × Region) (d : Fin headDim) : K := v (r.2.start / elem + d)

/-- The row of the output. -/
def attendedRow (x : ℕ) : K :=
  if hx : x < headDim then
    softmaxRow (j.logit F q k elem headDim) (value v elem headDim) j.rows F.toExponential ⟨x, hx⟩
  else 0

/-- The score row: the weights of the rows, and zeros before them. -/
def scoreRow (len i : ℕ) : K :=
  ((j.rows.map (softmaxWeight (j.logit F q k elem headDim) j.rows F.toExponential)).leftpad
    len 0).getD i 0

/-- The kernel of a head. -/
def run (st : Attn.Written K) : Attn.Written K where
  out := SlotMem.place (j.attendedRow F q k v elem headDim) 0 st.out (j.out.start / 4) headDim
  scores := match j.scores with
    | some r => SlotMem.place (j.scoreRow F q k elem headDim r.len) 0 st.scores r.start r.len
    | none => st.scores

end HeadJob

namespace HeadRangeCall

variable (c : HeadRangeCall)

/-- The arguments of the portable kernel. -/
def decodeArgs : Attn.DecodeArgs where
  numHeadsQ := c.nHeadsQ
  numHeadsKv := c.nKvHeads
  headDim := c.headDim
  cacheSeqLen := c.cacheSeqLen
  kShape := c.kv.shape
  scoresOut := c.scoresLen

/-- The arguments of the ragged kernel. -/
def raggedArgs (starts : List ℕ) : Attn.RaggedArgs where
  numHeadsQ := c.nHeadsQ
  numHeadsKv := c.nKvHeads
  headDim := c.headDim
  capacity := c.capacity
  kvStart := starts
  kvBase := 0
  cacheSeqLen := c.cacheSeqLen
  scoresOut := c.scoresLen

section Kernel

variable (F : Attn.FloatOps K) (q : ℕ → K) (k : ℕ → WithBot K) (v : ℕ → K)

/-- The kernel of the call over all heads, on whole buffers; `none` where it refuses. -/
def kernel (heads : List ℕ) (st : Attn.Written K) : Option (Attn.Written K) :=
  match c.kvStart with
  | some starts => Attn.attentionGenRagged F q k v (c.raggedArgs starts) heads st
  | none => some (Attn.attentionGen F q k v c.decodeArgs heads st)

end Kernel

end HeadRangeCall

/-! ## The rows of a job -/

/-- The job of head `h` over rows of a cache, of which row `t` is the one at `slot t`. -/
structure HeadJob.Reads (headDim elem h : ℕ) (slot : ℕ → ℕ) (ts : List ℕ) (j : HeadJob) : Prop where
  query : j.query.start / 4 = h * headDim
  out : j.out.start / 4 = h * headDim
  rows : j.rows = ts.map fun t =>
    (⟨slot t * headDim * elem, headDim * elem⟩, ⟨slot t * headDim * elem, headDim * elem⟩)

section Reads

variable {F : Attn.FloatOps K} {q : ℕ → K} {k : ℕ → WithBot K} {v : ℕ → K}
  {headDim elem h : ℕ} {slot : ℕ → ℕ} {ts : List ℕ} {j : HeadJob}

theorem HeadJob.Reads.attendedRow_eq (hj : j.Reads headDim elem h slot ts)
    (helem : 0 < elem) (x : ℕ) : j.attendedRow F q k v elem headDim x =
      if hx : x < headDim then
        softmaxRow (fun t => Attn.logitAt F q k headDim (h * headDim) (slot t * headDim))
          (fun t (d : Fin headDim) => v (slot t * headDim + d)) ts F.toExponential ⟨x, hx⟩
      else 0 := by
  unfold attendedRow
  rw [hj.rows]
  simp only [softmaxRow_map]
  unfold logit value
  simp only [hj.query, Function.comp_def, Nat.mul_div_cancel _ helem]

theorem HeadJob.Reads.scoreRow_eq {start n : ℕ}
    (hj : j.Reads headDim elem h slot (List.range' start (n - start))) (helem : 0 < elem)
    (hstart : start ≤ n) {i : ℕ} (hi : i < n) : j.scoreRow F q k elem headDim n i =
      if i < start then 0
      else softmaxWeight (fun t => Attn.logitAt F q k headDim (h * headDim) (slot t * headDim))
        (List.range' start (n - start)) F.toExponential i := by
  unfold scoreRow
  rw [hj.rows]
  simp only [List.map_map, Function.comp_def, softmaxWeight_map]
  unfold logit
  simp only [hj.query, Nat.mul_div_cancel _ helem, List.leftpad, List.length_map,
    List.length_range', Nat.sub_sub_self hstart]
  split_ifs with hlt
  · rw [List.getD_append _ _ _ _ (by rwa [List.length_replicate]), List.getD_replicate _ hlt]
  · rw [List.getD_append_right _ _ _ _ (by rw [List.length_replicate]; omega),
      List.length_replicate,
      List.getD_eq_getElem _ _ (by rw [List.length_map, List.length_range']; omega),
      List.getElem_map, List.getElem_range', Nat.one_mul,
      Nat.add_sub_cancel' (Nat.le_of_not_lt hlt)]

end Reads

namespace HeadRangeCall

variable {c : HeadRangeCall} {scoreStride : ℕ}

theorem size_pos (h : c.dtype = .f32 ∨ c.dtype = .f16) : 0 < c.dtype.size := by
  rcases h with h | h <;> rw [h] <;> decide

theorem reads_rowsAt {elem : ℕ} (slot : ℕ → ℕ) (ts : List ℕ) (h : ℕ) :
    (rowsAt c.q c.kv c.kv c.q c.headDim (elem, c.headDim) c.scoresOut scoreStride
      c.cacheSeqLen (ts.map slot) h).Reads c.headDim elem h slot ts := by
  have hquery : (0 + h * c.headDim * 4) / 4 = h * c.headDim := by
    rw [Nat.zero_add, Nat.mul_div_cancel _ (by decide)]
  refine ⟨hquery, hquery, ?_⟩
  unfold HeadJob.rows rowsAt
  dsimp only
  rw [List.zip_map', List.map_map]
  refine List.map_congr_left fun t _ => ?_
  simp [kv]

theorem run_rowsAt {F : Attn.FloatOps K} {q : ℕ → K} {k : ℕ → WithBot K} {v : ℕ → K}
    {elem : ℕ} (helem : 0 < elem) (hstride : stride c.scoresOut c.nHeadsQ = .ok scoreStride)
    (slot : ℕ → ℕ) {start : ℕ} (hstart : start ≤ c.cacheSeqLen) (h : ℕ) (st : Attn.Written K) :
    (rowsAt c.q c.kv c.kv c.q c.headDim (elem, c.headDim) c.scoresOut scoreStride c.cacheSeqLen
      ((List.range' start (c.cacheSeqLen - start)).map slot) h).run F q k v elem c.headDim st =
    c.decodeArgs.writeHead h
      (fun i => if i < start then 0
        else softmaxWeight (fun t => Attn.logitAt F q k c.headDim (h * c.headDim)
          (slot t * c.headDim)) (List.range' start (c.cacheSeqLen - start)) F.toExponential i)
      (fun x => if hx : x < c.headDim then
          softmaxRow (fun t => Attn.logitAt F q k c.headDim (h * c.headDim) (slot t * c.headDim))
            (fun t (d : Fin c.headDim) => v (slot t * c.headDim + d))
              (List.range' start (c.cacheSeqLen - start))
            F.toExponential ⟨x, hx⟩
        else 0) st := by
  generalize hjob : rowsAt c.q c.kv c.kv c.q c.headDim (elem, c.headDim) c.scoresOut scoreStride
    c.cacheSeqLen ((List.range' start (c.cacheSeqLen - start)).map slot) h = j
  have hj : j.Reads c.headDim elem h slot (List.range' start (c.cacheSeqLen - start)) :=
    hjob ▸ reads_rowsAt slot _ h
  have hregion : j.scores = c.scoresLen.map fun len => ⟨h * (len / c.nHeadsQ), c.cacheSeqLen⟩ :=
    hjob ▸ scores_eq hstride h
  unfold HeadJob.run Attn.DecodeArgs.writeHead
  rw [hj.out]
  congr 1
  · exact SlotMem.place_congr fun x _ => hj.attendedRow_eq helem x
  · rw [hregion]
    unfold Attn.DecodeArgs.scoresStride decodeArgs
    cases c.scoresLen with
    | none => rfl
    | some len => exact SlotMem.place_congr fun i hi => hj.scoreRow_eq helem hstart hi

/-! ## The kernels run the jobs -/

section Kernels

variable [IsStrictOrderedRing K] {F : Attn.FloatOps K} {q : ℕ → K} {k : ℕ → WithBot K} {v : ℕ → K}

theorem rowOff_decodeArgs (kvH t : ℕ) :
    c.decodeArgs.rowOff kvH t = place c.kv.shape c.nKvHeads kvH t * c.headDim := by
  have hmajor : c.decodeArgs.isHeadMajor = isHeadMajor c.kv.shape c.nKvHeads := by
    unfold Attn.DecodeArgs.isHeadMajor isHeadMajor decodeArgs
    simp only [Bool.decide_and, Bool.and_assoc]
  unfold Attn.DecodeArgs.rowOff Attn.DecodeArgs.capacity place
  rw [hmajor]
  split_ifs <;> rfl

theorem gqaRatio_decodeArgs : c.decodeArgs.gqaRatio = c.group := Nat.mul_div_cancel_left _ c.one_le

theorem attentionGenHead_eq_run (hdtype : c.dtype = .f32 ∨ c.dtype = .f16)
    (hstride : stride c.scoresOut c.nHeadsQ = .ok scoreStride) (h : ℕ) (st : Attn.Written K) :
    Attn.attentionGenHead F q k v c.decodeArgs h st =
      (rowsAt c.q c.kv c.kv c.q c.headDim (c.dtype.size, c.headDim) c.scoresOut scoreStride
        c.cacheSeqLen ((List.range c.cacheSeqLen).map (place c.kv.shape c.nKvHeads (h / c.group)))
        h).run F q k v c.dtype.size c.headDim st := by
  have hlogit : c.decodeArgs.logit F q k h = fun t =>
      Attn.logitAt F q k c.headDim (h * c.headDim)
        (place c.kv.shape c.nKvHeads (h / c.group) t * c.headDim) := by
    funext t
    unfold Attn.DecodeArgs.logit
    rw [rowOff_decodeArgs, gqaRatio_decodeArgs]
    rfl
  have hvalue : c.decodeArgs.value v h = fun t (d : Fin c.headDim) =>
      v (place c.kv.shape c.nKvHeads (h / c.group) t * c.headDim + d) := by
    funext t d
    unfold Attn.DecodeArgs.value
    rw [rowOff_decodeArgs, gqaRatio_decodeArgs]
  have hrange : List.range c.cacheSeqLen = List.range' 0 (c.cacheSeqLen - 0) := by
    rw [Nat.sub_zero, List.range_eq_range']
  rw [hrange, run_rowsAt (size_pos hdtype) hstride _ (Nat.zero_le _), Attn.attentionGenHead_eq]
  refine Attn.writeHead_congr (fun t _ => ?_) (fun x hx => ?_) st
  · rw [if_neg (Nat.not_lt_zero t), ← hrange, ← hlogit]
    rfl
  · have hx' : x < c.headDim := hx
    rw [Attn.DecodeArgs.attendedRow, dif_pos hx, dif_pos hx', ← hrange, ← hlogit, ← hvalue]
    rfl

theorem raggedHead_eq_run {starts : List ℕ} (hstart : c.kvStart = some starts)
    (hdtype : c.dtype = .f32 ∨ c.dtype = .f16)
    (hstride : stride c.scoresOut c.nHeadsQ = .ok scoreStride) {h : ℕ} (hh : h < c.nHeadsQ)
    (st : Attn.Written K) :
    Attn.raggedHead F q k v (c.raggedArgs starts) h st =
      (c.job h).run F q k v c.dtype.size c.headDim st := by
  have hg : 0 < c.group := Nat.pos_of_mul_pos_left (Nat.lt_of_le_of_lt (Nat.zero_le h) hh)
  have hkv : (c.raggedArgs starts).kvHead h = h / c.group := by
    have hratio : c.nHeadsQ / c.nKvHeads = c.group := gqaRatio_decodeArgs
    unfold Attn.RaggedArgs.kvHead raggedArgs
    rw [hratio, max_eq_left hg]
  have hfirst : (c.raggedArgs starts).start h = c.start (h / c.group) := by
    unfold Attn.RaggedArgs.start start
    rw [hkv, hstart]
    exact congrArg (min · c.cacheSeqLen) (Nat.max_zero _)
  have hslots : (c.raggedArgs starts).slots h =
      List.range' (c.start (h / c.group)) (c.cacheSeqLen - c.start (h / c.group)) := by
    unfold Attn.RaggedArgs.slots
    rw [hfirst]
    rfl
  have hlogit : (c.raggedArgs starts).logit F q k h = fun t =>
      Attn.logitAt F q k c.headDim (h * c.headDim)
        ((h / c.group * c.capacity + t) * c.headDim) := by
    funext t
    unfold Attn.RaggedArgs.logit Attn.RaggedArgs.rowOff
    rw [hkv]
    rfl
  have hvalue : (c.raggedArgs starts).value v h = fun t (d : Fin c.headDim) =>
      v ((h / c.group * c.capacity + t) * c.headDim + d) := by
    funext t d
    unfold Attn.RaggedArgs.value Attn.RaggedArgs.rowOff
    rw [hkv]
    rfl
  have hle : c.start (h / c.group) ≤ c.cacheSeqLen := by
    rw [← hfirst]
    exact Nat.min_le_right _ _
  have hjob : rowsAt c.q c.kv c.kv c.q c.headDim (c.dtype.size, c.headDim) c.scoresOut scoreStride
      c.cacheSeqLen ((List.range' (c.start (h / c.group))
        (c.cacheSeqLen - c.start (h / c.group))).map fun t => h / c.group * c.capacity + t)
          h = c.job h :=
    rowsAt_eq_job (rowBytes_of_plain hdtype) (Nat.zero_add _) (Nat.zero_add _)
      (fun s _ => Nat.zero_add _) (fun s _ => Nat.zero_add _) (scores_eq hstride h)
  rw [← hjob, run_rowsAt (size_pos hdtype) hstride _ hle, Attn.raggedHead_eq]
  change c.decodeArgs.writeHead h _ _ st = _
  refine Attn.writeHead_congr (fun t _ => ?_) (fun x hx => ?_) st
  · rw [Attn.RaggedArgs.weight, hslots, hlogit, hfirst,
      show (c.raggedArgs starts).kvBase + t = t from Nat.zero_add t]
  · have hx' : x < c.headDim := hx
    have hx'' : x < (c.raggedArgs starts).headDim := hx
    rw [dif_pos hx', dif_pos hx'', Attn.RaggedArgs.attended, hslots, hlogit, hvalue]
    rfl

/-- **A decode kernel runs the jobs** that the call over all heads comes to. -/
theorem kernel_eq_runs (hdtype : c.dtype = .f32 ∨ c.dtype = .f16) {jobs : List HeadJob}
    (hfull : c.full = .ok jobs) (st : Attn.Written K) :
    c.kernel F q k v (List.range c.nHeadsQ) st =
      some (jobs.foldl (fun st j => j.run F q k v c.dtype.size c.headDim st) st) := by
  obtain ⟨hdim, ⟨scoreStride, hstride⟩, -⟩ := of_full hfull
  unfold kernel
  cases hstart : c.kvStart with
  | none =>
    have hunits : rowUnits c.dtype c.headDim = some (c.dtype.size, c.headDim) := by
      rcases hdtype with h | h <;> rw [h] <;> rfl
    rw [full_eq_place hstart hdim hunits (size_pos hdtype) hstride] at hfull
    obtain rfl := Except.ok.inj hfull
    rw [List.foldl_map]
    exact congrArg some (List.foldl_ext _ _ _ fun st h _ =>
      attentionGenHead_eq_run hdtype hstride h st)
  | some starts =>
    rw [full_eq_of_starts hstart hdim hdtype hstride] at hfull
    obtain rfl := Except.ok.inj hfull
    have hrefuse : ¬ ((c.raggedArgs starts).kvStart.length ≠ (c.raggedArgs starts).numHeadsKv ∨
        (c.raggedArgs starts).kvBase > (c.raggedArgs starts).cacheSeqLen ∨
        (c.raggedArgs starts).cacheSeqLen > (c.raggedArgs starts).capacity) := by
      rintro (h | h | h)
      · exact h (c.starts starts hstart)
      · exact absurd h (Nat.not_lt_zero _)
      · exact absurd c.seq_le h.not_ge
    dsimp only
    rw [List.foldl_map, Attn.attentionGenRagged, if_neg hrefuse]
    exact congrArg some (List.foldl_ext _ _ _ fun st h hh =>
      raggedHead_eq_run hstart hdtype hstride (List.mem_range.mp hh) st)

theorem flatMap_consecutive {b a : ℕ} {ranges : List (ℕ × ℕ)} (h : Consecutive b a ranges) :
    ranges.flatMap (fun r => List.range' r.1 (r.2 - r.1)) = List.range' a (b - a) := by
  induction ranges generalizing a with
  | nil =>
    obtain rfl : a = b := h
    rw [Nat.sub_self]
    rfl
  | cons r ranges ih =>
    obtain ⟨rfl, hle, hrest⟩ := h
    have hb := (bounds_of_consecutive hrest).1
    have happend := List.range'_append_1 (s := r.1) (m := r.2 - r.1) (n := b - r.2)
    rw [Nat.add_sub_cancel' hle, show r.2 - r.1 + (b - r.2) = b - r.1 by omega] at happend
    rw [List.flatMap_cons, ih hrest, happend]

/-- **The ranges of a split compute what the kernel computes** over all heads. -/
theorem kernel_eq_ranges (hmissed : ¬ c.Missed) (hdtype : c.dtype = .f32 ∨ c.dtype = .f16)
    {ranges : List (ℕ × ℕ)} (hranges : Consecutive c.nHeadsQ 0 ranges) {jobs : List HeadJob}
    (hfull : c.full = .ok jobs) (st : Attn.Written K) :
    ∃ parts, ranges.mapM c.range = .ok parts ∧
      c.kernel F q k v (List.range c.nHeadsQ) st =
        some (parts.flatten.foldl (fun st j => j.run F q k v c.dtype.size c.headDim st) st) := by
  obtain ⟨hjobs, hparts, -⟩ := agrees_of_not_missed hmissed hranges jobs hfull
  refine ⟨_, hparts, ?_⟩
  have hflat : (ranges.map fun r => (List.range' r.1 (r.2 - r.1)).map c.job).flatten = jobs := by
    rw [← List.flatMap_def, ← List.map_flatMap, flatMap_consecutive hranges, Nat.sub_zero,
      ← List.range_eq_range', hjobs]
  rw [hflat]
  exact kernel_eq_runs hdtype hfull st

end Kernels

end HeadRangeCall

end ArgusEngine.Layers
