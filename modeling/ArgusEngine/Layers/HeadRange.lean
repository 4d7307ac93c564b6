import Mathlib.Data.List.GetD
import ArgusEngine.Kv.Tensor
import ArgusEngine.Lib.Checked

/-!
# Attention by head ranges

The tensor partition lets the CPU attend to some of the query heads. `attention_head_range` cuts its
heads into the groups of the KV heads and calls the backend with views of one group each; the
backend infers layout and head mapping from the shapes it is shown. What a call does is the list of
its `HeadJob`s: where the kernel of a head finds its query, key and value rows, and where it writes
its output and its scores. The softmax between them is the same in every call, and so are the value
rows of weight zero that the ragged kernel skips. `Layers/HeadRangeRun.lean` gives the jobs the
arithmetic of the decode kernels.

* `attentionGen`, `attentionGenRagged`: the kernels of the host;
* `attentionHeadRange`, with the loop over the groups;
* `HeadRangeCall.Agrees`: the ranges do what one call over all heads does;
* **`agrees_iff`**: for every split, unless a cache is as long as it has heads, or holds blocks.
-/

namespace ArgusEngine.Layers

open Checked FlatMem

/-! ## The kernels -/

/-- Where a row lies in its buffer. -/
structure Region where
  start : ℕ
  len : ℕ
  deriving DecidableEq

/-- Two rows that share nothing. -/
def Region.Apart (a b : Region) : Prop := a.start + a.len ≤ b.start ∨ b.start + b.len ≤ a.start

/-- A tensor: the bytes of its buffer that it shows. -/
structure View where
  off : ℕ
  size : ℕ
  shape : List ℕ
  dtype : DType

/-- `SliceBuffer::new`, with a shape. -/
def View.slice (t : View) (off len : ℕ) (shape : List ℕ) (dtype : DType) :
    Except (Fault String) View :=
  let last := off + len
  let size := t.size
  if last ≤ size then .ok ⟨t.off + off, len, shape, dtype⟩
  else .error
    (.err s!"SliceBuffer out of bounds: offset({off}) + length({len}) = {last} > inner.size({size})")

/-- What the kernel of a head is handed: rows in bytes, the scores in floats. -/
structure HeadJob where
  query : Region
  keys : List Region
  values : List Region
  out : Region
  scores : Option Region
  deriving DecidableEq

/-- Row `i` of a tensor of rows of `len` units. -/
def View.row (t : View) (unit len i : ℕ) : Except (Fault String) Region :=
  if i * len + len ≤ t.size / unit then .ok ⟨t.off + i * len * unit, len * unit⟩
  else .error (.panic "range end index out of range for slice")

/-- The unit of a stored type and the units of a row. -/
def rowUnits (dtype : DType) (headDim : ℕ) : Option (ℕ × ℕ) :=
  match dtype with
  | .f32 => some (4, headDim)
  | .f16 => some (2, headDim)
  | .q4_0 => some (blockQ4_0Size, headDim / QK4_0)
  | _ => none

/-- The kernel of head `h` over the rows `slots`. -/
def headJob (q k v out : View) (headDim : ℕ) (units : ℕ × ℕ) (scoresOut : Option Region)
    (scoresStride rowLen : ℕ) (slots : List ℕ) (h : ℕ) : Except (Fault String) HeadJob := do
  let query ← q.row 4 headDim h
  let keys ← slots.mapM (k.row units.1 units.2)
  let values ← slots.mapM (v.row units.1 units.2)
  let out ← out.row 4 headDim h
  return ⟨query, keys, values, out, scoresOut.map fun s => ⟨s.start + h * scoresStride, rowLen⟩⟩

/-- `par_chunks_mut(head_dim)` over the output: the kernels of all heads. -/
def overChunks (out : View) (headDim : ℕ) (kernel : ℕ → Except (Fault String) HeadJob) :
    Except (Fault String) (List HeadJob) :=
  if headDim = 0 then .error (.panic "chunk_size must not be zero")
  else (List.range ((out.size / 4 + headDim - 1) / headDim)).mapM kernel

/-- The floats between the score rows. -/
def stride (scoresOut : Option Region) (numHeadsQ : ℕ) : Except (Fault String) ℕ :=
  match scoresOut with
  | some s => div s.len numHeadsQ
  | none => .ok 0

/-- The layout that `attention_gen` sees: the heads in front of the positions. -/
def isHeadMajor (shape : List ℕ) (numHeadsKv : ℕ) : Bool :=
  decide (3 ≤ shape.length ∧ shape.getD 1 0 = numHeadsKv ∧ shape.getD 1 0 ≠ shape.getD 2 0)

/-- `CpuBackendCommon::attention_gen`. -/
def attentionGen (q k v out : View) (numHeadsQ numHeadsKv headDim cacheSeqLen : ℕ)
    (scoresOut : Option Region) : Except (Fault String) (List HeadJob) := do
  let gqaRatio ← div numHeadsQ numHeadsKv
  let scoresStride ← stride scoresOut numHeadsQ
  let headMajor := isHeadMajor k.shape numHeadsKv
  let capacity := if headMajor then k.shape.getD 2 0 else 0
  let dtype := k.dtype.debug
  let units ← okOr (s!"Unsupported KV cache dtype for attention: {dtype}")
    (rowUnits k.dtype headDim)
  overChunks out headDim fun h => do
    let kvH ← div h gqaRatio
    let slots := (List.range cacheSeqLen).map fun t =>
      if headMajor then kvH * capacity + t else t * numHeadsKv + kvH
    headJob q k v out headDim units scoresOut scoresStride cacheSeqLen slots h

/-- The bytes of an element of a ragged cache. -/
def raggedElem (dtype : DType) : Except (Fault String) ℕ :=
  let text := dtype.debug
  match dtype with
  | .f32 => .ok 4
  | .f16 => .ok 2
  | _ =>
    .error (.err s!"attention_gen_ragged: unsupported KV dtype {text} (a ragged cache is f32/f16)")

/-- `Backend::attention_gen_ragged` of the host. -/
def attentionGenRagged (q k v out : View) (numHeadsQ numHeadsKv headDim : ℕ) (kvStart : List ℕ)
    (kvBase cacheSeqLen : ℕ) (scoresOut : Option Region) :
    Except (Fault String) (List HeadJob) := do
  let len := kvStart.length
  let elem ← raggedElem k.dtype
  let capacity := k.size / elem / (max numHeadsKv 1 * max headDim 1)
  ensure (¬ (len ≠ numHeadsKv ∨ cacheSeqLen < kvBase ∨ capacity < cacheSeqLen))
    (s!"attention_gen_ragged: kv_start has {len} entries for {numHeadsKv} KV heads " ++
      s!"(kv_base {kvBase}, n {cacheSeqLen}, capacity {capacity})")
  let gqaRatio ← div numHeadsQ numHeadsKv
  let gqaRatio := max gqaRatio 1
  let rowLen := cacheSeqLen - kvBase
  let scoresStride ← stride scoresOut numHeadsQ
  overChunks out headDim fun h => do
    let kvH := h / gqaRatio
    let first ← get kvStart kvH
    let start := min (max first kvBase) cacheSeqLen
    let slots := (List.range' start (cacheSeqLen - start)).map fun slot => kvH * capacity + slot
    headJob q k v out headDim (elem, headDim) scoresOut scoresStride rowLen slots h

/-! ## Head ranges -/

/-- The part of the score rows that a group is handed. -/
def scoreRows (scoresOut : Option Region) (lo hi : ℕ) : Except (Fault String) (Option Region) :=
  match scoresOut with
  | none => .ok none
  | some s =>
    if lo ≤ hi ∧ hi ≤ s.len then .ok (some ⟨s.start + lo, hi - lo⟩)
    else .error (.panic "range end index out of range for slice")

section Range

variable (q k v out : View) (headDim cacheSeqLen : ℕ) (kvStart : Option (List ℕ))
  (scoresOut : Option Region) (capacity group scoreStride : ℕ)

/-- One round of the loop: the heads `[h, hEnd)` of KV head `kvH`. -/
def groupCall (kvH h hEnd : ℕ) : Except (Fault String) (List HeadJob) := do
  let headBytes := capacity * headDim * k.dtype.size
  let rowBytes := headDim * 4
  let nh := hEnd - h
  let qV ← q.slice (h * rowBytes) (nh * rowBytes) [1, 1, nh, headDim] .f32
  let oV ← out.slice (h * rowBytes) (nh * rowBytes) [1, 1, nh, headDim] .f32
  let kV ← k.slice (kvH * headBytes) headBytes [1, 1, capacity, headDim] k.dtype
  let vV ← v.slice (kvH * headBytes) headBytes [1, 1, capacity, headDim] k.dtype
  let scores ← scoreRows scoresOut (h * scoreStride) (hEnd * scoreStride)
  match kvStart with
  | some starts =>
    let starts ← index starts kvH (kvH + 1)
    attentionGenRagged qV kV vV oV nh 1 headDim starts 0 cacheSeqLen scores
  | none => attentionGen qV kV vV oV nh 1 headDim cacheSeqLen scores

/-- The loop from head `h` on. A round leaves a head behind it, so `n` rounds are enough for `n`
heads. -/
def headLoop (last : ℕ) : ℕ → ℕ → Except (Fault String) (List HeadJob)
  | 0, _ => .ok []
  | n + 1, h =>
    if h < last then do
      let kvH ← div h group
      let hEnd := min last ((kvH + 1) * group)
      let jobs ← groupCall q k v out headDim cacheSeqLen kvStart scoresOut capacity
        scoreStride kvH h hEnd
      let rest ← headLoop last n hEnd
      return jobs ++ rest
    else .ok []

end Range

/-- `attention_head_range`. -/
def attentionHeadRange (q k v out : View) (heads : ℕ × ℕ) (nHeadsQ nKvHeads headDim cacheSeqLen : ℕ)
    (kvStart : Option (List ℕ)) (scoresOut : Option Region) :
    Except (Fault String) (List HeadJob) := do
  let dims := k.shape
  ensure (dims.length = 4 ∧ dims.getD 1 0 = nKvHeads ∧ dims.getD 3 0 = headDim)
    s!"attention_head_range expects HeadMajor [1, n_kv, cap, head_dim], got {dims}"
  ensure (kvStart.all fun s => decide (s.length = nKvHeads))
    "attention_head_range: kv_start needs one entry per KV head"
  let scoreStride ← stride scoresOut nHeadsQ
  ensure (scoresOut = none ∨ cacheSeqLen ≤ scoreStride)
    s!"attention_head_range: score rows shorter than the cache ({scoreStride} < {cacheSeqLen})"
  let group ← div nHeadsQ nKvHeads
  headLoop q k v out headDim cacheSeqLen kvStart scoresOut (dims.getD 2 0) group scoreStride heads.2
    (heads.2 - heads.1) heads.1

/-! ## Calls -/

/-- A layer that is attended to: the geometry, the cache's type, the starts of a ragged cache and
the score rows. -/
structure HeadRangeCall where
  nKvHeads : ℕ
  group : ℕ
  headDim : ℕ
  capacity : ℕ
  cacheSeqLen : ℕ
  dtype : DType
  kvStart : Option (List ℕ)
  scoresLen : Option ℕ
  one_le : 1 ≤ nKvHeads
  seq_le : cacheSeqLen ≤ capacity
  starts : ∀ s ∈ kvStart, s.length = nKvHeads
  rows : ∀ len ∈ scoresLen, cacheSeqLen ≤ len / (nKvHeads * group)

namespace HeadRangeCall

variable (c : HeadRangeCall)

def nHeadsQ : ℕ := c.nKvHeads * c.group

/-- The bytes of a row of the cache. -/
def rowBytes : ℕ := match rowUnits c.dtype c.headDim with
  | some units => units.2 * units.1
  | none => c.headDim * c.dtype.size

def q : View := ⟨0, c.nHeadsQ * c.headDim * 4, [1, 1, c.nHeadsQ, c.headDim], .f32⟩

/-- The keys, and likewise the values: a cache with its heads in front of the positions. -/
def kv : View :=
  ⟨0, c.nKvHeads * c.capacity * c.rowBytes, [1, c.nKvHeads, c.capacity, c.headDim], c.dtype⟩

def scoresOut : Option Region := c.scoresLen.map fun len => ⟨0, len⟩

/-- The call over all heads. -/
def full : Except (Fault String) (List HeadJob) :=
  match c.kvStart with
  | some starts =>
    attentionGenRagged c.q c.kv c.kv c.q c.nHeadsQ c.nKvHeads c.headDim starts 0
      c.cacheSeqLen c.scoresOut
  | none => attentionGen c.q c.kv c.kv c.q c.nHeadsQ c.nKvHeads c.headDim c.cacheSeqLen c.scoresOut

/-- The call over the heads of a range. -/
def range (heads : ℕ × ℕ) : Except (Fault String) (List HeadJob) :=
  attentionHeadRange c.q c.kv c.kv c.q heads c.nHeadsQ c.nKvHeads c.headDim c.cacheSeqLen
    c.kvStart c.scoresOut

/-- The first slot of a KV head. -/
def start (kvH : ℕ) : ℕ := match c.kvStart with
  | some starts => min (starts.getD kvH 0) c.cacheSeqLen
  | none => 0

/-- What the kernel of head `h` is to be handed: the slots of its KV head, from the first one on. -/
def job (h : ℕ) : HeadJob :=
  let kvH := h / c.group
  let rows := (List.range' (c.start kvH) (c.cacheSeqLen - c.start kvH)).map fun slot =>
    ⟨(kvH * c.capacity + slot) * c.rowBytes, c.rowBytes⟩
  ⟨⟨h * c.headDim * 4, c.headDim * 4⟩, rows, rows, ⟨h * c.headDim * 4, c.headDim * 4⟩,
    c.scoresLen.map fun len => ⟨h * (len / c.nHeadsQ), c.cacheSeqLen⟩⟩

/-- The ranges follow one another from `a` to `b`. -/
def Consecutive (b : ℕ) : ℕ → List (ℕ × ℕ) → Prop
  | a, [] => a = b
  | a, r :: ranges => r.1 = a ∧ r.1 ≤ r.2 ∧ Consecutive b r.2 ranges

/-- **The ranges do what the call over all heads does**: both hand every head its own rows. -/
def Agrees (ranges : List (ℕ × ℕ)) : Prop :=
  ∀ jobs, c.full = .ok jobs → jobs = (List.range c.nHeadsQ).map c.job ∧
    ranges.mapM c.range = .ok (ranges.map fun r => (List.range' r.1 (r.2 - r.1)).map c.job) ∧
    ∀ r ∈ ranges, ∀ h, r.1 ≤ h → h < r.2 → ∀ h', h' < r.1 ∨ r.2 ≤ h' →
      (c.job h).out.Apart (c.job h').out ∧
      ∀ s ∈ (c.job h).scores, ∀ s' ∈ (c.job h').scores, s.Apart s'

/-- The caches that are missed: those of blocks, and those that are as long as they have heads. -/
def Missed : Prop :=
  c.kvStart = none ∧ 0 < c.headDim ∧ 0 < c.group ∧ (c.dtype = .q4_0 ∧ 0 < c.capacity ∨
    (c.dtype = .f32 ∨ c.dtype = .f16) ∧ c.capacity = c.nKvHeads ∧ 2 ≤ c.nKvHeads ∧
    0 < c.cacheSeqLen)

end HeadRangeCall

/-! ## What a kernel is handed -/

section Kernels

variable {q k v out : View} {headDim : ℕ} {units : ℕ × ℕ} {scoresOut : Option Region}
  {scoresStride rowLen : ℕ}

/-- The rows that the kernel of a head is handed of tensors that hold them. -/
def rowsAt (q k v out : View) (headDim : ℕ) (units : ℕ × ℕ) (scoresOut : Option Region)
    (scoresStride rowLen : ℕ) (slots : List ℕ) (h : ℕ) : HeadJob :=
  ⟨⟨q.off + h * headDim * 4, headDim * 4⟩, slots.map fun s =>
    ⟨k.off + s * units.2 * units.1, units.2 * units.1⟩, slots.map fun s =>
    ⟨v.off + s * units.2 * units.1, units.2 * units.1⟩, ⟨out.off + h * headDim * 4, headDim * 4⟩,
    scoresOut.map fun s => ⟨s.start + h * scoresStride, rowLen⟩⟩

theorem row_eq {t : View} {unit len n i : ℕ} (hunit : 0 < unit) (hsize : t.size = n * (len * unit))
    (hi : i < n) : t.row unit len i = .ok ⟨t.off + i * len * unit, len * unit⟩ := by
  unfold View.row
  rw [hsize, ← Nat.mul_assoc, Nat.mul_div_cancel _ hunit, ← Nat.succ_mul]
  exact if_pos (Nat.mul_le_mul_right len hi)

theorem headJob_eq {n total : ℕ} (hunit : 0 < units.1) (hq : q.size = n * (headDim * 4))
    (hout : out.size = n * (headDim * 4)) (hk : k.size = total * (units.2 * units.1))
    (hv : v.size = total * (units.2 * units.1)) {slots : List ℕ} (hslots : ∀ s ∈ slots, s < total)
    {h : ℕ} (hh : h < n) : headJob q k v out headDim units scoresOut scoresStride rowLen slots h =
      .ok (rowsAt q k v out headDim units scoresOut scoresStride rowLen slots h) := by
  have hrows : ∀ t : View, t.size = total * (units.2 * units.1) →
    slots.mapM (t.row units.1 units.2) =
      .ok (slots.map fun s => ⟨t.off + s * units.2 * units.1, units.2 * units.1⟩) := by
    exact fun t ht => mapM_eq_map fun s hs => row_eq hunit ht (hslots s hs)
  unfold headJob
  rw [row_eq (by decide) hq hh, ok_seq, hrows k hk, ok_seq, hrows v hv, ok_seq,
    row_eq (by decide) hout hh]
  rfl

theorem overChunks_eq {n : ℕ} (hdim : 0 < headDim) (hout : out.size = n * (headDim * 4))
    {kernel : ℕ → Except (Fault String) HeadJob} {job : ℕ → HeadJob}
    (hkernel : ∀ h < n, kernel h = .ok (job h)) :
    overChunks out headDim kernel = .ok ((List.range n).map job) := by
  have hchunks : (out.size / 4 + headDim - 1) / headDim = n := by
    rw [hout, ← Nat.mul_assoc, Nat.mul_div_cancel _ (by decide), Nat.add_sub_assoc hdim,
      Nat.mul_comm, Nat.mul_add_div hdim, Nat.div_eq_of_lt (by omega), Nat.add_zero]
  unfold overChunks
  rw [if_neg (by omega), hchunks]
  exact mapM_eq_map fun h hh => hkernel h (List.mem_range.mp hh)

/-- The slot of position `t` in the layout that `attention_gen` sees. -/
def place (shape : List ℕ) (numHeadsKv kvH t : ℕ) : ℕ :=
  if isHeadMajor shape numHeadsKv then kvH * shape.getD 2 0 + t else t * numHeadsKv + kvH

/-- **The kernel of `attention_gen`** on tensors that hold the rows. -/
theorem attentionGen_eq {numHeadsQ numHeadsKv g total cacheSeqLen : ℕ}
    (hheads : numHeadsKv * g = numHeadsQ) (hkv : 0 < numHeadsKv) (hdim : 0 < headDim)
    (hunits : rowUnits k.dtype headDim = some units) (hunit : 0 < units.1)
    (hq : q.size = numHeadsQ * (headDim * 4)) (hout : out.size = numHeadsQ * (headDim * 4))
    (hk : k.size = total * (units.2 * units.1)) (hv : v.size = total * (units.2 * units.1))
    (hplace : ∀ kvH < numHeadsKv, ∀ t < cacheSeqLen, place k.shape numHeadsKv kvH t < total)
    (hstride : stride scoresOut numHeadsQ = .ok scoresStride) :
    attentionGen q k v out numHeadsQ numHeadsKv headDim cacheSeqLen scoresOut =
      .ok ((List.range numHeadsQ).map fun h =>
        rowsAt q k v out headDim units scoresOut scoresStride cacheSeqLen
        ((List.range cacheSeqLen).map (place k.shape numHeadsKv (h / g))) h) := by
  subst hheads
  unfold attentionGen
  dsimp only
  rw [show div (ε := String) (numHeadsKv * g) numHeadsKv = .ok g by
    rw [ok_div]
    exact ⟨hkv.ne', (Nat.mul_div_cancel_left g hkv).symm⟩, ok_seq, hstride, ok_seq, hunits]
  change overChunks out headDim _ = _
  refine overChunks_eq hdim hout fun h hh => ?_
  have hg : 0 < g := Nat.pos_of_mul_pos_left (Nat.lt_of_le_of_lt (Nat.zero_le h) hh)
  have hhead : h / g < numHeadsKv := (Nat.div_lt_iff_lt_mul hg).mpr hh
  rw [show div (ε := String) h g = .ok (h / g) by rw [ok_div]; exact ⟨hg.ne', rfl⟩, ok_seq]
  have hslots : ((List.range cacheSeqLen).map fun t => if isHeadMajor k.shape numHeadsKv = true
        then h / g * (if isHeadMajor k.shape numHeadsKv = true then k.shape.getD 2 0 else 0) + t
        else t * numHeadsKv + h / g) =
          (List.range cacheSeqLen).map (place k.shape numHeadsKv (h / g)) := by
    refine List.map_congr_left fun t _ => ?_
    unfold place
    by_cases hmajor : isHeadMajor k.shape numHeadsKv = true
    · rw [if_pos hmajor, if_pos hmajor, if_pos hmajor]
    · rw [if_neg hmajor, if_neg hmajor]
  rw [hslots]
  refine headJob_eq hunit hq hout hk hv (fun s hs => ?_) hh
  obtain ⟨t, ht, rfl⟩ := List.mem_map.mp hs
  exact hplace _ hhead t (List.mem_range.mp ht)

/-- **The ragged kernel** on tensors that hold the rows. -/
theorem attentionGenRagged_eq {numHeadsQ numHeadsKv g capacity cacheSeqLen : ℕ} {kvStart : List ℕ}
    (hheads : numHeadsKv * g = numHeadsQ) (hkv : 0 < numHeadsKv)
    (hdim : 0 < headDim) (hdtype : k.dtype = .f32 ∨ k.dtype = .f16)
    (hstarts : kvStart.length = numHeadsKv) (hq : q.size = numHeadsQ * (headDim * 4))
    (hout : out.size = numHeadsQ * (headDim * 4))
    (hk : k.size = numHeadsKv * capacity * (headDim * k.dtype.size))
    (hv : v.size = numHeadsKv * capacity * (headDim * k.dtype.size)) (hseq : cacheSeqLen ≤ capacity)
    (hstride : stride scoresOut numHeadsQ = .ok scoresStride) :
    attentionGenRagged q k v out numHeadsQ numHeadsKv headDim kvStart 0 cacheSeqLen scoresOut =
      .ok ((List.range numHeadsQ).map fun h =>
        rowsAt q k v out headDim (k.dtype.size, headDim) scoresOut
        scoresStride cacheSeqLen ((List.range' (min (kvStart.getD (h / g) 0) cacheSeqLen)
          (cacheSeqLen - min (kvStart.getD (h / g) 0) cacheSeqLen)).map fun slot =>
            h / g * capacity + slot) h) := by
  subst hheads
  have helem : raggedElem k.dtype = .ok k.dtype.size := by
    rcases hdtype with h | h <;> rw [h] <;> rfl
  have helemPos : 0 < k.dtype.size := by
    rcases hdtype with h | h <;> rw [h] <;> decide
  have hcap : k.size / k.dtype.size / (max numHeadsKv 1 * max headDim 1) = capacity := by
    rw [hk, ← Nat.mul_assoc, Nat.mul_div_cancel _ helemPos, max_eq_left hkv, max_eq_left hdim,
      Nat.mul_right_comm, Nat.mul_div_cancel_left _ (Nat.mul_pos hkv hdim)]
  have hratio : div (ε := String) (numHeadsKv * g) numHeadsKv = .ok g := by
    rw [ok_div]
    exact ⟨hkv.ne', (Nat.mul_div_cancel_left g hkv).symm⟩
  unfold attentionGenRagged
  dsimp only
  rw [helem, ok_seq, hcap, ensure_of (by omega), ok_seq, hratio, ok_seq, hstride, ok_seq]
  refine overChunks_eq hdim hout fun h hh => ?_
  have hg : 0 < g := Nat.pos_of_mul_pos_left (Nat.lt_of_le_of_lt (Nat.zero_le h) hh)
  have hhead : h / g < numHeadsKv := (Nat.div_lt_iff_lt_mul hg).mpr hh
  rw [max_eq_left hg, get_of_lt (hstarts.symm ▸ hhead), ok_seq, Nat.max_zero, Nat.sub_zero,
    ← List.getD_eq_getElem kvStart 0 (hstarts.symm ▸ hhead)]
  refine headJob_eq helemPos hq hout hk hv (fun s hs => ?_) hh
  obtain ⟨slot, hslot, rfl⟩ := List.mem_map.mp hs
  rw [List.mem_range'_1] at hslot
  have hrow := Nat.mul_le_mul_right capacity hhead
  rw [Nat.succ_mul] at hrow
  omega

end Kernels

/-! ## Groups -/

namespace HeadRangeCall

variable {c : HeadRangeCall} {units : ℕ × ℕ} {scoreStride : ℕ}

theorem scores_eq (hstride : stride c.scoresOut c.nHeadsQ = .ok scoreStride) (h : ℕ) :
    c.scoresOut.map (fun s => (⟨s.start + h * scoreStride, c.cacheSeqLen⟩ : Region)) =
      c.scoresLen.map fun len => ⟨h * (len / c.nHeadsQ), c.cacheSeqLen⟩ := by
  unfold scoresOut at hstride ⊢
  cases hlen : c.scoresLen with
  | none => rfl
  | some len =>
    rw [hlen] at hstride
    obtain ⟨-, rfl⟩ := ok_div.mp hstride
    rw [Option.map_some, Option.map_some, Option.map_some, Nat.zero_add]

theorem rowBytes_eq (hunits : rowUnits c.dtype c.headDim = some units) :
    c.rowBytes = units.2 * units.1 := by
  unfold rowBytes
  rw [hunits]

theorem rowBytes_of_plain (h : c.dtype = .f32 ∨ c.dtype = .f16) :
    c.headDim * c.dtype.size = c.rowBytes := by
  unfold rowBytes
  rcases h with h | h <;> rw [h] <;> rfl

theorem rowsAt_eq_job {q k v out : View} {scoresOut : Option Region} {i h : ℕ} {slot : ℕ → ℕ}
    (hbytes : units.2 * units.1 = c.rowBytes) (hq : q.off + i * c.headDim * 4 = h * c.headDim * 4)
    (hout : out.off + i * c.headDim * 4 = h * c.headDim * 4)
    (hk : ∀ s < c.cacheSeqLen, k.off + slot s * c.rowBytes =
    (h / c.group * c.capacity + s) * c.rowBytes) (hv :
    ∀ s < c.cacheSeqLen, v.off + slot s * c.rowBytes = (h / c.group * c.capacity + s) * c.rowBytes)
      (hscores : scoresOut.map (fun s => (⟨s.start + i * scoreStride, c.cacheSeqLen⟩ : Region)) =
      c.scoresLen.map fun len => ⟨h * (len / c.nHeadsQ), c.cacheSeqLen⟩) :
    rowsAt q k v out c.headDim units scoresOut scoreStride c.cacheSeqLen
      ((List.range' (c.start (h / c.group)) (c.cacheSeqLen - c.start (h / c.group))).map slot)
        i = c.job h := by
  have hrows : ∀ t : View, (∀ s < c.cacheSeqLen,
        t.off + slot s * c.rowBytes = (h / c.group * c.capacity + s) * c.rowBytes) →
      ((List.range' (c.start (h / c.group)) (c.cacheSeqLen - c.start (h / c.group))).map slot).map
          (fun s => (⟨t.off + s * units.2 * units.1, units.2 * units.1⟩ : Region)) =
        (List.range' (c.start (h / c.group)) (c.cacheSeqLen - c.start (h / c.group))).map
          fun s => ⟨(h / c.group * c.capacity + s) * c.rowBytes, c.rowBytes⟩ := by
    intro t ht
    rw [List.map_map]
    refine List.map_congr_left fun s hs => ?_
    rw [List.mem_range'_1] at hs
    rw [Function.comp_apply, Nat.mul_assoc, hbytes, ht s (by omega)]
  unfold rowsAt job
  rw [hrows k hk, hrows v hv, hq, hout, hscores]

theorem place_one (shape : List ℕ) (t : ℕ) : place shape 1 0 t = t := by
  unfold place
  split_ifs <;> omega

theorem scoreRows_eq (hstride : stride c.scoresOut c.nHeadsQ = .ok scoreStride)
    {h hEnd : ℕ} (hlt : h < hEnd) (hEnd_le : hEnd ≤ c.nHeadsQ) :
    ∃ scores, scoreRows c.scoresOut (h * scoreStride) (hEnd * scoreStride) = .ok scores ∧
      stride scores (hEnd - h) = .ok scoreStride ∧ ∀ i,
        scores.map (fun s => (⟨s.start + i * scoreStride, c.cacheSeqLen⟩ : Region)) =
          c.scoresLen.map fun len => ⟨(h + i) * (len / c.nHeadsQ), c.cacheSeqLen⟩ := by
  have hjob := fun i => scores_eq hstride (h + i)
  unfold scoresOut at hstride hjob ⊢
  cases hlen : c.scoresLen with
  | none =>
    rw [hlen] at hstride
    exact ⟨none, rfl, hstride, fun i => rfl⟩
  | some len =>
    rw [hlen] at hstride hjob
    obtain ⟨-, rfl⟩ := ok_div.mp hstride
    have hfits : hEnd * (len / c.nHeadsQ) ≤ len :=
      (Nat.mul_le_mul_right _ hEnd_le).trans (Nat.mul_div_le _ _)
    have hle : h * (len / c.nHeadsQ) ≤ hEnd * (len / c.nHeadsQ) := Nat.mul_le_mul_right _ hlt.le
    refine ⟨some ⟨0 + h * (len / c.nHeadsQ), hEnd * (len / c.nHeadsQ) - h * (len / c.nHeadsQ)⟩,
      if_pos ⟨hle, hfits⟩, ?_, fun i => ?_⟩
    · refine ok_div.mpr ⟨by omega, ?_⟩
      rw [← Nat.sub_mul, Nat.mul_div_cancel_left _ (by omega)]
    · rw [Option.map_some, Option.map_some, Nat.zero_add, Nat.add_mul]

theorem slice_eq {t : View} {off len : ℕ} (h : off + len ≤ t.size)
    (shape : List ℕ) (dtype : DType) :
    t.slice off len shape dtype = .ok ⟨t.off + off, len, shape, dtype⟩ := if_pos h

/-- **One round of the loop** hands the heads of its group their rows. -/
theorem groupCall_eq (hdim : 0 < c.headDim) (hunits : rowUnits c.dtype c.headDim = some units)
    (hunit : 0 < units.1) (hbytes : c.capacity * c.headDim * c.dtype.size = c.capacity * c.rowBytes)
    (hragged : c.kvStart ≠ none → c.dtype = .f32 ∨ c.dtype = .f16)
    (hstride : stride c.scoresOut c.nHeadsQ = .ok scoreStride) {kvH h hEnd : ℕ}
    (hkv : kvH < c.nKvHeads) (hlo : kvH * c.group ≤ h) (hlt : h < hEnd)
    (hhi : hEnd ≤ (kvH + 1) * c.group) :
    groupCall c.q c.kv c.kv c.q c.headDim c.cacheSeqLen c.kvStart c.scoresOut c.capacity
      scoreStride kvH h hEnd = .ok ((List.range' h (hEnd - h)).map c.job) := by
  have hheads : (kvH + 1) * c.group ≤ c.nHeadsQ := Nat.mul_le_mul_right _ hkv
  have hqFits : h * (c.headDim * 4) + (hEnd - h) * (c.headDim * 4) ≤ c.q.size := by
    rw [← Nat.add_mul, show h + (hEnd - h) = hEnd by omega]
    exact (Nat.mul_le_mul_right _ (hhi.trans hheads)).trans_eq (Nat.mul_assoc _ _ _).symm
  have hkvFits : kvH * (c.capacity * c.headDim * c.dtype.size) + c.capacity * c.headDim *
    c.dtype.size ≤ c.kv.size := by
    rw [← Nat.succ_mul, hbytes]
    exact (Nat.mul_le_mul_right _ hkv).trans_eq (Nat.mul_assoc _ _ _).symm
  obtain ⟨scores, hscores, hnh, hjobs⟩ := scoreRows_eq hstride hlt (hhi.trans hheads)
  have hrow : ∀ i < hEnd - h, (h + i) / c.group = kvH := fun i hi =>
    Nat.div_eq_of_lt_le (by omega) (by omega)
  have hlist : ∀ job : ℕ → HeadJob, (∀ i < hEnd - h, job i = c.job (h + i)) →
      (List.range (hEnd - h)).map job = (List.range' h (hEnd - h)).map c.job := by
    intro job hjob
    rw [List.range'_eq_map_range, List.map_map]
    exact List.map_congr_left fun i hi => hjob i (List.mem_range.mp hi)
  unfold groupCall
  dsimp only
  rw [slice_eq hqFits, ok_seq, ok_seq, show c.kv.dtype = c.dtype from rfl, slice_eq hkvFits,
    ok_seq, ok_seq, hscores, ok_seq]
  generalize hqV : (⟨c.q.off + h * (c.headDim * 4), (hEnd - h) * (c.headDim * 4),
    [1, 1, hEnd - h, c.headDim], .f32⟩ : View) = qV
  generalize hkV : (⟨c.kv.off + kvH * (c.capacity * c.headDim * c.dtype.size),
    c.capacity * c.headDim * c.dtype.size, [1, 1, c.capacity, c.headDim], c.dtype⟩ : View) = kV
  have hqOff : ∀ i, qV.off + i * c.headDim * 4 = (h + i) * c.headDim * 4 := fun i => by
    rw [← hqV]
    change 0 + h * (c.headDim * 4) + i * c.headDim * 4 = _
    rw [Nat.zero_add, Nat.mul_assoc i, ← Nat.add_mul, Nat.mul_assoc]
  have hkvOff : ∀ i < hEnd - h, ∀ s, kV.off + s * c.rowBytes =
    ((h + i) / c.group * c.capacity + s) * c.rowBytes :=
    fun i hi s => by
    rw [← hkV]
    change 0 + kvH * (c.capacity * c.headDim * c.dtype.size) + s * c.rowBytes = _
    rw [hrow i hi, hbytes, Nat.zero_add, ← Nat.mul_assoc, ← Nat.add_mul]
  have hqSize : qV.size = (hEnd - h) * (c.headDim * 4) := by rw [← hqV]
  have hkSize : kV.size = c.capacity * c.rowBytes := by rw [← hkV, ← hbytes]
  have hkType : kV.dtype = c.dtype := by rw [← hkV]
  cases hstart : c.kvStart with
  | none =>
    have hzero : ∀ kvH, c.start kvH = 0 := fun kvH => by
      unfold start
      rw [hstart]
    refine (attentionGen_eq (Nat.one_mul _) Nat.zero_lt_one hdim (hkType ▸ hunits)
      hunit hqSize hqSize (rowBytes_eq hunits ▸ hkSize) (rowBytes_eq hunits ▸ hkSize)
        (fun k hk t ht => ?_) hnh).trans
      (congrArg Except.ok (hlist _ fun i hi => ?_))
    · rw [Nat.lt_one_iff.mp hk, place_one]
      exact ht.trans_le c.seq_le
    · have hslots : (List.range c.cacheSeqLen).map (place kV.shape 1 (i / (hEnd - h))) =
          (List.range' (c.start ((h + i) / c.group))
            (c.cacheSeqLen - c.start ((h + i) / c.group))).map id := by
        rw [hzero, Nat.sub_zero, ← List.range_eq_range', Nat.div_eq_of_lt hi]
        exact List.map_congr_left fun t _ => place_one _ t
      rw [hslots]
      exact rowsAt_eq_job (rowBytes_eq hunits).symm (hqOff i) (hqOff i) (fun s _ => hkvOff i hi s)
        (fun s _ => hkvOff i hi s) (hjobs i)
  | some starts =>
    have hdtype : c.dtype = .f32 ∨ c.dtype = .f16 :=
      hragged (by rw [hstart]; exact Option.some_ne_none _)
    have hlen : starts.length = c.nKvHeads := c.starts starts hstart
    have helem : c.headDim * c.dtype.size = c.rowBytes := rowBytes_of_plain hdtype
    dsimp only
    rw [index_of_le ⟨Nat.le_succ _, hlen.symm ▸ hkv⟩, ok_seq]
    have hone : (slice starts kvH (kvH + 1 - kvH)).length = 1 := by
      rw [length_slice (by omega)]
      omega
    have hfirst : (slice starts kvH (kvH + 1 - kvH)).getD 0 0 = starts.getD kvH 0 := by
      rw [List.getD_eq_getElem?_getD, List.getD_eq_getElem?_getD, getElem?_slice,
        if_pos (by omega), Nat.add_zero]
    refine (attentionGenRagged_eq (Nat.one_mul _) Nat.zero_lt_one hdim (hkType.symm ▸ hdtype)
      hone hqSize hqSize (by rw [hkSize, hkType, helem, Nat.one_mul])
        (by rw [hkSize, hkType, helem, Nat.one_mul]) c.seq_le hnh).trans
      (congrArg Except.ok (hlist _ fun i hi => ?_))
    have hfrom : min ((slice starts kvH (kvH + 1 - kvH)).getD (i / (hEnd - h)) 0) c.cacheSeqLen =
        c.start ((h + i) / c.group) := by
      rw [Nat.div_eq_of_lt hi, hfirst, hrow i hi]
      unfold start
      rw [hstart]
    rw [hfrom, Nat.div_eq_of_lt hi, hkType]
    exact rowsAt_eq_job helem (hqOff i) (hqOff i)
      (fun s _ => by rw [Nat.zero_mul, Nat.zero_add]; exact hkvOff i hi s)
        (fun s _ => by rw [Nat.zero_mul, Nat.zero_add]; exact hkvOff i hi s) (hjobs i)

/-! ## Ranges -/

/-- **The loop** hands the heads of the range their rows, by induction on the rounds. -/
theorem headLoop_eq (hdim : 0 < c.headDim) (hunits : rowUnits c.dtype c.headDim = some units)
    (hunit : 0 < units.1) (hbytes : c.capacity * c.headDim * c.dtype.size = c.capacity * c.rowBytes)
    (hragged : c.kvStart ≠ none → c.dtype = .f32 ∨ c.dtype = .f16)
    (hstride : stride c.scoresOut c.nHeadsQ = .ok scoreStride) {last : ℕ}
    (hlast : last ≤ c.nHeadsQ) (n h : ℕ) (hn : last - h ≤ n) :
    headLoop c.q c.kv c.kv c.q c.headDim c.cacheSeqLen c.kvStart c.scoresOut c.capacity c.group
      scoreStride last n h = .ok ((List.range' h (last - h)).map c.job) := by
  induction n generalizing h with
  | zero =>
    rw [Nat.le_zero.mp hn]
    rfl
  | succ n ih =>
    unfold headLoop
    by_cases hlt : h < last
    · have hg : 0 < c.group :=
        Nat.pos_of_mul_pos_left (Nat.lt_of_le_of_lt (Nat.zero_le h) (hlt.trans_le hlast))
      have hkv : h / c.group < c.nKvHeads := (Nat.div_lt_iff_lt_mul hg).mpr (hlt.trans_le hlast)
      have hlo : h / c.group * c.group ≤ h := Nat.div_mul_le_self _ _
      have hhi : h < (h / c.group + 1) * c.group := by
        rw [Nat.succ_mul]
        exact Nat.lt_div_mul_add hg
      obtain ⟨hEnd, hmin⟩ : ∃ hEnd, min last ((h / c.group + 1) * c.group) = hEnd := ⟨_, rfl⟩
      have hbetween : h < hEnd ∧ hEnd ≤ last ∧ hEnd ≤ (h / c.group + 1) * c.group := by omega
      rw [if_pos hlt, show div (ε := String) h c.group = .ok (h / c.group)
        from ok_div.mpr ⟨hg.ne', rfl⟩, ok_seq]
      dsimp only
      rw [hmin, groupCall_eq hdim hunits hunit hbytes hragged hstride hkv hlo hbetween.1
        hbetween.2.2, ok_seq, ih hEnd (by omega), ok_seq]
      change Except.ok _ = _
      rw [← List.map_append]
      have happend := List.range'_append_1 (s := h) (m := hEnd - h) (n := last - hEnd)
      rw [show h + (hEnd - h) =
        hEnd by omega, show hEnd - h + (last - hEnd) = last - h by omega] at happend
      rw [happend]
    · rw [if_neg hlt, Nat.sub_eq_zero_of_le (Nat.le_of_not_lt hlt)]
      rfl

theorem range_eq_headLoop (hstride : stride c.scoresOut c.nHeadsQ = .ok scoreStride)
    (heads : ℕ × ℕ) : c.range heads = headLoop c.q c.kv c.kv c.q c.headDim c.cacheSeqLen c.kvStart
      c.scoresOut c.capacity c.group scoreStride heads.2 (heads.2 - heads.1) heads.1 := by
  have hstarts : (c.kvStart.all fun s => decide (s.length = c.nKvHeads)) = true := by
    cases hstart : c.kvStart with
    | none => rfl
    | some starts => exact decide_eq_true (c.starts starts hstart)
  have hrows : c.scoresOut = none ∨ c.cacheSeqLen ≤ scoreStride := by
    unfold scoresOut at hstride ⊢
    cases hlen : c.scoresLen with
    | none => exact Or.inl rfl
    | some len =>
      rw [hlen] at hstride
      obtain ⟨-, rfl⟩ := ok_div.mp hstride
      exact Or.inr (c.rows len hlen)
  unfold range attentionHeadRange
  dsimp only
  rw [ensure_of ⟨rfl, rfl, rfl⟩, ok_seq, ensure_of hstarts, ok_seq, hstride, ok_seq,
    ensure_of hrows, ok_seq, show div (ε := String) c.nHeadsQ c.nKvHeads = .ok c.group from
      ok_div.mpr ⟨(Nat.lt_of_lt_of_le Nat.zero_lt_one c.one_le).ne',
        (Nat.mul_div_cancel_left _ c.one_le).symm⟩, ok_seq]
  rfl

theorem bounds_of_consecutive {b a : ℕ} {ranges : List (ℕ × ℕ)} (h : Consecutive b a ranges) :
    a ≤ b ∧ ∀ r ∈ ranges, r.2 ≤ b := by
  induction ranges generalizing a with
  | nil => exact ⟨Nat.le_of_eq h, fun r hr => absurd hr List.not_mem_nil⟩
  | cons r ranges ih =>
    obtain ⟨rfl, hle, hrest⟩ := h
    obtain ⟨hb, hall⟩ := ih hrest
    exact ⟨hle.trans hb, List.forall_mem_cons.mpr ⟨hb, hall⟩⟩

theorem apart_of_ne {h h' : ℕ} (hne : h ≠ h') : (c.job h).out.Apart (c.job h').out ∧
    ∀ s ∈ (c.job h).scores, ∀ s' ∈ (c.job h').scores, s.Apart s' := by
  have hrows : ∀ w len : ℕ, len ≤ w → (⟨h * w, len⟩ : Region).Apart ⟨h' * w, len⟩ := by
    intro w len hlen
    unfold Region.Apart
    dsimp only
    rcases Nat.lt_or_gt_of_ne hne with hlt | hlt
    · have hmul := Nat.mul_le_mul_right w hlt
      rw [Nat.succ_mul] at hmul
      omega
    · have hmul := Nat.mul_le_mul_right w hlt
      rw [Nat.succ_mul] at hmul
      omega
  constructor
  · have h₁ := hrows (c.headDim * 4) _ le_rfl
    rwa [← Nat.mul_assoc, ← Nat.mul_assoc] at h₁
  · unfold job
    dsimp only
    cases hlen : c.scoresLen with
    | none => exact fun s hs => absurd hs (Option.not_mem_none s)
    | some len =>
      intro s hs s' hs'
      rw [Option.map_some, Option.mem_some_iff] at hs hs'
      rw [← hs, ← hs']
      exact hrows _ _ (c.rows len hlen)

/-! ## The call over all heads -/

theorem full_eq_place (hstart : c.kvStart = none) (hdim : 0 < c.headDim)
    (hunits : rowUnits c.dtype c.headDim = some units) (hunit : 0 < units.1)
    (hstride : stride c.scoresOut c.nHeadsQ = .ok scoreStride) :
    c.full = .ok ((List.range c.nHeadsQ).map fun h =>
      rowsAt c.q c.kv c.kv c.q c.headDim units c.scoresOut scoreStride
      c.cacheSeqLen ((List.range c.cacheSeqLen).map (place c.kv.shape c.nKvHeads (h / c.group)))
        h) := by
  have hsize : c.kv.size = c.nKvHeads * c.capacity * (units.2 * units.1) := by
    rw [← rowBytes_eq hunits]
    rfl
  have hseq := c.seq_le
  unfold full
  rw [hstart]
  refine attentionGen_eq rfl c.one_le hdim hunits hunit (Nat.mul_assoc _ _ _)
    (Nat.mul_assoc _ _ _) hsize hsize (fun kvH hkv t ht => ?_) hstride
  unfold place
  split_ifs
  · have hrow := Nat.mul_le_mul_right c.capacity hkv
    rw [Nat.succ_mul] at hrow
    change kvH * c.capacity + t < _
    omega
  · have hrow := Nat.mul_le_mul_right c.nKvHeads (ht.trans_le hseq)
    rw [Nat.succ_mul, Nat.mul_comm c.capacity] at hrow
    omega

theorem full_eq_of_place (hstart : c.kvStart = none) (hdim : 0 < c.headDim)
    (hunits : rowUnits c.dtype c.headDim = some units) (hunit : 0 < units.1)
    (hstride : stride c.scoresOut c.nHeadsQ = .ok scoreStride)
    (hplace : ∀ kvH < c.nKvHeads, ∀ t < c.cacheSeqLen, place c.kv.shape c.nKvHeads kvH t =
    kvH * c.capacity + t) : c.full = .ok ((List.range c.nHeadsQ).map c.job) := by
  rw [full_eq_place hstart hdim hunits hunit hstride]
  refine congrArg Except.ok (List.map_congr_left fun h hh => ?_)
  have hh := List.mem_range.mp hh
  have hg : 0 < c.group := Nat.pos_of_mul_pos_left (Nat.lt_of_le_of_lt (Nat.zero_le h) hh)
  have hkv : h / c.group < c.nKvHeads := (Nat.div_lt_iff_lt_mul hg).mpr hh
  have hzero : c.start (h / c.group) = 0 := by
    unfold start
    rw [hstart]
  have hslots : (List.range c.cacheSeqLen).map (place c.kv.shape c.nKvHeads (h / c.group)) =
      (List.range' (c.start (h / c.group)) (c.cacheSeqLen - c.start (h / c.group))).map
        fun t => h / c.group * c.capacity + t := by
    rw [hzero, Nat.sub_zero, ← List.range_eq_range']
    exact List.map_congr_left fun t ht => hplace _ hkv t (List.mem_range.mp ht)
  rw [hslots]
  exact rowsAt_eq_job (rowBytes_eq hunits).symm (Nat.zero_add _) (Nat.zero_add _)
    (fun s _ => Nat.zero_add _) (fun s _ => Nat.zero_add _) (scores_eq hstride h)

theorem full_eq_of_starts {starts : List ℕ} (hstart : c.kvStart = some starts)
    (hdim : 0 < c.headDim) (hdtype : c.dtype = .f32 ∨ c.dtype = .f16)
    (hstride : stride c.scoresOut c.nHeadsQ = .ok scoreStride) :
    c.full = .ok ((List.range c.nHeadsQ).map c.job) := by
  have hsize : c.kv.size = c.nKvHeads * c.capacity * (c.headDim * c.dtype.size) := by
    rw [rowBytes_of_plain hdtype]
    rfl
  unfold full
  rw [hstart]
  refine (attentionGenRagged_eq rfl c.one_le hdim hdtype (c.starts starts hstart)
    (Nat.mul_assoc _ _ _) (Nat.mul_assoc _ _ _) hsize hsize c.seq_le hstride).trans
    (congrArg Except.ok (List.map_congr_left fun h _ => ?_))
  have hfrom : min (starts.getD (h / c.group) 0) c.cacheSeqLen = c.start (h / c.group) := by
    unfold start
    rw [hstart]
  rw [hfrom]
  exact rowsAt_eq_job (rowBytes_of_plain hdtype) (Nat.zero_add _) (Nat.zero_add _)
    (fun s _ => Nat.zero_add _) (fun s _ => Nat.zero_add _) (scores_eq hstride h)

theorem headDim_of_overChunks {out : View} {headDim : ℕ}
    {kernel : ℕ → Except (Fault String) HeadJob} {jobs : List HeadJob}
    (h : overChunks out headDim kernel = .ok jobs) : 0 < headDim := by
  unfold overChunks at h
  by_cases hzero : headDim = 0
  · rw [if_pos hzero] at h
    cases h
  · omega

theorem rowUnits_pos {dtype : DType} {headDim : ℕ} (h : rowUnits dtype headDim = some units) :
    0 < units.1 := by
  cases dtype <;> cases h <;> exact Nat.succ_pos _

theorem dtype_of_rowUnits {dtype : DType} {headDim : ℕ} (h : rowUnits dtype headDim = some units) :
    dtype = .f32 ∨ dtype = .f16 ∨ dtype = .q4_0 := by
  cases dtype <;> simp_all [rowUnits]

theorem of_full {jobs : List HeadJob} (h : c.full = .ok jobs) : 0 < c.headDim ∧
    (∃ scoreStride, stride c.scoresOut c.nHeadsQ = .ok scoreStride) ∧
    (∃ units, rowUnits c.dtype c.headDim = some units) ∧
    (c.kvStart ≠ none → c.dtype = .f32 ∨ c.dtype = .f16) := by
  unfold full at h
  cases hstart : c.kvStart with
  | none =>
    rw [hstart] at h
    dsimp only at h
    unfold attentionGen at h
    simp only [ok_bind, ok_okOr] at h
    obtain ⟨_, -, scoreStride, hstride, units, hunits, hchunks⟩ := h
    exact ⟨headDim_of_overChunks hchunks, ⟨scoreStride, hstride⟩, ⟨units, hunits⟩,
      fun hne => absurd rfl hne⟩
  | some starts =>
    rw [hstart] at h
    dsimp only at h
    unfold attentionGenRagged at h
    simp only [ok_bind] at h
    obtain ⟨elem, helem, _, -, _, -, scoreStride, hstride, hchunks⟩ := h
    have hdtype : c.dtype = .f32 ∨ c.dtype = .f16 := by
      change raggedElem c.dtype = .ok elem at helem
      cases hd : c.dtype <;> rw [hd] at helem <;> cases helem
      · exact Or.inr rfl
      · exact Or.inl rfl
    refine ⟨headDim_of_overChunks hchunks, ⟨scoreStride, hstride⟩, ?_, fun _ => hdtype⟩
    rcases hdtype with hd | hd <;> rw [hd] <;> exact ⟨_, rfl⟩

theorem exists_stride (h : 0 < c.nHeadsQ) :
    ∃ scoreStride, stride c.scoresOut c.nHeadsQ = .ok scoreStride := by
  unfold scoresOut
  cases c.scoresLen with
  | none => exact ⟨0, rfl⟩
  | some len => exact ⟨_, ok_div.mpr ⟨h.ne', rfl⟩⟩

/-! ## Splits -/

/-- **The layout is seen** unless a cache of several heads is as long as it has heads. -/
theorem place_eq (h : ¬ (c.capacity = c.nKvHeads ∧ 2 ≤ c.nKvHeads ∧ 0 < c.cacheSeqLen)) {kvH t : ℕ}
    (hkv : kvH < c.nKvHeads) (ht : t < c.cacheSeqLen) :
    place c.kv.shape c.nKvHeads kvH t = kvH * c.capacity + t := by
  unfold place
  split_ifs with hmajor
  · rfl
  · have hsame : c.nKvHeads = c.capacity := by
      by_contra hne
      exact hmajor (decide_eq_true ⟨Nat.le_succ 3, rfl, hne⟩)
    have hone : c.nKvHeads = 1 := by
      have := c.one_le
      omega
    have hzero : kvH = 0 := by omega
    rw [hone, hzero]
    omega

theorem ranges_eq (hdim : 0 < c.headDim) (hunits : rowUnits c.dtype c.headDim = some units)
    (hbytes : c.capacity * c.headDim * c.dtype.size = c.capacity * c.rowBytes)
    (hragged : c.kvStart ≠ none → c.dtype = .f32 ∨ c.dtype = .f16)
    (hstride : stride c.scoresOut c.nHeadsQ = .ok scoreStride) {ranges : List (ℕ × ℕ)}
    (hranges : Consecutive c.nHeadsQ 0 ranges) :
    ranges.mapM c.range = .ok (ranges.map fun r => (List.range' r.1 (r.2 - r.1)).map c.job) := by
  refine mapM_eq_map fun r hr => ?_
  rw [range_eq_headLoop hstride]
  exact headLoop_eq hdim hunits (rowUnits_pos hunits) hbytes hragged hstride
    ((bounds_of_consecutive hranges).2 r hr) _ _ le_rfl

theorem agrees_of_not_missed (hmissed : ¬ c.Missed) {ranges : List (ℕ × ℕ)}
    (hranges : Consecutive c.nHeadsQ 0 ranges) : c.Agrees ranges := by
  intro jobs hfull
  obtain ⟨hdim, ⟨scoreStride, hstride⟩, ⟨units, hunits⟩, hragged⟩ := of_full hfull
  have hapart : ∀ r ∈ ranges, ∀ h, r.1 ≤ h → h < r.2 → ∀ h', h' < r.1 ∨ r.2 ≤ h' →
      (c.job h).out.Apart (c.job h').out ∧ ∀ s ∈ (c.job h).scores,
        ∀ s' ∈ (c.job h').scores, s.Apart s' :=
    fun r _ h hlo hhi h' hout => apart_of_ne (by omega)
  suffices h : c.full = .ok ((List.range c.nHeadsQ).map c.job) ∧
      ranges.mapM c.range = .ok (ranges.map fun r => (List.range' r.1 (r.2 - r.1)).map c.job) by
    exact ⟨Except.ok.inj (hfull.symm.trans h.1), h.2, hapart⟩
  by_cases hg : c.group = 0
  · -- no head at all
    have hheads : c.nHeadsQ = 0 := by
      unfold nHeadsQ
      rw [hg, Nat.mul_zero]
    constructor
    · cases hstart : c.kvStart with
      | none =>
        rw [full_eq_place hstart hdim hunits (rowUnits_pos hunits) hstride, hheads]
        rfl
      | some starts =>
        exact full_eq_of_starts hstart hdim
          (hragged (by rw [hstart]; exact Option.some_ne_none _)) hstride
    · refine mapM_eq_map fun r hr => ?_
      have hzero : r.2 - r.1 = 0 := by
        have := (bounds_of_consecutive hranges).2 r hr
        omega
      rw [range_eq_headLoop hstride, hzero]
      rfl
  · by_cases hplain : c.dtype = .f32 ∨ c.dtype = .f16
    · have hbytes : c.capacity * c.headDim * c.dtype.size = c.capacity * c.rowBytes := by
        rw [Nat.mul_assoc, rowBytes_of_plain hplain]
      refine ⟨?_, ranges_eq hdim hunits hbytes hragged hstride hranges⟩
      cases hstart : c.kvStart with
      | none =>
        refine full_eq_of_place hstart hdim hunits (rowUnits_pos hunits) hstride fun kvH hkv t ht =>
          place_eq ?_ hkv ht
        exact fun hsame => hmissed ⟨hstart, hdim, Nat.pos_of_ne_zero hg, Or.inr ⟨hplain, hsame⟩⟩
      | some starts => exact full_eq_of_starts hstart hdim hplain hstride
    · -- blocks: only an empty cache is left
      have hstart : c.kvStart = none := by
        by_contra hne
        exact hplain (hragged hne)
      have hblocks : c.dtype = .q4_0 := by
        rcases dtype_of_rowUnits hunits with hd | hd | hd
        · exact absurd (Or.inl hd) hplain
        · exact absurd (Or.inr hd) hplain
        · exact hd
      have hempty : c.capacity = 0 := by
        by_contra hne
        exact hmissed ⟨hstart, hdim, Nat.pos_of_ne_zero hg,
          Or.inl ⟨hblocks, Nat.pos_of_ne_zero hne⟩⟩
      have hseq : c.cacheSeqLen = 0 := by
        have := c.seq_le
        omega
      have hbytes : c.capacity * c.headDim * c.dtype.size = c.capacity * c.rowBytes := by
        rw [hempty, Nat.zero_mul, Nat.zero_mul, Nat.zero_mul]
      refine ⟨full_eq_of_place hstart hdim hunits (rowUnits_pos hunits)
        hstride fun kvH _ t ht => ?_, ranges_eq hdim hunits hbytes hragged hstride hranges⟩
      omega

/-- The view of the last head of a cache of blocks does not fit. -/
theorem range_last_blocks (hblocks : c.dtype = .q4_0) (hdim : 0 < c.headDim) (hg : 0 < c.group)
    (hcap : 0 < c.capacity) (hstride : stride c.scoresOut c.nHeadsQ = .ok scoreStride)
    (jobs : List HeadJob) : c.range (c.nHeadsQ - 1, c.nHeadsQ) ≠ .ok jobs := by
  intro h
  have hone := c.one_le
  have hheads : 0 < c.nHeadsQ := Nat.mul_pos hone hg
  have hkvH : (c.nHeadsQ - 1) / c.group = c.nKvHeads - 1 := by
    refine Nat.div_eq_of_lt_le ?_ ?_
    · rw [Nat.sub_one_mul]
      unfold nHeadsQ
      omega
    · rw [Nat.sub_add_cancel hone]
      unfold nHeadsQ
      exact Nat.sub_lt (Nat.mul_pos hone hg) Nat.zero_lt_one
  rw [range_eq_headLoop hstride] at h
  dsimp only at h
  rw [Nat.sub_sub_self hheads] at h
  unfold headLoop at h
  rw [if_pos (Nat.sub_lt hheads Nat.zero_lt_one)] at h
  simp only [ok_bind] at h
  obtain ⟨kvH, hdiv, group, hcall, -⟩ := h
  obtain ⟨-, rfl⟩ := ok_div.mp hdiv
  rw [hkvH] at hcall
  unfold groupCall at hcall
  simp only [ok_bind] at hcall
  obtain ⟨_, -, _, -, kV, hkV, -⟩ := hcall
  -- the view ends at the bytes of whole values, the buffer at those of the blocks
  have hfits : (c.nKvHeads - 1) * (c.capacity * c.headDim * c.kv.dtype.size) + c.capacity *
    c.headDim * c.kv.dtype.size ≤
      c.kv.size := by
    by_contra hnot
    unfold View.slice at hkV
    dsimp only at hkV
    rw [if_neg hnot] at hkV
    cases hkV
  have hsize : c.kv.dtype.size = 1 := by
    change c.dtype.size = 1
    rw [hblocks]
    rfl
  have hbytes : c.kv.size = c.nKvHeads * c.capacity * (c.headDim / 32 * 18) := by
    change c.nKvHeads * c.capacity * c.rowBytes = _
    unfold rowBytes
    rw [hblocks]
    rfl
  have hrow : c.headDim / 32 * 18 < c.headDim := by omega
  rw [hsize, Nat.mul_one, ← Nat.succ_mul, show (c.nKvHeads - 1).succ =
    c.nKvHeads by omega, ← Nat.mul_assoc, hbytes] at hfits
  have := Nat.mul_lt_mul_of_pos_left hrow (Nat.mul_pos hone hcap)
  omega

theorem not_agrees_of_blocks (hstart : c.kvStart = none) (hblocks : c.dtype = .q4_0)
    (hdim : 0 < c.headDim) (hg : 0 < c.group) (hcap : 0 < c.capacity) :
    ¬ c.Agrees [(0, c.nHeadsQ - 1), (c.nHeadsQ - 1, c.nHeadsQ)] := by
  intro h
  have hheads : 0 < c.nHeadsQ := Nat.mul_pos c.one_le hg
  obtain ⟨scoreStride, hstride⟩ := exists_stride hheads
  have hunits : rowUnits c.dtype c.headDim = some (blockQ4_0Size, c.headDim / QK4_0) := by
    rw [hblocks]
    rfl
  obtain ⟨-, hranges, -⟩ := h _ (full_eq_place hstart hdim hunits (rowUnits_pos hunits) hstride)
  have hlast := ((List.forall₂_cons.mp (ok_mapM.mp hranges)).2)
  exact range_last_blocks hblocks hdim hg hcap hstride _ (List.forall₂_cons.mp hlast).1

/-- The first slot of the second head is looked for at the second slot of the first one. -/
theorem not_agrees_of_square (hstart : c.kvStart = none) (hplain : c.dtype = .f32 ∨ c.dtype = .f16)
    (hdim : 0 < c.headDim) (hg : 0 < c.group) (hsame : c.capacity = c.nKvHeads)
    (htwo : 2 ≤ c.nKvHeads) (hseq : 0 < c.cacheSeqLen) (ranges : List (ℕ × ℕ)) :
    ¬ c.Agrees ranges := by
  intro h
  obtain ⟨scoreStride, hstride⟩ := exists_stride (c := c) (Nat.mul_pos c.one_le hg)
  have hunits : rowUnits c.dtype c.headDim = some (c.dtype.size, c.headDim) := by
    rcases hplain with hd | hd <;> rw [hd] <;> rfl
  have hbytes : 0 < c.rowBytes := by
    rw [← rowBytes_of_plain hplain]
    exact Nat.mul_pos hdim (rowUnits_pos hunits)
  obtain ⟨hjobs, -⟩ := h _ (full_eq_place hstart hdim hunits (rowUnits_pos hunits) hstride)
  have hhead : c.group ∈ List.range c.nHeadsQ := by
    rw [List.mem_range]
    have := Nat.mul_le_mul_right c.group htwo
    unfold nHeadsQ
    omega
  have hjob := congrArg (fun j => (j.keys[0]?).map Region.start)
    (List.map_inj_left.mp hjobs _ hhead)
  have hplace : place c.kv.shape c.nKvHeads 1 0 = 1 := by
    unfold place
    rw [if_neg]
    · omega
    · intro hmajor
      exact (of_decide_eq_true hmajor).2.2 hsame.symm
  have hfirst : c.start 1 = 0 := by
    unfold start
    rw [hstart]
  simp only [rowsAt, job, Nat.div_self hg, hfirst, List.map_map, List.getElem?_map,
    List.getElem?_range hseq, Nat.sub_zero, ← List.range_eq_range', Option.map_some,
    Function.comp_apply, hplace, Option.some.injEq] at hjob
  rw [Nat.one_mul, Nat.one_mul, Nat.add_zero, rowBytes_of_plain hplain] at hjob
  have hoff : c.kv.off = 0 := rfl
  have hfar := Nat.mul_le_mul_right c.rowBytes (hsame.symm ▸ htwo : 2 ≤ c.capacity)
  omega

/-- **Attention by ranges is attention over all heads**, for every split, unless the cache is
missed. -/
theorem agrees_iff (c : HeadRangeCall) :
    (∀ ranges, Consecutive c.nHeadsQ 0 ranges → c.Agrees ranges) ↔ ¬ c.Missed := by
  constructor
  · rintro hall ⟨hstart, hdim, hg, ⟨hblocks, hcap⟩ | ⟨hplain, hsame, htwo, hseq⟩⟩
    · refine not_agrees_of_blocks hstart hblocks hdim hg hcap
        (hall _ ⟨rfl, Nat.zero_le _, rfl, Nat.sub_le _ _, rfl⟩)
    · exact not_agrees_of_square hstart hplain hdim hg hsame htwo hseq _
        (hall [(0, c.nHeadsQ)] ⟨rfl, Nat.zero_le _, rfl⟩)
  · exact fun hmissed ranges hranges => agrees_of_not_missed hmissed hranges

/-- Two heads of two positions without starts. -/
def twoByTwo : HeadRangeCall where
  nKvHeads := 2
  group := 1
  headDim := 1
  capacity := 2
  cacheSeqLen := 2
  dtype := .f16
  kvStart := none
  scoresLen := none
  one_le := by decide
  seq_le := le_rfl
  starts := fun _ h => absurd h (Option.not_mem_none _)
  rows := fun _ h => absurd h (Option.not_mem_none _)

/-- The second head is handed the second slot of the first one by the call over all heads. -/
theorem not_agrees_twoByTwo : ¬ ∀ ranges, Consecutive twoByTwo.nHeadsQ 0 ranges →
    twoByTwo.Agrees ranges := by
  intro h
  have hfull : ∃ jobs, twoByTwo.full = .ok jobs ∧
    jobs ≠ (List.range twoByTwo.nHeadsQ).map twoByTwo.job :=
    ⟨[⟨⟨0, 4⟩, [⟨0, 2⟩, ⟨4, 2⟩], [⟨0, 2⟩, ⟨4, 2⟩], ⟨0, 4⟩, none⟩,
      ⟨⟨4, 4⟩, [⟨2, 2⟩, ⟨6, 2⟩], [⟨2, 2⟩, ⟨6, 2⟩], ⟨4, 4⟩, none⟩],
      by rfl, by decide⟩
  obtain ⟨jobs, hjobs, hne⟩ := hfull
  exact hne (h [(0, 2)] ⟨rfl, by decide, rfl⟩ jobs hjobs).1

end HeadRangeCall

end ArgusEngine.Layers
