import ArgusEngine.Attn.Flash
import ArgusEngine.Lib.RowMajor
import Mathlib.Analysis.SpecialFunctions.Pow.Real
import Mathlib.Analysis.SpecialFunctions.Trigonometric.Basic

/-!
# The operations of a layer

The host backend on row-major buffers of exact values: the products with the weights, the norms, the
rotation of the queries and keys, the activations. Every operation treats the rows of its operand
alike, save that the rotation knows the position of a row.

* `MathOps`: the functions of the standard library that the operations call;
* `matmulTransposed`, `rmsNorm`, `ropeInplace`, `siluMul`, `geluTanhMul`, `gather`;
* **`same_matmulTransposed`**, **`same_rmsNorm`**, **`same_ropeInplace`**: a row of the result
  depends on the same row of the operand only, and for the rotation on its position.
-/

namespace ArgusEngine.Forward

open Attn RowMajor

/-- The operations of `f32`, taken exactly. -/
structure MathOps (K : Type*) [Field K] [LinearOrder K] extends FloatOps K where
  sin : K → K
  cos : K → K
  tanh : K → K
  powf : K → K → K
  pi : K

/-- The operations on the reals. -/
noncomputable def MathOps.real : MathOps ℝ where
  toFloatOps := .real
  sin := Real.sin
  cos := Real.cos
  tanh := Real.tanh
  powf := fun x y => x ^ y
  pi := Real.pi

/-- A weight of `rows` output rows over `cols` inputs. -/
structure Weight (K : Type*) where
  rows : ℕ
  cols : ℕ
  data : ℕ → K

/-- `RopeFreqScaling`. -/
structure RopeFreqScaling (K : Type*) where
  factor : K
  lowFreqFactor : K
  highFreqFactor : K
  originalMaxPositionEmbeddings : K

variable {K : Type*} [Field K] [LinearOrder K]

/-- `RopeFreqScaling::NONE`. -/
def RopeFreqScaling.NONE : RopeFreqScaling K where
  factor := 1
  lowFreqFactor := 1
  highFreqFactor := 4
  originalMaxPositionEmbeddings := 8192

section Ops

variable (F : MathOps K)

/-- `scale_freq`. -/
def RopeFreqScaling.scaleFreq (s : RopeFreqScaling K) (freq : K) : K :=
  if s.factor = 1 then freq
  else
    let wavelen := 2 * F.pi / freq
    let lowWavelen := s.originalMaxPositionEmbeddings / s.lowFreqFactor
    let highWavelen := s.originalMaxPositionEmbeddings / s.highFreqFactor
    if wavelen > lowWavelen then freq / s.factor
    else if wavelen < highWavelen then freq
    else
      let span := s.highFreqFactor - s.lowFreqFactor
      if span = 0 then freq
      else
        let smooth := (s.originalMaxPositionEmbeddings / wavelen - s.lowFreqFactor) / span
        (1 - smooth) * freq / s.factor + smooth * freq

omit [LinearOrder K] in
/-- `matmul_transposed`. -/
def matmulTransposed (a : ℕ → K) (b : Weight K) : ℕ → K := fun x =>
  dot a b.data b.cols (x / b.rows * b.cols) (x % b.rows * b.cols)

omit [LinearOrder K] in
/-- `add_row_bias`. -/
def addRowBias (dim : ℕ) (x bias : ℕ → K) : ℕ → K := fun i => x i + bias (i % dim)

omit [LinearOrder K] in
/-- `add_assign`. -/
def addAssign (a b : ℕ → K) : ℕ → K := fun i => a i + b i

/-- `rms_norm`. -/
def rmsNorm (dim : ℕ) (x w : ℕ → K) (eps : K) (addUnit : Bool) : ℕ → K := fun i =>
  let sumSq := dot x x dim (i / dim * dim) (i / dim * dim)
  let rms := F.sqrt (sumSq / (dim : K) + eps)
  let scale := 1 / rms
  let wEff := if addUnit then 1 + w (i % dim) else w (i % dim)
  x i * scale * wEff

/-- `silu_mul`. -/
def siluMul (a b : ℕ → K) : ℕ → K := fun i => a i / (1 + F.exp (-a i)) * b i

/-- `gelu_tanh_mul`. -/
def geluTanhMul (gate up : ℕ → K) : ℕ → K := fun i =>
  let x := gate i
  let inner := F.sqrt (2 / F.pi) * (x + 44715 / 1000000 * x * x * x)
  1 / 2 * x * (1 + F.tanh inner) * up i

/-- The angle of a pair of dimensions at a position. -/
def ropeAngle (headDim : ℕ) (theta : K) (scaling : RopeFreqScaling K) (pos i : ℕ) : K :=
  (pos : K) * scaling.scaleFreq F (F.powf theta (-2 * (i : K) / (headDim : K)))

/-- `rope_inplace`, of heads of an even dimension: entry `i` of a head turns with entry `i +
head_dim / 2`. -/
def ropeInplace (headDim numHeads : ℕ) (x : ℕ → K) (startPos : ℕ) (theta : K)
    (scaling : RopeFreqScaling K) : ℕ → K :=
  fun i =>
    let halfDim := headDim / 2
    let pos := startPos + i / headDim / numHeads
    let d := i % headDim
    if d < halfDim then
      let val := ropeAngle F headDim theta scaling pos d
      x i * F.cos val - x (i + halfDim) * F.sin val
    else
      let val := ropeAngle F headDim theta scaling pos (d - halfDim)
      x (i - halfDim) * F.sin val + x i * F.cos val

omit [Field K] [LinearOrder K] in
/-- `gather`: an index past the table leaves its row as it was. -/
def gather (src : Weight K) (indices : List ℕ) (dst : ℕ → K) : ℕ → K := fun x =>
  match indices[x / src.cols]? with
  | some idx => if idx < src.rows then src.data (idx * src.cols + x % src.cols) else dst x
  | none => dst x

end Ops

/-! ## Row by row -/

section Rows

variable {F : MathOps K} {w i i' : ℕ} {x y : ℕ → K}

omit [LinearOrder K] in
theorem dot_congr {q q' k k' : ℕ → K} {n p p' r r' : ℕ} (hq : ∀ l < n, q (p + l) = q' (p' + l))
    (hk : ∀ l < n, k (r + l) = k' (r' + l)) : dot q k n p r = dot q' k' n p' r' := by
  unfold dot
  refine congrArg List.sum (List.map_congr_left fun l hl => ?_)
  rw [hq l (List.mem_range.mp hl), hk l (List.mem_range.mp hl)]

omit [LinearOrder K] in
/-- **Products.** -/
theorem same_matmulTransposed {b : Weight K} (h : SameRow b.cols i i' x y) :
    SameRow b.rows i i' (matmulTransposed x b) (matmulTransposed y b) := by
  intro j hj
  unfold matmulTransposed
  rw [div_row hj, div_row hj, mod_row hj, mod_row hj]
  exact dot_congr h fun _ _ => rfl

omit [LinearOrder K] in
theorem same_addRowBias {bias : ℕ → K} (h : SameRow w i i' x y) :
    SameRow w i i' (addRowBias w x bias) (addRowBias w y bias) := by
  intro j hj
  unfold addRowBias
  rw [h j hj, mod_row hj, mod_row hj]

omit [LinearOrder K] in
theorem same_addAssign {x' y' : ℕ → K} (h : SameRow w i i' x y) (h' : SameRow w i i' x' y') :
    SameRow w i i' (addAssign x x') (addAssign y y') := h.map₂ h' _

omit [LinearOrder K] in
theorem addAssign_comm (a b : ℕ → K) : addAssign a b = addAssign b a := funext fun _ => add_comm _ _

/-- **Norms.** -/
theorem same_rmsNorm {wt : ℕ → K} {eps : K} {addUnit : Bool} (h : SameRow w i i' x y) :
    SameRow w i i' (rmsNorm F w x wt eps addUnit) (rmsNorm F w y wt eps addUnit) := by
  intro j hj
  unfold rmsNorm
  rw [div_row hj, div_row hj, mod_row hj, mod_row hj, h j hj, dot_congr h h]

theorem same_rmsNorm_heads {headDim n : ℕ} {wt : ℕ → K} {eps : K} {addUnit : Bool}
    (h : SameRow (n * headDim) i i' x y) :
    SameRow (n * headDim) i i' (rmsNorm F headDim x wt eps addUnit)
      (rmsNorm F headDim y wt eps addUnit) :=
  SameRow.blocks fun _ hb => same_rmsNorm (h.block hb)

theorem same_siluMul {x' y' : ℕ → K} (h : SameRow w i i' x y) (h' : SameRow w i i' x' y') :
    SameRow w i i' (siluMul F x x') (siluMul F y y') := h.map₂ h' fun a b =>
      a / (1 + F.exp (-a)) * b

theorem same_geluTanhMul {x' y' : ℕ → K} (h : SameRow w i i' x y) (h' : SameRow w i i' x' y') :
    SameRow w i i' (geluTanhMul F x x') (geluTanhMul F y y') :=
  h.map₂ h' fun a b => 1 / 2 * a *
    (1 + F.tanh (F.sqrt (2 / F.pi) * (a + 44715 / 1000000 * a * a * a))) * b

/-- **The rotation**, of rows at the same position. -/
theorem same_ropeInplace {headDim n startPos startPos' : ℕ} {theta : K}
    {scaling : RopeFreqScaling K} (hpos : startPos + i = startPos' + i')
    (h : SameRow (n * headDim) i i' x y) :
    SameRow (n * headDim) i i' (ropeInplace F headDim n x startPos theta scaling)
      (ropeInplace F headDim n y startPos' theta scaling) := by
  refine SameRow.blocks fun b hb => ?_
  have hrow := h.block hb
  intro j hj
  unfold ropeInplace
  rw [div_row hj, div_row hj, mod_row hj, mod_row hj, div_row hb, div_row hb, hpos, hrow j hj]
  dsimp only
  split_ifs with hhalf
  · rw [Nat.add_assoc, Nat.add_assoc, hrow (j + headDim / 2) (by omega)]
  · have hsub : ∀ k, (k * headDim + j) - headDim / 2 = k * headDim + (j - headDim / 2) :=
      fun k => by omega
    rw [hsub, hsub, hrow (j - headDim / 2) (by omega)]

omit [Field K] [LinearOrder K] in
theorem gather_row {src : Weight K} {indices : List ℕ} {dst : ℕ → K} {idx : ℕ}
    (hi : indices[i]? = some idx) (hidx : idx < src.rows) :
    SameRow src.cols i idx (gather src indices dst) src.data := by
  intro j hj
  unfold gather
  rw [div_row hj, mod_row hj, hi]
  exact if_pos hidx

end Rows

end ArgusEngine.Forward
