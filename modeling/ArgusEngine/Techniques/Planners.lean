import ArgusEngine.Lib.Rounding
import ArgusEngine.Techniques.KeepTopK

/-!
# The score-based planners

H2O, PyramidKV and AdaKV read a layer through `StageCtx` and plan what the layer keeps: one list for
all heads, or one for each. The budgets of the last two come from `f64` and `f32` arithmetic,
rounded after each operation; a sum of two sizes wraps.

* `H2o.keepSpec`, with `H2o.partition` and `H2o.fromArgs`;
* `PyramidKv.keepSpec`, with `getLayerBudget`;
* `AdaKv.keepSpec`, with `adakvPerHeadKeep` and `adakvHeadCaps`.
-/

namespace ArgusEngine.Techniques

open Checked FlatMem

/-! ## What a planner reads -/

/-- The prefill attention of a layer: a row of `cols` keys for each of `rows` query heads. -/
structure PrefillAttention (F : Type) where
  rows : ℕ
  cols : ℕ
  read : ℕ → ℕ → F

def PrefillAttention.row {F : Type} (pfa : PrefillAttention F) (qh : ℕ) : List F :=
  (List.range pfa.cols).map (pfa.read qh)

/-- `StageCtx`: `prefillWindow` is the signal `"attn.prefill_window"`. -/
structure StageCtx (F : Type) where
  currentPos : ℕ
  headStart : ℕ → ℕ
  targetLen : ℕ
  nLayers : ℕ
  layerIdx : ℕ
  nKvHeads : ℕ
  protectedPrefix : ℕ
  importance : Option (List F)
  headScores : Option (ℕ → ℕ → F)
  prefillWindow : Option (PrefillAttention F)
  currentPos_lt : currentPos < 2 ^ 64
  headStart_le : ∀ h, headStart h ≤ currentPos

namespace StageCtx

variable {F : Type} (ctx : StageCtx F)

/-- `n_kv_heads().max(1)`. -/
def heads : ℕ := max ctx.nKvHeads 1

def headStarts : List ℕ := (List.range ctx.heads).map ctx.headStart

end StageCtx

/-- `KeepSpec`. -/
inductive KeepSpec where
  | layerWide (keep : List ℕ)
  | perHead (heads : List (List ℕ))

/-! ## H2O -/

/-- `Budget`. -/
inductive Budget where
  | absolute (hhSize recentSize : Fin (2 ^ 64))
  | fromTarget
  deriving DecidableEq

structure H2o where
  budget : Budget
  protectedPrefix : ℕ

/-- `str::parse::<usize>`: digits, after a sign. -/
def parseUsize (s : String) : Option (Fin (2 ^ 64)) :=
  let digits := match s.toList with
    | '+' :: cs => cs
    | cs => cs
  if digits.isEmpty || !digits.all Char.isDigit then none
  else
    let n := digits.foldl (fun n c => 10 * n + (c.toNat - '0'.toNat)) 0
    if h : n < 2 ^ 64 then some ⟨n, h⟩ else none

/-- `char::is_whitespace`. -/
def isWhitespace (c : Char) : Bool :=
  let n := c.toNat
  (9 ≤ n && n ≤ 13) || (0x2000 ≤ n && n ≤ 0x200a) ||
    [0x20, 0x85, 0xa0, 0x1680, 0x2028, 0x2029, 0x202f, 0x205f, 0x3000].contains n

/-- `str::trim`. -/
def trim (s : String) : List Char :=
  ((s.toList.dropWhile isWhitespace).reverse.dropWhile isWhitespace).reverse

/-- One argument of `parse_h2o_budgets`: the two sizes and whether the target is the budget. -/
def parseH2oArg (acc : Fin (2 ^ 64) × Fin (2 ^ 64) × Bool) (arg : String × String) :
    Fin (2 ^ 64) × Fin (2 ^ 64) × Bool :=
  match arg.1 with
  | "hh_size" => ((parseUsize arg.2).getD acc.1, acc.2)
  | "recent_size" => (acc.1, (parseUsize arg.2).getD acc.2.1, acc.2.2)
  | "budget" => (acc.1, acc.2.1, trim arg.2 = "target".toList)
  | _ => acc

def parseH2oBudgets (args : List (String × String)) : Budget :=
  let r := args.foldl parseH2oArg (0, 0, false)
  if r.2.2 then .fromTarget else .absolute r.1 r.2.1

/-- `Partition`. -/
structure Partition where
  prefixLen : ℕ
  hhBudget : ℕ
  recent : ℕ
  current : ℕ

section Lists

variable {F : Type} [LinearOrder F] (A : ScoreArith F) (p : Partition)

def Partition.keepListFrom (start : ℕ) (score : ℕ → F) : List ℕ :=
  compileKeepTopK ⟨start, p.current, p.prefixLen, p.recent, p.hhBudget⟩ score

/-- The whole budget goes to recency. -/
def Partition.keepListRecencyFrom (start : ℕ) : List ℕ :=
  compileKeepTopK ⟨start, p.current, p.prefixLen, (p.hhBudget + p.recent) % 2 ^ 64, 0⟩
    fun _ => A.ofNat 0

end Lists

namespace H2o

def fromArgs (protectedPrefix : ℕ) (args : List (String × String)) : H2o :=
  ⟨parseH2oBudgets args, protectedPrefix⟩

variable (s : H2o)

/-- The heavy and the recent size; `none` where there is no ask. -/
def sizes (current targetLen : ℕ) : Except (Fault Empty) (Option (ℕ × ℕ)) :=
  match s.budget with
  | .absolute hhSize recentSize => .ok (some (hhSize, recentSize))
  | .fromTarget =>
    if targetLen = 0 then .ok none
    else do
      let evictable := min targetLen current - min s.protectedPrefix current
      let recent ← sub evictable (evictable / 2)
      return some (evictable / 2, recent)

/-- `partition`: `none` within the budget. -/
def partition (current targetLen : ℕ) : Except (Fault Empty) (Option Partition) := do
  let prefixLen := min s.protectedPrefix current
  match ← s.sizes current targetLen with
  | none => return none
  | some (hhBudget, recent) =>
    let keepTotal := (prefixLen + hhBudget + recent) % 2 ^ 64
    if current ≤ keepTotal then return none
    else return some ⟨prefixLen, hhBudget, recent, current⟩

variable {F : Type} [LinearOrder F] (A : ScoreArith F) (ctx : StageCtx F)

/-- `keep_spec`. -/
def keepSpec : Except (Fault Empty) (Option KeepSpec) := do
  match ← s.partition ctx.currentPos ctx.targetLen with
  | none => return none
  | some p =>
    let headStart := ctx.headStarts
    let ragged := headStart.any fun start => decide (0 < start)
    match ctx.headScores with
    | some score =>
      let heads ← (List.range ctx.heads).mapM fun kvH => do
        let start ← get headStart kvH
        return p.keepListFrom start (score kvH)
      return some (.perHead heads)
    | none =>
      let list (start : ℕ) := match ctx.importance with
        | some imp => p.keepListFrom start fun pos => imp.getD pos (A.ofNat 0)
        | none => p.keepListRecencyFrom A start
      if ragged then return some (.perHead (headStart.map list))
      else return some (.layerWide (list 0))

end H2o

/-! ## PyramidKV -/

/-- An `f64` operation. -/
def f64 (x : ℚ) : ℚ := binary64.round x

/-- A value `as usize`. -/
def asUsize (x : ℤ) : ℕ := min x.toNat (2 ^ 64 - 1)

/-- `get_layer_budget`. -/
def getLayerBudget (qLen : ℕ) (compressionRatio : ℚ) (windowSize beta numLayers layerIdx : ℕ) : ℕ :=
  let q := f64 qLen
  let w := f64 windowSize
  let maxCapacityPrompt := f64 (w + f64 (q * f64 (1 - compressionRatio)))
  let minNum := f64 (f64 (maxCapacityPrompt - w) / beta)
  let maxNum := f64 (f64 (f64 (maxCapacityPrompt - w) * 2) - minNum)
  let bounds : ℚ × ℚ :=
    if f64 (q - w) ≤ maxNum then
      (f64 (q - w), f64 (f64 (f64 (maxCapacityPrompt - w) * 2) - f64 (q - w)))
    else (maxNum, minNum)
  let uniform := asUsize (halfEven (f64 (q * f64 (1 - compressionRatio))))
  if ¬ (bounds.1 ≤ q ∧ bounds.2 ≤ bounds.1 ∧ w ≤ bounds.2) then uniform
  else if numLayers ≤ 1 then uniform
  else
    let steps := f64 (f64 (bounds.1 - bounds.2) / f64 (f64 numLayers - 1))
    asUsize (halfEven (f64 (bounds.1 - f64 (f64 layerIdx * steps))))

/-- `PyramidKvConfig`; a ratio that is not a number counts as `0`. -/
structure PyramidKvConfig where
  compressionRatio : ℚ
  windowSize : ℕ
  kernelSize : ℕ
  beta : ℕ

/-- `effective_cr`. -/
def PyramidKvConfig.effectiveCr (c : PyramidKvConfig) (current targetLen : ℕ) : ℚ :=
  if 0 < c.compressionRatio then c.compressionRatio
  else if 0 < targetLen ∧ targetLen < current then f64 (1 - f64 (f64 targetLen / f64 current))
  else 0

structure PyramidKv where
  cfg : PyramidKvConfig

section Shared

variable {F : Type} [LinearOrder F] (A : ScoreArith F) (ctx : StageCtx F)

/-- The branch of the planners at or below the window: the most recent `nKept` positions. -/
def keepWindow (nKept : ℕ) : Except (Fault Empty) KeepSpec := do
  let current := ctx.currentPos
  let protectedLen := min ctx.protectedPrefix current
  if ctx.headStarts.all fun start => decide (start = 0) then
    let first ← sub current nKept
    return .layerWide (List.range protectedLen ++
      (List.range' first (current - first)).filter fun p => decide (protectedLen ≤ p))
  else
    return .perHead (ctx.headStarts.map fun start =>
      compileKeepTopK ⟨start, current, protectedLen, nKept, 0⟩ fun _ => A.ofNat 0)

/-- The branch of the planners without attention to rank by: importance, or recency. -/
def keepFallback (window nKept heavy : ℕ) : KeepSpec :=
  let current := ctx.currentPos
  let protectedLen := min ctx.protectedPrefix current
  let list (start : ℕ) := match ctx.importance with
    | some imp =>
      compileKeepTopK ⟨start, current, protectedLen, window, heavy⟩ fun pos =>
        imp.getD pos (A.ofNat 0)
    | none => compileKeepTopK ⟨start, current, protectedLen, nKept, 0⟩ fun _ => A.ofNat 0
  if ctx.headStarts.all fun start => decide (start = 0) then .layerWide (list 0)
  else .perHead (ctx.headStarts.map list)

/-- The attention that fits the geometry: a whole group of query heads for each KV head, and wide
enough. -/
def usablePfa (heavyLen : ℕ) : Option (PrefillAttention F) :=
  ctx.prefillWindow.filter fun pfa =>
    decide (ctx.heads ≤ pfa.rows ∧ pfa.rows % ctx.heads = 0 ∧ heavyLen ≤ pfa.cols)

end Shared

namespace PyramidKv

variable (s : PyramidKv) {F : Type} [LinearOrder F] (A : ScoreArith F) (ctx : StageCtx F)

/-- `keep_spec`. -/
def keepSpec : Except (Fault Empty) (Option KeepSpec) :=
  let current := ctx.currentPos
  if current = 0 then .ok none
  else
    let cr := s.cfg.effectiveCr current ctx.targetLen
    if cr ≤ 0 then .ok none
    else
      let rawBudget := getLayerBudget current cr s.cfg.windowSize s.cfg.beta
        ctx.nLayers ctx.layerIdx
      let window := min s.cfg.windowSize current
      let nKept := max 1 (min rawBudget current)
      if current ≤ nKept then .ok none
      else if nKept ≤ window then some <$> keepWindow A ctx nKept
      else do
        let heavy ← sub nKept window
        let heavyLen ← sub current window
        match usablePfa ctx heavyLen with
        | some pfa =>
          let heads ← snapkvPerHeadKeepFrom A
            ⟨pfa.rows, ctx.heads, pfa.cols, current, window, s.cfg.kernelSize, heavy,
            min ctx.protectedPrefix current⟩ pfa.row ctx.headStarts
          return some (.perHead heads)
        | none => return some (keepFallback A ctx window nKept heavy)

end PyramidKv

/-! ## AdaKV -/

inductive Pooling where
  | max
  | avg
  deriving DecidableEq

/-- `AdaKvConfig`; a ratio that is not a number counts as `0`, an `α` that is not one is `none`. -/
structure AdaKvConfig where
  compressionRatio : ℚ
  windowSize : ℕ
  kernelSize : ℕ
  pooling : Pooling
  floorAlpha : Option ℚ

/-- `adakv_budget`. -/
def adakvBudget (kLen : ℕ) (compressionRatio : ℚ) : ℕ :=
  asUsize ⌊f64 (f64 kLen * f64 (1 - compressionRatio))⌋

/-- An `f32` operation. -/
def f32 (x : ℚ) : ℚ := binary32.round x

/-- `adakv_head_caps`; no number is no capacity. -/
def adakvHeadCaps (counts : List ℕ) (base : ℕ) (floorAlpha : Option ℚ) : List ℕ :=
  counts.map fun (c : ℕ) => match floorAlpha with
    | none => 0
    | some alpha =>
      let floorCap := f32 ⌊f64 (f64 base * alpha)⌋
      let oneMinus := f32 (f64 (1 - alpha))
      asUsize (halfEven (f32 (f32 (f32 c * oneMinus) + floorCap)))

/-- `AdaKvSelect`. -/
structure AdaKvSelect where
  nQHeads : ℕ
  nKvHeads : ℕ
  cols : ℕ
  current : ℕ
  window : ℕ
  kernel : ℕ
  pooling : Pooling
  base : ℕ
  floorAlpha : Option ℚ
  protectedPrefix : ℕ

section AdaKvSelection

variable {F : Type} [LinearOrder F] (A : ScoreArith F) (spec : AdaKvSelect)

/-- Steps (1) to (3): the mean over the window and the group, pooled. -/
def adakvPooled (readQhead : ℕ → List F) (groups heavyLen kvh : ℕ) :
    Except (Fault Empty) (List F) := do
  let invWindow := A.div (A.ofNat 1) (A.ofNat (max spec.window 1))
  let invGroups := A.div (A.ofNat 1) (A.ofNat groups)
  let mKv ← (List.range groups).foldlM (fun acc g => do
    let row ← index (readQhead (kvh * groups + g)) 0 heavyLen
    return List.zipWith (fun a x => A.add a (A.mul x invWindow)) acc row)
      (List.replicate heavyLen (A.ofNat 0))
  let mKv := mKv.map fun x => A.mul x invGroups
  match spec.pooling with
  | .max => maxPool1d A mKv spec.kernel
  | .avg => avgPool1d A mKv spec.kernel

/-- Step (4): the heads compete for all heavy positions; how many each wins. -/
def adakvCounts (pooled : List (List F)) (headStart : List ℕ) (nKv heavyLen : ℕ) :
    Except (Fault Empty) (List ℕ) := do
  let regionStart (h : ℕ) := min ((headStart.getD h 0 + spec.protectedPrefix) % 2 ^ 64) heavyLen
  let flat := (List.range nKv).flatMap fun h =>
    (List.range' (regionStart h) (heavyLen - regionStart h)).map fun pos => (h, pos)
  let scored ← flat.mapM fun x => do
    let row ← get pooled x.1
    let score ← get row x.2
    return (x.1, score)
  let ranked := scored.mergeSort fun a b => decide (b.2 ≤ a.2)
  let nWin := min (nKv * spec.base % 2 ^ 64) flat.length
  let won ← index ranked 0 nWin
  won.foldlM (fun counts x => do
    let count ← get counts x.1
    return counts.set x.1 (count + 1)) (List.replicate nKv 0)

/-- `adakv_per_head_keep`: the capacities and the lists. -/
def adakvPerHeadKeep (readQhead : ℕ → List F) (headStart : List ℕ) :
    Except (Fault Empty) (List ℕ × List (List ℕ)) := do
  let nKv := max spec.nKvHeads 1
  let groups := max (spec.nQHeads / nKv) 1
  let heavyLen := spec.current - spec.window
  let pooled ← (List.range nKv).mapM fun kvh => adakvPooled A spec readQhead groups heavyLen kvh
  let counts ← adakvCounts spec pooled headStart nKv heavyLen
  let caps := adakvHeadCaps counts spec.base spec.floorAlpha
  let keeps ← (List.range nKv).mapM fun h => do
    let scores ← get pooled h
    let cap ← get caps h
    return compileKeepTopK
      ⟨min (headStart.getD h 0) spec.current, spec.current, spec.protectedPrefix, spec.window, cap⟩
      fun pos => scores.getD pos (A.ofNat 0)
  return (caps, keeps)

end AdaKvSelection

/-- `budget`: `none` is no compression. -/
def AdaKvConfig.budget (c : AdaKvConfig) (current targetLen : ℕ) : Option ℕ :=
  if 0 < c.compressionRatio then some (adakvBudget current c.compressionRatio)
  else if 0 < targetLen ∧ targetLen < current then some targetLen
  else none

structure AdaKv where
  cfg : AdaKvConfig

namespace AdaKv

variable (s : AdaKv) {F : Type} [LinearOrder F] (A : ScoreArith F) (ctx : StageCtx F)

/-- `keep_spec`. -/
def keepSpec : Except (Fault Empty) (Option KeepSpec) :=
  let current := ctx.currentPos
  if current = 0 then .ok none
  else match s.cfg.budget current ctx.targetLen with
  | none => .ok none
  | some rawBudget =>
    let window := min s.cfg.windowSize current
    let nKept := max 1 (min rawBudget current)
    if current ≤ nKept then .ok none
    else if nKept ≤ window then some <$> keepWindow A ctx nKept
    else do
      let base ← sub nKept window
      let heavyLen ← sub current window
      match usablePfa ctx heavyLen with
      | some pfa =>
        let (_, heads) ← adakvPerHeadKeep A
          ⟨pfa.rows, ctx.heads, pfa.cols, current, window, s.cfg.kernelSize, s.cfg.pooling,
          base, s.cfg.floorAlpha,
            min ctx.protectedPrefix current⟩
          pfa.row ctx.headStarts
        return some (.perHead heads)
      | none => return some (keepFallback A ctx window nKept base)

end AdaKv

end ArgusEngine.Techniques
