import ArgusEngine.Kv.Aperturb
import ArgusEngine.Kv.ModelHandle
import ArgusEngine.Kv.PrefillAttn
import ArgusEngine.Session.Dispatcher

/-!
# The chooser

`choose_and_apply` asks every candidate what it would retain, through the handle and without a
commit; scores the answers; and applies the lists of the winner, layer after layer. A candidate that
answers with more than the budget is asked again for less.

* `Candidate`, `Candidate.handle`: the callback of a technique and the handle it leaves;
* `planOne`, `planCalibrated`, `planPool`: the plans;
* `applyPlanned`, `applyLayers`: the plan of the winner, with the failures of the device;
* `chooseAndApply`.

The arithmetic of the scores and of the window attention is a parameter, `Metric`.
-/

namespace ArgusEngine

open KVCache

def CacheOpError.debug : CacheOpError → String
  | multipleCompactions => "MultipleCompactions"
  | invalidKeep => "InvalidKeep"
  | wrongContainer => "WrongContainer"
  | notOnHost => "NotOnHost"
  | unsupportedFormat name => s!"UnsupportedFormat({name.quote})"
  | invalidMerge => "InvalidMerge"
  | mergeAlreadyStaged => "MergeAlreadyStaged"
  | noResidencyBackend => "NoResidencyBackend"
  | notResident => "NotResident"

/-- `with_context`. -/
def Fail.context (text : String) : Fail → Fail
  | err cause => .err (text ++ ": " ++ cause)
  | panic cause => .panic cause

/-! ## The ring of query rows -/

/-- `QRowCapture`, without the rows themselves: the position each slot holds. -/
structure QRowCapture where
  rows : ℕ
  slotPos : List (Option ℕ)
  drift : ℕ
  deriving Repr, DecidableEq

namespace QRowCapture

variable (r : QRowCapture)

/-- `trailing_window`: the first position and the number of rows. -/
def trailingWindow (nResident : ℕ) : Option (ℕ × ℕ) :=
  let rEff := min r.rows nResident
  if rEff = 0 then none
  else
    let first := nResident + r.drift - rEff
    if (List.range' first rEff).any fun p => r.slotPos.getD (p % r.rows) none != some p then none
    else some (first, rEff)

def covers (nResident : ℕ) : Bool := (r.trailingWindow nResident).isSome

/-- `renumbered_to`: the gap between the newest row and the cursor. -/
def renumberedTo (resident : ℕ) : QRowCapture :=
  let clock := match (r.slotPos.filterMap id).max? with
    | none => 0
    | some p => p + 1
  { r with drift := clock - resident }

end QRowCapture

/-! ## Candidates -/

/-- The scores a callback is shown. -/
inductive StageScores (P : Platform) where
  /-- The mid-decode context. -/
  | decode (importance headScores lastAttn : Option (List P.F))
  /-- The prefill-end context: the attention of a layer, with its width as the cursor. -/
  | prefill (attn : List P.F) (nHeadsQ prefixLen : ℕ)

/-- `SnapshotStageCtx`: what a callback can read. -/
structure StageCtx (P : Platform) where
  cache : KVCache
  layerIdx : ℕ
  nLayers : ℕ
  targetLen : ℕ
  protectedPrefix : ℕ
  scores : StageScores P

inductive StageError where
  | failed (text : String)
  | panicked

/-- A technique: its callback makes calls of the handle, or fails. -/
structure Candidate (P : Platform) where
  name : String
  stageName : String
  readsPrefillAttn : Bool
  protectedPrefix : ℕ
  onPhase : StageCtx P → Except StageError (List (HandleCall P))

/-- The handle after the callback, not committed. -/
def Candidate.handle {P : Platform} (cand : Candidate P) (ctx : StageCtx P) :
    Except StageError (EngineCacheHandle P) :=
  (cand.onPhase ctx).map (runCalls (EngineCacheHandle.new ctx.cache ctx.layerIdx ctx.nLayers none))

/-- `PlannedKeep`. -/
inductive PlannedKeep where
  | layerWide (positions : List ℕ)
  | perHead (positions : List (List ℕ))
  deriving Repr, DecidableEq

namespace PlannedKeep

def head : PlannedKeep → ℕ → Option (List ℕ)
  | layerWide positions, _ => some positions
  | perHead positions, kvHead => positions[kvHead]?

/-- The call that makes it. -/
def call : PlannedKeep → KeepCall
  | layerWide positions => .keep positions
  | perHead positions => .keepPerHead positions

/-- The longest list of a per-head plan. -/
def longestHead : PlannedKeep → Option ℕ
  | layerWide _ => none
  | perHead positions => (positions.map List.length).max?

end PlannedKeep

/-- `planned_keep_of`: the staged keep of a handle. -/
def plannedKeepOf {P : Platform} (h : EngineCacheHandle P) : Option PlannedKeep :=
  match h.compaction with
  | some (.keep positions) => some (.layerWide positions)
  | some (.keepPerHead positions) => some (.perHead positions)
  | some (.offload _) => none
  | some .recallLayer => none
  | none => none

/-! ## Planning -/

/-- The scores and the captured attention of one decision. -/
structure Signals (P : Platform) where
  importance : Option (List P.F)
  headScores : Option (List P.F)
  lastAttn : Option (List P.F)
  prefillAttn : Option (PrefillAttn P.F)

/-- A plan that is not made: a failure, or a candidate that is excluded with a reason. -/
inductive NoPlan where
  | fail (e : Fail)
  | excluded (why : String)

/-- The numbers of one decision: how the host mirror is read, the window attention, and the
scores. -/
structure Metric (P : Platform) where
  Src : Type
  read : List KVCache → QRowCapture → Except Fail Src
  windowAttention : List KVCache → Src → Except Fail (List (List P.F))
  score : Src → KeepSets → Except Fail P.F
  lt : P.F → P.F → Bool

/-- `Selector`. -/
structure Selector (P : Platform) where
  candidates : List (Candidate P)
  basisLayers : ℕ
  basisD : ℕ
  nHeadsQ : ℕ
  metricRows : ℕ
  metric : Metric P
  nonempty : candidates ≠ []

/-- The context of a layer in a decision. -/
def stageCtx {P : Platform} (nHeadsQ : ℕ) (cand : Candidate P) (signals : Signals P)
    (layer nLayers ask : ℕ) (c : KVCache) : StageCtx P :=
  if cand.readsPrefillAttn then
    let attn := ((signals.prefillAttn.map PrefillAttn.rows).getD []).getD layer []
    ⟨c, layer, nLayers, ask, cand.protectedPrefix, .prefill attn nHeadsQ (attn.length / nHeadsQ)⟩
  else ⟨c, layer, nLayers, ask, 0, .decode signals.importance signals.headScores signals.lastAttn⟩

section Plan

variable {P : Platform} (nHeadsQ : ℕ) (cand : Candidate P) (signals : Signals P) (nLayers ask : ℕ)

/-- The keep that a callback stages, `kind` being the seam it is driven through. -/
def stagedKeep (kind panicked : String) (ctx : StageCtx P) : Except NoPlan (Option PlannedKeep) :=
  match cand.handle ctx with
  | .error (.failed e) =>
    .error (.fail (.err (kind ++ s!" stage '{cand.stageName}' failed: " ++ e)))
  | .error .panicked =>
    .error (.fail (.err (kind ++ s!" stage '{cand.stageName}' panicked during " ++ panicked)))
  | .ok h => .ok (plannedKeepOf h)

/-- `plan_mutation_layer`. -/
def planMutationLayer (layer : ℕ) (c : KVCache) : Except NoPlan (Option PlannedKeep) :=
  if c.currentPos = 0 then .ok none
  else stagedKeep cand "mutation" "on_phase/commit"
    (stageCtx nHeadsQ cand signals layer nLayers ask c)

/-- `plan_prefill_layer`, with `plan_prefill_keepset_layer`. -/
def planPrefillLayer (layer : ℕ) (c : KVCache) (attn : List P.F) :
    Except NoPlan (Option PlannedKeep) :=
  let resident := c.currentPos
  if nHeadsQ = 0 then .error (.excluded "the model reports no query heads")
  else
    let width := attn.length / nHeadsQ
    if width ≠ resident then .error (.excluded
      s!"layer {layer}: the window attention covers {width} positions but {resident} are resident")
    else if width = 0 ∨ c.currentPos = 0 then .ok none
    else stagedKeep cand "prefill keep-set" "on_phase"
      (stageCtx nHeadsQ cand signals layer nLayers ask c)

/-- The plan of one layer. -/
def planLayer (layer : ℕ) (c : KVCache) : Except NoPlan (Option PlannedKeep) :=
  if cand.readsPrefillAttn then
    match ((signals.prefillAttn.map PrefillAttn.rows).getD [])[layer]? with
    | none => .error (.fail (.panic "index out of bounds"))
    | some attn => planPrefillLayer nHeadsQ cand signals nLayers ask layer c attn
  else planMutationLayer nHeadsQ cand signals nLayers ask layer c

/-- The lists of a layer's plan, pushed head after head. -/
def pushHeads (layer : ℕ) (plan : PlannedKeep) (keep : KeepSets) (heads : List ℕ) :
    Except NoPlan KeepSets :=
  heads.foldlM (fun keep kvHead => match plan.head kvHead with
    | none =>
      .error (.excluded s!"layer {layer}: a per-head plan that does not cover KV head {kvHead}")
    | some list => match keep.push layer kvHead (list.map asU32) with
      | .error e => .error (.fail (.err e.text))
      | .ok keep => .ok keep) keep

/-- The loop of `plan_one` over the layers from `layer` on. -/
def planLayers (nKvHeads : ℕ) : ℕ → List KVCache → KeepSets →
    Except NoPlan (KeepSets × List PlannedKeep)
  | _, [], keep => .ok (keep, [])
  | layer, c :: cs, keep => do
    match ← planLayer nHeadsQ cand signals nLayers ask layer c with
    | none => .error (.excluded s!"staged no keep-set for layer {layer}")
    | some plan =>
      let keep ← pushHeads layer plan keep (List.range nKvHeads)
      let (keep, plans) ← planLayers nKvHeads (layer + 1) cs keep
      return (keep, plan :: plans)

/-- Whether a candidate that reads the prefill attention can be asked at all. -/
def prefillAvailable : Except NoPlan Unit :=
  if cand.readsPrefillAttn then
    match signals.prefillAttn.map PrefillAttn.rows with
    | none => .error (.excluded "reads prefill attention, which this run never captured")
    | some rows =>
      let captured := rows.length
      if captured ≥ nLayers then .ok () else .error (.excluded
        s!"reads prefill attention, but only {captured} of {nLayers} layers were captured")
  else .ok ()

end Plan

section Calibrate

variable {P : Platform} (nHeadsQ : ℕ) (cand : Candidate P) (signals : Signals P)
  (caches : List KVCache)

/-- `plan_one`: the lists of a candidate that is asked for `ask` positions, and its plan for each
layer. -/
def planOne (nKvHeads ask : ℕ) : Except NoPlan (KeepSets × List PlannedKeep) := do
  prefillAvailable cand signals caches.length
  let total := asUsizeWrapped (caches.length * nKvHeads * ask)
  let keep ← (KeepSets.withCapacity caches.length nKvHeads total).mapError NoPlan.fail
  (withCapacityU32 ask).mapError NoPlan.fail
  planLayers nHeadsQ cand signals caches.length ask nKvHeads 0 caches keep

/-- `MAX_BUDGET_PROBES`. -/
def MAX_BUDGET_PROBES : ℕ := 4

/-- The loop of `plan_calibrated`: the plan, and what it was asked for. -/
def calibrate (nKvHeads budgetTotal : ℕ) :
    ℕ → ℕ → ℕ → Except NoPlan (KeepSets × List PlannedKeep × ℕ)
  | 0, _, _ =>
    let probes := MAX_BUDGET_PROBES
    .error (.excluded
      (s!"still over the {budgetTotal}-position budget after {probes} asks — over budget, so its " ++
        "score is not comparable"))
  | probes + 1, ask, prevTotal => do
    let (keep, plans) ← planOne nHeadsQ cand signals caches nKvHeads ask
    let total := keep.total
    if total ≤ budgetTotal then return (keep, plans, ask)
    else if total ≥ prevTotal then
      .error (.excluded
        (s!"retains {total} of {budgetTotal} budgeted positions, and asking for less does not " ++
          "shrink it — its budget is not the one the contract names"))
    else
      let cells := max (min (caches.length * nKvHeads) (2 ^ 64 - 1)) 1
      let step := max ((total - budgetTotal + cells - 1) / cells) 1
      -- the next ask stays positive
      if ask ≤ step then
        .error (.excluded
          (s!"retains {total} of {budgetTotal} budgeted positions, and there is no smaller " ++
            "budget left to ask it for"))
      else calibrate nKvHeads budgetTotal probes (ask - step) total

/-- `plan_calibrated`. -/
def planCalibrated (targetLen budgetTotal nKvHeads : ℕ) :
    Except NoPlan (KeepSets × List PlannedKeep × ℕ) :=
  calibrate nHeadsQ cand signals caches nKvHeads budgetTotal MAX_BUDGET_PROBES
    targetLen (2 ^ 64 - 1)

end Calibrate

/-- A candidate of the pool: its lists, its plan for each layer and what it was asked for. -/
structure Planned (P : Platform) where
  cand : Candidate P
  keep : KeepSets
  plans : List PlannedKeep
  asked : ℕ

/-- One round of the planning loop: the entry of the pool, or why there is none. -/
def planEntry {P : Platform} (nHeadsQ : ℕ) (signals : Signals P) (caches : List KVCache)
    (currentPos targetLen budgetTotal nKvHeads : ℕ) (cand : Candidate P) :
    Except Fail (Except String (Planned P)) :=
  match planCalibrated nHeadsQ cand signals caches targetLen budgetTotal nKvHeads with
  | .error (.excluded why) => .ok (.error why)
  | .error (.fail (.err text)) => .ok (.error text)
  | .error (.fail (.panic text)) => .error (.panic text)
  | .ok (keep, plans, ask) => do
    match ← keep.validate currentPos with
    | some e => return .error e.text
    | none => return .ok ⟨cand, keep, plans, ask⟩

/-- The planning loop: the pool, and the excluded candidates with their reasons. -/
def planPool {P : Platform} (nHeadsQ : ℕ) (signals : Signals P) (caches : List KVCache)
    (currentPos targetLen budgetTotal nKvHeads : ℕ) :
    List (Candidate P) → Except Fail (List (Planned P) × List (String × String))
  | [] => .ok ([], [])
  | cand :: rest => do
    let entry ← planEntry nHeadsQ signals caches currentPos targetLen budgetTotal nKvHeads cand
    let (pool, excluded) ← planPool nHeadsQ signals caches currentPos targetLen
      budgetTotal nKvHeads rest
    return match entry with
      | .ok planned => (planned :: pool, excluded)
      | .error why => (pool, (cand.name, why) :: excluded)

/-! ## Applying -/

/-- A buffer move that fails: the text of the backend, and the cache it leaves. -/
structure DeviceFault where
  text : String
  torn : KVCache

/-- The moves of a compaction on a device that may fail in one of them. -/
def onDevice (fault : Option DeviceFault) (c : KVCache) (moved : Except Fail KVCache) :
    Except Fail Unit × KVCache :=
  match moved, fault with
  | .error e, _ => (.error e, c)
  | .ok c', none => (.ok (), c')
  | .ok _, some f => (.error (.err f.text), f.torn)

/-- `apply_per_head_keep_at`. -/
def applyPerHeadKeepAt (P : Platform) (fault : Option DeviceFault) (c : KVCache) (layer nLayers : ℕ)
    (heads : List (List ℕ)) (cursor : ℕ) : Except Fail Unit × KVCache :=
  match ((EngineCacheHandle.new c layer nLayers none : EngineCacheHandle P).keepPerHead
    heads).1 with
  | .error e => (.error (.err e.debug), c)
  | .ok () => onDevice fault c (commitPerHeadKeepAt c heads (some cursor))

/-- A keep of a layer through its own handle. -/
def applyKeep (P : Platform) (fault : Option DeviceFault) (c : KVCache) (layer nLayers : ℕ)
    (keep : KeepCall) : Except Fail Unit × KVCache :=
  let staged := keep.stage (EngineCacheHandle.new c layer nLayers none : EngineCacheHandle P)
  match staged.1 with
  | .error e => (.error (.err e.debug), c)
  | .ok () =>
    let committed := staged.2.commit
    onDevice fault c (committed.1.map fun _ => committed.2.1)

/-- `apply_planned`. -/
def applyPlanned (P : Platform) (fault : Option DeviceFault) (c : KVCache) (layer nLayers : ℕ)
    (plan : PlannedKeep) (sharedCursor : Option ℕ) : Except Fail Unit × KVCache :=
  match plan, sharedCursor with
  | .perHead heads, some cursor => applyPerHeadKeepAt P fault c layer nLayers heads cursor
  | .perHead heads, none => applyKeep P fault c layer nLayers (.keepPerHead heads)
  | .layerWide positions, _ => applyKeep P fault c layer nLayers (.keep positions)

/-- The loop over the layers from `layer` on; a layer that fails ends it, and the layers before are
compacted. -/
def applyLayers (P : Platform) (device : ℕ → Option DeviceFault) (name : String) (nLayers : ℕ)
    (plans : List PlannedKeep) (sharedCursor : Option ℕ) :
    ℕ → List KVCache → Except Fail Unit × List KVCache
  | _, [] => (.ok (), [])
  | layer, c :: cs =>
    match plans[layer]? with
    | none => (.error (.panic "index out of bounds"), c :: cs)
    | some plan =>
      match applyPlanned P (device layer) c layer nLayers plan sharedCursor with
      | (.error e, c') => (.error (e.context s!"applying '{name}' to layer {layer}"), c' :: cs)
      | (.ok (), c') =>
        let rest := applyLayers P device name nLayers plans sharedCursor (layer + 1) cs
        (rest.1, c' :: rest.2)

/-- The cursor that a per-head plan is right-aligned on in every layer. -/
def sharedCursorOf (plans : List PlannedKeep) (caches : List KVCache) : Option ℕ :=
  ((plans.mapM PlannedKeep.longestHead).bind List.max?).filter fun cursor =>
    caches.all fun c => decide (cursor ≤ c.currentPos)

/-! ## The choice -/

structure Arm (P : Platform) where
  name : String
  score : P.F
  keptTotal : ℕ
  asked : ℕ

/-- `Choice`, without the times. -/
structure Choice (P : Platform) where
  winner : String
  arms : List (Arm P)
  excluded : List (String × String)
  tokensBefore : ℕ
  tokensAfter : ℕ
  budgetTotal : ℕ
  targetLen : ℕ
  prefillAttn : Option (PrefillAttn P.F)

inductive NoChoice where
  | tooShort (resident rows : ℕ)
  | staleRows (resident : ℕ)
  | allExcluded (excluded : List (String × String))

/-- A target ratio: an `f32` value. -/
inductive Ratio where
  | finite (value : ℚ)
  | infinite (negative : Bool)
  | nan

/-- `(n as f32 * ratio) as usize`. -/
def Ratio.scaled (n : ℕ) : Ratio → ℕ
  | finite value => Session.asUsize (Session.f32 (Session.f32 n * value))
  | infinite negative => if n = 0 ∨ negative then 0 else 2 ^ 64 - 1
  | nan => 0

namespace KVCache

variable (c : KVCache)

def residentPositions : ℕ :=
  ((List.range c.kvHeads).map fun h => c.currentPos - c.headStartOf h).sum

/-- `resident_tokens`: the mean of the heads, rounded up. -/
def residentTokens : ℕ :=
  if c.kvHeads = 0 then c.currentPos else (c.residentPositions + c.kvHeads - 1) / c.kvHeads

end KVCache

/-- The mean of the layers. -/
def meanResident (caches : List KVCache) : ℕ :=
  Session.layerMeanResident (caches.map fun c => ⟨c.currentPos, c.residentTokens⟩)

instance (P : Platform) : Zero P.F := ⟨P.ofF32 [0, 0, 0, 0]⟩

/-- What a decision comes to before any cache is touched. -/
structure Verdict (P : Platform) where
  pool : List (Planned P)
  excluded : List (String × String)
  scores : List P.F
  winner : Planned P
  budgetTotal : ℕ
  targetLen : ℕ

namespace Selector

variable {P : Platform} (sel : Selector P)

/-- `new`: the pool is not empty. -/
def new (candidates : List (Candidate P)) (basisLayers basisD nHeadsQ : ℕ) (metric : Metric P) :
    Except Fail (Selector P) :=
  if h : candidates = [] then
    .error (.err "the candidate pool is empty — there is nothing to choose between")
  else .ok ⟨candidates, basisLayers, basisD, nHeadsQ, 2 ^ 64 - 1, metric, h⟩

/-- `with_metric_rows`. -/
def withMetricRows (rows : ℕ) : Selector P := { sel with metricRows := max rows 1 }

/-- What the candidates plan from: the window attention in place of the prompt capture. -/
def planSignals (caches : List KVCache) (src : sel.metric.Src) (signals : Signals P) :
    Except Fail (Signals P) :=
  if sel.candidates.any Candidate.readsPrefillAttn then do
    let rows ← sel.metric.windowAttention caches src
    return { signals with prefillAttn := some (.captured rows) }
  else .ok { signals with prefillAttn := none }

/-- The part of `choose_and_apply` that reads the cache: the plans, the scores and the winner. -/
def judge (c₀ : KVCache) (cs : List KVCache) (ratio : Ratio) (qRows : QRowCapture)
    (signals : Signals P) : Except Fail (Except NoChoice (Verdict P)) :=
  let caches := c₀ :: cs
  let nLayers := caches.length
  let currentPos := c₀.currentPos
  let nKvHeads := c₀.kvHeads
  let qDim := sel.nHeadsQ * c₀.headDim
  let covered := sel.basisLayers
  let projected := sel.basisD
  if sel.basisLayers ≠ nLayers then
    .error (.err s!"the output basis covers {covered} layers but the cache has {nLayers}")
  else if sel.basisD ≠ qDim then
    .error (.err
      s!"the output basis projects {projected} inputs but the query rows are {qDim} wide")
  else if min qRows.rows currentPos = 0 ∨ currentPos ≤ min qRows.rows currentPos then
    .ok (.error (.tooShort currentPos qRows.rows))
  else if !qRows.covers currentPos then .ok (.error (.staleRows currentPos))
  else do
    let targetLen := max (ratio.scaled currentPos) 1
    let budgetTotal := asUsizeWrapped (targetLen * nLayers * nKvHeads)
    let src ← sel.metric.read caches qRows
    let planSignals ← sel.planSignals caches src signals
    let (pool, excluded) ← planPool sel.nHeadsQ planSignals caches currentPos targetLen
      budgetTotal nKvHeads sel.candidates
    if pool = [] then return .error (.allExcluded excluded)
    else
      let rows := max (min (min qRows.rows currentPos) sel.metricRows) 1
      let (scores, winner) ← decideWinner (sel.metric.score src)
        sel.metric.lt ⟨nLayers, nKvHeads, currentPos, rows⟩
          sel.basisD qDim (fun l h => (caches[l]?.map fun c => c.headStartOf h).getD 0)
            (pool.map Planned.keep)
      match pool[winner]? with
      | none => .error (.panic "index out of bounds")
      | some w => return .ok ⟨pool, excluded, scores, w, budgetTotal, targetLen⟩

/-- The arms of a verdict. -/
def arms (v : Verdict P) : List (Arm P) :=
  List.zipWith (fun score (p : Planned P) => ⟨p.cand.name, score, p.keep.total, p.asked⟩)
    v.scores v.pool

/-- What `choose_and_apply` does to the caches, to the ring and to the capture. -/
structure Outcome (P : Platform) where
  result : Except Fail (Except NoChoice (Choice P))
  caches : List KVCache
  qRows : QRowCapture

/-- The carry of the prompt attention: `none` where there is nothing to carry, or it cannot be
carried. -/
def carry (signals : Signals P) (nKvHeads currentPos cursorAfter : ℕ) (plans : List PlannedKeep) :
    Except Fail (Option (PrefillAttn P.F)) :=
  match signals.prefillAttn with
  | none => .ok none
  | some attn =>
    if cursorAfter < currentPos then
      attn.gather cursorAfter sel.nHeadsQ nKvHeads fun l h => plans[l]?.bind fun p => p.head h
    else .ok none

/-- The part of `choose_and_apply` that writes. -/
def applyWinner (device : ℕ → Option DeviceFault) (c₀ : KVCache) (cs : List KVCache)
    (qRows : QRowCapture) (signals : Signals P) (v : Verdict P) : Outcome P :=
  let caches := c₀ :: cs
  let plans := v.winner.plans
  let applied := applyLayers P device v.winner.cand.name caches.length plans
    (sharedCursorOf plans caches) 0 caches
  match applied.1 with
  | .error e => ⟨.error e, applied.2, qRows⟩
  | .ok () =>
    let cursorAfter := (applied.2.head?.map KVCache.currentPos).getD 0
    let qRows' := if cursorAfter < c₀.currentPos then qRows.renumberedTo cursorAfter else qRows
    match sel.carry signals c₀.kvHeads c₀.currentPos cursorAfter plans with
    | .error e => ⟨.error e, applied.2, qRows'⟩
    | .ok prefillAttn =>
      ⟨.ok (.ok ⟨v.winner.cand.name, arms v, v.excluded, meanResident caches,
        meanResident applied.2, v.budgetTotal, v.targetLen, prefillAttn⟩), applied.2, qRows'⟩

/-- `choose_and_apply`. -/
def chooseAndApply (device : ℕ → Option DeviceFault) (caches : List KVCache) (ratio : Ratio)
    (qRows : QRowCapture) (signals : Signals P) : Outcome P :=
  match caches with
  | [] => ⟨.error (.err "no KV cache layers to compress"), [], qRows⟩
  | c₀ :: cs =>
    match sel.judge c₀ cs ratio qRows signals with
    | .error e => ⟨.error e, c₀ :: cs, qRows⟩
    | .ok (.error no) => ⟨.ok (.error no), c₀ :: cs, qRows⟩
    | .ok (.ok v) => sel.applyWinner device c₀ cs qRows signals v

end Selector

end ArgusEngine
