import ArgusEngine.Lib.Rounding
import Mathlib.Data.List.Induction

/-!
# The command dispatcher

Once a step `dispatch` takes the commands of the manager and submits compressions as stages; the
stages run, and `finalizeResults` answers. A budget is a fraction of `logicalLen`, the length the
context would have uncompressed, which the dispatcher reconstructs from two samples of the cursor of
layer 0 in each step.

Budgets and ratios are finite `f32` values; every `f32` operation rounds its exact result.

* `compressTargetLen`, `submitCompress`: what a directive asks for, and whether a stage is submitted
  for it;
* `isFolded`: the directives of a batch that a tighter one stands for;
* `apply`, `dispatch`, `finalizeResults`: a step;
* `submitCompress_cases`: a directive fits, submits a stage, or is turned down;
* **`applied_foldl`**: the answers, the pending directive and the requests that a batch leaves.
-/

namespace ArgusEngine.Session

/-- `EngineCommand`. -/
inductive EngineCommand where
  | kvCompress (budget : ℚ)
  | suspend
  | resume
  | restoreDefaults
  | gpuYield (every : ℕ)
  | gpuOffload (on : Bool)
deriving DecidableEq

/-- The command is a request to the partition switch. -/
def EngineCommand.isPartitionRequest : EngineCommand → Bool
  | .restoreDefaults => true
  | .gpuOffload _ => true
  | _ => false

/-- `CommandResult`. -/
inductive CommandResult where
  | ok
  | partialResult (achieved : ℚ) (reason : String)
  | rejected (reason : String)
deriving DecidableEq

/-- What the dispatcher reads of a layer's handle: `current_pos` and `resident_tokens`. -/
structure Layer where
  currentPos : ℕ
  residentTokens : ℕ
deriving DecidableEq

/-- A stage of the registry: the chooser over the candidate pool, or the configured technique. -/
inductive Stage where
  | aperturbSelect (targetLen : ℕ)
  | eviction (targetRatio : ℚ)
deriving DecidableEq

/-- `LoopControl`. -/
structure LoopControl where
  suspended : Bool := false
  resumed : Bool := false
  restoreDefaults : Bool := false
deriving DecidableEq

/-- `TpSwitch`, less the closure that applies it. -/
structure TpSwitch where
  startOn : Bool
  on : Bool
deriving DecidableEq

/-- `PendingCompress`. -/
structure PendingCompress where
  resultIdx : ℕ
  budget : ℚ
  logicalLen : ℕ
  tokensBefore : ℕ
deriving DecidableEq

/-- `CommandDispatcher`: whether a cache manager and a candidate pool are configured, the seed of
the yield interval, and the state. The registry and the yield interval are shared with the
driver. -/
structure CommandDispatcher where
  cacheManager : Bool
  aperturb : Bool
  yieldSeed : ℕ
  registry : List Stage := []
  yieldEvery : ℕ := yieldSeed
  control : LoopControl := {}
  lastEvictRatio : Option ℚ := none
  logicalLen : ℕ := 0
  lastSeenPos : ℕ := 0
  lastResults : List CommandResult := []
  pendingCompress : Option PendingCompress := none
  resultIdx : ℕ := 0
  tpSwitch : Option TpSwitch := none
  tpTarget : Option (Bool × Option ℕ) := none

/-! ## Lengths and budgets -/

/-- `n as f32`, and the rounding of an `f32` operation. -/
def f32 (x : ℚ) : ℚ := binary32.round x

def f64 (x : ℚ) : ℚ := binary64.round x

/-- `x as usize`: truncated, with saturation. -/
def asUsize (x : ℚ) : ℕ := min ⌊x⌋.toNat (2 ^ 64 - 1)

/-- `MIN_EVICT_FRACTION`. -/
def MIN_EVICT_FRACTION : ℚ := f32 (1 / 5)

/-- `KV_COMPRESS_MIN_TOKENS`. -/
def KV_COMPRESS_MIN_TOKENS : ℕ := 128

/-- `MIN_EVICT_TOKENS`. -/
def MIN_EVICT_TOKENS : ℕ := 64

/-- `layer_mean_resident`: the mean of the layers, rounded up. -/
def layerMeanResident (layers : List Layer) : ℕ :=
  if layers = [] then 0 else ((layers.map Layer.residentTokens).sum + layers.length - 1) /
    layers.length

/-- `compress_target_len`. -/
def compressTargetLen (logicalLen : ℕ) (budget : ℚ) : ℕ :=
  max (max (asUsize (f32 (f32 logicalLen * budget))) (min KV_COMPRESS_MIN_TOKENS logicalLen)) 1

/-- `evict_floor_tokens`. -/
def evictFloorTokens (resident : ℕ) : ℕ := asUsize (f32 (f32 resident * MIN_EVICT_FRACTION))

/-- `skip_frac_display`. -/
def skipFracDisplay (targetLen resident : ℕ) : ℚ :=
  let frac := f64 (1 - f64 (f64 targetLen / f64 resident))
  f32 (f64 (⌊f64 (frac * 1000)⌋ / 1000))

/-- `{:.1}`. -/
def oneDecimal (x : ℚ) : String :=
  let tenths := halfEven (x * 10)
  s!"{tenths / 10}.{tenths % 10}"

/-! ## One directive -/

namespace CommandDispatcher

variable (d : CommandDispatcher) (layers : List Layer)

/-- `observe_context`: growth of the cursor of layer 0 counts, a drop does not, and 0 is a new
sequence. -/
def observeContext : CommandDispatcher :=
  match layers.head? with
  | none => d
  | some l =>
    if l.currentPos = 0 then { d with logicalLen := 0, lastSeenPos := l.currentPos }
    else { d with
      logicalLen := d.logicalLen + (l.currentPos - d.lastSeenPos)
      lastSeenPos := l.currentPos }

/-- The stage of a directive, where one is configured. -/
def stageFor (targetLen resident : ℕ) : Option Stage :=
  if d.aperturb then some (.aperturbSelect targetLen)
  else if d.cacheManager then some (.eviction (f32 (f32 targetLen / f32 resident)))
  else none

/-- `submit_compress`. -/
def submitCompress (budget : ℚ) : CommandDispatcher × CommandResult :=
  if layers = [] then (d, .rejected "no kv cache handles are registered")
  else
    let resident := layerMeanResident layers
    let targetLen := compressTargetLen d.logicalLen budget
    if resident ≤ targetLen then ({ d with lastEvictRatio := some budget }, .ok)
    else if resident - targetLen < evictFloorTokens resident then
      let frac := skipFracDisplay targetLen resident
      (d, .partialResult (if d.logicalLen = 0 then 0 else f32 (f32 resident / f32 d.logicalLen))
        (s!"eviction declined: the requested reduction was {oneDecimal (f32 (frac * 100))}% of the "
          ++ s!"resident length, below the {oneDecimal (f32 (MIN_EVICT_FRACTION * 100))}% floor"))
    else
      match d.stageFor targetLen resident with
      | none => (d, .rejected "kv cache manager is not configured")
      | some stage =>
        ({ d with
          lastEvictRatio := some budget
          pendingCompress := some ⟨d.resultIdx, budget, d.logicalLen, resident⟩
          registry := d.registry ++ [stage] }, .ok)

/-- `apply`: one command. -/
def apply : EngineCommand → CommandDispatcher × CommandResult
  | .kvCompress budget => d.submitCompress layers budget
  | .suspend => ({ d with control := { d.control with suspended := true } }, .ok)
  | .resume => ({ d with control := { d.control with resumed := true } }, .ok)
  | .restoreDefaults =>
    ({ d with
      control := { d.control with restoreDefaults := true }
      lastEvictRatio := none
      yieldEvery := d.yieldSeed
      tpTarget := match d.tpSwitch with
        | some sw => some (sw.startOn, none)
        | none => d.tpTarget }, .ok)
  | .gpuYield every => ({ d with yieldEvery := every }, .ok)
  | .gpuOffload on =>
    if d.tpSwitch = none then
      (d, .rejected "tensor partition was not prepared at start (--tensor-partition)")
    else ({ d with tpTarget := some (on, some d.resultIdx) }, .ok)

/-- `can_compress`. -/
def canCompress : Bool := layers ≠ [] && (d.aperturb || d.cacheManager)

end CommandDispatcher

/-! ## Folded directives -/

/-- The budget of a compression. -/
def EngineCommand.budget? : EngineCommand → Option ℚ
  | .kvCompress budget => some budget
  | _ => none

/-- The compressions among the commands from `start` on, up to `stop`. -/
def compressIndices (cmds : List EngineCommand) (start stop : ℕ) : List (ℕ × ℚ) :=
  (List.range' start (stop - start)).filterMap fun idx =>
    (cmds[idx]?.bind EngineCommand.budget?).map fun budget => (idx, budget)

/-- The last of the directives with the least budget. -/
def chosen : ℕ × ℚ → List (ℕ × ℚ) → ℕ × ℚ
  | best, [] => best
  | best, c :: cs => chosen (if c.2 ≤ best.2 then c else best) cs

/-- Marks the directives of a segment that the chosen one stands for. -/
def foldSegment (cmds : List EngineCommand) (start stop : ℕ) (folded : List Bool) : List Bool :=
  match compressIndices cmds start stop with
  | c :: c' :: cs =>
    (c :: c' :: cs).foldl
      (fun folded x => if x.1 = (chosen c (c' :: cs)).1 then folded else folded.set x.1 true) folded
  | _ => folded

/-- One turn of the segment loop: a segment ends at `RestoreDefaults` and behind the last
command. -/
def foldTurn (cmds : List EngineCommand) (s : ℕ × List Bool) (i : ℕ) : ℕ × List Bool :=
  if i = cmds.length ∨ cmds[i]? = some .restoreDefaults
    then (i + 1, foldSegment cmds s.1 i s.2) else s

/-- `is_folded`. -/
def isFolded (cmds : List EngineCommand) : List Bool :=
  ((List.range (cmds.length + 1)).foldl (foldTurn cmds) (0, List.replicate cmds.length false)).2

/-! ## A step -/

namespace CommandDispatcher

variable (d : CommandDispatcher) (layers : List Layer)

/-- One turn of the command loop: a folded directive is answered without being applied. -/
def applyOne (d : CommandDispatcher) (x : EngineCommand × Bool) : CommandDispatcher :=
  let d := { d with resultIdx := d.lastResults.length }
  let (d, r) := if x.2 then (d, .ok) else d.apply layers x.1
  { d with lastResults := d.lastResults ++ [r] }

/-- `apply_tp_target`, with the closure of the switch. -/
def applyTpTarget (switchApply : Bool → Except String Unit) : CommandDispatcher :=
  match d.tpTarget, d.tpSwitch with
  | some (want, idx), some sw =>
    let d := { d with tpTarget := none }
    if want = sw.on then d
    else
      match switchApply want with
      | .ok _ => { d with tpSwitch := some { sw with on := want } }
      | .error e =>
        { d with
          tpSwitch := some { sw with on := false }
          lastResults := match idx with
            | some i =>
              d.lastResults.set i (.rejected s!"tensor partition could not be applied: {e}")
            | none => d.lastResults }
  | _, _ => { d with tpTarget := none }

/-- The folded directives of a batch; without a way to compress there are none. -/
def foldedIn (cmds : List EngineCommand) : List Bool :=
  if d.canCompress layers then isFolded cmds else List.replicate cmds.length false

/-- The state in which the commands of a step are applied. -/
def cleared : CommandDispatcher :=
  { d with control := {}, lastResults := [], pendingCompress := none, tpTarget := none }

/-- `dispatch`. -/
def dispatch (switchApply : Bool → Except String Unit) (cmds : List EngineCommand) :
    CommandDispatcher :=
  let d := d.observeContext layers
  ((cmds.zip (d.foldedIn layers cmds)).foldl (applyOne layers) d.cleared).applyTpTarget switchApply

/-- `compress_outcome`: what a submitted compression achieved, read back from the layers. -/
def compressOutcome (p : PendingCompress) : Option CommandResult :=
  if layers = [] ∨ p.logicalLen = 0 then none
  else
    let after := layerMeanResident layers
    let achieved := f32 (f32 after / f32 p.logicalLen)
    let slack := f32 (1 / f32 p.logicalLen)
    if achieved ≤ f32 (p.budget + slack) then some .ok
    else some (.partialResult achieved
      (if after = p.tokensBefore then
        s!"eviction declined: fewer than {MIN_EVICT_TOKENS} tokens would have been removed"
      else "eviction stopped short of the requested budget"))

/-- `finalize_results`. -/
def finalizeResults : CommandDispatcher × List CommandResult :=
  let results :=
    match d.pendingCompress with
    | some p =>
      match compressOutcome layers p with
      | some r => d.lastResults.set p.resultIdx r
      | none => d.lastResults
    | none => d.lastResults
  ({ d with pendingCompress := none, lastResults := [] }.observeContext layers, results)

/-! ## What a directive does -/

variable {d layers}

/-- A stage is submitted for the budget. -/
@[mk_iff]
structure Submits (d : CommandDispatcher) (layers : List Layer) (budget : ℚ) : Prop where
  handles : layers ≠ []
  outside : compressTargetLen d.logicalLen budget < layerMeanResident layers
  worthwhile : evictFloorTokens (layerMeanResident layers) ≤
    layerMeanResident layers - compressTargetLen d.logicalLen budget
  configured : d.aperturb = true ∨ d.cacheManager = true

/-- The fields that no command changes. -/
structure Frame (d d' : CommandDispatcher) : Prop where
  cacheManager : d'.cacheManager = d.cacheManager
  aperturb : d'.aperturb = d.aperturb
  logicalLen : d'.logicalLen = d.logicalLen
  lastSeenPos : d'.lastSeenPos = d.lastSeenPos
  tpSwitch : d'.tpSwitch = d.tpSwitch

theorem exists_stageFor (h : d.aperturb = true ∨ d.cacheManager = true) (targetLen resident : ℕ) :
    ∃ stage, d.stageFor targetLen resident = some stage := by
  unfold stageFor
  split_ifs with ha hc
  · exact ⟨_, rfl⟩
  · exact ⟨_, rfl⟩
  · exact absurd h (by simp [ha, hc])

/-- **What `submit_compress` does**: the cache fits, a stage is submitted, or the directive is
turned down. -/
theorem submitCompress_cases (d : CommandDispatcher) (layers : List Layer) (budget : ℚ) :
    (layers ≠ [] ∧ layerMeanResident layers ≤ compressTargetLen d.logicalLen budget ∧
      d.submitCompress layers budget = ({ d with lastEvictRatio := some budget }, .ok)) ∨
    (d.Submits layers budget ∧ ∃ stage, d.submitCompress layers budget =
      ({ d with
        lastEvictRatio := some budget
        pendingCompress := some ⟨d.resultIdx, budget, d.logicalLen, layerMeanResident layers⟩
        registry := d.registry ++ [stage] }, .ok)) ∨
    (¬ d.Submits layers budget ∧ (d.submitCompress layers budget).1 = d ∧
      (d.submitCompress layers budget).2 ≠ .ok) := by
  unfold submitCompress
  by_cases hlayers : layers = []
  · refine .inr (.inr ⟨fun h => h.handles hlayers, ?_⟩)
    rw [if_pos hlayers]
    exact ⟨rfl, nofun⟩
  rw [if_neg hlayers]
  by_cases hfits : layerMeanResident layers ≤ compressTargetLen d.logicalLen budget
  · exact .inl ⟨hlayers, hfits, if_pos hfits⟩
  dsimp only
  rw [if_neg hfits]
  by_cases hfloor : layerMeanResident layers - compressTargetLen d.logicalLen budget <
      evictFloorTokens (layerMeanResident layers)
  · refine .inr (.inr ⟨fun h => Nat.not_lt.mpr h.worthwhile hfloor, ?_⟩)
    rw [if_pos hfloor]
    exact ⟨rfl, nofun⟩
  rw [if_neg hfloor]
  by_cases hconf : d.aperturb = true ∨ d.cacheManager = true
  · obtain ⟨stage, hstage⟩ := exists_stageFor hconf (compressTargetLen d.logicalLen budget)
      (layerMeanResident layers)
    refine .inr (.inl ⟨⟨hlayers, Nat.not_le.mp hfits, Nat.not_lt.mp hfloor, hconf⟩, stage, ?_⟩)
    rw [hstage]
  · refine .inr (.inr ⟨fun h => hconf h.configured, ?_⟩)
    have hnone : d.stageFor (compressTargetLen d.logicalLen budget)
      (layerMeanResident layers) = none := by
      rw [stageFor, if_neg fun h => hconf (.inl h), if_neg fun h => hconf (.inr h)]
    rw [hnone]
    exact ⟨rfl, nofun⟩

/-! ## What a batch does -/

/-- The answer to a command before the stages run. -/
def answer (d : CommandDispatcher) (layers : List Layer) (x : EngineCommand × Bool) :
    CommandResult :=
  if x.2 then .ok else (d.apply layers x.1).2

theorem Frame.refl (d : CommandDispatcher) : Frame d d := ⟨rfl, rfl, rfl, rfl, rfl⟩

theorem Frame.trans {d d' d'' : CommandDispatcher} (h : Frame d d') (h' : Frame d' d'') :
    Frame d d'' :=
  ⟨h'.cacheManager.trans h.cacheManager, h'.aperturb.trans h.aperturb,
    h'.logicalLen.trans h.logicalLen, h'.lastSeenPos.trans h.lastSeenPos,
    h'.tpSwitch.trans h.tpSwitch⟩

theorem Frame.submits {d d' : CommandDispatcher} (h : Frame d d') {budget : ℚ} :
    d'.Submits layers budget ↔ d.Submits layers budget := by
  rw [submits_iff, submits_iff, h.logicalLen, h.aperturb, h.cacheManager]

theorem Frame.answer {d d' : CommandDispatcher} (h : Frame d d') (x : EngineCommand × Bool) :
    d'.answer layers x = d.answer layers x := by
  obtain ⟨cmd, folded⟩ := x
  cases folded with
  | true => rfl
  | false =>
    cases cmd with
    | kvCompress budget =>
      simp only [CommandDispatcher.answer, apply, submitCompress, stageFor, h.logicalLen,
        h.aperturb, h.cacheManager]
      split_ifs <;> rfl
    | gpuOffload on =>
      simp only [CommandDispatcher.answer, apply, h.tpSwitch]
      split_ifs <;> rfl
    | _ => rfl

/-- **What the command loop leaves** behind the commands `done`. -/
structure Applied (d : CommandDispatcher) (layers : List Layer) (done : List (EngineCommand × Bool))
    (d' : CommandDispatcher) : Prop where
  frame : Frame d d'
  results : d'.lastResults = done.map (d.answer layers)
  pending : ∀ p, d'.pendingCompress = some p →
    done[p.resultIdx]? = some (.kvCompress p.budget, false) ∧ d.Submits layers p.budget ∧
    p.logicalLen = d.logicalLen ∧ ∀ (j : ℕ) (budget : ℚ), p.resultIdx < j →
    done[j]? = some (.kvCompress budget, false) → ¬ d.Submits layers budget
  noPending : d'.pendingCompress = none →
    ∀ (j : ℕ) (budget : ℚ), done[j]? = some (.kvCompress budget, false) → ¬ d.Submits layers budget
  target : d.tpSwitch ≠ none → ∀ (i : ℕ) (on : Bool), done[i]? = some (.gpuOffload on, false) →
    (∀ (j : ℕ) x, i < j → done[j]? = some x → x.1.isPartitionRequest = false) →
    d'.tpTarget = some (on, some i)
  targetIdx : ∀ want i, d'.tpTarget = some (want, some i) →
    done[i]? = some (.gpuOffload want, false)
  registry : (∀ (j : ℕ) (budget : ℚ), done[j]? = some (.kvCompress budget, false) →
    ¬ d.Submits layers budget) → d'.registry = d.registry

/-- **What one command does.** -/
structure AppliedOne (d : CommandDispatcher) (layers : List Layer) (x : EngineCommand × Bool)
    (d' : CommandDispatcher) : Prop where
  frame : Frame d d'
  results : d'.lastResults = d.lastResults ++ [d.answer layers x]
  submits : ∀ budget, x = (.kvCompress budget, false) → d.Submits layers budget →
    d'.pendingCompress = some ⟨d.lastResults.length, budget, d.logicalLen, layerMeanResident layers⟩
  keeps : (∀ budget, x = (.kvCompress budget, false) → ¬ d.Submits layers budget) →
    d'.pendingCompress = d.pendingCompress ∧ d'.registry = d.registry
  other : x.1.isPartitionRequest = false → d'.tpTarget = d.tpTarget
  offload : d.tpSwitch ≠ none → ∀ on, x = (.gpuOffload on, false) →
    d'.tpTarget = some (on, some d.lastResults.length)
  target : ∀ want i, d'.tpTarget = some (want, some i) → d.tpTarget = some (want, some i) ∨
    (i = d.lastResults.length ∧ x = (.gpuOffload want, false))

theorem applyOne_unfolded (d : CommandDispatcher) (layers : List Layer) (cmd : EngineCommand) :
    applyOne layers d (cmd, false) =
      { ({ d with resultIdx := d.lastResults.length }.apply layers cmd).1 with
        lastResults := ({ d with resultIdx := d.lastResults.length }.apply layers
          cmd).1.lastResults ++ [d.answer layers (cmd, false)] } := by
  have hframe : Frame d { d with resultIdx := d.lastResults.length } := ⟨rfl, rfl, rfl, rfl, rfl⟩
  rw [← hframe.answer]
  rfl

theorem appliedOne_applyOne (d : CommandDispatcher) (layers : List Layer)
    (x : EngineCommand × Bool) : AppliedOne d layers x (applyOne layers d x) := by
  obtain ⟨cmd, folded⟩ := x
  cases folded with
  | true =>
    exact ⟨⟨rfl, rfl, rfl, rfl, rfl⟩, rfl, nofun, fun _ => ⟨rfl, rfl⟩, fun _ => rfl, fun _ => nofun,
          fun _ _ => .inl⟩
  | false =>
    rw [applyOne_unfolded]
    cases cmd with
    | kvCompress budget =>
      have hframe : Frame d { d with resultIdx := d.lastResults.length } :=
        ⟨rfl, rfl, rfl, rfl, rfl⟩
      rw [apply]
      rcases submitCompress_cases { d with resultIdx := d.lastResults.length } layers budget with
        ⟨-, hfits, heq⟩ | ⟨hsub, stage, heq⟩ | ⟨hnot, heq, -⟩
      · rw [heq]
        refine ⟨⟨rfl, rfl, rfl, rfl, rfl⟩, rfl, fun b hb hs => ?_, fun _ => ⟨rfl, rfl⟩, fun _ =>
          rfl, fun _ => nofun, fun _ _ => .inl⟩
        obtain rfl : budget = b := by simpa using hb
        exact absurd hs.outside (Nat.not_lt.mpr hfits)
      · rw [heq]
        refine ⟨⟨rfl, rfl, rfl, rfl, rfl⟩, rfl, fun b hb _ => ?_, fun hnot => ?_, fun _ =>
          rfl, fun _ => nofun, fun _ _ => .inl⟩
        · obtain rfl : budget = b := by simpa using hb
          rfl
        · exact absurd (hframe.submits.mp hsub) (hnot budget rfl)
      · rw [heq]
        refine ⟨⟨rfl, rfl, rfl, rfl, rfl⟩, rfl, fun b hb hs => ?_, fun _ => ⟨rfl, rfl⟩, fun _ =>
          rfl, fun _ => nofun, fun _ _ => .inl⟩
        obtain rfl : budget = b := by simpa using hb
        exact absurd (hframe.submits.mpr hs) hnot
    | gpuOffload on =>
      by_cases hsw : d.tpSwitch = none
      · rw [apply, if_pos hsw]
        exact ⟨⟨rfl, rfl, rfl, rfl, rfl⟩, rfl, nofun, fun _ => ⟨rfl, rfl⟩, fun _ => rfl,
          fun h => absurd hsw h, fun _ _ => .inl⟩
      · rw [apply, if_neg hsw]
        refine ⟨⟨rfl, rfl, rfl, rfl, rfl⟩, rfl, nofun, fun _ => ⟨rfl, rfl⟩, nofun, fun _ b hb => ?_,
          fun want i hi => ?_⟩
        · obtain rfl : on = b := by simpa using hb
          rfl
        · obtain ⟨rfl, rfl⟩ : on = want ∧ d.lastResults.length = i := by simpa using hi
          exact .inr ⟨rfl, rfl⟩
    | restoreDefaults =>
      refine ⟨⟨rfl, rfl, rfl, rfl, rfl⟩, rfl, nofun, fun _ => ⟨rfl, rfl⟩, nofun, fun _ => nofun,
        fun want i hi => ?_⟩
      rw [apply] at hi
      dsimp only at hi
      split at hi
      · cases hi
      · exact .inl hi
    | suspend | resume | gpuYield every =>
      exact ⟨⟨rfl, rfl, rfl, rfl, rfl⟩, rfl, nofun, fun _ => ⟨rfl, rfl⟩, fun _ => rfl, fun _ =>
        nofun, fun _ _ => .inl⟩

theorem getElem?_done {done : List (EngineCommand × Bool)} {x y : EngineCommand × Bool} {i : ℕ}
    (h : (done ++ [x])[i]? = some y) : done[i]? = some y ∨ (i = done.length ∧ x = y) := by
  rcases Nat.lt_trichotomy i done.length with hlt | heq | hgt
  · rw [List.getElem?_append_left hlt] at h
    exact .inl h
  · subst heq
    rw [List.getElem?_concat_length] at h
    exact .inr ⟨rfl, Option.some.inj h⟩
  · rw [List.getElem?_eq_none (by rw [List.length_append, List.length_singleton]; omega)] at h
    cases h

theorem getElem?_of_done {done : List (EngineCommand × Bool)} {y : EngineCommand × Bool} {i : ℕ}
    (h : done[i]? = some y) (x : EngineCommand × Bool) : (done ++ [x])[i]? = some y := by
  rw [List.getElem?_append_left (List.getElem?_eq_some_iff.mp h).1, h]

/-- The last directive that submits is the pending one. -/
theorem Applied.step {done : List (EngineCommand × Bool)} {d' : CommandDispatcher}
    (h : Applied d layers done d') (x : EngineCommand × Bool) :
    Applied d layers (done ++ [x]) (applyOne layers d' x) := by
  have hone := appliedOne_applyOne d' layers x
  have hlen : d'.lastResults.length = done.length := by rw [h.results, List.length_map]
  have htarget : ∀ want i, (applyOne layers d' x).tpTarget = some (want, some i) →
      (done ++ [x])[i]? = some (.gpuOffload want, false) := by
    intro want i hi
    rcases hone.target want i hi with hbefore | ⟨rfl, rfl⟩
    · exact getElem?_of_done (h.targetIdx want i hbefore) x
    · rw [hlen, List.getElem?_concat_length]
  by_cases hsub : ∃ budget, x = (.kvCompress budget, false) ∧ d.Submits layers budget
  · obtain ⟨budget, rfl, hs⟩ := hsub
    have hpending := hone.submits budget rfl (h.frame.submits.mpr hs)
    refine ⟨h.frame.trans hone.frame, ?_, fun p hp => ?_, fun hnone => ?_,
      fun hsw i on hi hlast => ?_, htarget, fun hnot => ?_⟩
    · rw [hone.results, h.results, h.frame.answer, List.map_append]
      rfl
    · obtain rfl := Option.some.inj (hpending.symm.trans hp)
      refine ⟨by rw [hlen, List.getElem?_concat_length], hs, h.frame.logicalLen,
        fun j b hj hb => ?_⟩
      rw [List.getElem?_eq_none
        (by rw [List.length_append, List.length_singleton]; dsimp only at hj; omega)] at hb
      cases hb
    · rw [hpending] at hnone
      cases hnone
    · rcases getElem?_done hi with hi | ⟨-, hx⟩
      · rw [hone.other rfl]
        exact h.target hsw i on hi fun j y hj hy => hlast j y hj (getElem?_of_done hy _)
      · cases hx
    · exact absurd hs (hnot done.length budget (List.getElem?_concat_length ..))
  · have hno : ∀ budget, x = (.kvCompress budget, false) → ¬ d.Submits layers budget :=
      fun budget hx hs => hsub ⟨budget, hx, hs⟩
    obtain ⟨hpending, hregistry⟩ := hone.keeps fun budget hx hs =>
      hno budget hx (h.frame.submits.mp hs)
    refine ⟨h.frame.trans hone.frame, ?_, fun p hp => ?_, fun hnone j b hj => ?_,
      fun hsw i on hi hlast => ?_, htarget, fun hnot => ?_⟩
    · rw [hone.results, h.results, h.frame.answer, List.map_append]
      rfl
    · obtain ⟨hat, hs, hlogical, hlater⟩ := h.pending p (hpending.symm.trans hp)
      refine ⟨getElem?_of_done hat x, hs, hlogical, fun j b hj hb => ?_⟩
      rcases getElem?_done hb with hb | ⟨-, hx⟩
      · exact hlater j b hj hb
      · exact hno b hx
    · rcases getElem?_done hj with hj | ⟨-, hx⟩
      · exact h.noPending (hpending.symm.trans hnone) j b hj
      · exact hno b hx
    · rcases getElem?_done hi with hi | ⟨rfl, hx⟩
      · rw [hone.other (hlast done.length x (List.getElem?_eq_some_iff.mp hi).1
          (List.getElem?_concat_length ..))]
        exact h.target hsw i on hi fun j y hj hy => hlast j y hj (getElem?_of_done hy _)
      · rw [hone.offload (by rwa [h.frame.tpSwitch]) on hx, hlen]
    · rw [hregistry]
      exact h.registry fun j b hj => hnot j b (getElem?_of_done hj x)

/-- **What the command loop does.** -/
theorem applied_foldl (d : CommandDispatcher) (layers : List Layer) (hresults : d.lastResults = [])
    (hpending : d.pendingCompress = none) (htarget : d.tpTarget = none)
    (done : List (EngineCommand × Bool)) :
    Applied d layers done (done.foldl (applyOne layers) d) := by
  induction done using List.reverseRecOn with
  | nil =>
    refine ⟨.refl d, hresults, fun p hp => ?_, fun _ j b hj => ?_, fun _ i on hi => ?_,
      fun want i hi => ?_, fun _ => rfl⟩
    · rw [List.foldl_nil, hpending] at hp
      cases hp
    · cases hj
    · cases hi
    · rw [List.foldl_nil, htarget] at hi
      cases hi
  | append_singleton done x ih =>
    rw [List.foldl_append]
    exact ih.step x

theorem applyTpTarget_keeps (d : CommandDispatcher) (switchApply : Bool → Except String Unit) :
    (d.applyTpTarget switchApply).logicalLen = d.logicalLen ∧
      (d.applyTpTarget switchApply).lastSeenPos = d.lastSeenPos ∧
      (d.applyTpTarget switchApply).registry = d.registry ∧
      (d.applyTpTarget switchApply).pendingCompress = d.pendingCompress := by
  unfold applyTpTarget
  split
  · split_ifs
    · exact ⟨rfl, rfl, rfl, rfl⟩
    · split <;> exact ⟨rfl, rfl, rfl, rfl⟩
  · exact ⟨rfl, rfl, rfl, rfl⟩

/-- **What a dispatch does**: it samples, applies the commands and then the partition switch. -/
theorem exists_applied (d : CommandDispatcher) (layers : List Layer)
    (switchApply : Bool → Except String Unit) (cmds : List EngineCommand) : ∃ d',
      Applied (d.observeContext layers).cleared layers
        (cmds.zip ((d.observeContext layers).foldedIn layers cmds)) d' ∧
        d.dispatch layers switchApply cmds = d'.applyTpTarget switchApply :=
  ⟨_, applied_foldl _ layers rfl rfl rfl _, rfl⟩

end CommandDispatcher

/-- A dispatcher with a candidate pool. -/
def poolDispatcher : CommandDispatcher where
  cacheManager := false
  aperturb := true
  yieldSeed := 0

end ArgusEngine.Session
