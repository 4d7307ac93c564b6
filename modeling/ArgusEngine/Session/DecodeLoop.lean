import ArgusEngine.Lib.Effects
import ArgusEngine.Session.Dispatcher
import ArgusEngine.Session.Pipeline

/-!
# The decode loop

The driver of a session: prefill, and turns that each poll the manager, dispatch its commands, run
the stages of every phase, step the forward pass and sample a token. What stands behind trait
objects is a parameter (`Parts`) over a state `σ` that they share; the registry, the dispatcher and
the command executor are the models of this development.

The driver records what it does: the phases it dispatches, the steps of the forward pass, the
samples, the answers.

* `CommandExecutor`: `drainCommands`, `reportResults`;
* `turn`, `runSteps`, `run`, `runUntilStop`, `prefill`: the driver.
-/

namespace ArgusEngine.Session

open Effects

/-! ## The executor of the manager's commands -/

/-- A directive of the manager. -/
structure Directive where
  seqId : ℕ
  commands : List EngineCommand
deriving DecidableEq

structure CommandResponse where
  seqId : ℕ
  results : List CommandResult
deriving DecidableEq

inductive Phase where
  | idle
  | prefill
  | decode
deriving DecidableEq

inductive EngineState where
  | idle
  | running
deriving DecidableEq

structure KVSnapshot where
  totalBytes : ℕ := 0
  budgetBytes : ℕ := 0
  totalTokens : ℕ := 0
deriving DecidableEq

/-- `EngineStatus`, less the smoothed time between tokens. -/
structure EngineStatus where
  kvCacheBytes : ℕ
  kvCacheBudgetBytes : ℕ
  kvCacheTokens : ℕ
  phase : Phase
  state : EngineState
deriving DecidableEq

inductive EngineMessage where
  | response (r : CommandResponse)
  | heartbeat (s : EngineStatus)
deriving DecidableEq

/-- `CommandExecutor`: with the directives it has received and the messages it has sent. -/
structure CommandExecutor where
  engineState : EngineState := .idle
  phase : Phase := .idle
  pendingResponses : List (ℕ × ℕ) := []
  received : List Directive := []
  sent : List EngineMessage := []

namespace CommandExecutor

variable (x : CommandExecutor)

def setPhase (phase : Phase) (state : EngineState) : CommandExecutor :=
  { x with phase := phase, engineState := state }

def sendHeartbeat (snap : KVSnapshot) : CommandExecutor :=
  { x with sent := x.sent ++
             [.heartbeat ⟨snap.totalBytes, snap.budgetBytes, snap.totalTokens,
             x.phase, x.engineState⟩] }

/-- `drain_commands`, where `try_recv` yields `arrived` before it finds the channel empty. -/
def drainCommands (arrived : List Directive) : CommandExecutor × List EngineCommand :=
  ({ x with
    pendingResponses := x.pendingResponses ++ arrived.map fun d => (d.seqId, d.commands.length)
    received := x.received ++ arrived }, arrived.flatMap Directive.commands)

/-- The loop of `report_results`: a result that is missing is a rejection. -/
def splitResults : List (ℕ × ℕ) → List CommandResult → List CommandResponse
  | [], _ => []
  | (seqId, n) :: rest, results =>
    ⟨seqId, results.take n ++ List.replicate (n - results.length)
      (.rejected "engine did not apply the directive")⟩ :: splitResults rest (results.drop n)

/-- `report_results`. -/
def reportResults (results : List CommandResult) : CommandExecutor :=
  { x with
    pendingResponses := []
    sent := x.sent ++ (splitResults x.pendingResponses results).map .response }

end CommandExecutor

/-! ## The driver -/

/-- `StopReason` of the driver. -/
inductive StopReason where
  | eosToken
  | budgetExhausted
  | stopFlag
  | stopConditionMet
  | commandRequested
deriving DecidableEq

structure StepCtx where
  pos : ℕ
  prevToken : ℕ
  kvCapacity : ℕ
  decodeStep : ℕ
deriving DecidableEq

/-- What the driver reaches through trait objects, over the state they share; a heartbeat is due by
the clock. -/
structure Parts (σ Logits : Type) where
  prefill : List ℕ → ℕ → σ → Except String Logits × σ
  step : StepCtx → ℕ → σ → Except String Logits × σ
  finalize : σ → Except String Unit × σ
  onKvPrune : ℕ → σ → σ
  onKvReencode : σ → σ
  sample : StepCtx → Logits → σ → ℕ × σ
  observeToken : ℕ → σ → σ
  stopFlag : σ → Bool
  /-- `kv_pos_handle`: the cursor of layer 0. -/
  kvPos : Option (σ → ℕ)
  pressureSource : Option (σ → Pressure)
  /-- The handles of the dispatcher. -/
  layers : σ → List Layer
  switchApply : σ → Bool → Except String Unit
  /-- What the closures that `dispatch` calls leave behind. -/
  dispatched : CommandDispatcher → σ → σ
  /-- The stage object of a submitted compression. -/
  stageOf : Stage → PipelineStage σ
  /-- A shrink as the query-row ring and the prefill attention hear of it: the position, and the
  occupancy. -/
  renumbered : ℕ → ℕ → σ → σ
  /-- `reencode_fired_cell`: the swapped-out value. -/
  reencodeFired : Option (σ → Bool × σ)
  kvReencodeArmed : Bool
  kvCapacity : ℕ
  /-- The directives in the channel at a poll. -/
  tryRecv : σ → List Directive × σ
  heartbeatDue : σ → Bool
  kvSnapshot : σ → KVSnapshot

/-- What the driver does, as it goes. -/
inductive Mark where
  | phase (p : LifecyclePhase) (pos decodeStep prevToken : ℕ)
  | step (ctx : StepCtx) (token : ℕ)
  | sampled (ctx : StepCtx) (token : ℕ)
deriving DecidableEq

/-- `DecodeLoop`, with the locals of `run_steps` and its record: the marks, and the answers to each
poll. -/
structure DecodeLoop (σ : Type) where
  registry : PipelineRegistry σ
  dispatcher : Option CommandDispatcher
  /-- The command source, where a manager is attached. -/
  executor : Option CommandExecutor
  cachedPressure : Pressure
  pos : ℕ
  kvOccupancy : ℕ
  decodeStep : ℕ
  prevToken : ℕ
  world : σ
  generated : List ℕ := []
  stepCachePos : List ℕ := []
  marks : List Mark := []
  answers : List (List EngineCommand × List CommandResult) := []

/-- How a turn ends before its end. -/
inductive Halt where
  | stop (r : StopReason)
  | err (e : String)
  | panic (e : String)
deriving DecidableEq

/-- `DecodeResult`, less the wall clock. -/
structure DecodeResult where
  tokensGenerated : List ℕ
  finalPos : ℕ
  finalCachePos : ℕ
  stoppedBy : StopReason
  stepCachePos : List ℕ
deriving DecidableEq

abbrev Drive (σ : Type) := EStateM Halt (DecodeLoop σ)

variable {σ Logits : Type} (P : Parts σ Logits)

def PRESSURE_QUERY_INTERVAL : ℕ := 8

def DecodeLoop.ctx (s : DecodeLoop σ) : StepCtx := ⟨s.pos, s.prevToken, P.kvCapacity, s.decodeStep⟩

/-- `refresh_pressure_if_due`. -/
def DecodeLoop.refreshPressure (s : DecodeLoop σ) : DecodeLoop σ :=
  match P.pressureSource with
  | some src =>
    if s.decodeStep % PRESSURE_QUERY_INTERVAL = 0
      then { s with cachedPressure := src s.world } else s
  | none => s

/-- `dispatch_phase`. -/
def dispatchPhase (phase : LifecyclePhase) : Drive σ (Option StageStopReason) := fun s =>
  let s := s.refreshPressure P
  let step : StepInfo := ⟨s.pos, s.decodeStep, s.cachedPressure, s.prevToken⟩
  let d := s.registry.dispatch phase step s.world
  let s := { s with
    registry := d.2.1
    world := d.2.2
    marks := s.marks ++ [.phase phase s.pos s.decodeStep s.prevToken] }
  match d.1 with
  | .ok r => .ok r s
  | .error e => .error (.panic e) s

/-- `map_stage_stop`. -/
def mapStageStop : StageStopReason → StopReason
  | .eosToken => .eosToken
  | .budgetExhausted => .budgetExhausted
  | .stopConditionMet => .stopConditionMet
  | .commandRequested => .commandRequested

/-- `if let Some(r) = stop { stopped_by = r; break; }`. -/
def breakOn (stop : Option StageStopReason) : Drive σ Unit :=
  match stop with
  | some r => throw (.stop (mapStageStop r))
  | none => pure ()

def phaseOrBreak (phase : LifecyclePhase) : Drive σ Unit := dispatchPhase P phase >>= breakOn

/-- `cmd_source.poll()`. -/
def poll : Drive σ (List EngineCommand) := fun s =>
  match s.executor with
  | none => .ok [] s
  | some x =>
    let x := x.setPhase .decode .running
    let x := if P.heartbeatDue s.world then x.sendHeartbeat (P.kvSnapshot s.world) else x
    let arrived := P.tryRecv s.world
    let drained := x.drainCommands arrived.1
    .ok drained.2 { s with executor := some drained.1, world := arrived.2 }

/-- `dispatcher.dispatch(cmds).suspended`; the stages it submits go to the registry, which panics
where it is poisoned. -/
def dispatchCommands (cmds : List EngineCommand) : Drive σ Bool := fun s =>
  match s.dispatcher with
  | none => .ok false s
  | some d =>
    let d := d.dispatch (P.layers s.world) (P.switchApply s.world) cmds
    match d.registry.foldlM (fun g stage => g.submit (P.stageOf stage)) s.registry with
    | .error e => .error (.panic e) s
    | .ok registry => .ok d.control.suspended { s with
        dispatcher := some { d with registry := [] }
        registry
        world := P.dispatched d s.world }

/-- The outcomes of a step, and the dispatcher that has handed them out. -/
def stepResults (s : DecodeLoop σ) (cmds : List EngineCommand) :
    Option CommandDispatcher × List CommandResult :=
  match s.dispatcher with
  | some d =>
    let finalized := d.finalizeResults (P.layers s.world)
    (some finalized.1, finalized.2)
  | none => (none, List.replicate cmds.length (.rejected "engine has no command dispatcher"))

/-- `report_command_results`. -/
def reportCommandResults (cmds : List EngineCommand) : Drive σ Unit := modify fun s =>
  let results := stepResults P s cmds
  { s with
    dispatcher := results.1
    executor := s.executor.map fun x => x.reportResults results.2
    answers := s.answers ++ [(cmds, results.2)] }

/-- `invalidate_plan_on_kv_shrink`: the position stays, whatever the occupancy does. -/
def invalidatePlanOnKvShrink : Drive σ Unit := modify fun s =>
  match P.kvPos with
  | none => s
  | some h =>
    let occupancy := h s.world
    let s :=
      if occupancy < s.kvOccupancy
        then { s with world := P.renumbered s.pos occupancy (P.onKvPrune occupancy s.world) }
      else s
    { s with kvOccupancy := occupancy }

def reencodeIfFired : Drive σ Unit := modify fun s =>
  match P.reencodeFired with
  | none => s
  | some swap =>
    let fired := swap s.world
    { s with world := if fired.1 then P.onKvReencode fired.2 else fired.2 }

def forwardStep : Drive σ Logits := fun s =>
  let r := P.step (s.ctx P) s.prevToken s.world
  let s := { s with world := r.2, marks := s.marks ++ [.step (s.ctx P) s.prevToken] }
  match r.1 with
  | .ok logits => .ok logits s
  | .error e => .error (.err e) s

def sampleToken (logits : Logits) : Drive σ ℕ := fun s =>
  let r := P.sample (s.ctx P) logits s.world
  .ok r.1 { s with world := P.observeToken r.1 r.2, marks := s.marks ++ [.sampled (s.ctx P) r.1] }

/-- The bookkeeping of a turn. -/
def advance (sampled : ℕ) : Drive σ Unit := modify fun s =>
  { s with prevToken := sampled, pos := s.pos + 1, decodeStep := s.decodeStep + 1 }

def cachePos (s : DecodeLoop σ) : ℕ :=
  match P.kvPos with
  | some h => h s.world
  | none => s.pos

def push (sampled : ℕ) : Drive σ Unit := modify fun s =>
  { s with generated := s.generated ++ [sampled], stepCachePos := s.stepCachePos ++ [cachePos P s] }

/-- One turn of `run_steps`. -/
def turn : Drive σ Unit := do
  let s ← get
  onlyIf (P.stopFlag s.world = true) (throw (.stop .stopFlag))
  phaseOrBreak P .decodeStart
  let cmds ← poll P
  let suspended ← dispatchCommands P cmds
  onlyIf (suspended = true) do
    reportCommandResults P cmds
    throw (.stop .commandRequested)
  let kvMutateStop ← dispatchPhase P .kvMutate
  reportCommandResults P cmds
  breakOn kvMutateStop
  invalidatePlanOnKvShrink P
  reencodeIfFired P
  phaseOrBreak P .weightMutate
  invalidatePlanOnKvShrink P
  phaseOrBreak P .preForward
  let logits ← forwardStep P
  phaseOrBreak P .postForward
  phaseOrBreak P .preSample
  let sampled ← sampleToken P logits
  phaseOrBreak P .postSample
  advance sampled
  phaseOrBreak P .decodeEnd
  push P sampled

/-- The turns of a budget. -/
def turns : ℕ → Drive σ Unit
  | 0 => pure ()
  | n + 1 => do
    turn P
    turns n

def decodeResult (s : DecodeLoop σ) (r : StopReason) : DecodeResult where
  tokensGenerated := s.generated
  finalPos := s.pos
  finalCachePos := cachePos P s
  stoppedBy := r
  stepCachePos := s.stepCachePos

/-- `run_steps`. -/
def runSteps (budget firstToken : ℕ) : Drive σ DecodeResult := fun s =>
  let s := { s with
    prevToken := firstToken
    world := P.observeToken firstToken s.world
    generated := []
    stepCachePos := [] }
  match turns P budget s with
  | .ok _ s => .ok (decodeResult P s .budgetExhausted) s
  | .error (.stop r) s => .ok (decodeResult P s r) s
  | .error e s => .error e s

/-- `run`. -/
def run (budget firstToken : ℕ) : Drive σ DecodeResult := do
  let result ← runSteps P budget firstToken
  let s ← get
  let done := P.finalize s.world
  set { s with world := done.2 }
  match done.1 with
  | .ok _ =>
    let _ ← dispatchPhase P .finalize
    pure result
  | .error e => throw (.err e)

/-- `run_until_stop`: the budget is `usize::MAX`. -/
def runUntilStop (firstToken : ℕ) : Drive σ DecodeResult := do
  let _ ← dispatchPhase P .turnStart
  let result ← runSteps P (2 ^ 64 - 1) firstToken
  let _ ← dispatchPhase P .turnEnd
  pure result

/-- `prefill`. -/
def prefill (tokens : List ℕ) : Drive σ Logits := do
  let _ ← dispatchPhase P .prefillStart
  let s ← get
  let r := P.prefill tokens s.pos s.world
  match r.1 with
  | .error e =>
    set { s with world := r.2 }
    throw (.err e)
  | .ok logits =>
    let s := { s with
      pos := s.pos + tokens.length
      prevToken := tokens.getLastD 0
      world := tokens.foldl (fun w t => P.observeToken t w) r.2 }
    set { s with kvOccupancy := cachePos P s }
    let _ ← dispatchPhase P .prefillEnd
    invalidatePlanOnKvShrink P
    onlyIf (P.kvReencodeArmed = true) (modify fun s => { s with world := P.onKvReencode s.world })
    pure logits

/-- `reset_pos`. -/
def resetPos : Drive σ Unit := modify fun s => { s with pos := 0, decodeStep := 0, prevToken := 0 }

/-- `set_pos`. -/
def setPos (pos : ℕ) : Drive σ Unit := modify fun s => { s with pos := pos }

/-- What the owner of a driver asks of it. -/
inductive DriverCall where
  | prefill (tokens : List ℕ)
  | run (budget firstToken : ℕ)
  | runUntilStop (firstToken : ℕ)
  | resetPos
  | setPos (pos : ℕ)

/-- The state after a computation, unless it panics. -/
def survived {α : Type} (x : Drive σ α) (s : DecodeLoop σ) : Option (DecodeLoop σ) :=
  match x s with
  | .ok _ s' => some s'
  | .error (.panic _) _ => none
  | .error _ s' => some s'

def DriverCall.after (s : DecodeLoop σ) : DriverCall → Option (DecodeLoop σ)
  | .prefill tokens => survived (Session.prefill P tokens) s
  | .run budget firstToken => survived (Session.run P budget firstToken) s
  | .runUntilStop firstToken => survived (Session.runUntilStop P firstToken) s
  | .resetPos => survived Session.resetPos s
  | .setPos pos => survived (Session.setPos pos) s

/-! ## A scripted session -/

end ArgusEngine.Session
