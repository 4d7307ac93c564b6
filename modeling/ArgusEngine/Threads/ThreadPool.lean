import Mathlib.Data.Fin.Basic
import Mathlib.Logic.Function.Basic
import Mathlib.Tactic.Common

/-!
# The thread pool of the matmul dispatch

One dispatching thread and `n` workers share a record of atomics. A dispatch stores the work,
publishes it as a new generation whose low bits are the number of workers that take part, unparks
these, takes chunks itself, and waits until all of them have counted themselves done. A worker
spins, then parks, until it sees a generation it has not seen.

Every access to an atomic is one step, and the steps of the threads interleave in any order. The
counters `next_chunk`, `done_count` and the numbers of chunks do not wrap; `generation` is the `u64`
of the source. A work function and its context are the addresses that the pool stores.

* `stealStep`: one access of `steal_work`;
* `workerStep`: one access of `worker_loop`;
* `SpinPool.mainStep`: one access of the dispatching thread, in `dispatch`, `dispatch_batch` or
  `drop`;
* `SpinPool.turn`: an access of one thread, or a spurious return of `park`;
* `SpinPool.step`: a turn, or a call of the pool.
-/

namespace ArgusEngine.Threads

/-- The low bits of a generation that hold the dispatch's count of active workers. -/
def ACTIVE_BITS : UInt64 := 16

def ACTIVE_MASK : UInt64 := (1 <<< ACTIVE_BITS) - 1

/-- The active workers a generation is stamped with. -/
def activeOf (generation : UInt64) : ℕ := (generation &&& ACTIVE_MASK).toNat

/-- One work item of a dispatch: the function, its context, and the number of chunks. -/
structure Job where
  workFn : ℕ
  workCtx : ℕ
  chunks : ℕ
deriving DecidableEq

/-- `work_fn(work_ctx, chunk)`. -/
structure Call where
  workFn : ℕ
  workCtx : ℕ
  chunk : ℕ
deriving DecidableEq

def Job.call (j : Job) (chunk : ℕ) : Call := ⟨j.workFn, j.workCtx, chunk⟩

/-- The calls a job asks for. -/
def Job.calls (j : Job) : List Call := (List.range j.chunks).map j.call

structure SharedState where
  generation : UInt64
  nextChunk : ℕ
  doneCount : ℕ
  totalChunks : ℕ
  shutdown : Bool
  batchMode : Bool
  activeWorkers : ℕ
  workFn : ℕ
  workCtx : ℕ

/-! ## `steal_work` -/

/-- Where a thread is inside `steal_work`, with what it has loaded. -/
inductive Steal where
  | loadFn
  | loadCtx (workFn : ℕ)
  | loadTotal (workFn workCtx : ℕ)
  | grab (workFn workCtx total : ℕ)
  | run (workFn workCtx total chunk : ℕ)
deriving DecidableEq

/-- The new place (`none` once the loop is left), the shared state, and the call that returned. -/
def stealStep (sh : SharedState) : Steal → Option Steal × SharedState × List Call
  | .loadFn => (some (.loadCtx sh.workFn), sh, [])
  | .loadCtx f => (some (.loadTotal f sh.workCtx), sh, [])
  | .loadTotal f c => (some (.grab f c sh.totalChunks), sh, [])
  | .grab f c total =>
    let chunk := sh.nextChunk
    let sh := { sh with nextChunk := chunk + 1 }
    if total ≤ chunk then (none, sh, []) else (some (.run f c total chunk), sh, [])
  | .run f c total chunk => (some (.grab f c total), sh, [⟨f, c, chunk⟩])

/-! ## `worker_loop` -/

inductive WorkerPc where
  /-- The load of `shutdown` that begins a round of the wait loop. -/
  | poll
  | readGen
  /-- The load of `active_workers`, the generation being the one already seen. -/
  | checkActive
  /-- The load of `batch_mode`, the spins being used up. -/
  | checkBatch
  | park
  | steal (st : Steal)
  /-- The `fetch_add` of `done_count`. -/
  | bumpDone
  | stopped
deriving DecidableEq

/-- A worker: `token` is the permit that `unpark` leaves for the next `park`. -/
structure Worker where
  pc : WorkerPc
  lastGen : UInt64
  spins : ℕ
  token : Bool
deriving DecidableEq

/-- The next access of worker `idx`, with the call that returned; a worker that is parked or stopped
stays. -/
def workerStep (idx : ℕ) (sh : SharedState) (w : Worker) : SharedState × Worker × List Call :=
  match w.pc with
  | .poll => (sh, { w with pc := if sh.shutdown then .stopped else .readGen }, [])
  | .readGen =>
    let g := sh.generation
    if g ≠ w.lastGen then
      if idx < activeOf g then (sh, { w with lastGen := g, pc := .steal .loadFn }, [])
      -- an inactive worker sits this dispatch out
      else (sh, { w with lastGen := g, spins := 500, pc := .poll }, [])
    else (sh, { w with spins := w.spins + 1, pc := .checkActive }, [])
  | .checkActive =>
    if w.spins < 500 then (sh, { w with pc := .poll }, [])
    else if idx < sh.activeWorkers then (sh, { w with pc := .checkBatch }, [])
    else (sh, { w with pc := .park }, [])
  | .checkBatch =>
    if sh.batchMode then (sh, { w with spins := min w.spins 500, pc := .poll }, [])
    else (sh, { w with pc := .park }, [])
  | .park =>
    if w.token then (sh, { w with token := false, spins := 0, pc := .poll }, []) else (sh, w, [])
  | .steal st =>
    match stealStep sh st with
    | (some st', sh', calls) => (sh', { w with pc := .steal st' }, calls)
    | (none, sh', calls) => (sh', { w with pc := .bumpDone }, calls)
  | .bumpDone => ({ sh with doneCount := sh.doneCount + 1 }, { w with spins := 0, pc := .poll }, [])
  | .stopped => (sh, w, [])

/-! ## The dispatching thread -/

/-- The stores that set a job up, in their order. -/
inductive Store where
  | workFn
  | workCtx
  | totalChunks
  | nextChunk
  | doneCount
deriving DecidableEq

/-- Where the dispatching thread is: `rest` are the later items of a batch, `active` the count that
the first `publish` of the call returned. -/
inductive MainPc where
  | idle
  | setup (store : Store) (job : Job) (rest : List Job) (active : Option ℕ)
  | publish (job : Job) (rest : List Job) (active : Option ℕ)
  | unpark (i : ℕ) (job : Job) (rest : List Job) (active : ℕ)
  | steal (st : Steal) (job : Job) (rest : List Job) (active : ℕ)
  | wait (job : Job) (rest : List Job) (active : ℕ)
  | dropShutdown
  | dropBump
  | dropUnpark (i : ℕ)
  | join (i : ℕ)
  | dropped
deriving DecidableEq

/-- The pool: `log` are the calls that have returned, oldest first. -/
structure SpinPool (n : ℕ) where
  shared : SharedState
  main : MainPc
  workers : Fin n → Worker
  log : List Call

/-- `publish`'s new generation: only the dispatching thread writes it, so its loads and its store
are one step. -/
def nextGeneration (sh : SharedState) : UInt64 :=
  (((sh.generation >>> ACTIVE_BITS) + 1) <<< ACTIVE_BITS) ||| UInt64.ofNat sh.activeWorkers

/-- One store of the setup, and what comes after it. -/
def setupStep (sh : SharedState) (store : Store) (j : Job) (rest : List Job) (active : Option ℕ) :
    SharedState × MainPc :=
  match store with
  | .workFn => ({ sh with workFn := j.workFn }, .setup .workCtx j rest active)
  | .workCtx => ({ sh with workCtx := j.workCtx }, .setup .totalChunks j rest active)
  | .totalChunks => ({ sh with totalChunks := j.chunks }, .setup .nextChunk j rest active)
  | .nextChunk => ({ sh with nextChunk := 0 }, .setup .doneCount j rest active)
  | .doneCount => ({ sh with doneCount := 0 }, .publish j rest active)

namespace SpinPool

variable {n : ℕ}

/-- `SpinPool::new`: every worker has started its loop; more workers than the mask holds are
refused. -/
def new (n : ℕ) : Option (SpinPool n) :=
  if n ≤ ACTIVE_MASK.toNat then
    some
      { shared := { generation := 0, nextChunk := 0, doneCount := 0, totalChunks := 0,
                    shutdown := false,
                    batchMode := false, activeWorkers := n, workFn := 0, workCtx := 0 }
        main := .idle
        workers := fun _ => { pc := .poll, lastGen := 0, spins := 0, token := false }
        log := [] }
  else none

/-- `Thread::unpark` of worker `i`. -/
def unpark (s : SpinPool n) (i : Fin n) : SpinPool n :=
  { s with workers := Function.update s.workers i { s.workers i with token := true } }

/-- The next access of the dispatching thread; a thread that waits stays. -/
def mainStep (s : SpinPool n) : SpinPool n :=
  match s.main with
  | .idle => s
  | .setup store j rest active =>
    { s with shared := (setupStep s.shared store j rest active).1
             main := (setupStep s.shared store j rest active).2 }
  | .publish j rest active =>
    { s with shared := { s.shared with generation := nextGeneration s.shared }
             main := .unpark 0 j rest (active.getD s.shared.activeWorkers) }
  | .unpark i j rest active =>
    if h : i < n ∧ i < active then { s.unpark ⟨i, h.1⟩ with main := .unpark (i + 1) j rest active }
    else { s with main := .steal .loadFn j rest active }
  | .steal st j rest active =>
    match stealStep s.shared st with
    | (some st', sh, calls) =>
      { s with shared := sh, main := .steal st' j rest active, log := s.log ++ calls }
    | (none, sh, calls) =>
      { s with shared := sh, main := .wait j rest active, log := s.log ++ calls }
  | .wait _ rest active =>
    if s.shared.doneCount < active then s
    else
      match rest with
      | [] => { s with main := .idle }
      | j :: rest => { s with main := .setup .workFn j rest (some active) }
  | .dropShutdown => { s with shared := { s.shared with shutdown := true }, main := .dropBump }
  | .dropBump =>
    { s with shared := { s.shared with generation := s.shared.generation + (1 <<< ACTIVE_BITS) }
             main := .dropUnpark 0 }
  | .dropUnpark i =>
    if h : i < n then { s.unpark ⟨i, h⟩ with main := .dropUnpark (i + 1) }
      else { s with main := .join 0 }
  | .join i =>
    if h : i < n then
      if (s.workers ⟨i, h⟩).pc = .stopped then { s with main := .join (i + 1) } else s
    else { s with main := .dropped }
  | .dropped => s

/-- A step of worker `i`. -/
def workStep (s : SpinPool n) (i : Fin n) : SpinPool n :=
  { s with shared := (workerStep i s.shared (s.workers i)).1
           workers := Function.update s.workers i (workerStep i s.shared (s.workers i)).2.1
           log := s.log ++ (workerStep i s.shared (s.workers i)).2.2 }

/-- `park` may return without a permit. -/
def wake (s : SpinPool n) (i : Fin n) : SpinPool n :=
  if (s.workers i).pc = .park then
    { s with workers := Function.update s.workers i { s.workers i with spins := 0, pc := .poll } }
  else s

end SpinPool

/-! ## The calls of the pool -/

inductive PoolCall where
  | dispatch (nChunks workFn workCtx : ℕ)
  | dispatchBatch (items : List Job)
  | beginBatch
  | endBatch
  | setActiveWorkers (k : ℕ)
  | drop

/-- The jobs of a call. -/
def PoolCall.jobs : PoolCall → List Job
  | .dispatch 0 _ _ => []
  | .dispatch (k + 1) f c => [⟨f, c, k + 1⟩]
  | .dispatchBatch items => items
  | _ => []

/-- A thread, by its worker index. -/
inductive Actor (n : ℕ) where
  | main
  | worker (i : Fin n)
deriving DecidableEq

/-- What can happen at any time: an access of a thread, or a `park` that returns without a
permit. -/
inductive Turn (n : ℕ) where
  | thread (a : Actor n)
  | spurious (i : Fin n)

inductive Label (n : ℕ) where
  | call (c : PoolCall)
  | turn (t : Turn n)

/-- The jobs that a step of a run issues. -/
def Label.jobs {n : ℕ} : Label n → List Job
  | .call c => c.jobs
  | .turn _ => []

namespace SpinPool

variable {n : ℕ}

/-- A call as the dispatching thread enters it. -/
def enter (s : SpinPool n) : PoolCall → SpinPool n
  | .dispatch nChunks f c =>
    if nChunks = 0 then s else { s with main := .setup .workFn ⟨f, c, nChunks⟩ [] none }
  | .dispatchBatch items =>
    match items with
    | [] => s
    | j :: rest => { s with main := .setup .workFn j rest none }
  | .beginBatch => { s with shared := { s.shared with batchMode := true } }
  | .endBatch => { s with shared := { s.shared with batchMode := false } }
  | .setActiveWorkers k => { s with shared := { s.shared with activeWorkers := min k n } }
  | .drop => { s with main := .dropShutdown }

def turn (s : SpinPool n) : Turn n → SpinPool n
  | .thread .main => s.mainStep
  | .thread (.worker i) => s.workStep i
  | .spurious i => s.wake i

/-- One step of a run; the pool is called by one thread, so a call begins only when the last one has
returned. -/
def step (s : SpinPool n) : Label n → Option (SpinPool n)
  | .call c => if s.main = .idle then some (s.enter c) else none
  | .turn t => some (s.turn t)

end SpinPool

end ArgusEngine.Threads
