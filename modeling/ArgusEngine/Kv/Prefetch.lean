import Mathlib.Logic.Relation
import ArgusEngine.Kv.OffloadRuns

/-!
# The offload forward pass

`forward_into_offload` runs the layers one by one while a thread pool preloads the layers ahead. The
main thread is a program counter `Pc` with one step for each statement that touches a cache or the
pool (`mainStep`, `none` when it waits for a result); a worker may take any submitted task at any
time (`work`). `Step` is their interleaving.

The mutex of an `OffloadFormat` makes each operation on a cache one step. A panic under the lock
poisons it. The prefetch depth of a pass is any `depth ≥ 1`: the controller adapts it between passes
to measured times.
-/

namespace ArgusEngine

/-- A slot of `pending` and what the pool has made of it. -/
inductive Task where
  | idle
  | submitted
  | finished
  deriving Repr, DecidableEq

/-- What the main thread does next. -/
inductive Pc where
  | preload (i : ℕ)
  | fire (j : ℕ)
  | collect (i : ℕ)
  | submit (i : ℕ)
  | write (i : ℕ)
  | attend (i : ℕ)
  | retain (i : ℕ)
  | release (i : ℕ)
  | drain (j : ℕ)
  | releaseLast
  | returned
  deriving Repr, DecidableEq

/-- One call of `forward_into_offload`: its prefetch depth and the rows it adds to each layer. -/
structure Pass (w : ℕ) where
  depth : ℕ
  depth_pos : 1 ≤ depth
  tokens : ℕ
  tokens_pos : 0 < tokens
  rows : ℕ → KvRows w
  rows_tokens : ∀ i, (rows i).tokens = tokens

structure PassState (S : Type) where
  caches : ℕ → OffloadKVCache S
  poisoned : ℕ → Bool
  pending : ℕ → Task
  pc : Pc
  /-- The views attention has read, with their layers. -/
  views : List (ℕ × View)
  failure : Option Fail

namespace PassState

variable {S : Type} [OffloadStore S] {w : ℕ}

/-- The start of a pass over `caches`. -/
def start (caches : ℕ → OffloadKVCache S) : PassState S where
  caches := caches
  poisoned := fun _ => false
  pending := fun _ => .idle
  pc := .preload 0
  views := []
  failure := none

/-- The main thread locks layer `i` for an operation and goes on with `next`, or with `onErr` when
it fails. -/
def perform (σ : PassState S) (i : ℕ) (op : OffloadOp w) (next onErr : Pc) : PassState S :=
  if σ.poisoned i then { σ with failure := some (.panic "PoisonError"), pc := onErr }
  else
    match op.exec (σ.caches i) with
    | .ok (c, views) =>
      { σ with
        caches := Function.update σ.caches i c
        views := σ.views ++ views.map fun view => (i, view)
        pc := next }
    | .error (.err m) => { σ with failure := some (.err m), pc := onErr }
    | .error (.panic m) =>
      { σ with failure := some (.panic m), poisoned := Function.update σ.poisoned i true,
               pc := onErr }

/-- A worker runs `preload_offload_fmt_erased` on layer `j` and sends the result, an error
included. -/
def work (σ : PassState S) (j : ℕ) : PassState S :=
  if σ.poisoned j then { σ with pending := Function.update σ.pending j .finished }
  else
    match (σ.caches j).preload with
    | .ok c =>
      { σ with caches := Function.update σ.caches j c,
               pending := Function.update σ.pending j .finished }
    | .error (.err _) => { σ with pending := Function.update σ.pending j .finished }
    | .error (.panic _) =>
      { σ with
        poisoned := Function.update σ.poisoned j true
        pending := Function.update σ.pending j .finished }

/-- `recv` on the slot of layer `i`, empty or not; `none` while the result is outstanding. -/
def receive (σ : PassState S) (i : ℕ) (next : Pc) : Option (PassState S) :=
  match σ.pending i with
  | .submitted => none
  | _ => some { σ with pending := Function.update σ.pending i .idle, pc := next }

/-- `submit_raw` for layer `j`. -/
def submitRaw (σ : PassState S) (j : ℕ) (next : Pc) : PassState S :=
  { σ with pending := Function.update σ.pending j .submitted, pc := next }

/-- One step of the main thread on a model of `numLayers` layers. -/
def mainStep (numLayers : ℕ) (p : Pass w) (σ : PassState S) : Option (PassState S) :=
  match σ.pc with
  | .preload i =>
    if i < min p.depth numLayers
      then some (σ.perform i (.preload : OffloadOp w) (.preload (i + 1)) .returned)
    else some { σ with pc := .fire p.depth }
  | .fire j =>
    if j < min (2 * p.depth) numLayers then some (σ.submitRaw j (.fire (j + 1)))
    else some { σ with pc := .collect 0 }
  | .collect i => if i < numLayers then σ.receive i (.submit i) else some { σ with pc := .drain 0 }
  | .submit i =>
    if i + p.depth < numLayers ∧ σ.pending (i + p.depth) = .idle then
      some (σ.submitRaw (i + p.depth) (.write i))
    else some { σ with pc := .write i }
  | .write i => some (σ.perform i (.update (p.rows i)) (.attend i) (.drain 0))
  | .attend i => some (σ.perform i (.getView : OffloadOp w) (.retain i) (.drain 0))
  | .retain i =>
    if i < p.depth then some (σ.perform i (.retainPreload : OffloadOp w) (.release i) (.drain 0))
    else some { σ with pc := .release i }
  | .release i =>
    if 0 < i ∧ p.depth ≤ i - 1 then
      some (σ.perform (i - 1) (.releaseBuffers : OffloadOp w) (.collect (i + 1)) (.drain 0))
    else some { σ with pc := .collect (i + 1) }
  | .drain j =>
    if j < numLayers then σ.receive j (.drain (j + 1))
    else if σ.failure.isSome then some { σ with pc := .returned }
    else some { σ with pc := .releaseLast }
  | .releaseLast =>
    if 1 ≤ numLayers ∧ p.depth ≤ numLayers - 1 then
      some (σ.perform (numLayers - 1) (.releaseBuffers : OffloadOp w) .returned .returned)
    else some { σ with pc := .returned }
  | .returned => none

/-- The main thread or any worker moves. -/
inductive Step (numLayers : ℕ) (p : Pass w) : PassState S → PassState S → Prop
  | main {σ σ' : PassState S} : σ.mainStep numLayers p = some σ' → Step numLayers p σ σ'
  | worker {σ : PassState S} (j : ℕ) : σ.pending j = .submitted → Step numLayers p σ (σ.work j)

/-- The states a pass over `caches` can be in. -/
def Reaches (numLayers : ℕ) (p : Pass w) (caches : ℕ → OffloadKVCache S) (σ : PassState S) : Prop :=
  Relation.ReflTransGen (Step numLayers p) (start caches) σ

/-- The pass returns and leaves `caches'`. -/
def Completes (numLayers : ℕ) (p : Pass w) (caches caches' : ℕ → OffloadKVCache S) : Prop :=
  ∃ σ, Reaches numLayers p caches σ ∧ σ.pc = .returned ∧ σ.caches = caches'

end PassState

end ArgusEngine
