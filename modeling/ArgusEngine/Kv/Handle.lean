import ArgusEngine.Kv.Swap
import ArgusEngine.Kv.Values

/-!
# The cache handle

`EngineCacheHandle` is the mutation surface a plugin sees of one layer: every call checks its
arguments against the entry frame and stages an intent; `commit` applies what is staged, re-encode
first, then the merges, then the one compaction.
-/

namespace ArgusEngine

inductive CacheOpError where
  | multipleCompactions
  | invalidKeep
  | wrongContainer
  | notOnHost
  | unsupportedFormat (name : String)
  | invalidMerge
  | mergeAlreadyStaged
  | noResidencyBackend
  | notResident
  deriving Repr, DecidableEq

/-- The staged compaction. -/
inductive Compaction where
  | keep (positions : List ℕ)
  | keepPerHead (positions : List (List ℕ))
  | offload (prefixLen : ℕ)
  | recallLayer
  deriving Repr, DecidableEq

structure EngineCacheHandle (P : Platform) where
  cache : KVCache
  layerIdx : ℕ
  nLayers : ℕ
  swap : Option SwapHandler
  entryPos : ℕ
  merges : Option (List (WeightedMerge P.F))
  compaction : Option Compaction
  reencode : Option String
  mutated : Bool

namespace EngineCacheHandle

variable {P : Platform}

/-- `new`, and `with_swap` when there is a swap handler. -/
def new (cache : KVCache) (layerIdx nLayers : ℕ) (swap : Option SwapHandler) :
    EngineCacheHandle P :=
  ⟨cache, layerIdx, nLayers, swap, cache.currentPos, none, none, none, false⟩

/-- The loop of `validate_keep`: `prev` is the position before. -/
def validateFrom (entryPos : ℕ) : Option ℕ → List ℕ → Except CacheOpError Unit
  | _, [] => .ok ()
  | prev, k :: ks =>
    if k ≥ entryPos then .error .invalidKeep
    else if prev.any fun p => decide (k ≤ p) then .error .invalidKeep
    else validateFrom entryPos (some k) ks

def validateKeep (h : EngineCacheHandle P) (keep : List ℕ) : Except CacheOpError Unit :=
  validateFrom h.entryPos none keep

/-- `set_compaction`: stage a compaction, at most one. -/
def setCompaction (h : EngineCacheHandle P) (c : Compaction) :
    Except CacheOpError Unit × EngineCacheHandle P :=
  if h.compaction.isSome then (.error .multipleCompactions, h)
  else (.ok (), { h with compaction := some c })

def kvOnDevice (h : EngineCacheHandle P) : Bool := h.cache.kBuffer.buffer.isGpuBuffer

/-! ## The calls -/

def keep (h : EngineCacheHandle P) (keep : List ℕ) :
    Except CacheOpError Unit × EngineCacheHandle P :=
  match h.validateKeep keep with
  | .error e => (.error e, h)
  | .ok () =>
    -- a slot in some head's hole is not that head's token
    let floor := h.cache.headStarts.foldl max 0
    if h.cache.isRagged ∧ keep.head?.any (fun p => decide (p < floor)) then (.error .notResident, h)
    else h.setCompaction (.keep keep)

/-- The check loop of `keep_per_head` over the heads from `kvHead` on. -/
def validateHeads (h : EngineCacheHandle P) : ℕ → List (List ℕ) → Except CacheOpError Unit
  | _, [] => .ok ()
  | kvHead, head :: rest =>
    match h.validateKeep head with
    | .error e => .error e
    | .ok () =>
      if head.head?.any fun p => decide (p < h.cache.headStartOf kvHead) then .error .notResident
      else validateHeads h (kvHead + 1) rest

/-- `keep.windows(2).all(|w| w[0].len() == w[1].len())`. -/
def equalLengths : List (List ℕ) → Bool
  | a :: b :: rest => a.length = b.length && equalLengths (b :: rest)
  | _ => true

def keepPerHead (h : EngineCacheHandle P) (keep : List (List ℕ)) :
    Except CacheOpError Unit × EngineCacheHandle P :=
  if h.cache.layout ≠ .headMajor then (.error .wrongContainer, h)
  else if keep.length ≠ h.cache.kvHeads then (.error .invalidKeep, h)
  else match validateHeads h 0 keep with
    | .error e => (.error e, h)
    | .ok () =>
      if !equalLengths keep && !h.cache.supportsRagged then (.error .wrongContainer, h)
      else h.setCompaction (.keepPerHead keep)

def merge (h : EngineCacheHandle P) (merges : List (WeightedMerge P.F)) :
    Except CacheOpError Unit × EngineCacheHandle P :=
  if h.kvOnDevice then (.error .notOnHost, h)
  else if h.merges.isSome then (.error .mergeAlreadyStaged, h)
  else if merges.any fun m => decide (m.into ≥ h.entryPos) ||
      m.source.any fun pw => decide (pw.1 ≥ h.entryPos) then (.error .invalidMerge, h)
  else (.ok (), { h with merges := some merges })

/-- The call `reencode`. -/
def reencodeTo (h : EngineCacheHandle P) (target : String) :
    Except CacheOpError Unit × EngineCacheHandle P :=
  if h.kvOnDevice then (.error .notOnHost, h)
  else if !isTypedFloor h.cache.kvDtype
    then (.error (.unsupportedFormat (currentFormatName h.cache)), h)
  else if target ≠ "f32" ∧ target ≠ "f16" ∧ target ≠ "q4_0"
    then (.error (.unsupportedFormat target), h)
  -- back to the stored format: cancels what was staged
  else if target = currentFormatName h.cache then (.ok (), { h with reencode := none })
  else if target = "q4_0" ∧ h.cache.headDim % QK4_0 ≠ 0 then (.error (.unsupportedFormat target), h)
  else (.ok (), { h with reencode := some target })

def transitionQuantBits (h : EngineCacheHandle P) (_bits : ℕ) :
    Except CacheOpError Unit × EngineCacheHandle P :=
  (.error .wrongContainer, h)

def offload (h : EngineCacheHandle P) (prefixLen : ℕ) :
    Except CacheOpError Unit × EngineCacheHandle P :=
  if h.swap.isNone then (.error .noResidencyBackend, h) else h.setCompaction (.offload prefixLen)

/-- `recall`, a word that Lean reserves. -/
def recallLayer (h : EngineCacheHandle P) : Except CacheOpError Unit × EngineCacheHandle P :=
  if h.swap.isNone then (.error .noResidencyBackend, h) else h.setCompaction .recallLayer

end EngineCacheHandle

/-! ## Commit -/

/-- `commit_per_head_keep_at`: gather every head and right-align it on the cursor, by default the
longest head. -/
def commitPerHeadKeepAt (c : KVCache) (heads : List (List ℕ)) (cursor : Option ℕ) :
    Except Fail KVCache :=
  let longest := (heads.map List.length).foldl max 0
  let pos := c.currentPos
  let newPos : Except Fail ℕ := match cursor with
    | some cur => if cur ≥ longest ∧ cur ≤ c.currentPos then .ok cur else .error (.err
        s!"per-head keep cursor {cur} is outside [{longest}, {pos}] for this layer")
    | none => .ok longest
  match newPos with
  | .error e => .error e
  | .ok newPos =>
    let starts := heads.map fun h => newPos - h.length
    match heads.zipIdx.foldlM (fun (c : KVCache) kh =>
        c.compactKeepPositionsForHead kh.2 kh.1 (newPos - kh.1.length)) c with
    | .error e => .error e
    | .ok c' => .ok ((c'.setCurrentPos newPos).setHeadStarts starts)

def commitPerHeadKeep (c : KVCache) (heads : List (List ℕ)) : Except Fail KVCache :=
  commitPerHeadKeepAt c heads none

namespace EngineCacheHandle

variable {P : Platform}

/-- The re-encode of a commit: the cache and whether bytes changed. -/
def commitReencode (h : EngineCacheHandle P) : Except Fail (KVCache × Bool) :=
  match h.reencode with
  | none => .ok (h.cache, h.mutated)
  | some target => match applyFormatPlan P h.cache ⟨target, []⟩ with
    | .ok c => .ok (c, true)
    | .error e => .error (.err ("re-encode commit failed: " ++ e.text))

/-- The merges of a commit, and the cache when they fail. -/
def commitMerges (h : EngineCacheHandle P) (c : KVCache) (mutated : Bool) :
    Except Fail (KVCache × Bool) × KVCache :=
  match h.merges with
  | none => (.ok (c, mutated), c)
  | some merges =>
    if merges.isEmpty then (.ok (c, mutated), c)
    else match applyWeightedMerges P c merges with
      | .ok c' => (.ok (c', true), c')
      | .error e => (.error e, c)

/-- The re-encode and the merges of a commit. -/
def commitValues (h : EngineCacheHandle P) : Except Fail (KVCache × Bool) × KVCache :=
  match h.commitReencode with
  | .error e => (.error e, h.cache)
  | .ok (c, mutated) => h.commitMerges c mutated

/-- The compaction of a commit. -/
def commitCompaction (h : EngineCacheHandle P) (c : KVCache) (mutated : Bool) :
    Except Fail Bool × KVCache × Option SwapHandler :=
  match h.compaction with
  | none => (.ok mutated, c, h.swap)
  | some (.keep keep) => match c.compactKeepPositions keep 0 with
    | .error e => (.error e, c, h.swap)
    -- every head kept the same slots
    | .ok c' => (.ok true, (c'.setCurrentPos keep.length).clearHeadStarts, h.swap)
  | some (.keepPerHead heads) => match commitPerHeadKeep c heads with
    | .error e => (.error e, c, h.swap)
    | .ok c' => (.ok true, c', h.swap)
  | some (.offload n) => match h.swap with
    | none => (.error (.err "offload requires a swap handler"), c, none)
    | some s =>
      let r := s.offloadPrefix P h.layerIdx c n
      (r.1.map fun n => mutated || decide (n > 0), r.2.2, some r.2.1)
  | some .recallLayer => match h.swap with
    | none => (.error (.err "recall requires a swap handler"), c, none)
    | some s =>
      let r := s.recallLayer h.layerIdx c
      (r.1.map fun n => mutated || decide (n > 0), r.2.2, some r.2.1)

/-- `commit`: whether bytes changed, the cache and the swap handler. -/
def commit (h : EngineCacheHandle P) : Except Fail Bool × KVCache × Option SwapHandler :=
  match h.commitValues with
  | (.error e, c) => (.error e, c, h.swap)
  | (.ok (c, mutated), _) => h.commitCompaction c mutated

end EngineCacheHandle

end ArgusEngine
