import ArgusEngine.Kv.Handle

/-!
# The handle is a transaction

The seven calls of a handle, in any order and with any arguments. One inversion lemma,
`HandleCall.apply_cases`, says what a call can do: return an error and leave the handle as it was,
or return `Ok` and fill one slot. Everything else about a sequence of calls follows from it:

* `runCalls_accepted`: dropping the rejected calls does not change the handle;
* `compaction_runCalls`, `reencode_runCalls`: what the slots hold in the end;
* **`runCalls_transaction`**: the cache is untouched, rejected calls have no effect on the commit,
  one compaction at most, the last re-encode wins.
-/

namespace ArgusEngine

open EngineCacheHandle

/-- A call of the handle. -/
inductive HandleCall (P : Platform) where
  | keep (positions : List ℕ)
  | keepPerHead (positions : List (List ℕ))
  | merge (merges : List (WeightedMerge P.F))
  | reencode (target : String)
  | transitionQuantBits (bits : ℕ)
  | offload (prefixLen : ℕ)
  | recallLayer

namespace HandleCall

variable {P : Platform}

def apply (h : EngineCacheHandle P) : HandleCall P → Except CacheOpError Unit × EngineCacheHandle P
  | keep positions => h.keep positions
  | keepPerHead positions => h.keepPerHead positions
  | merge merges => h.merge merges
  | reencode target => h.reencodeTo target
  | transitionQuantBits bits => h.transitionQuantBits bits
  | offload prefixLen => h.offload prefixLen
  | recallLayer => h.recallLayer

/-- The compaction a call asks for. -/
def compaction? : HandleCall P → Option Compaction
  | keep positions => some (.keep positions)
  | keepPerHead positions => some (.keepPerHead positions)
  | offload prefixLen => some (.offload prefixLen)
  | recallLayer => some .recallLayer
  | _ => none

/-- The format a call asks for. -/
def target? : HandleCall P → Option String
  | reencode target => some target
  | _ => none

/-- The slot an accepted call fills. -/
def staged (h : EngineCacheHandle P) : HandleCall P → EngineCacheHandle P
  | keep positions => { h with compaction := some (.keep positions) }
  | keepPerHead positions => { h with compaction := some (.keepPerHead positions) }
  | merge merges => { h with merges := some merges }
  | reencode target =>
    { h with reencode := if target = currentFormatName h.cache then none else some target }
  | transitionQuantBits _ => h
  | offload prefixLen => { h with compaction := some (.offload prefixLen) }
  | recallLayer => { h with compaction := some .recallLayer }

/-- `r` is a rejection that leaves `h` alone, or the acceptance of `call` with its slot free. -/
def Outcome (h : EngineCacheHandle P) (call : HandleCall P)
    (r : Except CacheOpError Unit × EngineCacheHandle P) : Prop :=
  (∃ e, r = (.error e, h)) ∨
    (r = (.ok (), call.staged h) ∧ (call.compaction?.isSome → h.compaction = none))

theorem outcome_setCompaction {h : EngineCacheHandle P} {call : HandleCall P} {comp : Compaction}
    (hs : call.staged h = { h with compaction := some comp }) :
    Outcome h call (h.setCompaction comp) := by
  unfold EngineCacheHandle.setCompaction
  split_ifs with hsome
  · exact .inl ⟨_, rfl⟩
  · exact .inr ⟨by rw [hs], fun _ => by simpa using hsome⟩

/-- **What a call can do.** -/
theorem apply_cases (h : EngineCacheHandle P) (call : HandleCall P) :
    Outcome h call (call.apply h) := by
  cases call with
  | keep positions =>
    simp only [apply, EngineCacheHandle.keep]
    split
    · exact .inl ⟨_, rfl⟩
    · split_ifs
      · exact .inl ⟨_, rfl⟩
      · exact outcome_setCompaction rfl
  | keepPerHead positions =>
    simp only [apply, EngineCacheHandle.keepPerHead]
    split_ifs with h₁ h₂
    · exact .inl ⟨_, rfl⟩
    · exact .inl ⟨_, rfl⟩
    all_goals split
    · exact .inl ⟨_, rfl⟩
    · exact .inl ⟨_, rfl⟩
    · exact .inl ⟨_, rfl⟩
    · exact outcome_setCompaction rfl
  | merge merges =>
    simp only [apply, EngineCacheHandle.merge]
    split_ifs
    · exact .inl ⟨_, rfl⟩
    · exact .inl ⟨_, rfl⟩
    · exact .inl ⟨_, rfl⟩
    · exact .inr ⟨rfl, fun hc => by cases hc⟩
  | reencode target =>
    simp only [apply, EngineCacheHandle.reencodeTo]
    split_ifs with h₁ h₂ h₃ h₄ h₅
    · exact .inl ⟨_, rfl⟩
    · exact .inl ⟨_, rfl⟩
    · exact .inl ⟨_, rfl⟩
    · exact .inr ⟨by simp only [staged, if_pos h₄], fun hc => by cases hc⟩
    · exact .inl ⟨_, rfl⟩
    · exact .inr ⟨by simp only [staged, if_neg h₄], fun hc => by cases hc⟩
  | transitionQuantBits bits => exact .inl ⟨_, rfl⟩
  | offload prefixLen =>
    simp only [apply, EngineCacheHandle.offload]
    split_ifs
    · exact .inl ⟨_, rfl⟩
    · exact outcome_setCompaction rfl
  | recallLayer =>
    simp only [apply, EngineCacheHandle.recallLayer]
    split_ifs
    · exact .inl ⟨_, rfl⟩
    · exact outcome_setCompaction rfl

theorem apply_of_ok {h : EngineCacheHandle P} {call : HandleCall P}
    (hok : (call.apply h).1 = .ok ()) : (call.apply h).2 = call.staged h ∧
    (call.compaction?.isSome → h.compaction = none) := by
  rcases call.apply_cases h with ⟨e, he⟩ | ⟨he, hfree⟩
  · rw [he] at hok; cases hok
  · exact ⟨by rw [he], hfree⟩

theorem apply_of_error {h : EngineCacheHandle P} {call : HandleCall P} {e : CacheOpError}
    (herr : (call.apply h).1 = .error e) : (call.apply h).2 = h := by
  rcases call.apply_cases h with ⟨e', he⟩ | ⟨he, -⟩
  · rw [he]
  · rw [he] at herr; cases herr

end HandleCall

/-! ## Sequences of calls -/

section Sequences

variable {P : Platform}

/-- The handle after a sequence of calls. -/
def runCalls (h : EngineCacheHandle P) (calls : List (HandleCall P)) : EngineCacheHandle P :=
  calls.foldl (fun h call => (call.apply h).2) h

/-- The calls of the sequence that return `Ok`. -/
def accepted (h : EngineCacheHandle P) : List (HandleCall P) → List (HandleCall P)
  | [] => []
  | call :: calls => match (call.apply h).1 with
    | .ok () => call :: accepted (call.apply h).2 calls
    | .error _ => accepted (call.apply h).2 calls

theorem mem_of_mem_accepted (calls : List (HandleCall P)) : ∀ (h : EngineCacheHandle P) {call},
    call ∈ accepted h calls → call ∈ calls := by
  induction calls with
  | nil => exact fun h call hc => hc
  | cons a calls ih =>
    intro h call hc
    rw [accepted] at hc
    split at hc
    · rcases List.mem_cons.mp hc with rfl | hc
      · exact List.mem_cons_self
      · exact List.mem_cons_of_mem _ (ih _ hc)
    · exact List.mem_cons_of_mem _ (ih _ hc)

theorem runCalls_cache (calls : List (HandleCall P)) (h : EngineCacheHandle P) :
    (runCalls h calls).cache = h.cache ∧ (runCalls h calls).swap = h.swap := by
  induction calls generalizing h with
  | nil => exact ⟨rfl, rfl⟩
  | cons call calls ih =>
    obtain ⟨h₁, h₂⟩ := ih (call.apply h).2
    unfold runCalls at h₁ h₂ ⊢
    rw [List.foldl_cons, h₁, h₂]
    rcases call.apply_cases h with ⟨e, he⟩ | ⟨he, -⟩ <;> rw [he]
    · exact ⟨rfl, rfl⟩
    · cases call <;> exact ⟨rfl, rfl⟩

/-- **Rejected calls can be dropped.** -/
theorem runCalls_accepted (calls : List (HandleCall P)) (h : EngineCacheHandle P) :
    runCalls h (accepted h calls) = runCalls h calls := by
  induction calls generalizing h with
  | nil => rfl
  | cons call calls ih =>
    rw [accepted]
    split
    · exact ih _
    · rename_i e he
      have hh := HandleCall.apply_of_error he
      rw [hh, ih h, runCalls, runCalls, List.foldl_cons, hh]

/-- At most one compaction is accepted, and it is the one staged. -/
theorem compaction_runCalls (calls : List (HandleCall P)) (h : EngineCacheHandle P) :
    ((h.compaction.toList ++ (accepted h calls).filterMap HandleCall.compaction?).length ≤ 1) ∧
      (runCalls h calls).compaction =
        (h.compaction.toList ++ (accepted h calls).filterMap HandleCall.compaction?).head? := by
  induction calls generalizing h with
  | nil => cases hc : h.compaction <;> simp [accepted, runCalls, hc]
  | cons call calls ih =>
    have hih := ih (call.apply h).2
    rw [accepted]
    split
    · rename_i hok
      obtain ⟨hst, hfree⟩ := HandleCall.apply_of_ok hok
      rw [List.filterMap_cons]
      cases hcomp : call.compaction? with
      | none =>
        -- the slot is not this call's
        have hsame : (call.apply h).2.compaction = h.compaction := by
          rw [hst]; cases call <;> first | rfl | cases hcomp
        rw [hsame] at hih
        exact hih
      | some comp =>
        have hnone := hfree (by rw [hcomp]; rfl)
        have hset : (call.apply h).2.compaction = some comp := by
          rw [hst]; cases call <;> cases hcomp <;> rfl
        rw [hset] at hih
        rw [hnone]
        exact hih
    · rename_i e he
      rw [HandleCall.apply_of_error he] at hih
      rw [HandleCall.apply_of_error he]
      refine ⟨hih.1, ?_⟩
      rw [← hih.2, runCalls, runCalls, List.foldl_cons, HandleCall.apply_of_error he]

/-- What a sequence of accepted re-encodes stages: the last one, or nothing if it names the stored
format. -/
def lastTarget (current : String) (staged : Option String) (targets : List String) :
    Option String :=
  match targets.getLast? with
  | none => staged
  | some target => if target = current then none else some target

theorem lastTarget_cons (current : String) (staged : Option String) (t : String)
    (ts : List String) : lastTarget current staged (t :: ts) =
    lastTarget current (if t = current then none else some t) ts := by
  cases ts with
  | nil => rfl
  | cons u us =>
    obtain ⟨x, hx⟩ := Option.isSome_iff_exists.mp (show (u :: us).getLast?.isSome by simp)
    simp only [lastTarget, List.getLast?_cons_cons, hx]

/-- **The last accepted re-encode wins.** -/
theorem reencode_runCalls (calls : List (HandleCall P)) (h : EngineCacheHandle P) :
    (runCalls h calls).reencode = lastTarget (currentFormatName h.cache) h.reencode
      ((accepted h calls).filterMap HandleCall.target?) := by
  induction calls generalizing h with
  | nil => rfl
  | cons call calls ih =>
    have hih := ih (call.apply h).2
    have hcache := (runCalls_cache [call] h).1
    rw [runCalls, List.foldl_cons, List.foldl_nil] at hcache
    rw [hcache] at hih
    rw [accepted]
    split
    · rename_i hok
      obtain ⟨hst, -⟩ := HandleCall.apply_of_ok hok
      rw [List.filterMap_cons]
      cases ht : call.target? with
      | none =>
        have hsame : (call.apply h).2.reencode = h.reencode := by
          rw [hst]; cases call <;> first | rfl | cases ht
        rw [hsame] at hih
        exact hih
      | some t =>
        have hset : (call.apply h).2.reencode = if t = currentFormatName h.cache
          then none else some t := by
          rw [hst]
          cases call <;> cases ht
          rfl
        rw [hset] at hih
        simp only
        rw [lastTarget_cons]
        exact hih
    · rename_i e he
      rw [HandleCall.apply_of_error he] at hih
      rw [HandleCall.apply_of_error he, ← hih, runCalls, runCalls, List.foldl_cons,
        HandleCall.apply_of_error he]

end Sequences

/-- **The handle is a transaction.** For every cache and every sequence of calls on a new handle:
the cache is as it was; the commit is that of the accepted calls alone; at most one compaction was
accepted and it is the staged one; the staged re-encode is the last accepted one, none if it named
the stored format. -/
theorem runCalls_transaction (P : Platform) (c : KVCache) (layerIdx nLayers : ℕ)
    (swap : Option SwapHandler) (calls : List (HandleCall P)) :
    let h := EngineCacheHandle.new c layerIdx nLayers swap
    let ok := accepted h calls
    (runCalls h calls).cache = c ∧ (runCalls h calls).swap = swap ∧
    (runCalls h calls).commit = (runCalls h ok).commit ∧
    (ok.filterMap HandleCall.compaction?).length ≤ 1 ∧
    (runCalls h calls).compaction = (ok.filterMap HandleCall.compaction?).head? ∧
    (runCalls h calls).reencode = lastTarget (currentFormatName c)
      none (ok.filterMap HandleCall.target?) := by
  intro h ok
  obtain ⟨hlen, hcomp⟩ := compaction_runCalls calls h
  obtain ⟨hcache, hswap⟩ := runCalls_cache calls h
  exact ⟨hcache, hswap, by rw [runCalls_accepted], hlen, hcomp, reencode_runCalls calls h⟩

end ArgusEngine
