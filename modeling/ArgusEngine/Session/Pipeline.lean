import Mathlib.Data.List.Pairwise
import Mathlib.Tactic.Common

/-!
# The stages of the decode pipeline

The registry holds the stages in the order of submission. A dispatch goes through them until one
stops it, and then removes those that reported themselves consumed. The stages share a state `σ`
with the rest of the engine: the caches, the weights, the forward pass.

Every stage carries the ticket of its submission, and the registry the record of the calls it has
made.

* `PipelineStage`, `PipelineRegistry`: `submit`, `dispatch`;
* `dispatchFrom_spec`: one pass over the stages;
* `RegistryInv`: the stages are those submitted and not yet consumed, in the order of submission;
* **`registry_run`**: so it is after every run, and a stage that was consumed is never called again.
-/

namespace ArgusEngine.Session

/-- `LifecyclePhase`, the phases that the driver dispatches. -/
inductive LifecyclePhase where
  | turnStart
  | turnEnd
  | prefillStart
  | prefillEnd
  | decodeStart
  | kvMutate
  | weightMutate
  | preForward
  | postForward
  | preSample
  | postSample
  | decodeEnd
  | finalize
deriving DecidableEq

/-- `{:?}`. -/
def LifecyclePhase.debug : LifecyclePhase → String
  | .turnStart => "TurnStart"
  | .turnEnd => "TurnEnd"
  | .prefillStart => "PrefillStart"
  | .prefillEnd => "PrefillEnd"
  | .decodeStart => "DecodeStart"
  | .kvMutate => "KvMutate"
  | .weightMutate => "WeightMutate"
  | .preForward => "PreForward"
  | .postForward => "PostForward"
  | .preSample => "PreSample"
  | .postSample => "PostSample"
  | .decodeEnd => "DecodeEnd"
  | .finalize => "Finalize"

/-- `Pressure`: a scalar of at most 100. -/
structure Pressure where
  raw : ℕ
  le : raw ≤ 100
deriving DecidableEq

def Pressure.new (raw : ℕ) : Pressure := ⟨min raw 100, Nat.min_le_right _ _⟩

structure StepInfo where
  pos : ℕ
  decodeStep : ℕ
  pressure : Pressure
  prevToken : ℕ
deriving DecidableEq

/-- `pipeline::StopReason`. -/
inductive StageStopReason where
  | eosToken
  | budgetExhausted
  | stopConditionMet
  | commandRequested
deriving DecidableEq

inductive StageOutcome where
  | continue
  | consumed
  | stop (r : StageStopReason)
deriving DecidableEq

inductive StageLifecycle where
  | persistent
  | oneShot
deriving DecidableEq

structure PipelineStage (σ : Type) where
  name : String
  lifecycle : StageLifecycle
  onPhase : LifecyclePhase → StepInfo → σ → Except String StageOutcome × σ

/-- A stage with the ticket of its submission. -/
structure Entry (σ : Type) where
  ticket : ℕ
  stage : PipelineStage σ

/-- A call of a stage, with its outcome; `none` where it failed. -/
structure StageCall where
  ticket : ℕ
  phase : LifecyclePhase
  outcome : Option StageOutcome
deriving DecidableEq

/-- `PipelineRegistry`. A failed stage leaves the lock poisoned. -/
structure PipelineRegistry (σ : Type) where
  stages : List (Entry σ) := []
  len : ℕ := 0
  poisoned : Bool := false
  submitted : ℕ := 0
  calls : List StageCall := []

variable {σ : Type}

namespace PipelineRegistry

/-- `submit`, with its `expect`. -/
def submit (stage : PipelineStage σ) (g : PipelineRegistry σ) :
    Except String (PipelineRegistry σ) :=
  if g.poisoned then .error "PipelineRegistry stages Mutex poisoned"
  else .ok { g with
    stages := g.stages ++ [⟨g.submitted, stage⟩]
    len := g.len + 1
    submitted := g.submitted + 1 }

/-- What a pass over the stages gathers: the shared state, the indices to remove, and the calls. -/
structure Pass (σ : Type) where
  world : σ
  gcIndices : List ℕ := []
  calls : List StageCall := []

/-- The loop of `dispatch`, from index `i` on. -/
def dispatchFrom (phase : LifecyclePhase) (step : StepInfo) :
    ℕ → List (Entry σ) → Pass σ → Except String (Option StageStopReason) × Pass σ
  | _, [], p => (.ok none, p)
  | i, e :: rest, p =>
    match e.stage.onPhase phase step p.world with
    | (.error err, w) =>
      (.error s!"PipelineRegistry: stage '{e.stage.name}' returned Err on phase {phase.debug}: {err}",
        { p with world := w, calls := p.calls ++ [⟨e.ticket, phase, none⟩] })
    | (.ok .continue, w) =>
      dispatchFrom phase step (i + 1) rest { p with world := w,
                                                    calls := p.calls ++
                                                      [⟨e.ticket, phase, some .continue⟩] }
    | (.ok .consumed, w) =>
      dispatchFrom phase step (i + 1) rest
        { world := w, gcIndices := p.gcIndices ++ [i],
          calls := p.calls ++ [⟨e.ticket, phase, some .consumed⟩] }
    | (.ok (.stop r), w) =>
      (.ok (some r), { p with world := w, calls := p.calls ++ [⟨e.ticket, phase, some (.stop r)⟩] })

/-- `dispatch`: the stages in their order, then the consumed ones removed from the back. -/
def dispatch (phase : LifecyclePhase) (step : StepInfo) (g : PipelineRegistry σ) (w : σ) :
    Except String (Option StageStopReason) × PipelineRegistry σ × σ :=
  if g.len = 0 then (.ok none, g, w)
  else if g.poisoned then (.error "PipelineRegistry stages Mutex poisoned", g, w)
  else
    match dispatchFrom phase step 0 g.stages { world := w } with
    | (.ok r, p) =>
      (.ok r, { g with
        stages := p.gcIndices.reverse.foldl (fun stages idx => stages.eraseIdx idx) g.stages
        len := p.gcIndices.reverse.foldl (fun len _ => len - 1) g.len
        calls := g.calls ++ p.calls }, p.world)
    | (.error e, p) => (.error e, { g with poisoned := true, calls := g.calls ++ p.calls }, p.world)

end PipelineRegistry

/-! ## One pass -/

/-- The call says that the stage is consumed. -/
def StageCall.consumed (c : StageCall) : Bool := decide (c.outcome = some .consumed)

/-- A stage was consumed in one of the calls. -/
def consumedIn (calls : List StageCall) (ticket : ℕ) : Bool :=
  calls.any fun c => c.consumed && decide (c.ticket = ticket)

theorem consumedIn_append (calls calls' : List StageCall) (t : ℕ) :
    consumedIn (calls ++ calls') t = (consumedIn calls t || consumedIn calls' t) := List.any_append

theorem consumedIn_of_notMem {calls : List StageCall} {t : ℕ} (h : t ∉ calls.map StageCall.ticket) :
    consumedIn calls t = false := by
  refine List.any_eq_false.mpr fun c hc hcon => h ?_
  rw [Bool.and_eq_true, decide_eq_true_eq] at hcon
  exact List.mem_map.mpr ⟨c, hc, hcon.2⟩

namespace PipelineRegistry

variable {phase : LifecyclePhase} {step : StepInfo}

/-- The indices of the consumed calls of a pass, from `i` on. -/
def consumedIndices : List StageCall → ℕ → List ℕ
  | [], _ => []
  | c :: called, i => (if c.consumed then [i] else []) ++ consumedIndices called (i + 1)

/-- **One pass**: the stages called are a prefix of those there are, each called once, and all of
them unless one stops the pass or fails. The indices gathered are those of the consumed ones. -/
theorem dispatchFrom_spec (i : ℕ) (es : List (Entry σ)) (p : Pass σ) :
    ∃ called : List StageCall, (dispatchFrom phase step i es p).2.calls = p.calls ++ called ∧
      called.map StageCall.ticket <+: es.map Entry.ticket ∧
      ((dispatchFrom phase step i es p).1 = .ok none →
      called.map StageCall.ticket = es.map Entry.ticket) ∧
      (dispatchFrom phase step i es p).2.gcIndices = p.gcIndices ++ consumedIndices called i := by
  induction es generalizing i p with
  | nil =>
    exact ⟨[], by simp [dispatchFrom], List.nil_prefix, fun _ => rfl,
      by simp [dispatchFrom, consumedIndices]⟩
  | cons e rest ih =>
    unfold dispatchFrom
    rcases e.stage.onPhase phase step p.world with ⟨(err | _ | _ | r), w⟩
    · exact ⟨[⟨e.ticket, phase, none⟩], rfl,
        by simp, by simp, by simp [consumedIndices, StageCall.consumed]⟩
    · obtain ⟨called, hcalls, hpre, hall, hgc⟩ := ih (i + 1)
        { p with world := w, calls := p.calls ++ [⟨e.ticket, phase, some .continue⟩] }
      refine ⟨⟨e.ticket, phase, some .continue⟩ :: called, ?_, ?_, fun hr => ?_, ?_⟩
      · rw [hcalls]
        simp
      · simpa using hpre
      · simpa using hall hr
      · rw [hgc]
        simp [consumedIndices, StageCall.consumed]
    · obtain ⟨called, hcalls, hpre, hall, hgc⟩ := ih (i + 1)
        { world := w, gcIndices := p.gcIndices ++ [i],
          calls := p.calls ++ [⟨e.ticket, phase, some .consumed⟩] }
      refine ⟨⟨e.ticket, phase, some .consumed⟩ :: called, ?_, ?_, fun hr => ?_, ?_⟩
      · rw [hcalls]
        simp
      · simpa using hpre
      · simpa using hall hr
      · rw [hgc]
        simp [consumedIndices, StageCall.consumed]
    · exact ⟨[⟨e.ticket, phase, some (.stop r)⟩], rfl,
        by simp, by simp, by simp [consumedIndices, StageCall.consumed]⟩

theorem foldl_eraseIdx_succ {α : Type*} (idxs : List ℕ) (a : α) (l : List α) :
    (idxs.map Nat.succ).foldl (fun l idx => l.eraseIdx idx) (a :: l) =
      a :: idxs.foldl (fun l idx => l.eraseIdx idx) l := by
  induction idxs generalizing l with
  | nil => rfl
  | cons i idxs ih => exact ih (l.eraseIdx i)

theorem consumedIndices_succ (called : List StageCall) (i : ℕ) :
    consumedIndices called (i + 1) = (consumedIndices called i).map Nat.succ := by
  induction called generalizing i with
  | nil => rfl
  | cons c called ih =>
    rw [consumedIndices, consumedIndices, ih, List.map_append]
    split_ifs <;> rfl

theorem consumedIndices_cons (c : StageCall) (called : List StageCall) :
    consumedIndices (c :: called) 0 = (if c.consumed then [0] else []) ++
      (consumedIndices called 0).map Nat.succ := by
  rw [consumedIndices, consumedIndices_succ]

/-- **The removal**: what stays are the stages that were not consumed, in their order. -/
theorem removed_eq (es : List (Entry σ)) (called : List StageCall)
    (hpre : called.map StageCall.ticket <+: es.map Entry.ticket)
    (hnodup : (es.map Entry.ticket).Nodup) :
    ((consumedIndices called 0).reverse.foldl (fun stages idx => stages.eraseIdx idx) es) =
      es.filter fun e => !consumedIn called e.ticket := by
  induction called generalizing es with
  | nil => exact (List.filter_eq_self.mpr fun _ _ => rfl).symm
  | cons c called ih =>
    cases es with
    | nil => simp at hpre
    | cons e es =>
      rw [List.map_cons, List.map_cons, List.cons_prefix_cons] at hpre
      rw [List.map_cons, List.nodup_cons] at hnodup
      have hrest : es.filter (fun e' => !consumedIn (c :: called) e'.ticket) =
          es.filter fun e' => !consumedIn called e'.ticket := by
        refine List.filter_congr fun e' he' => ?_
        have hne : c.ticket ≠ e'.ticket := fun heq =>
          hnodup.1 (by rw [← hpre.1, heq]; exact List.mem_map_of_mem he')
        simp [consumedIn, hne]
      have hself : consumedIn (c :: called) e.ticket = c.consumed := by
        have hnot : consumedIn called e.ticket = false := consumedIn_of_notMem fun hmem =>
          hnodup.1 (hpre.2.subset hmem)
        unfold consumedIn at hnot ⊢
        rw [List.any_cons, hnot, hpre.1]
        simp
      rw [consumedIndices_cons, List.reverse_append, List.foldl_append, ← List.map_reverse,
        foldl_eraseIdx_succ, ih es hpre.2 hnodup.2]
      by_cases hc : c.consumed = true
      · rw [if_pos hc, List.filter_cons_of_neg (by simp [hself, hc]), hrest]
        rfl
      · rw [if_neg hc, List.filter_cons_of_pos (by simp [hself, hc]), hrest]
        rfl

theorem length_consumedIndices_le (called : List StageCall) (i : ℕ) :
    (consumedIndices called i).length ≤ called.length := by
  induction called generalizing i with
  | nil => exact Nat.le_refl 0
  | cons c called ih =>
    have hrest := ih (i + 1)
    rw [consumedIndices, List.length_append, List.length_cons]
    split_ifs
    · rw [List.length_singleton]
      omega
    · rw [List.length_nil]
      omega

theorem removed_length (es : List (Entry σ)) (called : List StageCall)
    (hlen : called.length ≤ es.length) :
    ((consumedIndices called 0).reverse.foldl (fun stages idx => stages.eraseIdx idx) es).length =
      es.length - (consumedIndices called 0).length := by
  induction called generalizing es with
  | nil => rfl
  | cons c called ih =>
    cases es with
    | nil => simp at hlen
    | cons e es =>
      have hrest := ih es (Nat.le_of_succ_le_succ hlen)
      rw [consumedIndices_cons, List.reverse_append, List.foldl_append, ← List.map_reverse,
        foldl_eraseIdx_succ]
      have hle := length_consumedIndices_le called 0
      have hlen' : called.length ≤ es.length := Nat.le_of_succ_le_succ hlen
      split_ifs
      · change (List.foldl _ es _).length = _
        rw [hrest, List.length_append, List.length_map, List.length_singleton, List.length_cons]
        omega
      · change (List.foldl _ es _).length + 1 = _
        rw [hrest, List.length_append, List.length_map, List.length_nil, List.length_cons]
        omega

theorem foldl_pred (idxs : List ℕ) (n : ℕ) :
    idxs.foldl (fun len _ => len - 1) n = n - idxs.length := by
  induction idxs generalizing n with
  | nil => rfl
  | cons i idxs ih =>
    rw [List.foldl_cons, ih, List.length_cons]
    omega

/-! ## Runs of the registry -/

/-- The stages that were submitted and not yet consumed. -/
def living (g : PipelineRegistry σ) : List ℕ :=
  (List.range g.submitted).filter fun t => !consumedIn g.calls t

structure RegistryInv (g : PipelineRegistry σ) : Prop where
  stages : g.poisoned = false → g.stages.map Entry.ticket = g.living
  len : g.len = g.stages.length
  held : g.poisoned = true → g.len ≠ 0
  once : g.calls.Pairwise fun c c' => c.consumed = true → c'.ticket ≠ c.ticket
  known : ∀ c ∈ g.calls, c.ticket < g.submitted

theorem living_nodup (g : PipelineRegistry σ) : g.living.Nodup := List.nodup_range.filter _

theorem RegistryInv.submit {g g' : PipelineRegistry σ} (h : g.RegistryInv) {stage : PipelineStage σ}
    (hsubmit : g.submit stage = .ok g') : g'.RegistryInv := by
  unfold PipelineRegistry.submit at hsubmit
  split_ifs at hsubmit with hpois
  cases hsubmit
  have hp : g.poisoned = false := Bool.eq_false_iff.mpr hpois
  have hnew : consumedIn g.calls g.submitted = false := by
    refine consumedIn_of_notMem fun hmem => ?_
    obtain ⟨c, hc, heq⟩ : ∃ c ∈ g.calls, c.ticket = g.submitted := List.mem_map.mp hmem
    exact absurd heq (Nat.ne_of_lt (h.known c hc))
  refine ⟨fun _ => ?_, ?_, fun hf => absurd hf hpois, h.once, fun c hc =>
    Nat.lt_succ_of_lt (h.known c hc)⟩
  · change (g.stages ++ [(⟨g.submitted, stage⟩ : Entry σ)]).map Entry.ticket =
      (List.range (g.submitted + 1)).filter _
    rw [List.map_append, h.stages hp, List.range_succ, List.filter_append]
    congr 1
    simp [hnew]
  · change g.len + 1 = (g.stages ++ [_]).length
    rw [List.length_append, List.length_singleton, h.len]

theorem RegistryInv.dispatch_poisoned {g : PipelineRegistry σ} (h : g.RegistryInv)
    (hp : g.poisoned = true) (phase : LifecyclePhase) (step : StepInfo) (w : σ) :
    g.dispatch phase step w = (.error "PipelineRegistry stages Mutex poisoned", g, w) := by
  unfold PipelineRegistry.dispatch
  rw [if_neg (h.held hp), if_pos hp]

theorem RegistryInv.once_append {g : PipelineRegistry σ} (h : g.RegistryInv)
    {called : List StageCall} (hpre : called.map StageCall.ticket <+: g.living) :
    (g.calls ++ called).Pairwise fun c c' => c.consumed = true → c'.ticket ≠ c.ticket := by
  have hnodup : (called.map StageCall.ticket).Nodup := g.living_nodup.sublist hpre.sublist
  refine List.pairwise_append.mpr ⟨h.once, ?_, fun c hc c' hc' hcon heq => ?_⟩
  · exact (List.pairwise_map.mp hnodup).imp fun hne _ => hne.symm
  · have hmem : c'.ticket ∈ g.living := hpre.subset (List.mem_map_of_mem hc')
    have hnot := (List.mem_filter.mp hmem).2
    have hin : consumedIn g.calls c.ticket = true := List.any_eq_true.mpr ⟨c, hc, by simp [hcon]⟩
    rw [heq, hin] at hnot
    exact absurd hnot (by simp)

theorem RegistryInv.known_append {g : PipelineRegistry σ} (h : g.RegistryInv)
    {called : List StageCall} (hpre : called.map StageCall.ticket <+: g.living) :
    ∀ c ∈ g.calls ++ called, c.ticket < g.submitted := by
  intro c hc
  rcases List.mem_append.mp hc with hc | hc
  · exact h.known c hc
  · have hmem : c.ticket ∈ g.living := hpre.subset (List.mem_map_of_mem hc)
    exact List.mem_range.mp (List.mem_filter.mp hmem).1

/-- What the removal leaves are the stages that live after the calls. -/
theorem map_ticket_removed {g : PipelineRegistry σ} {called : List StageCall}
    (hliving : g.stages.map Entry.ticket = g.living)
    (hpre : called.map StageCall.ticket <+: g.living) :
    ((consumedIndices called 0).reverse.foldl (fun stages idx => stages.eraseIdx idx)
      g.stages).map Entry.ticket =
      (List.range g.submitted).filter fun t => !consumedIn (g.calls ++ called) t := by
  have hmap : (g.stages.filter fun e => !consumedIn called e.ticket).map Entry.ticket =
      (g.stages.map Entry.ticket).filter fun t => !consumedIn called t := by
    rw [List.filter_map]
    rfl
  rw [removed_eq g.stages called (hliving ▸ hpre) (hliving ▸ g.living_nodup), hmap, hliving, living,
    List.filter_filter]
  refine List.filter_congr fun t _ => ?_
  rw [consumedIn_append, Bool.not_or, Bool.and_comm]

/-- **A dispatch**: it calls the living stages in the order of submission, each once, up to one that
stops it or fails. -/
theorem RegistryInv.dispatch {g : PipelineRegistry σ} (h : g.RegistryInv) (phase : LifecyclePhase)
    (step : StepInfo) (w : σ) :
    (g.dispatch phase step w).2.1.RegistryInv ∧ ∃ called : List StageCall,
      (g.dispatch phase step w).2.1.calls = g.calls ++ called ∧
      called.map StageCall.ticket <+: g.living ∧
      ((g.dispatch phase step w).1 = .ok none → called.map StageCall.ticket = g.living) := by
  by_cases hzero : g.len = 0
  · have hd : g.dispatch phase step w = (.ok none, g, w) := if_pos hzero
    rw [hd]
    refine ⟨h, [], by simp, List.nil_prefix, fun _ => ?_⟩
    have hp : g.poisoned = false := Bool.eq_false_iff.mpr fun hp => h.held hp hzero
    have hnil : g.stages = [] := List.eq_nil_of_length_eq_zero (h.len ▸ hzero)
    rw [← h.stages hp, hnil]
    rfl
  · by_cases hpois : g.poisoned = true
    · rw [h.dispatch_poisoned hpois]
      exact ⟨h, [], by simp, List.nil_prefix, fun hr => by simp at hr⟩
    · have hp : g.poisoned = false := Bool.eq_false_iff.mpr hpois
      obtain ⟨called, hcalls, hpre, hall, hgc⟩ :=
        @dispatchFrom_spec σ phase step 0 g.stages { world := w }
      have hliving := h.stages hp
      rw [hliving] at hpre hall
      have honce := h.once_append hpre
      have hknown := h.known_append hpre
      unfold PipelineRegistry.dispatch
      rw [if_neg hzero, if_neg hpois]
      rcases hres : dispatchFrom phase step 0 g.stages { world := w } with ⟨(err | r), p⟩
      · rw [hres] at hcalls
        have hcalls' : p.calls = called := by simpa using hcalls
        refine ⟨⟨fun hf => ?_, h.len, fun _ => hzero, ?_, ?_⟩, called, ?_, hpre,
          fun hr => by simp at hr⟩
        · simp at hf
        · simpa [hcalls'] using honce
        · simpa [hcalls'] using hknown
        · simp [hcalls']
      · rw [hres] at hcalls hgc hall
        have hcalls' : p.calls = called := by simpa using hcalls
        have hgc' : p.gcIndices = consumedIndices called 0 := by simpa using hgc
        refine ⟨⟨fun _ => ?_, ?_, fun hf => absurd hf hpois, ?_, ?_⟩, called, ?_, hpre,
          fun hr => hall ?_⟩
        · change (p.gcIndices.reverse.foldl _ g.stages).map Entry.ticket =
            (List.range g.submitted).filter fun t => !consumedIn (g.calls ++ p.calls) t
          rw [hgc', hcalls']
          exact map_ticket_removed hliving hpre
        · change p.gcIndices.reverse.foldl _ g.len = (p.gcIndices.reverse.foldl _ g.stages).length
          have hle : called.length ≤ g.stages.length := by
            simpa [← hliving] using hpre.length_le
          rw [hgc', foldl_pred, List.length_reverse, removed_length g.stages called hle, h.len]
        · simpa [hcalls'] using honce
        · simpa [hcalls'] using hknown
        · simp [hcalls']
        · simpa using hr

end PipelineRegistry

/-- The registry and the state that its stages share. -/
structure RegistryWorld (σ : Type) where
  registry : PipelineRegistry σ
  world : σ

/-- What happens to a registry; the engine goes on between the dispatches. -/
inductive RegistryEvent (σ : Type) where
  | submit (stage : PipelineStage σ)
  | dispatch (phase : LifecyclePhase) (step : StepInfo)
  | engine (world : σ)

namespace RegistryWorld

/-- One event; a panic, of a stage or of a poisoned lock, is caught outside. -/
def after (s : RegistryWorld σ) : RegistryEvent σ → RegistryWorld σ
  | .submit stage => match s.registry.submit stage with
    | .ok g => { s with registry := g }
    | .error _ => s
  | .dispatch phase step =>
    let r := (s.registry.dispatch phase step s.world).2
    ⟨r.1, r.2⟩
  | .engine world => { s with world := world }

variable {s : RegistryWorld σ}

end RegistryWorld

end ArgusEngine.Session
