import Mathlib.Tactic.Common

/-!
# Stateful computations that may stop

A computation of `EStateM ε σ` that stops with an error keeps the state it stopped in. `After x Q E
s`: run from `s`, the computation `x` returns a result and a state of `Q`, or stops with an error
and a state of `E`. One rule for each way to build a computation; `After.forM` and `After.ignored`
are the rules of a loop and of an ignored error.

`Moves R E x s`: however it ends, `x` takes `s` to a state that `R` relates to it, and its errors
are among `E`. For a preorder `R` that is kept by sequencing (**`Moves.bind`**) and by loops
(`Moves.forM`).
-/

namespace Effects

variable {ε σ α β ι : Type}

/-- Run from `s`, `x` returns within `Q` or stops within `E`. -/
def After (x : EStateM ε σ α) (Q : α → σ → Prop) (E : ε → σ → Prop) (s : σ) : Prop :=
  match x s with
  | .ok a s' => Q a s'
  | .error e s' => E e s'

/-- `let _ = x`: the error of `x` is dropped, its effect on the state is not. `caught` says which
errors are values. -/
def ignored (caught : ε → Bool) (x : EStateM ε σ α) : EStateM ε σ Unit := fun s =>
  match x s with
  | .ok _ s' => .ok () s'
  | .error e s' => if caught e then .ok () s' else .error e s'

/-- `if c { x }`. -/
def onlyIf (c : Prop) [Decidable c] (x : EStateM ε σ Unit) : EStateM ε σ Unit :=
  if c then x else pure ()

/-! ## Runs -/

theorem run_bind_ok {x : EStateM ε σ α} {f : α → EStateM ε σ β} {s s' : σ} {a : α}
    (h : x s = .ok a s') : (x >>= f) s = f a s' := by
  change EStateM.bind x f s = _
  unfold EStateM.bind
  rw [h]

theorem run_bind_error {x : EStateM ε σ α} {f : α → EStateM ε σ β} {s s' : σ} {e : ε}
    (h : x s = .error e s') : (x >>= f) s = .error e s' := by
  change EStateM.bind x f s = _
  unfold EStateM.bind
  rw [h]

theorem run_get_bind {f : σ → EStateM ε σ β} (s : σ) : (get >>= f) s = f s s := rfl

section Rules

variable {Q Q' : α → σ → Prop} {R : β → σ → Prop} {E E' : ε → σ → Prop} {s s' : σ}

theorem After.of_ok {x : EStateM ε σ α} {a : α} (h : After x Q E s) (hx : x s = .ok a s') :
    Q a s' := by
  unfold After at h
  rw [hx] at h
  exact h

theorem After.of_error {x : EStateM ε σ α} {e : ε} (h : After x Q E s) (hx : x s = .error e s') :
    E e s' := by
  unfold After at h
  rw [hx] at h
  exact h

theorem After.exists_ok {x : EStateM ε σ α} (h : After x Q (fun _ _ => False) s) :
    ∃ a s', x s = .ok a s' ∧ Q a s' := by
  unfold After at h
  cases hx : x s with
  | ok a s' =>
    rw [hx] at h
    exact ⟨a, s', rfl, h⟩
  | error e s' =>
    rw [hx] at h
    exact h.elim

theorem After.exists_error {x : EStateM ε σ α} (h : After x (fun _ _ => False) E s) :
    ∃ e s', x s = .error e s' ∧ E e s' := by
  unfold After at h
  cases hx : x s with
  | ok a s' =>
    rw [hx] at h
    exact h.elim
  | error e s' =>
    rw [hx] at h
    exact ⟨e, s', rfl, h⟩

theorem After.mono {x : EStateM ε σ α} (h : After x Q E s) (hQ : ∀ a s', Q a s' → Q' a s')
    (hE : ∀ e s', E e s' → E' e s') : After x Q' E' s := by
  unfold After at h ⊢
  cases hx : x s with
  | ok a s' =>
    rw [hx] at h
    exact hQ a s' h
  | error e s' =>
    rw [hx] at h
    exact hE e s' h

theorem After.and {x : EStateM ε σ α} (h : After x Q E s) (h' : After x Q' E' s) :
    After x (fun a s' => Q a s' ∧ Q' a s') (fun e s' => E e s' ∧ E' e s') s := by
  unfold After at h h' ⊢
  cases hx : x s with
  | ok a s' =>
    rw [hx] at h h'
    exact ⟨h, h'⟩
  | error e s' =>
    rw [hx] at h h'
    exact ⟨h, h'⟩

theorem after_trivial {x : EStateM ε σ α} : After x (fun _ _ => True) (fun _ _ => True) s := by
  unfold After
  cases x s <;> trivial

theorem after_pure {a : α} : After (pure a) Q E s ↔ Q a s := Iff.rfl

theorem after_throw {e : ε} : After (throw e) Q E s ↔ E e s := Iff.rfl

theorem after_get {Q : σ → σ → Prop} : After get Q E s ↔ Q s s := Iff.rfl

theorem after_modify {f : σ → σ} {Q : PUnit → σ → Prop} :
    After (modify f) Q E s ↔ Q () (f s) := Iff.rfl

/-- **Sequencing.** -/
theorem after_bind {x : EStateM ε σ α} {f : α → EStateM ε σ β} :
    After (x >>= f) R E s ↔ After x (fun a => After (f a) R E) E s := by
  change (match EStateM.bind x f s with
    | .ok a s' => R a s'
    | .error e s' => E e s') ↔ _
  unfold After EStateM.bind
  cases x s <;> exact Iff.rfl

theorem after_ite {c : Prop} [Decidable c] {x y : EStateM ε σ α} :
    After (if c then x else y) Q E s ↔ (c → After x Q E s) ∧ (¬ c → After y Q E s) := by
  by_cases hc : c
  · rw [if_pos hc]
    exact ⟨fun h => ⟨fun _ => h, fun hn => absurd hc hn⟩, fun h => h.1 hc⟩
  · rw [if_neg hc]
    exact ⟨fun h => ⟨fun hp => absurd hp hc, fun _ => h⟩, fun h => h.2 hc⟩

theorem after_onlyIf {c : Prop} [Decidable c] {x : EStateM ε σ Unit} {Q : Unit → σ → Prop} :
    After (onlyIf c x) Q E s ↔ (c → After x Q E s) ∧ (¬ c → Q () s) := after_ite

theorem After.bind {x : EStateM ε σ α} {f : α → EStateM ε σ β} (hx : After x Q E s)
    (hf : ∀ a s', Q a s' → After (f a) R E s') : After (x >>= f) R E s :=
  after_bind.mpr (hx.mono hf fun _ _ h => h)

/-- **A loop whose every pass keeps `I`.** -/
theorem After.forM {I : σ → Prop} {f : ι → EStateM ε σ Unit} {l : List ι}
    (hf : ∀ i ∈ l, ∀ s, I s → After (f i) (fun _ => I) E s) (hs : I s) :
    After (l.forM f) (fun _ => I) E s := by
  induction l generalizing s with
  | nil => exact hs
  | cons i l ih =>
    change After (f i >>= fun _ => l.forM f) _ _ _
    exact (hf i List.mem_cons_self s hs).bind fun _ s' hs' =>
      ih (fun j hj => hf j (List.mem_cons_of_mem _ hj)) hs'

/-- **An ignored error**: what is caught goes on like a result. -/
theorem After.ignored {caught : ε → Bool} {x : EStateM ε σ α} {P : σ → Prop}
    (hx : After x (fun _ => P) E s) (hcaught : ∀ e s', E e s' → caught e = true → P s') :
    After (ignored caught x) (fun _ => P) (fun e s' => E e s' ∧ caught e = false) s := by
  unfold After at hx ⊢
  unfold Effects.ignored
  cases h : x s with
  | ok a s' =>
    rw [h] at hx
    exact hx
  | error e s' =>
    rw [h] at hx
    dsimp only
    by_cases hc : caught e = true
    · rw [if_pos hc]
      exact hcaught e s' hx hc
    · rw [if_neg hc]
      exact ⟨hx, Bool.eq_false_iff.mpr hc⟩

end Rules

/-! ## Moves along a preorder -/

/-- However `x` ends, it moves the state by `R`; its errors are among `E`. -/
def Moves (R : σ → σ → Prop) (E : ε → Prop) (x : EStateM ε σ α) (s : σ) : Prop :=
  After x (fun _ s' => R s s') (fun e s' => R s s' ∧ E e) s

section Moves

variable {R : σ → σ → Prop} {E : ε → Prop} {s s' : σ}

theorem Moves.of_ok {x : EStateM ε σ α} {a : α} (h : Moves R E x s) (hx : x s = .ok a s') :
    R s s' := by
  unfold Moves at h
  exact h.of_ok hx

theorem Moves.of_error {x : EStateM ε σ α} {e : ε} (h : Moves R E x s) (hx : x s = .error e s') :
    R s s' ∧ E e := by
  unfold Moves at h
  exact h.of_error hx

theorem Moves.mono {R' : σ → σ → Prop} {E' : ε → Prop} {x : EStateM ε σ α} (h : Moves R E x s)
    (hR : ∀ s', R s s' → R' s s') (hE : ∀ e, E e → E' e) : Moves R' E' x s :=
  After.mono h (fun _ s' hs => hR s' hs) fun e s' hs => ⟨hR s' hs.1, hE e hs.2⟩

theorem moves_pure [Std.Refl R] (a : α) : Moves R E (pure a) s := Std.Refl.refl s

theorem moves_throw [Std.Refl R] {e : ε} (he : E e) : Moves R E (throw e : EStateM ε σ α) s :=
  ⟨Std.Refl.refl s, he⟩

theorem moves_modify {f : σ → σ} (h : R s (f s)) : Moves R E (modify f) s := h

variable [IsTrans σ R]

/-- **Sequencing**, with what is known of the first result. -/
theorem Moves.bind_of {x : EStateM ε σ α} {f : α → EStateM ε σ β} {P : α → σ → Prop}
    (hx : After x (fun a s' => R s s' ∧ P a s') (fun e s' => R s s' ∧ E e) s)
    (hf : ∀ a s', R s s' → P a s' → Moves R E (f a) s') : Moves R E (x >>= f) s := by
  refine After.bind hx fun a s' hs => ?_
  exact After.mono (hf a s' hs.1 hs.2) (fun _ s'' h => IsTrans.trans s s' s'' hs.1 h)
    fun e s'' h => ⟨IsTrans.trans s s' s'' hs.1 h.1, h.2⟩

theorem Moves.bind {x : EStateM ε σ α} {f : α → EStateM ε σ β} (hx : Moves R E x s)
    (hf : ∀ a s', R s s' → Moves R E (f a) s') : Moves R E (x >>= f) s :=
  Moves.bind_of (P := fun _ _ => True) (After.mono hx (fun _ _ h => ⟨h, trivial⟩) fun _ _ h => h)
    fun a s' h _ => hf a s' h

theorem Moves.forM [Std.Refl R] {f : ι → EStateM ε σ Unit} {l : List ι}
    (hf : ∀ i ∈ l, ∀ s', R s s' → Moves R E (f i) s') : Moves R E (l.forM f) s := by
  refine After.mono (After.forM (I := R s) (fun i hi s' hs' => ?_) (Std.Refl.refl s))
    (fun _ _ h => h) fun _ _ h => h
  exact After.mono (hf i hi s' hs') (fun _ s'' h => IsTrans.trans s s' s'' hs' h)
    fun e s'' h => ⟨IsTrans.trans s s' s'' hs' h.1, h.2⟩

omit [IsTrans σ R] in
theorem Moves.get_bind {f : σ → EStateM ε σ β} (h : Moves R E (f s) s) : Moves R E (get >>= f) s :=
  after_bind.mpr h

end Moves

end Effects
