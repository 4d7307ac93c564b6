import ArgusEngine.Kv.Prefetch

/-!
# The schedule of a pass

A layer goes through five stages in a pass: it rests until its preload, is ready, written, attended
and done. `stage` reads the stage of each layer off the program counter and its slot of `pending`;
`Protocol` says what each operation does to a layer in its stage.

The pass invariant `PassInv` holds each layer to its stage and says which slots are in use.
**`passInv_reaches`** keeps it through every interleaving of the main thread and the workers. With
it, no task is outstanding on a layer that is written or read (`PassInv.idle`), every task has been
collected at the end (`PassInv.collected`), and a pass is never stuck (`PassState.progress`).
-/

namespace ArgusEngine

section

variable {S : Type} [OffloadStore S] {w : ℕ}

/-! ## The position of the main thread -/

namespace Pc

variable (n d : ℕ)

/-- The layers below have had their synchronous preload. -/
@[grind] def warm : Pc → ℕ
  | preload i => i
  | _ => d

/-- The slots of the layers below have been collected. -/
@[grind] def low : Pc → ℕ
  | preload _ | fire _ => 0
  | collect i => i
  | submit i | write i | attend i | retain i | release i => i + 1
  | drain _ | releaseLast | returned => n

/-- The layers from `d` on and below have been submitted. -/
@[grind] def cut : Pc → ℕ
  | preload _ => d
  | fire j => j
  | collect i | submit i => max (2 * d) (i + d)
  | write i | attend i | retain i | release i => max (2 * d) (i + 1 + d)
  | drain _ | releaseLast | returned => n

/-- The layers below have been written. -/
@[grind] def wrote : Pc → ℕ
  | preload _ | fire _ => 0
  | collect i | submit i | write i => i
  | attend i | retain i | release i => i + 1
  | drain _ | releaseLast | returned => n

/-- The layers below have run attention. -/
@[grind] def attends : Pc → ℕ
  | preload _ | fire _ => 0
  | collect i | submit i | write i | attend i => i
  | retain i | release i => i + 1
  | drain _ | releaseLast | returned => n

/-- The layers below, of those to be retained, have been. -/
@[grind] def kept : Pc → ℕ
  | preload _ | fire _ => 0
  | collect i | submit i | write i | attend i | retain i => i
  | release i => i + 1
  | drain _ | releaseLast | returned => n

/-- The layers below, of those to be released, have been. -/
@[grind] def freed : Pc → ℕ
  | preload _ | fire _ => 0
  | collect i | submit i | write i | attend i | retain i | release i => i - 1
  | drain _ | releaseLast => n - 1
  | returned => n

/-- The positions the main thread takes. -/
@[grind] def Within : Pc → Prop
  | preload i => i ≤ min d n
  | fire j => d ≤ j ∧ (j = d ∨ j ≤ min (2 * d) n)
  | collect i => i ≤ n
  | submit i | write i | attend i | retain i | release i => i < n
  | drain j => j ≤ n
  | releaseLast | returned => True

end Pc

inductive Stage where
  | resting
  | ready
  | written
  | attended
  | done
  deriving DecidableEq

/-- The stage of layer `j` of `n` at depth `d`. -/
@[grind] def stage (n d : ℕ) (pc : Pc) (t : Task) (j : ℕ) : Stage :=
  if j < pc.attends n then
    if j < d ∧ j < pc.kept n ∨ d ≤ j ∧ j < pc.freed n then .done else .attended
  else if j < pc.wrote n then .written
  else if j < d ∧ j < pc.warm d ∨ d ≤ j ∧ (j < pc.low n ∨ t = .finished) then .ready
  else .resting

/-- What the operations of a pass do to a layer, `Q j st` being what layer `j` is in stage `st`. -/
structure Protocol (n : ℕ) (p : Pass w) (Q : ℕ → Stage → OffloadKVCache S → Prop) : Prop where
  preload : ∀ j < n, ∀ c, Q j .resting c → ∃ c', c.preload = .ok c' ∧ Q j .ready c'
  write : ∀ j < n, ∀ c, Q j .ready c → ∃ c', (OffloadOp.update (p.rows j)).exec c = .ok (c', []) ∧
    Q j .written c'
  attend : ∀ j < n, ∀ c, Q j .written c → ∃ c' view, c.getView = .ok (c', view) ∧ Q j .attended c'
  retain : ∀ j < n, j < p.depth → ∀ c, Q j .attended c → Q j .done c.retainPreload
  release : ∀ j < n, p.depth ≤ j → ∀ c, Q j .attended c → ∃ c',
    c.releaseBuffers = .ok c' ∧ Q j .done c'

/-- The state of a pass over `n` layers. -/
structure PassInv (n : ℕ) (p : Pass w) (Q : ℕ → Stage → OffloadKVCache S → Prop)
    (σ : PassState S) : Prop where
  within : σ.pc.Within n p.depth
  intact : σ.failure = none ∧ ∀ j, σ.poisoned j = false
  pending : ∀ j, σ.pending j ≠ .idle ↔ p.depth ≤ j ∧ σ.pc.low n ≤ j ∧ j < min n (σ.pc.cut n p.depth)
  layers : ∀ j < n, Q j (stage n p.depth σ.pc (σ.pending j) j) (σ.caches j)

/-! ## The steps -/

theorem perform_ok {σ : PassState S} {i : ℕ} {op : OffloadOp w} {next onErr : Pc}
    {c : OffloadKVCache S} {views : List View} (hp : σ.poisoned i = false)
    (hop : op.exec (σ.caches i) = .ok (c, views)) : σ.perform i op next onErr = { σ with
      caches := Function.update σ.caches i c
      views := σ.views ++ views.map fun view => (i, view)
      pc := next } := by
  simp [PassState.perform, hp, hop]

variable {n : ℕ} {p : Pass w} {Q : ℕ → Stage → OffloadKVCache S → Prop} {σ : PassState S}

/-- An operation on layer `i` that moves it to its next stage and leaves the others where they
are. -/
theorem PassInv.perform (hσ : PassInv n p Q σ) {i : ℕ} {op : OffloadOp w} {next onErr : Pc}
    {c : OffloadKVCache S} {views : List View}
    (hop : op.exec (σ.caches i) = .ok (c, views)) {s : Stage} (hc : Q i s c)
    (hst : stage n p.depth next (σ.pending i) i = s) (hwithin : next.Within n p.depth)
    (hpend : ∀ j, p.depth ≤ j ∧ σ.pc.low n ≤ j ∧ j < min n (σ.pc.cut n p.depth) ↔
      p.depth ≤ j ∧ next.low n ≤ j ∧ j < min n (next.cut n p.depth))
    (hother : ∀ j t, j ≠ i → j < n → stage n p.depth next t j = stage n p.depth σ.pc t j) :
    PassInv n p Q (σ.perform i op next onErr) := by
  rw [perform_ok (hσ.intact.2 i) hop]
  refine ⟨hwithin, hσ.intact, fun j => (hσ.pending j).trans (hpend j), fun j hj => ?_⟩
  by_cases hji : j = i
  · subst hji
    simpa only [Function.update_self, hst] using hc
  · simp only [Function.update_of_ne hji, hother j _ hji hj]
    exact hσ.layers j hj

omit [OffloadStore S] in
theorem PassInv.goto (hσ : PassInv n p Q σ) {next : Pc} {pending : ℕ → Task}
    (hwithin : next.Within n p.depth)
    (hpend : ∀ j, pending j ≠ .idle ↔ p.depth ≤ j ∧ next.low n ≤ j ∧ j < min n (next.cut n p.depth))
    (hstage : ∀ j < n, stage n p.depth next (pending j) j = stage n p.depth σ.pc (σ.pending j) j) :
    PassInv n p Q { σ with pending := pending, pc := next } := by
  refine ⟨hwithin, hσ.intact, hpend, fun j hj => ?_⟩
  simp only [hstage j hj]
  exact hσ.layers j hj

omit [OffloadStore S] in
theorem PassInv.atStage (hσ : PassInv n p Q σ) {i : ℕ} (hi : i < n) {s : Stage}
    (hst : stage n p.depth σ.pc (σ.pending i) i = s) : Q i s (σ.caches i) :=
  hst ▸ hσ.layers i hi

theorem PassInv.step_preload (hQ : Protocol n p Q) (hσ : PassInv n p Q σ) {i : ℕ}
    (hpc : σ.pc = .preload i) {σ' : PassState S} (hstep : σ.mainStep n p = some σ') :
    PassInv n p Q σ' := by
  have hwithin := hσ.within
  simp only [hpc, Pc.Within] at hwithin
  simp only [PassState.mainStep, hpc] at hstep
  split_ifs at hstep with hi
  · obtain rfl := Option.some.inj hstep
    have hin : i < n := by omega
    have hrest := hσ.atStage hin (s := .resting) (by grind)
    obtain ⟨c, hpre, hc⟩ := hQ.preload i hin _ hrest
    exact hσ.perform (s := .ready) (by rw [OffloadOp.exec, hpre]; rfl) hc (by grind) (by grind)
      (by grind) (by grind)
  · obtain rfl := Option.some.inj hstep
    have hpend := hσ.pending
    exact hσ.goto (by grind) (by grind) (by grind)

theorem PassInv.step_fire (hσ : PassInv n p Q σ) {i : ℕ} (hpc : σ.pc = .fire i) {σ' : PassState S}
    (hstep : σ.mainStep n p = some σ') : PassInv n p Q σ' := by
  have hwithin := hσ.within
  have hpend := hσ.pending
  have hd := p.depth_pos
  simp only [PassState.mainStep, hpc] at hstep
  split_ifs at hstep with hi
  · obtain rfl := Option.some.inj hstep
    exact hσ.goto (by grind) (by grind) (by grind)
  · obtain rfl := Option.some.inj hstep
    exact hσ.goto (by grind) (by grind) (by grind)

/-- A result that the main thread takes was there: no layer is collected before its preload is
done. -/
theorem PassInv.step_collect (hσ : PassInv n p Q σ) {i : ℕ} (hpc : σ.pc = .collect i)
    {σ' : PassState S} (hstep : σ.mainStep n p = some σ') : PassInv n p Q σ' := by
  have hwithin := hσ.within
  have hpend := hσ.pending
  have hd := p.depth_pos
  simp only [PassState.mainStep, hpc] at hstep
  split_ifs at hstep with hi
  · unfold PassState.receive at hstep
    split at hstep
    · cases hstep
    · next hsub =>
      obtain rfl := Option.some.inj hstep
      have hfin : p.depth ≤ i → σ.pending i = .finished := by
        intro hdi
        have := hpend i
        cases ht : σ.pending i <;> grind
      exact hσ.goto (by grind) (by grind) (by grind)
  · obtain rfl := Option.some.inj hstep
    exact hσ.goto (by grind) (by grind) (by grind)

theorem PassInv.step_submit (hσ : PassInv n p Q σ) {i : ℕ} (hpc : σ.pc = .submit i)
    {σ' : PassState S} (hstep : σ.mainStep n p = some σ') : PassInv n p Q σ' := by
  have hwithin := hσ.within
  have hpend := hσ.pending
  have hd := p.depth_pos
  simp only [PassState.mainStep, hpc] at hstep
  split_ifs at hstep with hi
  · obtain rfl := Option.some.inj hstep
    exact hσ.goto (by grind) (by grind) (by grind)
  · obtain rfl := Option.some.inj hstep
    exact hσ.goto (by grind) (by grind) (by grind)

theorem PassInv.step_write (hQ : Protocol n p Q) (hσ : PassInv n p Q σ) {i : ℕ}
    (hpc : σ.pc = .write i) {σ' : PassState S} (hstep : σ.mainStep n p = some σ') :
    PassInv n p Q σ' := by
  have hin : i < n := by
    have hwithin := hσ.within
    grind
  simp only [PassState.mainStep, hpc] at hstep
  obtain rfl := Option.some.inj hstep
  have hready := hσ.atStage hin (s := .ready) (by grind)
  obtain ⟨c, hupd, hc⟩ := hQ.write i hin _ hready
  exact hσ.perform (s := .written) hupd hc (by grind) (by grind) (by grind) (by grind)

theorem PassInv.step_attend (hQ : Protocol n p Q) (hσ : PassInv n p Q σ) {i : ℕ}
    (hpc : σ.pc = .attend i) {σ' : PassState S} (hstep : σ.mainStep n p = some σ') :
    PassInv n p Q σ' := by
  have hin : i < n := by
    have hwithin := hσ.within
    grind
  simp only [PassState.mainStep, hpc] at hstep
  obtain rfl := Option.some.inj hstep
  have hwritten := hσ.atStage hin (s := .written) (by grind)
  obtain ⟨c, view, hview, hc⟩ := hQ.attend i hin _ hwritten
  exact hσ.perform (s := .attended) (by rw [OffloadOp.exec, hview]; rfl) hc (by grind)
    (by grind) (by grind) (by grind)

theorem PassInv.step_retain (hQ : Protocol n p Q) (hσ : PassInv n p Q σ) {i : ℕ}
    (hpc : σ.pc = .retain i) {σ' : PassState S} (hstep : σ.mainStep n p = some σ') :
    PassInv n p Q σ' := by
  have hin : i < n := by
    have hwithin := hσ.within
    grind
  simp only [PassState.mainStep, hpc] at hstep
  split_ifs at hstep with hi
  · obtain rfl := Option.some.inj hstep
    have hatt := hσ.atStage hin (s := .attended) (by grind)
    exact hσ.perform (s := .done) rfl (hQ.retain i hin hi _ hatt) (by grind) (by grind)
      (by grind) (by grind)
  · obtain rfl := Option.some.inj hstep
    have hpend := hσ.pending
    exact hσ.goto (by grind) (by grind) (by grind)

theorem PassInv.step_release (hQ : Protocol n p Q) (hσ : PassInv n p Q σ) {i : ℕ}
    (hpc : σ.pc = .release i) {σ' : PassState S} (hstep : σ.mainStep n p = some σ') :
    PassInv n p Q σ' := by
  have hwithin := hσ.within
  have hpend := hσ.pending
  have hd := p.depth_pos
  have hin : i < n := by grind
  simp only [PassState.mainStep, hpc] at hstep
  split_ifs at hstep with hi
  · obtain rfl := Option.some.inj hstep
    have hatt := hσ.atStage (i := i - 1) (by omega) (s := .attended) (by grind)
    obtain ⟨c, hrel, hc⟩ := hQ.release (i - 1) (by omega) hi.2 _ hatt
    exact hσ.perform (s := .done) (by rw [OffloadOp.exec, hrel]; rfl) hc (by grind) (by grind)
      (by grind) (by grind)
  · obtain rfl := Option.some.inj hstep
    exact hσ.goto (by grind) (by grind) (by grind)

theorem PassInv.step_drain (hσ : PassInv n p Q σ) {i : ℕ} (hpc : σ.pc = .drain i) {σ' : PassState S}
    (hstep : σ.mainStep n p = some σ') : PassInv n p Q σ' := by
  have hwithin := hσ.within
  have hpend := hσ.pending
  simp only [PassState.mainStep, hpc] at hstep
  split_ifs at hstep with hi hfail
  · unfold PassState.receive at hstep
    split at hstep
    · cases hstep
    · obtain rfl := Option.some.inj hstep
      exact hσ.goto (by grind) (by grind) (by grind)
  · rw [hσ.intact.1] at hfail
    exact absurd hfail (by simp)
  · obtain rfl := Option.some.inj hstep
    exact hσ.goto (by grind) (by grind) (by grind)

theorem PassInv.step_releaseLast (hQ : Protocol n p Q) (hσ : PassInv n p Q σ)
    (hpc : σ.pc = .releaseLast) {σ' : PassState S} (hstep : σ.mainStep n p = some σ') :
    PassInv n p Q σ' := by
  have hpend := hσ.pending
  simp only [PassState.mainStep, hpc] at hstep
  split_ifs at hstep with hi
  · obtain rfl := Option.some.inj hstep
    have hatt := hσ.atStage (i := n - 1) (by omega) (s := .attended) (by grind)
    obtain ⟨c, hrel, hc⟩ := hQ.release (n - 1) (by omega) hi.2 _ hatt
    exact hσ.perform (s := .done) (by rw [OffloadOp.exec, hrel]; rfl) hc (by grind) (by grind)
      (by grind) (by grind)
  · obtain rfl := Option.some.inj hstep
    exact hσ.goto (by grind) (by grind) (by grind)

/-- **The main thread keeps the invariant.** -/
theorem PassInv.mainStep (hQ : Protocol n p Q) (hσ : PassInv n p Q σ) {σ' : PassState S}
    (hstep : σ.mainStep n p = some σ') : PassInv n p Q σ' := by
  cases hpc : σ.pc with
  | preload i => exact hσ.step_preload hQ hpc hstep
  | fire j => exact hσ.step_fire hpc hstep
  | collect i => exact hσ.step_collect hpc hstep
  | submit i => exact hσ.step_submit hpc hstep
  | write i => exact hσ.step_write hQ hpc hstep
  | attend i => exact hσ.step_attend hQ hpc hstep
  | retain i => exact hσ.step_retain hQ hpc hstep
  | release i => exact hσ.step_release hQ hpc hstep
  | drain j => exact hσ.step_drain hpc hstep
  | releaseLast => exact hσ.step_releaseLast hQ hpc hstep
  | returned => simp [PassState.mainStep, hpc] at hstep

/-- **A worker keeps the invariant**: its layer is resting and gets ready. -/
theorem PassInv.work (hQ : Protocol n p Q) (hσ : PassInv n p Q σ) {j : ℕ}
    (hsub : σ.pending j = .submitted) : PassInv n p Q (σ.work j) := by
  have hwithin := hσ.within
  have hpend := hσ.pending
  obtain ⟨hdj, hlow, hcut⟩ := (hpend j).mp (by simp [hsub])
  have hwrote : σ.pc.wrote n ≤ j ∧ σ.pc.attends n ≤ j := by cases hpc : σ.pc <;> grind
  have hjn : j < n := by omega
  have hrest := hσ.atStage hjn (s := .resting) (by grind)
  obtain ⟨c, hpre, hc⟩ := hQ.preload j hjn _ hrest
  have hwork : σ.work j = { σ with
      caches := Function.update σ.caches j c, pending :=
        Function.update σ.pending j .finished } := by
    simp [PassState.work, hσ.intact.2 j, hpre]
  rw [hwork]
  refine ⟨hwithin, hσ.intact, fun i => ?_, fun i hi => ?_⟩
  · by_cases hij : i = j
    · subst hij
      simp only [Function.update_self]
      exact ⟨fun _ => ⟨hdj, hlow, hcut⟩, fun _ => by simp⟩
    · simp only [Function.update_of_ne hij]
      exact hpend i
  · by_cases hij : i = j
    · subst hij
      have hready : stage n p.depth σ.pc .finished i = .ready := by grind
      simpa only [Function.update_self, hready] using hc
    · simp only [Function.update_of_ne hij]
      exact hσ.layers i hi

omit [OffloadStore S] in
theorem passInv_start {caches : ℕ → OffloadKVCache S} (hrest : ∀ j < n, Q j .resting (caches j)) :
    PassInv n p Q (PassState.start caches) := by
  refine ⟨Nat.zero_le _, ⟨rfl, fun _ => rfl⟩, fun j => ?_, fun j hj => ?_⟩
  · simp only [PassState.start, Pc.cut]
    grind
  · have hst : stage n p.depth (.preload 0) .idle j = .resting := by grind
    simpa only [PassState.start, hst] using hrest j hj

/-- **Every state a pass can be in keeps the invariant.** -/
theorem passInv_reaches (hQ : Protocol n p Q) {caches : ℕ → OffloadKVCache S}
    (hrest : ∀ j < n, Q j .resting (caches j)) (hσ : PassState.Reaches n p caches σ) :
    PassInv n p Q σ := by
  induction hσ with
  | refl => exact passInv_start hrest
  | tail _ hstep ih =>
    cases hstep with
    | main hmain => exact ih.mainStep hQ hmain
    | worker j hsub => exact ih.work hQ hsub

omit [OffloadStore S] in
theorem PassInv.idle (hσ : PassInv n p Q σ) {i : ℕ} (hpc : σ.pc = .write i ∨ σ.pc = .attend i) :
    σ.pending i = .idle := by
  by_contra hne
  have hlow := ((hσ.pending i).mp hne).2.1
  grind

omit [OffloadStore S] in
theorem PassInv.collected (hσ : PassInv n p Q σ) (hpc : σ.pc = .returned) (j : ℕ) :
    σ.pending j = .idle := by
  by_contra hne
  have hlow := (hσ.pending j).mp hne
  grind

/-- **A pass that has not returned can go on**: where the main thread waits, the worker it waits for
can move. -/
theorem PassState.progress (hpc : σ.pc ≠ .returned) : ∃ σ', PassState.Step n p σ σ' := by
  cases hmain : σ.mainStep n p with
  | some σ' => exact ⟨σ', .main hmain⟩
  | none =>
    have hsub : ∃ j, σ.pending j = .submitted := by
      unfold PassState.mainStep PassState.receive at hmain
      grind
    obtain ⟨j, hsub⟩ := hsub
    exact ⟨σ.work j, .worker j hsub⟩

omit [OffloadStore S] in
theorem PassInv.written (hσ : PassInv n p Q σ) {i : ℕ} (hpc : σ.pc = .attend i) :
    i < n ∧ Q i .written (σ.caches i) := by
  have hwithin := hσ.within
  have hin : i < n := by grind
  exact ⟨hin, hσ.atStage hin (by grind)⟩

omit [OffloadStore S] in
theorem PassInv.done (hσ : PassInv n p Q σ) (hpc : σ.pc = .returned) {j : ℕ} (hj : j < n) :
    Q j .done (σ.caches j) :=
  hσ.atStage hj (by grind)

end

end ArgusEngine
