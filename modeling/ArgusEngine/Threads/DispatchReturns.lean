import ArgusEngine.Threads.DispatchSafety

/-!
# Every dispatch returns

No wake-up is lost and no thread waits for ever: under any schedule that gives each thread a turn
again and again, a call of the pool returns, and so does its drop.

* `WakeInv`: the workers that the dispatching thread has unparked will look at the generation again;
  the generations do not come back before `2 ^ 48` dispatches;
* `SpinPool.left`: the accesses that the call and the workers still have to make;
* **`call_returns`**: in more rounds than that, a round being any list of turns with one of every
  thread, the dispatching thread is at rest.
-/

namespace ArgusEngine.Threads

open Rounds Runs

variable {n : ℕ}

/-! ## Generations do not come back -/

/-- The sequence number of a generation. -/
def seqOf (g : UInt64) : ℕ := g.toNat / 2 ^ 16

theorem seqOf_nextGeneration (sh : SharedState) (h : sh.activeWorkers < 2 ^ 16)
    (hseq : seqOf sh.generation + 1 < 2 ^ 48) :
    seqOf (nextGeneration sh) = seqOf sh.generation + 1 := by
  unfold seqOf at *
  rw [toNat_nextGeneration sh h]
  omega

theorem seqOf_bump (g : UInt64) (hseq : seqOf g + 1 < 2 ^ 48) :
    seqOf (g + (1 <<< ACTIVE_BITS)) = seqOf g + 1 := by
  have hone : ((1 : UInt64) <<< ACTIVE_BITS).toNat = 2 ^ 16 := by decide
  unfold seqOf at *
  rw [UInt64.toNat_add, hone]
  omega

theorem ne_of_seqOf_lt {g g' : UInt64} (h : seqOf g < seqOf g') : g ≠ g' := by
  rintro rfl
  exact lt_irrefl _ h

/-! ## What is left to do -/

/-- The accesses that are left inside `steal_work`, those of the chunks apart. -/
def Steal.left : Steal → ℕ
  | .loadFn => 5
  | .loadCtx _ => 4
  | .loadTotal _ _ => 3
  | .grab _ _ _ => 1
  | .run _ _ _ _ => 2

/-- The accesses a worker makes until it has counted itself, `poll` being left at the place `p`. -/
def WorkerPc.left (p : ℕ) : WorkerPc → ℕ
  | .poll => p
  | .readGen => 8
  | .checkActive => 12
  | .checkBatch => 11
  | .park => 10
  | .steal st => 2 + st.left
  | .bumpDone => 2
  | .stopped => 0

/-- What worker `idx` has left of the dispatch of generation `g` for `active` workers. -/
def Worker.left (g : UInt64) (active : ℕ) (idx : ℕ) (w : Worker) : ℕ :=
  if w.busy = true ∨ idx < active ∧ w.lastGen ≠ g then w.pc.left 9 else 0

/-- What the dispatching thread and the workers have left of a job from its publication on. -/
def openCost (n : ℕ) (j : Job) : ℕ := 13 * n + 8 + 2 * j.chunks

def restCost (n : ℕ) (rest : List Job) : ℕ := (rest.map fun j => 8 + openCost n j).sum

def Store.left : Store → ℕ
  | .workFn => 5
  | .workCtx => 4
  | .totalChunks => 3
  | .nextChunk => 2
  | .doneCount => 1

/-- Which workers have something left. -/
inductive Stage where
  | resting
  | dispatching (active : ℕ)
  | closing

def MainPc.stage : MainPc → Stage
  | .unpark _ _ _ active => .dispatching active
  | .steal _ _ _ active => .dispatching active
  | .wait _ _ active => .dispatching active
  | .dropUnpark _ => .closing
  | .join _ => .closing
  | .dropped => .closing
  | _ => .resting

def Stage.left (g : UInt64) (idx : ℕ) (w : Worker) : Stage → ℕ
  | .resting => 0
  | .dispatching active => w.left g active idx
  | .closing => w.pc.left 1

/-- The accesses left to the dispatching thread, and two for each chunk not taken yet. -/
def MainPc.left (n : ℕ) (nextChunk : ℕ) : MainPc → ℕ
  | .idle => 0
  | .setup store j rest _ => store.left + 2 + openCost n j + restCost n rest
  | .publish j rest _ => 2 + openCost n j + restCost n rest
  | .unpark i j rest active => active - i + 8 + 2 * (j.chunks - nextChunk) + restCost n rest
  | .steal st j rest _ => st.left + 2 + 2 * (j.chunks - nextChunk) + restCost n rest
  | .wait j rest _ => 2 + 2 * (j.chunks - nextChunk) + restCost n rest
  | .dropShutdown => 14 * n + 6
  | .dropBump => 14 * n + 5
  | .dropUnpark i => n - i + n + 3
  | .join i => n - i + 2
  | .dropped => 0

/-- **What is left** of the call the pool is in. -/
def SpinPool.left (s : SpinPool n) : ℕ :=
  s.main.left n s.shared.nextChunk + ∑ i : Fin n,
    s.main.stage.left s.shared.generation i (s.workers i)

/-! ## A worker's turn -/

/-- The worker will park before it looks at the generation again. -/
def Worker.asleep (w : Worker) : Bool :=
  match w.pc with
  | .checkActive => true
  | .checkBatch => true
  | .park => true
  | _ => false

/-- What a turn of a worker, from `sh` and `w` to `sh'` and `w'`, does to its wake-up. -/
structure WorkerTurn (sh : SharedState) (w : Worker) (sh' : SharedState) (w' : Worker) : Prop where
  asleep : w'.asleep = true → (w.asleep = true ∧ w'.token = w.token ∧ w'.lastGen = w.lastGen) ∨
    (w.pc = .readGen ∧ w.lastGen = sh.generation ∧ w'.lastGen = sh.generation)
  readGen : w'.pc = .readGen → sh.shutdown = false
  stopped : w'.pc = .stopped → w.pc = .stopped ∨ sh.shutdown = true
  lastGen : w'.lastGen = w.lastGen ∨ w'.lastGen = sh.generation
  generation : sh'.generation = sh.generation
  shutdown : sh'.shutdown = sh.shutdown
  activeWorkers : sh'.activeWorkers = sh.activeWorkers
  stays : w.pc = .stopped → w'.pc = .stopped

theorem stealStep_shared (sh : SharedState) (st : Steal) :
    ∃ k, (stealStep sh st).2.1 = { sh with nextChunk := k } := by
  cases st with
  | grab f c total =>
    simp only [stealStep]
    split_ifs <;> exact ⟨_, rfl⟩
  | _ => exact ⟨sh.nextChunk, rfl⟩

theorem workerTurn_workerStep (idx : ℕ) (sh : SharedState) (w : Worker) :
    WorkerTurn sh w (workerStep idx sh w).1 (workerStep idx sh w).2.1 := by
  cases hpc : w.pc with
  | poll =>
    simp only [workerStep, hpc]
    cases hs : sh.shutdown <;> constructor <;> simp [Worker.asleep, hs, hpc]
  | readGen =>
    simp only [workerStep, hpc]
    split_ifs with hg hidx
    · constructor <;> simp [Worker.asleep, hpc]
    · constructor <;> simp [Worker.asleep, hpc]
    · have hg' : sh.generation = w.lastGen := by simpa using hg
      constructor <;> simp [Worker.asleep, hpc, hg']
  | checkActive =>
    simp only [workerStep, hpc]
    split_ifs <;> constructor <;> simp [Worker.asleep, hpc]
  | checkBatch =>
    simp only [workerStep, hpc]
    split_ifs <;> constructor <;> simp [Worker.asleep, hpc]
  | park =>
    simp only [workerStep, hpc]
    split_ifs <;> constructor <;> simp [Worker.asleep, hpc]
  | steal st =>
    obtain ⟨k, hk⟩ := stealStep_shared sh st
    rcases h : stealStep sh st with ⟨o, sh', calls⟩
    obtain rfl : sh' = { sh with nextChunk := k } := by simpa [h] using hk
    cases o <;> simp only [workerStep, hpc, h] <;> constructor <;> simp [Worker.asleep, hpc]
  | bumpDone =>
    simp only [workerStep, hpc]
    constructor <;> simp [Worker.asleep, hpc]
  | stopped =>
    simp only [workerStep, hpc]
    constructor <;> simp [Worker.asleep, hpc]

theorem workerTurn_wake (sh : SharedState) (w : Worker) (h : w.pc = .park) :
    WorkerTurn sh w sh { w with spins := 0, pc := .poll } := by
  constructor <;> simp [Worker.asleep, h]

/-- Worker `i` has had a turn. -/
def Turned (s s' : SpinPool n) (i : Fin n) : Prop :=
  s'.main = s.main ∧ ∃ w', s'.workers = Function.update s.workers i w' ∧
    WorkerTurn s.shared (s.workers i) s'.shared w'

theorem turned_workStep (s : SpinPool n) (i : Fin n) : Turned s (s.workStep i) i :=
  ⟨rfl, _, rfl, workerTurn_workerStep i s.shared (s.workers i)⟩

/-! ## The wake-ups -/

/-- Within a dispatch: the count is exact, and a worker that was called and has not seen the
generation does not sleep through it. -/
structure Wakes (s : SpinPool n) (called active : ℕ) : Prop where
  awake : s.shared.shutdown = false
  count : s.shared.doneCount = ∑ i, finished s.shared.generation active i (s.workers i)
  token : ∀ i : Fin n, (i : ℕ) < called → (i : ℕ) < active →
    (s.workers i).lastGen ≠ s.shared.generation → (s.workers i).asleep = true →
    (s.workers i).token = true
  going : ∀ i, (s.workers i).pc ≠ .stopped

/-- While the pool closes. -/
structure Closes (s : SpinPool n) (called : ℕ) : Prop where
  shutdown : s.shared.shutdown = true
  fresh : ∀ i, (s.workers i).pc = .readGen → (s.workers i).lastGen ≠ s.shared.generation
  token : ∀ i : Fin n, (i : ℕ) < called → (s.workers i).asleep = true → (s.workers i).token = true

/-- Between dispatches. -/
structure Stands (s : SpinPool n) : Prop where
  awake : s.shared.shutdown = false
  going : ∀ i, (s.workers i).pc ≠ .stopped

def WakePhase (s : SpinPool n) (jobs : List Job) : Prop :=
  match s.main with
  | .idle => Stands s ∧ seqOf s.shared.generation ≤ jobs.length
  | .setup _ _ rest _ => Stands s ∧ seqOf s.shared.generation + 1 + rest.length ≤ jobs.length
  | .publish _ rest _ => Stands s ∧ seqOf s.shared.generation + 1 + rest.length ≤ jobs.length
  | .unpark k _ rest active =>
    Wakes s k active ∧ seqOf s.shared.generation + rest.length ≤ jobs.length
  | .steal _ _ rest active =>
    Wakes s n active ∧ seqOf s.shared.generation + rest.length ≤ jobs.length
  | .wait _ rest active => Wakes s n active ∧ seqOf s.shared.generation + rest.length ≤ jobs.length
  | .dropShutdown => Stands s ∧ seqOf s.shared.generation ≤ jobs.length
  | .dropBump => s.shared.shutdown = true ∧ seqOf s.shared.generation ≤ jobs.length
  | .dropUnpark k => Closes s k
  | .join _ => Closes s n
  | .dropped => Closes s n

/-- **The invariant of the wake-ups**, for fewer than `2 ^ 48` generations. -/
structure WakeInv (s : SpinPool n) (jobs : List Job) : Prop where
  few : jobs.length + 1 < 2 ^ 48
  pool : PoolInv s jobs
  seen : ∀ i, seqOf (s.workers i).lastGen ≤ seqOf s.shared.generation
  phase : WakePhase s jobs

theorem Stands.turned {s s' : SpinPool n} {i : Fin n} (h : Stands s) (ht : Turned s s' i) :
    Stands s' := by
  obtain ⟨-, w', hw, hturn⟩ := ht
  refine ⟨hturn.shutdown.trans h.awake, fun x => ?_⟩
  rw [hw]
  by_cases hx : x = i
  · subst hx
    rw [Function.update_self]
    intro hstop
    rcases hturn.stopped hstop with h' | h'
    · exact h.going x h'
    · rw [h.awake] at h'
      exact Bool.false_ne_true h'
  · rw [Function.update_of_ne hx]
    exact h.going x

theorem Wakes.turned {s s' : SpinPool n} {i : Fin n} {called active : ℕ} (h : Wakes s called active)
    (ht : Turned s s' i) (hb : Balanced s s' active) : Wakes s' called active := by
  have hst := (Stands.mk h.awake h.going).turned ht
  obtain ⟨-, w', hw, hturn⟩ := ht
  refine ⟨hst.awake, ?_, fun x hx hxa hgen hsleep => ?_, hst.going⟩
  · unfold Balanced at hb
    have hcount := h.count
    omega
  · rw [hw] at hgen hsleep ⊢
    rw [hturn.generation] at hgen
    by_cases hxi : x = i
    · subst hxi
      rw [Function.update_self] at hgen hsleep ⊢
      rcases hturn.asleep hsleep with ⟨h1, h2, h3⟩ | ⟨-, -, h3⟩
      · rw [h2]
        exact h.token x hx hxa (h3 ▸ hgen) h1
      · exact absurd h3 hgen
    · rw [Function.update_of_ne hxi] at hgen hsleep ⊢
      exact h.token x hx hxa hgen hsleep

theorem Closes.turned {s s' : SpinPool n} {i : Fin n} {called : ℕ} (h : Closes s called)
    (ht : Turned s s' i) : Closes s' called := by
  obtain ⟨-, w', hw, hturn⟩ := ht
  refine ⟨hturn.shutdown.trans h.shutdown, fun x hx => ?_, fun x hx hsleep => ?_⟩
  · rw [hw] at hx ⊢
    rw [hturn.generation]
    by_cases hxi : x = i
    · subst hxi
      rw [Function.update_self] at hx
      have := hturn.readGen hx
      rw [h.shutdown] at this
      exact absurd this (by simp)
    · rw [Function.update_of_ne hxi] at hx ⊢
      exact h.fresh x hx
  · rw [hw] at hsleep ⊢
    by_cases hxi : x = i
    · subst hxi
      rw [Function.update_self] at hsleep ⊢
      rcases hturn.asleep hsleep with ⟨h1, h2, -⟩ | ⟨h1, h2, -⟩
      · rw [h2]
        exact h.token x hx h1
      · exact absurd h2 (h.fresh x h1)
    · rw [Function.update_of_ne hxi] at hsleep ⊢
      exact h.token x hx hsleep

theorem Within.balanced {s s' : SpinPool n} {i : Fin n} {r : Multiset Call} {j : Job}
    {rest jobs : List Job} {active : ℕ} (hw : Within s r j rest active jobs) (h : Moved s s' i) :
    Balanced s s' active := by
  obtain ⟨-, _, _, _, -, -, -, ho⟩ := hw
  obtain ⟨_, -, ⟨-, hb⟩, -, -⟩ := ho.moved h
  exact hb

theorem WakeInv.turned {s s' : SpinPool n} {i : Fin n} {jobs : List Job} (hinv : WakeInv s jobs)
    (hm : Moved s s' i) (ht : Turned s s' i) : WakeInv s' jobs := by
  obtain ⟨hfew, hpool, hseen, hphase⟩ := hinv
  have hmain : s'.main = s.main := hm.1
  have hgen : s'.shared.generation = s.shared.generation := ht.2.choose_spec.2.generation
  have hshut : s'.shared.shutdown = s.shared.shutdown := ht.2.choose_spec.2.shutdown
  refine ⟨hfew, hpool.moved hm, fun x => ?_, ?_⟩
  · obtain ⟨-, w', hw, hturn⟩ := ht
    rw [hw, hgen]
    by_cases hx : x = i
    · subst hx
      rw [Function.update_self]
      rcases hturn.lastGen with h | h
      · rw [h]; exact hseen x
      · rw [h]
    · rw [Function.update_of_ne hx]
      exact hseen x
  have hpp := hpool.phase
  cases hpc : s.main with
  | idle =>
    simp only [WakePhase, hpc, hmain, hgen] at hphase ⊢
    exact ⟨hphase.1.turned ht, hphase.2⟩
  | setup store j rest active =>
    simp only [WakePhase, hpc, hmain, hgen] at hphase ⊢
    exact ⟨hphase.1.turned ht, hphase.2⟩
  | publish j rest active =>
    simp only [WakePhase, hpc, hmain, hgen] at hphase ⊢
    exact ⟨hphase.1.turned ht, hphase.2⟩
  | unpark k j rest active =>
    simp only [PhaseInv, hpc] at hpp
    simp only [WakePhase, hpc, hmain, hgen] at hphase ⊢
    exact ⟨hphase.1.turned ht (hpp.balanced hm), hphase.2⟩
  | steal st j rest active =>
    simp only [PhaseInv, hpc] at hpp
    simp only [WakePhase, hpc, hmain, hgen] at hphase ⊢
    exact ⟨hphase.1.turned ht (hpp.1.balanced hm), hphase.2⟩
  | wait j rest active =>
    simp only [PhaseInv, hpc] at hpp
    simp only [WakePhase, hpc, hmain, hgen] at hphase ⊢
    exact ⟨hphase.1.turned ht (hpp.1.balanced hm), hphase.2⟩
  | dropShutdown =>
    simp only [WakePhase, hpc, hmain, hgen] at hphase ⊢
    exact ⟨hphase.1.turned ht, hphase.2⟩
  | dropBump =>
    simp only [WakePhase, hpc, hmain, hgen, hshut] at hphase ⊢
    exact hphase
  | dropUnpark k =>
    simp only [WakePhase, hpc, hmain] at hphase ⊢
    exact hphase.turned ht
  | join k =>
    simp only [WakePhase, hpc, hmain] at hphase ⊢
    exact hphase.turned ht
  | dropped =>
    simp only [WakePhase, hpc, hmain] at hphase ⊢
    exact hphase.turned ht

/-! ## The wake-ups and the dispatching thread -/

theorem unpark_asleep (s : SpinPool n) (i x : Fin n) :
    ((s.unpark i).workers x).asleep = (s.workers x).asleep := by
  simp only [Worker.asleep, unpark_pc]

theorem unpark_token_self (s : SpinPool n) (i : Fin n) : ((s.unpark i).workers i).token = true := by
  simp [SpinPool.unpark]

theorem unpark_token {s : SpinPool n} (i x : Fin n) (h : (s.workers x).token = true) :
    ((s.unpark i).workers x).token = true := by
  by_cases hx : x = i
  · rw [hx]; exact unpark_token_self s i
  · simpa [SpinPool.unpark, Function.update_of_ne hx] using h

theorem Wakes.unpark {s : SpinPool n} {active : ℕ} (i : Fin n) (h : Wakes s i active) :
    Wakes (s.unpark i) (i + 1) active := by
  refine ⟨h.awake, ?_, fun x hx hxa hgen hsleep => ?_, fun x => by rw [unpark_pc]; exact h.going x⟩
  · simp only [finished, Worker.busy, unpark_pc, unpark_lastGen]
    exact h.count
  · by_cases hxi : x = i
    · rw [hxi]; exact unpark_token_self s i
    · have hx' : (x : ℕ) ≠ i := fun h => hxi (Fin.ext h)
      rw [unpark_lastGen] at hgen
      rw [unpark_asleep] at hsleep
      exact unpark_token i x (h.token x (by omega) hxa hgen hsleep)

theorem Closes.unpark {s : SpinPool n} (i : Fin n) (h : Closes s i) :
    Closes (s.unpark i) (i + 1) := by
  refine ⟨h.shutdown, fun x hx => ?_, fun x hx hsleep => ?_⟩
  · rw [unpark_pc] at hx
    rw [unpark_lastGen]
    exact h.fresh x hx
  · by_cases hxi : x = i
    · rw [hxi]; exact unpark_token_self s i
    · have hx' : (x : ℕ) ≠ i := fun h => hxi (Fin.ext h)
      rw [unpark_asleep] at hsleep
      exact unpark_token i x (h.token x (by omega) hsleep)

theorem Stands.publish {s s' : SpinPool n} (h : Stands s) (active : ℕ) (hw : s'.workers = s.workers)
    (hshut : s'.shared.shutdown = s.shared.shutdown) (hdone : s'.shared.doneCount = 0)
    (hnew : ∀ i, (s.workers i).lastGen ≠ s'.shared.generation) : Wakes s' 0 active := by
  refine ⟨hshut.trans h.awake, ?_, fun x hx => absurd hx (Nat.not_lt_zero _), fun x =>
    by rw [hw]; exact h.going x⟩
  rw [hdone, hw]
  exact (Finset.sum_eq_zero fun x _ => by simp [finished, hnew x]).symm

theorem WakeInv.mainStep {s : SpinPool n} {jobs : List Job} (hinv : WakeInv s jobs) :
    WakeInv s.mainStep jobs := by
  have hinv' := hinv
  obtain ⟨hfew, hpool, hseen, hphase⟩ := hinv'
  have hpool' := hpool.mainStep
  have hpp := hpool.phase
  cases hpc : s.main with
  | idle => simpa only [SpinPool.mainStep, hpc] using hinv
  | setup store j rest active =>
    simp only [WakePhase, hpc] at hphase
    simp only [SpinPool.mainStep, hpc] at hpool' ⊢
    cases store <;> exact ⟨hfew, hpool', hseen, ⟨hphase.1.awake, hphase.1.going⟩, hphase.2⟩
  | publish j rest active =>
    simp only [PhaseInv, hpc] at hpp
    simp only [WakePhase, hpc] at hphase
    simp only [SpinPool.mainStep, hpc] at hpool' ⊢
    have hact : s.shared.activeWorkers < 2 ^ 16 := lt_of_le_of_lt hpool.active_le hpool.fits
    have hseq := seqOf_nextGeneration s.shared hact (by omega)
    refine ⟨hfew, hpool', fun x => ?_, ?_, ?_⟩
    · have := hseen x
      simp only [hseq]
      omega
    · refine hphase.1.publish _ rfl rfl hpp.2.2.2 fun x => ne_of_seqOf_lt ?_
      have := hseen x
      simp only [hseq]
      omega
    · simp only [hseq]
      exact hphase.2
  | unpark k j rest active =>
    simp only [PhaseInv, hpc] at hpp
    simp only [WakePhase, hpc] at hphase
    obtain ⟨hwake, hseq⟩ := hphase
    simp only [SpinPool.mainStep, hpc] at hpool' ⊢
    have hle : active ≤ n := hpp.1 ▸ hpool.active_le
    by_cases hk : k < n ∧ k < active
    · rw [dif_pos hk] at hpool' ⊢
      have hw := Wakes.unpark ⟨k, hk.1⟩ hwake
      exact ⟨hfew, hpool', fun x => (unpark_lastGen s ⟨k, hk.1⟩ x).symm ▸ hseen x,
        ⟨hw.awake, hw.count, hw.token, hw.going⟩, hseq⟩
    · rw [dif_neg hk] at hpool' ⊢
      refine ⟨hfew, hpool', hseen,
        ⟨hwake.awake, hwake.count, fun x _ hxa => hwake.token x ?_ hxa, hwake.going⟩, hseq⟩
      omega
  | steal st j rest active =>
    simp only [WakePhase, hpc] at hphase
    obtain ⟨hwake, hseq⟩ := hphase
    obtain ⟨k, hk⟩ := stealStep_shared s.shared st
    rcases hstep : stealStep s.shared st with ⟨o, sh, calls⟩
    obtain rfl : sh = { s.shared with nextChunk := k } := by simpa [hstep] using hk
    cases o with
    | some st' =>
      simp only [SpinPool.mainStep, hpc, hstep] at hpool' ⊢
      exact ⟨hfew, hpool', hseen, ⟨hwake.awake, hwake.count, hwake.token, hwake.going⟩, hseq⟩
    | none =>
      simp only [SpinPool.mainStep, hpc, hstep] at hpool' ⊢
      exact ⟨hfew, hpool', hseen, ⟨hwake.awake, hwake.count, hwake.token, hwake.going⟩, hseq⟩
  | wait j rest active =>
    simp only [WakePhase, hpc] at hphase
    obtain ⟨hwake, hseq⟩ := hphase
    by_cases hdone : s.shared.doneCount < active
    · simpa only [SpinPool.mainStep, hpc, if_pos hdone] using hinv
    cases rest with
    | nil =>
      simp only [SpinPool.mainStep, hpc, if_neg hdone] at hpool' ⊢
      exact ⟨hfew, hpool', hseen, ⟨hwake.awake, hwake.going⟩, by simpa using hseq⟩
    | cons j' rest =>
      simp only [SpinPool.mainStep, hpc, if_neg hdone] at hpool' ⊢
      rw [List.length_cons] at hseq
      refine ⟨hfew, hpool', hseen, ⟨hwake.awake, hwake.going⟩, ?_⟩
      change seqOf s.shared.generation + 1 + rest.length ≤ jobs.length
      omega
  | dropShutdown =>
    simp only [WakePhase, hpc] at hphase
    simp only [SpinPool.mainStep, hpc] at hpool' ⊢
    exact ⟨hfew, hpool', hseen, rfl, hphase.2⟩
  | dropBump =>
    simp only [WakePhase, hpc] at hphase
    simp only [SpinPool.mainStep, hpc] at hpool' ⊢
    have hseq := seqOf_bump s.shared.generation (by omega)
    refine ⟨hfew, hpool', fun x => ?_, hphase.1, fun x _ => ne_of_seqOf_lt ?_, fun x hx =>
      absurd hx (Nat.not_lt_zero _)⟩
    · have := hseen x
      simp only [hseq]
      omega
    · have := hseen x
      simp only [hseq]
      omega
  | dropUnpark k =>
    simp only [WakePhase, hpc] at hphase
    simp only [SpinPool.mainStep, hpc] at hpool' ⊢
    by_cases hk : k < n
    · rw [dif_pos hk] at hpool' ⊢
      have hc := Closes.unpark ⟨k, hk⟩ hphase
      exact ⟨hfew, hpool', fun x => (unpark_lastGen s ⟨k, hk⟩ x).symm ▸ hseen x,
        ⟨hc.shutdown, hc.fresh, hc.token⟩⟩
    · rw [dif_neg hk] at hpool' ⊢
      exact ⟨hfew, hpool', hseen,
        ⟨hphase.shutdown, hphase.fresh, fun x _ => hphase.token x (by omega)⟩⟩
  | join k =>
    simp only [WakePhase, hpc] at hphase
    simp only [SpinPool.mainStep, hpc] at hpool' ⊢
    by_cases hk : k < n
    · rw [dif_pos hk] at hpool' ⊢
      split_ifs at hpool' ⊢
      · exact ⟨hfew, hpool', hseen, ⟨hphase.shutdown, hphase.fresh, hphase.token⟩⟩
      · exact hinv
    · rw [dif_neg hk] at hpool' ⊢
      exact ⟨hfew, hpool', hseen, ⟨hphase.shutdown, hphase.fresh, hphase.token⟩⟩
  | dropped => simpa only [SpinPool.mainStep, hpc] using hinv

theorem WakeInv.turn {s : SpinPool n} {jobs : List Job} (hinv : WakeInv s jobs) (t : Turn n) :
    WakeInv (s.turn t) jobs := by
  cases t with
  | thread a =>
    cases a with
    | main => exact hinv.mainStep
    | worker i => exact hinv.turned (moved_workStep s i) (turned_workStep s i)
  | spurious i =>
    change WakeInv (s.wake i) jobs
    by_cases h : (s.workers i).pc = .park
    · have hm : Moved s (s.wake i) i := by
        unfold SpinPool.wake
        rw [if_pos h]
        exact ⟨rfl, _, [], rfl, (List.append_nil _).symm,
          .waits _ (by simp [Worker.busy, h]) (by simp [Worker.busy]) (Or.inl rfl)⟩
      have ht : Turned s (s.wake i) i := by
        unfold SpinPool.wake
        rw [if_pos h]
        exact ⟨rfl, _, rfl, workerTurn_wake s.shared (s.workers i) h⟩
      exact hinv.turned hm ht
    · rw [show s.wake i = s from if_neg h]
      exact hinv

/-- A call keeps the wake-ups, as long as the jobs are few. -/
theorem WakeInv.enter {s : SpinPool n} {jobs : List Job} (hinv : WakeInv s jobs)
    (hidle : s.main = .idle) (c : PoolCall) (hfew : (jobs ++ c.jobs).length + 1 < 2 ^ 48) :
    WakeInv (s.enter c) (jobs ++ c.jobs) := by
  have hpool := hinv.pool.enter hidle c
  have hphase := hinv.phase
  simp only [WakePhase, hidle] at hphase
  obtain ⟨hst, hseq⟩ := hphase
  have hfirst : ∀ j rest, PoolInv { s with main := .setup .workFn j rest none }
    (jobs ++ j :: rest) →
      (jobs ++ j :: rest).length + 1 < 2 ^ 48 →
      WakeInv { s with main := .setup .workFn j rest none } (jobs ++ j :: rest) := by
    intro j rest hp hf
    refine ⟨hf, hp, hinv.seen, ⟨hst.awake, hst.going⟩, ?_⟩
    change seqOf s.shared.generation + 1 + rest.length ≤ _
    rw [List.length_append, List.length_cons]
    omega
  have hsame : ∀ s' : SpinPool n, s'.workers = s.workers → s'.main = .idle →
    s'.shared.shutdown = s.shared.shutdown →
      s'.shared.generation = s.shared.generation → PoolInv s' (jobs ++ []) →
      WakeInv s' (jobs ++ []) := by
    intro s' hw hmain hshut hgen hp
    rw [List.append_nil] at hp ⊢
    refine ⟨hinv.few, hp, by rw [hw, hgen]; exact hinv.seen, ?_⟩
    simp only [WakePhase, hmain, hgen]
    exact ⟨⟨hshut.trans hst.awake, by rw [hw]; exact hst.going⟩, hseq⟩
  cases c with
  | dispatch k f c =>
    cases k with
    | zero => exact hsame s rfl hidle rfl rfl hpool
    | succ k => exact hfirst _ _ hpool hfew
  | dispatchBatch items =>
    cases items with
    | nil => exact hsame s rfl hidle rfl rfl hpool
    | cons j rest => exact hfirst j rest hpool hfew
  | beginBatch => exact hsame _ rfl hidle rfl rfl hpool
  | endBatch => exact hsame _ rfl hidle rfl rfl hpool
  | setActiveWorkers k => exact hsame _ rfl hidle rfl rfl hpool
  | drop =>
    rw [show jobs ++ PoolCall.drop.jobs = jobs from List.append_nil _] at hpool hfew ⊢
    exact ⟨hfew, hpool, hinv.seen, ⟨hst.awake, hst.going⟩, hseq⟩

theorem wakeInv_new {s : SpinPool n} (h : SpinPool.new n = some s) : WakeInv s [] := by
  have hpool := poolInv_new h
  unfold SpinPool.new at h
  split_ifs at h with hn
  obtain rfl := Option.some.inj h
  refine ⟨by simp, hpool, fun i => le_rfl, ⟨rfl, fun i => by simp⟩, ?_⟩
  change seqOf 0 ≤ 0
  decide

/-- **The run lemma of the wake-ups.** -/
theorem PoolRun.wakeInv {s₀ s : SpinPool n} {labels : List (Label n)} (h : PoolRun s₀ labels s)
    (h0 : SpinPool.new n = some s₀) (hfew : (labels.flatMap Label.jobs).length + 1 < 2 ^ 48) :
    WakeInv s (labels.flatMap Label.jobs) := by
  have hrun := h.simulates (R := fun s t => t.length + 1 < 2 ^ 48 → WakeInv s t)
    (f := fun a t => t ++ a.jobs) (fun a s s' t hinv hstep hlen => by
      cases a with
      | call c =>
        simp only [SpinPool.step] at hstep
        split_ifs at hstep with hidle
        obtain rfl := Option.some.inj hstep
        refine (hinv ?_).enter hidle c hlen
        rw [List.length_append] at hlen
        omega
      | turn t' =>
        obtain rfl := Option.some.inj hstep
        rw [Label.jobs, List.append_nil] at hlen ⊢
        exact (hinv hlen).turn t')
    (fun _ => wakeInv_new h0)
  rw [foldl_jobs, List.nil_append] at hrun
  exact hrun hfew

/-! ## A turn lowers what is left -/

theorem WorkerPc.left_le {p : ℕ} (hp : p ≤ 12) (pc : WorkerPc) : pc.left p ≤ 12 := by
  cases pc with
  | steal st => cases st <;> simp [WorkerPc.left, Steal.left]
  | poll => exact hp
  | _ => simp [WorkerPc.left]

theorem stealStep_left {sh sh' : SharedState} {j : Job} {st : Steal} {o : Option Steal}
    {calls : List Call} (hst : st.Loaded j) (h : stealStep sh st = (o, sh', calls)) :
    2 * (j.chunks - sh'.nextChunk) + o.elim 0 Steal.left < 2 *
      (j.chunks - sh.nextChunk) + st.left := by
  cases st with
  | grab f c total =>
    obtain ⟨rfl, rfl, rfl⟩ := hst
    simp only [stealStep] at h
    split_ifs at h with hk
    all_goals
      simp only [Prod.mk.injEq] at h
      obtain ⟨rfl, rfl, rfl⟩ := h
      simp only [Option.elim_none, Option.elim_some, Steal.left]
      omega
  | _ =>
    simp only [stealStep, Prod.mk.injEq] at h
    obtain ⟨rfl, rfl, rfl⟩ := h
    simp [Steal.left]

/-- A worker that is not blocked. -/
def Worker.free (w : Worker) : Prop := w.pc = .park → w.token = true

theorem Worker.left_of_busy {g : UInt64} {active idx : ℕ} {w : Worker} (h : w.busy = true) :
    w.left g active idx = w.pc.left 9 := if_pos (Or.inl h)

/-- Within a dispatch, a turn of a worker lowers what it has left, unless it is blocked or has
nothing left. -/
theorem workerStep_left {idx : ℕ} {sh : SharedState} {w : Worker} {j : Job}
    (hshut : sh.shutdown = false) (hst : ∀ st, w.pc = .steal st → st.Loaded j)
    (hbusy : w.busy = true → w.lastGen = sh.generation) :
    2 * (j.chunks - (workerStep idx sh w).1.nextChunk) +
        (workerStep idx sh w).2.1.left sh.generation (activeOf sh.generation) idx ≤
      2 * (j.chunks - sh.nextChunk) + w.left sh.generation (activeOf sh.generation) idx ∧
    (0 < w.left sh.generation (activeOf sh.generation) idx → w.free →
      2 * (j.chunks - (workerStep idx sh w).1.nextChunk) +
          (workerStep idx sh w).2.1.left sh.generation (activeOf sh.generation) idx <
        2 * (j.chunks - sh.nextChunk) + w.left sh.generation (activeOf sh.generation) idx) := by
  cases hpc : w.pc with
  | poll =>
    simp only [workerStep, hpc, hshut]
    by_cases hun : idx < activeOf sh.generation ∧ w.lastGen ≠ sh.generation <;>
      simp [Worker.left, Worker.busy, WorkerPc.left, hpc, hun]
  | readGen =>
    simp only [workerStep, hpc]
    split_ifs with hg hidx
    · simp [Worker.left, Worker.busy, WorkerPc.left, Steal.left, hpc, hidx, Ne.symm hg]
    · simp [Worker.left, Worker.busy, hpc, hidx]
    · have hg' : w.lastGen = sh.generation := by simpa [eq_comm] using hg
      simp [Worker.left, Worker.busy, hpc, hg']
  | checkActive =>
    simp only [workerStep, hpc]
    split_ifs <;>
    by_cases hun : idx < activeOf sh.generation ∧ w.lastGen ≠ sh.generation <;>
      simp [Worker.left, Worker.busy, WorkerPc.left, hpc, hun]
  | checkBatch =>
    simp only [workerStep, hpc]
    split_ifs <;>
    by_cases hun : idx < activeOf sh.generation ∧ w.lastGen ≠ sh.generation <;>
      simp [Worker.left, Worker.busy, WorkerPc.left, hpc, hun]
  | park =>
    simp only [workerStep, hpc]
    split_ifs with htok
    · by_cases hun : idx < activeOf sh.generation ∧ w.lastGen ≠ sh.generation <;>
        simp [Worker.left, Worker.busy, WorkerPc.left, hpc, hun]
    · exact ⟨le_rfl, fun _ hfree => absurd (hfree hpc) htok⟩
  | steal st =>
    rcases hstep : stealStep sh st with ⟨o, sh', calls⟩
    have hlt := stealStep_left (hst st hpc) hstep
    have hw : w.left sh.generation (activeOf sh.generation) idx = 2 + st.left := by
      rw [Worker.left_of_busy (by simp [Worker.busy, hpc]), hpc, WorkerPc.left]
    cases o with
    | some st' =>
      have hw' : ({ w with pc := .steal st' } : Worker).left sh.generation
        (activeOf sh.generation) idx =
          2 + st'.left := by
        rw [Worker.left_of_busy (by simp [Worker.busy]), WorkerPc.left]
      simp only [workerStep, hpc, hstep, hw, hw']
      simp only [Option.elim_some] at hlt
      omega
    | none =>
      have hw' : ({ w with pc := .bumpDone } : Worker).left sh.generation
        (activeOf sh.generation) idx = 2 := by
        rw [Worker.left_of_busy (by simp [Worker.busy]), WorkerPc.left]
      simp only [workerStep, hpc, hstep, hw, hw']
      simp only [Option.elim_none] at hlt
      omega
  | bumpDone =>
    have hg := hbusy (by simp [Worker.busy, hpc])
    simp only [workerStep, hpc]
    simp [Worker.left, Worker.busy, WorkerPc.left, hpc, hg]
  | stopped =>
    simp only [workerStep, hpc]
    simp [Worker.left, WorkerPc.left, hpc]

/-- While the pool closes, a turn of a worker that is not blocked brings it closer to its end. -/
theorem workerStep_closing {idx : ℕ} {sh : SharedState} {w : Worker} (hshut : sh.shutdown = true)
    (hspent : sh.totalChunks ≤ sh.nextChunk) (hst : ∀ st, w.pc = .steal st → st.Late sh.totalChunks)
    (hfresh : w.pc = .readGen → w.lastGen ≠ sh.generation) :
    (workerStep idx sh w).2.1.pc.left 1 ≤ w.pc.left 1 ∧
      (0 < w.pc.left 1 → w.free → (workerStep idx sh w).2.1.pc.left 1 < w.pc.left 1) := by
  cases hpc : w.pc with
  | poll => simp [workerStep, hpc, hshut, WorkerPc.left]
  | readGen =>
    simp only [workerStep, hpc, if_pos (Ne.symm (hfresh hpc))]
    split_ifs <;> simp [WorkerPc.left, Steal.left]
  | checkActive =>
    simp only [workerStep, hpc]
    split_ifs <;> simp [WorkerPc.left]
  | checkBatch =>
    simp only [workerStep, hpc]
    split_ifs <;> simp [WorkerPc.left]
  | park =>
    simp only [workerStep, hpc]
    split_ifs with htok
    · simp [WorkerPc.left]
    · rw [hpc]
      exact ⟨le_rfl, fun _ hfree => absurd (hfree hpc) htok⟩
  | steal st =>
    have hlate := hst st hpc
    cases st with
    | grab f c total =>
      obtain rfl : total = sh.totalChunks := hlate
      simp [workerStep, hpc, stealStep, if_pos hspent, WorkerPc.left, Steal.left]
    | run f c total k => exact absurd hlate (by simp [Steal.Late])
    | _ => simp [workerStep, hpc, stealStep, WorkerPc.left, Steal.left]
  | bumpDone => simp [workerStep, hpc, WorkerPc.left]
  | stopped => simp [workerStep, hpc, WorkerPc.left]

/-- The thread has something left and is not blocked. -/
def Ready : Actor n → SpinPool n → Prop
  | .main, s =>
    match s.main with
    | .idle => False
    | .dropped => False
    | .wait _ _ active => active ≤ s.shared.doneCount
    | .join i => ∀ h : i < n, (s.workers ⟨i, h⟩).pc = .stopped
    | _ => True
  | .worker i, s => 0 < s.main.stage.left s.shared.generation i (s.workers i) ∧ (s.workers i).free

theorem left_update {s s' : SpinPool n} {i : Fin n} {w' : Worker} (hmain : s'.main = s.main)
    (hw : s'.workers = Function.update s.workers i w')
    (hgen : s'.shared.generation = s.shared.generation) :
    s'.left + (s.main.left n s.shared.nextChunk + s.main.stage.left s.shared.generation
      i (s.workers i)) = s.left +
        (s.main.left n s'.shared.nextChunk + s.main.stage.left s.shared.generation i w') := by
  have hsum := sum_update_add (fun (x : Fin n) w => s.main.stage.left s.shared.generation x w)
    s.workers i w'
  unfold SpinPool.left
  rw [hmain, hw, hgen]
  omega

/-- The dispatching thread is in a dispatch: what `workerStep_left` asks for. -/
theorem Within.step_left {s : SpinPool n} {r : Multiset Call} {j : Job}
    {rest jobs : List Job} {active : ℕ} (hw : Within s r j rest active jobs)
    (hshut : s.shared.shutdown = false) (i : Fin n) :
    2 * (j.chunks - (s.workStep i).shared.nextChunk) +
        ((s.workStep i).workers i).left s.shared.generation active i ≤
      2 * (j.chunks - s.shared.nextChunk) + (s.workers i).left s.shared.generation active i ∧
    (0 < (s.workers i).left s.shared.generation active i → (s.workers i).free →
      2 * (j.chunks - (s.workStep i).shared.nextChunk) +
          ((s.workStep i).workers i).left s.shared.generation active i <
        2 * (j.chunks - s.shared.nextChunk) + (s.workers i).left s.shared.generation active i) := by
  obtain ⟨-, _, _, _, -, -, -, ho⟩ := hw
  have h := @workerStep_left i s.shared (s.workers i) j hshut (ho.loaded i) fun hb =>
    (ho.busy i hb).2
  rw [ho.stamped] at h
  simpa only [SpinPool.workStep, Function.update_self] using h

theorem Closing.step_left {s : SpinPool n} {called : ℕ} (hc : Closing s)
    (hw : Closes s called) (i : Fin n) :
    ((s.workStep i).workers i).pc.left 1 ≤ (s.workers i).pc.left 1 ∧
      (0 < (s.workers i).pc.left 1 → (s.workers i).free →
        ((s.workStep i).workers i).pc.left 1 < (s.workers i).pc.left 1) := by
  have h := @workerStep_closing i s.shared (s.workers i)
    hw.shutdown hc.spent (hc.late i) (hw.fresh i)
  simpa only [SpinPool.workStep, Function.update_self] using h

/-- A worker's access lowers what is left of the call, if the worker is ready. -/
theorem WakeInv.workStep_left {s : SpinPool n} {jobs : List Job}
    (hinv : WakeInv s jobs) (i : Fin n) :
    (s.workStep i).left ≤ s.left ∧ (Ready (.worker i) s → (s.workStep i).left < s.left) := by
  have hgen : (s.workStep i).shared.generation = s.shared.generation :=
    (workerTurn_workerStep i s.shared (s.workers i)).generation
  have hup := @left_update n s (s.workStep i) i _ rfl rfl hgen
  have hself : (workerStep i s.shared (s.workers i)).2.1 = (s.workStep i).workers i := by
    simp [SpinPool.workStep]
  rw [hself] at hup
  have hphase := hinv.phase
  have hpp := hinv.pool.phase
  have hresting : s.main.stage = .resting → (∀ k k', s.main.left n k = s.main.left n k') →
      (s.workStep i).left ≤ s.left ∧ (Ready (.worker i) s → (s.workStep i).left < s.left) := by
    intro hst hk
    rw [hst, hk (s.workStep i).shared.nextChunk s.shared.nextChunk] at hup
    simp only [Stage.left] at hup
    refine ⟨by omega, fun hr => ?_⟩
    simp [Ready, hst, Stage.left] at hr
  have hdispatching : ∀ {r j rest active}, Within s r j rest active jobs →
    s.shared.shutdown = false →
      s.main.stage = .dispatching active →
      (∀ k k', s.main.left n k + 2 * (j.chunks - k') = s.main.left n k' + 2 * (j.chunks - k)) →
      (s.workStep i).left ≤ s.left ∧ (Ready (.worker i) s → (s.workStep i).left < s.left) := by
    intro r j rest active hw hshut hst hk
    have h := hw.step_left hshut i
    have hk' := hk s.shared.nextChunk (s.workStep i).shared.nextChunk
    rw [hst] at hup
    simp only [Stage.left] at hup
    refine ⟨by omega, fun hr => ?_⟩
    simp only [Ready, hst, Stage.left] at hr
    have := h.2 hr.1 hr.2
    omega
  have hclosing : ∀ {called}, Closing s → Closes s called → s.main.stage = .closing →
      (∀ k k', s.main.left n k = s.main.left n k') →
      (s.workStep i).left ≤ s.left ∧ (Ready (.worker i) s → (s.workStep i).left < s.left) := by
    intro called hc hw hst hk
    have h := hc.step_left hw i
    rw [hst, hk (s.workStep i).shared.nextChunk s.shared.nextChunk] at hup
    simp only [Stage.left] at hup
    refine ⟨by omega, fun hr => ?_⟩
    simp only [Ready, hst, Stage.left] at hr
    have := h.2 hr.1 hr.2
    omega
  cases hpc : s.main with
  | idle => exact hresting (by rw [hpc]; rfl) (by rw [hpc]; exact fun _ _ => rfl)
  | setup store j rest active =>
    exact hresting (by rw [hpc]; rfl) (by rw [hpc]; exact fun _ _ => rfl)
  | publish j rest active => exact hresting (by rw [hpc]; rfl) (by rw [hpc]; exact fun _ _ => rfl)
  | unpark k j rest active =>
    simp only [PhaseInv, hpc] at hpp
    simp only [WakePhase, hpc] at hphase
    exact hdispatching hpp hphase.1.awake (by rw [hpc]; rfl)
      (by rw [hpc]; intro k k'; simp only [MainPc.left]; omega)
  | steal st j rest active =>
    simp only [PhaseInv, hpc] at hpp
    simp only [WakePhase, hpc] at hphase
    exact hdispatching hpp.1 hphase.1.awake (by rw [hpc]; rfl)
      (by rw [hpc]; intro k k'; simp only [MainPc.left]; omega)
  | wait j rest active =>
    simp only [PhaseInv, hpc] at hpp
    simp only [WakePhase, hpc] at hphase
    exact hdispatching hpp.1 hphase.1.awake (by rw [hpc]; rfl)
      (by rw [hpc]; intro k k'; simp only [MainPc.left]; omega)
  | dropShutdown => exact hresting (by rw [hpc]; rfl) (by rw [hpc]; exact fun _ _ => rfl)
  | dropBump => exact hresting (by rw [hpc]; rfl) (by rw [hpc]; exact fun _ _ => rfl)
  | dropUnpark k =>
    simp only [PhaseInv, hpc] at hpp
    simp only [WakePhase, hpc] at hphase
    exact hclosing hpp.1 hphase (by rw [hpc]; rfl) (by rw [hpc]; exact fun _ _ => rfl)
  | join k =>
    simp only [PhaseInv, hpc] at hpp
    simp only [WakePhase, hpc] at hphase
    exact hclosing hpp.1 hphase (by rw [hpc]; rfl) (by rw [hpc]; exact fun _ _ => rfl)
  | dropped =>
    simp only [PhaseInv, hpc] at hpp
    simp only [WakePhase, hpc] at hphase
    exact hclosing hpp.1 hphase (by rw [hpc]; rfl) (by rw [hpc]; exact fun _ _ => rfl)

theorem wake_left (s : SpinPool n) (i : Fin n) (hpc : (s.workers i).pc = .park) :
    (s.wake i).left ≤ s.left ∧
      (0 < s.main.stage.left s.shared.generation i (s.workers i) → (s.wake i).left < s.left) := by
  have hwake : s.wake i =
      { s with workers := Function.update s.workers i
                 { s.workers i with spins := 0, pc := .poll } } := if_pos hpc
  have hup := @left_update n s (s.wake i) i { s.workers i with spins := 0, pc := .poll }
    (by rw [hwake]) (by rw [hwake]) (by rw [hwake])
  have hsh : (s.wake i).shared = s.shared := by rw [hwake]
  rw [hsh] at hup
  cases hst : s.main.stage with
  | resting =>
    simp only [hst, Stage.left] at hup ⊢
    omega
  | dispatching active =>
    simp only [hst, Stage.left] at hup ⊢
    by_cases hun : (i : ℕ) < active ∧ (s.workers i).lastGen ≠ s.shared.generation
    · simp [Worker.left, Worker.busy, WorkerPc.left, hpc, hun] at hup ⊢
      omega
    · simp [Worker.left, Worker.busy, hpc, hun] at hup ⊢
      omega
  | closing =>
    simp only [hst, Stage.left, hpc, WorkerPc.left] at hup ⊢
    omega

/-! ## The dispatching thread lowers what is left -/

theorem sum_left_le (f : Fin n → ℕ) (h : ∀ i, f i ≤ 12) : ∑ i, f i ≤ 12 * n := by
  have := Finset.sum_le_card_nsmul Finset.univ f 12 fun i _ => h i
  simpa [mul_comm] using this

theorem unpark_left (s : SpinPool n) (i : Fin n) (stage : Stage) (g : UInt64) :
    ∑ x : Fin n, stage.left g x ((s.unpark i).workers x) = ∑ x : Fin n,
    stage.left g x (s.workers x) := by
  refine Finset.sum_congr rfl fun x _ => ?_
  have hbusy : ((s.unpark i).workers x).busy = (s.workers x).busy := by
    simp only [Worker.busy, unpark_pc]
  cases stage <;> simp only [Stage.left, Worker.left, hbusy, unpark_pc, unpark_lastGen]

/-- The dispatching thread, if it is not blocked, lowers what is left; otherwise its turn changes
nothing. -/
theorem WakeInv.mainStep_left {s : SpinPool n} {jobs : List Job} (hinv : WakeInv s jobs) :
    (Ready .main s → s.mainStep.left < s.left) ∧ (¬ Ready .main s → s.mainStep = s) := by
  have hpp := hinv.pool.phase
  have hphase := hinv.phase
  cases hpc : s.main with
  | idle => exact ⟨fun h => by simp [Ready, hpc] at h, fun _ => by simp [SpinPool.mainStep, hpc]⟩
  | setup store j rest active =>
    refine ⟨fun _ => ?_, fun h => (h (by simp [Ready, hpc])).elim⟩
    cases store <;>
      simp [SpinPool.left, SpinPool.mainStep, hpc, setupStep, MainPc.left, MainPc.stage,
      Stage.left, Store.left]
  | publish j rest active =>
    refine ⟨fun _ => ?_, fun h => (h (by simp [Ready, hpc])).elim⟩
    simp only [PhaseInv, hpc] at hpp
    have hcount : active.getD s.shared.activeWorkers ≤ n := by
      have hle := hinv.pool.active_le
      cases active with
      | none => exact hle
      | some k => exact (hpp.1.2.1 k rfl) ▸ hle
    have hsum := sum_left_le (fun i : Fin n => (s.workers i).left (nextGeneration s.shared)
      (active.getD s.shared.activeWorkers) i) fun i => by
        unfold Worker.left
        split_ifs
        · exact WorkerPc.left_le (by omega) _
        · omega
    simp only [SpinPool.left, SpinPool.mainStep, hpc, MainPc.left, MainPc.stage,
      Stage.left, openCost, Finset.sum_const_zero]
    omega
  | unpark k j rest active =>
    refine ⟨fun _ => ?_, fun h => (h (by simp [Ready, hpc])).elim⟩
    simp only [SpinPool.mainStep, hpc]
    split_ifs with hk
    · have hsum := unpark_left s ⟨k, hk.1⟩ (.dispatching active) s.shared.generation
      have hsh : (s.unpark ⟨k, hk.1⟩).shared = s.shared := rfl
      simp only [SpinPool.left, hpc, MainPc.left, MainPc.stage, hsum, hsh]
      omega
    · simp only [SpinPool.left, hpc, MainPc.left, MainPc.stage, Steal.left]
      omega
  | steal st j rest active =>
    refine ⟨fun _ => ?_, fun h => (h (by simp [Ready, hpc])).elim⟩
    simp only [PhaseInv, hpc] at hpp
    obtain ⟨k, hk⟩ := stealStep_shared s.shared st
    rcases hstep : stealStep s.shared st with ⟨o, sh, calls⟩
    have hlt := stealStep_left hpp.2 hstep
    obtain rfl : sh = { s.shared with nextChunk := k } := by simpa [hstep] using hk
    cases o with
    | some st' =>
      simp only [Option.elim_some] at hlt
      simp only [SpinPool.left, SpinPool.mainStep, hpc, hstep, MainPc.left, MainPc.stage]
      omega
    | none =>
      simp only [Option.elim_none] at hlt
      simp only [SpinPool.left, SpinPool.mainStep, hpc, hstep, MainPc.left, MainPc.stage]
      omega
  | wait j rest active =>
    by_cases hdone : s.shared.doneCount < active
    · exact ⟨fun h =>
        by simp [Ready, hpc] at h; omega, fun _ => by simp [SpinPool.mainStep, hpc, hdone]⟩
    refine ⟨fun _ => ?_, fun h => absurd (by simp [Ready, hpc]; omega) h⟩
    cases rest with
    | nil =>
      simp only [SpinPool.left, SpinPool.mainStep, hpc, if_neg hdone, MainPc.left,
        MainPc.stage, Stage.left, Finset.sum_const_zero]
      omega
    | cons j' rest =>
      simp only [SpinPool.left, SpinPool.mainStep, hpc, if_neg hdone, MainPc.left,
        MainPc.stage, Stage.left, Finset.sum_const_zero, Store.left, restCost,
        List.map_cons, List.sum_cons]
      omega
  | dropShutdown =>
    refine ⟨fun _ => ?_, fun h => (h (by simp [Ready, hpc])).elim⟩
    simp [SpinPool.left, SpinPool.mainStep, hpc, MainPc.left, MainPc.stage, Stage.left]
  | dropBump =>
    refine ⟨fun _ => ?_, fun h => (h (by simp [Ready, hpc])).elim⟩
    have hsum := sum_left_le (fun i : Fin n => (s.workers i).pc.left 1) fun i =>
      WorkerPc.left_le (by omega) _
    simp only [SpinPool.left, SpinPool.mainStep, hpc, MainPc.left, MainPc.stage, Stage.left,
      Finset.sum_const_zero]
    omega
  | dropUnpark k =>
    refine ⟨fun _ => ?_, fun h => (h (by simp [Ready, hpc])).elim⟩
    simp only [SpinPool.mainStep, hpc]
    split_ifs with hk
    · have hsum := unpark_left s ⟨k, hk⟩ .closing s.shared.generation
      have hsh : (s.unpark ⟨k, hk⟩).shared = s.shared := rfl
      simp only [SpinPool.left, hpc, MainPc.left, MainPc.stage, hsum, hsh]
      omega
    · simp only [SpinPool.left, hpc, MainPc.left, MainPc.stage]
      omega
  | join k =>
    by_cases hk : k < n
    · by_cases hstop : (s.workers ⟨k, hk⟩).pc = .stopped
      · refine ⟨fun _ => ?_, fun h => absurd (by simp only [Ready, hpc]; exact fun _ => hstop) h⟩
        simp only [SpinPool.left, SpinPool.mainStep, hpc, dif_pos hk, if_pos hstop,
          MainPc.left, MainPc.stage]
        omega
      · refine ⟨fun h => ?_, fun _ => by simp [SpinPool.mainStep, hpc, hk, hstop]⟩
        simp only [Ready, hpc] at h
        exact absurd (h hk) hstop
    · refine ⟨fun _ => ?_, fun h =>
        absurd (by simp only [Ready, hpc]; exact fun h => absurd h hk) h⟩
      simp only [SpinPool.left, SpinPool.mainStep, hpc, dif_neg hk, MainPc.left, MainPc.stage]
      omega
  | dropped => exact ⟨fun h => by simp [Ready, hpc] at h, fun _ => by simp [SpinPool.mainStep, hpc]⟩

/-! ## Some thread is always ready -/

/-- The dispatching thread has returned from its call. -/
def SpinPool.AtRest (s : SpinPool n) : Prop := s.main = .idle ∨ s.main = .dropped

theorem WorkerPc.left_pos {p : ℕ} (hp : 0 < p) {pc : WorkerPc} (h : pc ≠ .stopped) :
    0 < pc.left p := by
  cases pc with
  | poll => exact hp
  | stopped => exact absurd rfl h
  | _ => simp [WorkerPc.left]

theorem Wakes.some_ready {s : SpinPool n} {active : ℕ} (h : Wakes s n active) (hle : active ≤ n)
    (hdone : s.shared.doneCount < active) :
    ∃ i, 0 < (s.workers i).left s.shared.generation active i ∧ (s.workers i).free := by
  have hsum : ∑ i, finished s.shared.generation active i (s.workers i) <
      ∑ i : Fin n, if (i : ℕ) < active then 1 else 0 := by
    rw [sum_active hle, ← h.count]
    exact hdone
  obtain ⟨i, -, hi⟩ := Finset.exists_lt_of_sum_lt hsum
  have hia : (i : ℕ) < active := by
    by_contra hia
    rw [if_neg hia] at hi
    omega
  have hnot : ¬ ((s.workers i).lastGen = s.shared.generation ∧ (s.workers i).busy = false) := by
    intro hfin
    rw [if_pos hia, finished, if_pos ⟨hia, hfin⟩] at hi
    omega
  have hgoing := WorkerPc.left_pos (p := 9) (by omega) (h.going i)
  refine ⟨i, ?_, fun hpark => ?_⟩
  · unfold Worker.left
    rw [if_pos ?_]
    · exact hgoing
    · by_cases hb : (s.workers i).busy = true
      · exact Or.inl hb
      · exact Or.inr ⟨hia, fun hg => hnot ⟨hg, by simpa using hb⟩⟩
  · have hb : (s.workers i).busy = false := by simp [Worker.busy, hpark]
    exact h.token i i.2 hia (fun hg => hnot ⟨hg, hb⟩) (by simp [Worker.asleep, hpark])

theorem WakeInv.some_ready {s : SpinPool n} {jobs : List Job} (hinv : WakeInv s jobs)
    (hrest : ¬ s.AtRest) : ∃ a, Ready a s := by
  have hpp := hinv.pool.phase
  have hphase := hinv.phase
  cases hpc : s.main with
  | idle => exact absurd (Or.inl hpc) hrest
  | dropped => exact absurd (Or.inr hpc) hrest
  | wait j rest active =>
    by_cases hdone : s.shared.doneCount < active
    · simp only [PhaseInv, hpc] at hpp
      simp only [WakePhase, hpc] at hphase
      obtain ⟨i, hi⟩ := hphase.1.some_ready (hpp.1.1 ▸ hinv.pool.active_le) hdone
      exact ⟨.worker i, by simpa only [Ready, hpc, MainPc.stage, Stage.left] using hi⟩
    · exact ⟨.main, by simp only [Ready, hpc]; omega⟩
  | join k =>
    by_cases hk : k < n
    · by_cases hstop : (s.workers ⟨k, hk⟩).pc = .stopped
      · exact ⟨.main, by simp only [Ready, hpc]; exact fun _ => hstop⟩
      · simp only [WakePhase, hpc] at hphase
        refine ⟨.worker ⟨k, hk⟩, ?_, fun hpark => ?_⟩
        · simpa only [hpc, MainPc.stage, Stage.left] using WorkerPc.left_pos (p := 1)
            (by omega) hstop
        · exact hphase.token ⟨k, hk⟩ hk (by simp [Worker.asleep, hpark])
    · exact ⟨.main, by simp only [Ready, hpc]; exact fun h => absurd h hk⟩
  | _ => exact ⟨.main, by simp only [Ready, hpc]⟩

/-- A turn of one thread leaves another one ready, unless it lowers what is left. -/
theorem WakeInv.stays_ready {s : SpinPool n} {jobs : List Job} (hinv : WakeInv s jobs)
    {t : Turn n} {a : Actor n} (hr : Ready a s) (hne : t ≠ .thread a)
    (heq : (s.turn t).left = s.left) : Ready a (s.turn t) := by
  -- another worker's turn changes neither the call, nor the generation, nor this worker
  have hother : ∀ {s' : SpinPool n} {k : Fin n} {w'}, s'.main = s.main →
      s'.workers = Function.update s.workers k w' → s'.shared.generation = s.shared.generation →
      s.shared.doneCount ≤ s'.shared.doneCount → ((s.workers k).pc = .stopped → w'.pc = .stopped) →
      a ≠ .worker k → Ready a s' := by
    intro s' k w' hmain hw hgen hdone hstop hak
    cases a with
    | main =>
      cases hpc : s.main with
      | wait j rest active =>
        simp only [Ready, hpc, hmain] at hr ⊢
        omega
      | join i =>
        simp only [Ready, hpc, hmain] at hr ⊢
        intro hi
        rw [hw]
        by_cases hik : (⟨i, hi⟩ : Fin n) = k
        · rw [hik, Function.update_self]
          exact hstop (hik ▸ hr hi)
        · rw [Function.update_of_ne hik]
          exact hr hi
      | idle => simp only [Ready, hpc] at hr
      | dropped => simp only [Ready, hpc] at hr
      | _ => simp only [Ready, hpc, hmain]
    | worker i =>
      have hik : i ≠ k := fun h => hak (by rw [h])
      simp only [Ready, hmain, hgen, hw, Function.update_of_ne hik]
      exact hr
  cases t with
  | thread b =>
    cases b with
    | main =>
      by_cases hmain : Ready .main s
      · exact absurd heq (hinv.mainStep_left.1 hmain).ne
      · change Ready a s.mainStep
        rw [hinv.mainStep_left.2 hmain]
        exact hr
    | worker k =>
      have hturn := workerTurn_workerStep k s.shared (s.workers k)
      refine @hother (s.workStep k) k _ rfl rfl hturn.generation ?_ hturn.stays fun h =>
        hne (by rw [h])
      have hmove := workerStep_move k s.shared (s.workers k)
      change s.shared.doneCount ≤ (workerStep k s.shared (s.workers k)).1.doneCount
      generalize workerStep k s.shared (s.workers k) = r at hmove ⊢
      obtain ⟨sh', w', calls⟩ := r
      cases hmove with
      | waits => exact le_rfl
      | enters => exact le_rfl
      | steals st _ _ _ _ hstep =>
        obtain ⟨m, hm⟩ := stealStep_shared s.shared st
        rw [show sh' = { s.shared with nextChunk := m } by simpa [hstep] using hm]
      | leaves st _ _ _ hstep =>
        obtain ⟨m, hm⟩ := stealStep_shared s.shared st
        rw [show sh' = { s.shared with nextChunk := m } by simpa [hstep] using hm]
      | counts => exact Nat.le_succ _
  | spurious k =>
    change Ready a (s.wake k)
    by_cases hpark : (s.workers k).pc = .park
    · have hwake : s.wake k =
          { s with workers := Function.update s.workers k
                     { s.workers k with spins := 0, pc := .poll } } :=
        if_pos hpark
      by_cases hak : a = .worker k
      · subst hak
        exact absurd heq ((wake_left s k hpark).2 hr.1).ne
      · rw [hwake]
        exact hother rfl rfl rfl le_rfl (by simp [hpark]) hak
    · rw [show s.wake k = s from if_neg hpark]
      exact hr

theorem pool_progress (jobs : List Job) :
    Progress (fun (t : Turn n) (s : SpinPool n) => s.turn t) (fun t a => t = .thread a)
      (fun s => WakeInv s jobs)
      SpinPool.AtRest Ready SpinPool.left where
  keeps t s hinv := hinv.turn t
  rank_le t s hinv _ := by
    cases t with
    | thread b =>
      cases b with
      | main =>
        by_cases hmain : Ready .main s
        · exact (hinv.mainStep_left.1 hmain).le
        · change s.mainStep.left ≤ s.left
          rw [hinv.mainStep_left.2 hmain]
      | worker k => exact (hinv.workStep_left k).1
    | spurious k =>
      change (s.wake k).left ≤ s.left
      by_cases hpark : (s.workers k).pc = .park
      · exact (wake_left s k hpark).1
      · rw [show s.wake k = s from if_neg hpark]
  lowers t a s hinv _ hr ht := by
    subst ht
    cases a with
    | main => exact hinv.mainStep_left.1 hr
    | worker k => exact (hinv.workStep_left k).2 hr
  some_ready s hinv hrest := hinv.some_ready hrest
  stays_ready t a s hinv _ hr hne heq := hinv.stays_ready hr hne heq

/-- **Every call returns.** From any state of a run with fewer than `2 ^ 48` jobs, whatever the
interleaving so far, a schedule that gives every thread a turn again and again brings the
dispatching thread to the end of its call, within as many rounds as there are accesses left;
spurious wake-ups do no harm. -/
theorem call_returns {s₀ s : SpinPool n} {labels : List (Label n)} (h0 : SpinPool.new n = some s₀)
    (h : PoolRun s₀ labels s) (hfew : (labels.flatMap Label.jobs).length + 1 < 2 ^ 48)
    (rounds : List (List (Turn n))) (hround : ∀ r ∈ rounds, ∀ a, Turn.thread a ∈ r)
    (hlen : s.left < rounds.length) : ∃ t ∈ trace (fun t s => SpinPool.turn s t) s rounds.flatten,
    t.main = .idle ∨ t.main = .dropped :=
  (pool_progress _).reaches rounds (h.wakeInv h0 hfew) (fun r hr a => ⟨_, hround r hr a, rfl⟩) hlen

/-- The dispatch of `twoChunks`, its two threads taking turns from the first store on. -/
theorem call_returns_twoChunks : ∃ s₀ s : SpinPool 1, SpinPool.new 1 = some s₀ ∧
    PoolRun s₀ (twoChunks.take 1) s ∧ s.left = 32 ∧ ∃ t ∈ trace (fun t s => SpinPool.turn s t) s
      (List.replicate 33 [Turn.thread (.worker 0), .spurious 0, .thread .main]).flatten,
        t.main = .idle ∨ t.main = .dropped := by
  have hrun : ∃ s₀ s : SpinPool 1, SpinPool.new 1 = some s₀ ∧
    (twoChunks.take 1).foldlM SpinPool.step s₀ = some s ∧
      s.left = 32 := ⟨_, _, rfl, rfl, by decide⟩
  obtain ⟨s₀, s, h0, hs, hleft⟩ := hrun
  refine ⟨s₀, s, h0, Run.of_foldlM hs, hleft, call_returns h0 (Run.of_foldlM hs) (by decide)
    _ ?_ (by simp [hleft])⟩
  intro r hr a
  rw [List.eq_of_mem_replicate hr]
  cases a with
  | main => simp
  | worker i => simp [Subsingleton.elim i 0]

end ArgusEngine.Threads
