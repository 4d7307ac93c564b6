import ArgusEngine.Lib.Rounds
import ArgusEngine.Lib.Runs
import ArgusEngine.Threads.ThreadPool
import Mathlib.Algebra.Order.BigOperators.Group.Finset
import Mathlib.Data.Multiset.Basic

/-!
# Every chunk runs once, within its dispatch

The threads of the pool step in any order, under any sequence of calls.

* `WorkerMove`: what one access of a worker can do;
* `Quiet`, `Opened`, `Closing`: the workers between dispatches, within one, and after the pool is
  dropped;
* `PoolInv`, `PoolInv.step`: the invariant of every run;
* **`log_at_rest`**: once the calls have returned, the work functions have run for exactly the
  chunks of their jobs, one job after the other;
* **`running_within`**: a work function runs only within the dispatch of its job.
-/

namespace ArgusEngine.Threads

open Rounds Runs

/-! ## Generations -/

theorem activeOf_eq (g : UInt64) : activeOf g = g.toNat % 2 ^ 16 := by
  have hmask : ACTIVE_MASK.toNat = 2 ^ 16 - 1 := by decide
  rw [activeOf, UInt64.toNat_and, hmask, Nat.and_two_pow_sub_one_eq_mod]

theorem toNat_nextGeneration (sh : SharedState) (h : sh.activeWorkers < 2 ^ 16) :
    (nextGeneration sh).toNat =
      (sh.generation.toNat / 2 ^ 16 + 1) * 2 ^ 16 % 2 ^ 64 + sh.activeWorkers := by
  have hbits : ACTIVE_BITS.toNat % 64 = 16 := by decide
  have hg := sh.generation.toNat_lt
  have hseq : ((sh.generation >>> ACTIVE_BITS) + 1).toNat = sh.generation.toNat / 2 ^ 16 + 1 := by
    rw [UInt64.toNat_add, UInt64.toNat_shiftRight, hbits, Nat.shiftRight_eq_div_pow]
    have h1 : (1 : UInt64).toNat = 1 := by decide
    rw [h1, Nat.mod_eq_of_lt]
    omega
  have hact : (UInt64.ofNat sh.activeWorkers).toNat = sh.activeWorkers := by
    rw [UInt64.toNat_ofNat', Nat.mod_eq_of_lt (by omega)]
  rw [nextGeneration, UInt64.toNat_or, UInt64.toNat_shiftLeft, hseq, hbits, hact, Nat.shiftLeft_eq]
  have hmul : (sh.generation.toNat / 2 ^ 16 + 1) * 2 ^ 16 % 2 ^ 64 =
      2 ^ 16 * ((sh.generation.toNat / 2 ^ 16 + 1) % 2 ^ 48) := by omega
  rw [hmul, Nat.two_pow_add_eq_or_of_lt h]

theorem activeOf_nextGeneration (sh : SharedState) (h : sh.activeWorkers < 2 ^ 16) :
    activeOf (nextGeneration sh) = sh.activeWorkers := by
  rw [activeOf_eq, toNat_nextGeneration sh h]
  omega

/-! ## What an access of a worker can do -/

def Worker.busy (w : Worker) : Bool :=
  match w.pc with
  | .steal _ => true
  | .bumpDone => true
  | _ => false

/-- The call that a thread inside `steal_work` is running. -/
def Steal.running : Steal → Multiset Call
  | .run f c _ k => {⟨f, c, k⟩}
  | _ => 0

def Worker.running (w : Worker) : Multiset Call :=
  match w.pc with
  | .steal st => st.running
  | _ => 0

theorem Worker.running_of_not_busy {w : Worker} (h : w.busy = false) : w.running = 0 := by
  unfold Worker.busy at h
  unfold Worker.running
  cases hpc : w.pc <;> simp_all

/-- One access of worker `idx`, from `sh` and `w`. -/
inductive WorkerMove (idx : ℕ) (sh : SharedState) (w : Worker) :
    SharedState → Worker → List Call → Prop
  | waits (w' : Worker) (hw : w.busy = false) (hw' : w'.busy = false)
      (hgen : w'.lastGen = w.lastGen ∨ w'.lastGen = sh.generation ∧ activeOf sh.generation ≤ idx) :
      WorkerMove idx sh w sh w' []
  | enters (hw : w.busy = false) (hgen : sh.generation ≠ w.lastGen)
    (hidx : idx < activeOf sh.generation) :
      WorkerMove idx sh w sh { w with lastGen := sh.generation, pc := .steal .loadFn } []
  | steals (st st' : Steal) (sh' : SharedState) (calls : List Call) (hpc : w.pc = .steal st)
      (h : stealStep sh st = (some st', sh', calls)) :
      WorkerMove idx sh w sh' { w with pc := .steal st' } calls
  | leaves (st : Steal) (sh' : SharedState) (calls : List Call) (hpc : w.pc = .steal st)
      (h : stealStep sh st = (none, sh', calls)) :
      WorkerMove idx sh w sh' { w with pc := .bumpDone } calls
  | counts (hpc : w.pc = .bumpDone) :
      WorkerMove idx sh w { sh with doneCount := sh.doneCount + 1 }
        { w with spins := 0, pc := .poll } []

theorem workerStep_move (idx : ℕ) (sh : SharedState) (w : Worker) :
    WorkerMove idx sh w (workerStep idx sh w).1 (workerStep idx sh w).2.1
      (workerStep idx sh w).2.2 := by
  cases hpc : w.pc with
  | poll =>
    simp only [workerStep, hpc]
    cases sh.shutdown <;> exact .waits _ (by simp [Worker.busy, hpc])
      (by simp [Worker.busy]) (Or.inl rfl)
  | readGen =>
    simp only [workerStep, hpc]
    split_ifs with hgen hidx
    · exact .enters (by simp [Worker.busy, hpc]) hgen hidx
    · exact .waits _ (by simp [Worker.busy, hpc]) (by simp [Worker.busy]) (Or.inr ⟨rfl, by omega⟩)
    · exact .waits _ (by simp [Worker.busy, hpc]) (by simp [Worker.busy]) (Or.inl rfl)
  | checkActive =>
    simp only [workerStep, hpc]
    split_ifs <;> exact .waits _ (by simp [Worker.busy, hpc]) (by simp [Worker.busy]) (Or.inl rfl)
  | checkBatch =>
    simp only [workerStep, hpc]
    split_ifs <;> exact .waits _ (by simp [Worker.busy, hpc]) (by simp [Worker.busy]) (Or.inl rfl)
  | park =>
    simp only [workerStep, hpc]
    split_ifs
    · exact .waits _ (by simp [Worker.busy, hpc]) (by simp [Worker.busy]) (Or.inl rfl)
    · exact .waits _ (by simp [Worker.busy, hpc]) (by simp [Worker.busy, hpc]) (Or.inl rfl)
  | steal st =>
    rcases h : stealStep sh st with ⟨o, sh', calls⟩
    cases o with
    | some st' =>
      simp only [workerStep, hpc, h]
      exact .steals st st' sh' calls hpc h
    | none =>
      simp only [workerStep, hpc, h]
      exact .leaves st sh' calls hpc h
  | bumpDone =>
    simp only [workerStep, hpc]
    exact .counts hpc
  | stopped =>
    simp only [workerStep, hpc]
    exact .waits _ (by simp [Worker.busy, hpc]) (by simp [Worker.busy, hpc]) (Or.inl rfl)

/-! ## Taking chunks -/

/-- What a thread has loaded is of job `j`. -/
def Steal.Loaded (j : Job) : Steal → Prop
  | .loadFn => True
  | .loadCtx f => f = j.workFn
  | .loadTotal f c => f = j.workFn ∧ c = j.workCtx
  | .grab f c total => f = j.workFn ∧ c = j.workCtx ∧ total = j.chunks
  | .run f c total _ => f = j.workFn ∧ c = j.workCtx ∧ total = j.chunks

/-- The shared record holds job `j`. -/
def SharedState.Holds (sh : SharedState) (j : Job) : Prop :=
  sh.workFn = j.workFn ∧ sh.workCtx = j.workCtx ∧ sh.totalChunks = j.chunks

/-- The calls of the chunks that have been taken, the next one being `k`. -/
def claimed (j : Job) (k : ℕ) : Multiset Call :=
  ((List.range (min k j.chunks)).map j.call : List Call)

theorem claimed_succ (j : Job) {k : ℕ} (h : k < j.chunks) :
    claimed j (k + 1) = claimed j k + {j.call k} := by
  have h1 : min (k + 1) j.chunks = k + 1 := by omega
  have h2 : min k j.chunks = k := by omega
  rw [claimed, claimed, h1, h2, List.range_succ, List.map_append]
  rfl

theorem claimed_of_le (j : Job) {k : ℕ} (h : j.chunks ≤ k) :
    claimed j k = (j.calls : Multiset Call) := by
  rw [claimed, Nat.min_eq_right h, Job.calls]

/-- **One access of `steal_work`**: what it claims it runs or has run. -/
theorem stealStep_claims {sh sh' : SharedState} {j : Job} {st : Steal} {o : Option Steal}
    {calls : List Call} (hj : sh.Holds j) (hst : st.Loaded j)
    (h : stealStep sh st = (o, sh', calls)) : sh' = { sh with nextChunk := sh'.nextChunk } ∧
    sh.nextChunk ≤ sh'.nextChunk ∧
      (∀ st', o = some st' → st'.Loaded j) ∧ (o = none → j.chunks ≤ sh'.nextChunk) ∧
      (calls : Multiset Call) + o.elim 0 Steal.running + claimed j sh.nextChunk =
        st.running + claimed j sh'.nextChunk := by
  obtain ⟨hfn, hctx, htot⟩ := hj
  cases st with
  | loadFn =>
    simp only [stealStep, Prod.mk.injEq] at h
    obtain ⟨rfl, rfl, rfl⟩ := h
    exact ⟨rfl, le_rfl, by simp [Steal.Loaded, hfn], by simp, by simp [Steal.running]⟩
  | loadCtx f =>
    simp only [stealStep, Prod.mk.injEq] at h
    obtain ⟨rfl, rfl, rfl⟩ := h
    exact ⟨rfl, le_rfl,
      by simp [Steal.Loaded, hctx, show f = j.workFn from hst], by simp, by simp [Steal.running]⟩
  | loadTotal f c =>
    simp only [stealStep, Prod.mk.injEq] at h
    obtain ⟨rfl, rfl, rfl⟩ := h
    obtain ⟨rfl, rfl⟩ := hst
    exact ⟨rfl, le_rfl, by simp [Steal.Loaded, htot], by simp, by simp [Steal.running]⟩
  | grab f c total =>
    obtain ⟨rfl, rfl, rfl⟩ := hst
    simp only [stealStep] at h
    split_ifs at h with hk
    · simp only [Prod.mk.injEq] at h
      obtain ⟨rfl, rfl, rfl⟩ := h
      have hc : claimed j (sh.nextChunk + 1) = claimed j sh.nextChunk := by
        rw [claimed_of_le j hk, claimed_of_le j (by omega)]
      simp [Steal.running, hc]
      omega
    · simp only [Prod.mk.injEq] at h
      obtain ⟨rfl, rfl, rfl⟩ := h
      rw [claimed_succ j (by omega)]
      simp [Steal.Loaded, Steal.running, Job.call, add_comm]
  | run f c total k =>
    obtain ⟨rfl, rfl, rfl⟩ := hst
    simp only [stealStep, Prod.mk.injEq] at h
    obtain ⟨rfl, rfl, rfl⟩ := h
    simp [Steal.Loaded, Steal.running]

/-! ## The workers between, within and after dispatches -/

variable {n : ℕ}

/-- No worker is in a dispatch, and those the last generation was for have seen it. -/
structure Quiet (s : SpinPool n) : Prop where
  resting : ∀ i, (s.workers i).busy = false
  seen : ∀ i : Fin n, (i : ℕ) < activeOf s.shared.generation →
    (s.workers i).lastGen = s.shared.generation

/-- 1 for a worker that has taken part in the dispatch of generation `g` and left it. -/
def finished (g : UInt64) (active : ℕ) (i : Fin n) (w : Worker) : ℕ :=
  if (i : ℕ) < active ∧ w.lastGen = g ∧ w.busy = false then 1 else 0

/-- Job `j` is published for `active` workers: `cur` are its calls that have returned, `mainRun` the
one that the dispatching thread is running. -/
structure Opened (s : SpinPool n) (mainRun : Multiset Call) (j : Job) (active : ℕ)
    (cur : List Call) : Prop where
  stamped : activeOf s.shared.generation = active
  holds : s.shared.Holds j
  busy : ∀ i : Fin n, (s.workers i).busy = true → (i : ℕ) < active ∧
    (s.workers i).lastGen = s.shared.generation
  count : s.shared.doneCount ≤ ∑ i, finished s.shared.generation active i (s.workers i)
  loaded : ∀ i st, (s.workers i).pc = .steal st → st.Loaded j
  claims : (cur : Multiset Call) + mainRun + ∑ i, (s.workers i).running =
    claimed j s.shared.nextChunk

/-- A thread that will take no chunk, all `total` being taken. -/
def Steal.Late (total : ℕ) : Steal → Prop
  | .grab _ _ t => t = total
  | .run _ _ _ _ => False
  | _ => True

/-- The pool is being dropped: a worker may still look for work, and finds none. -/
structure Closing (s : SpinPool n) : Prop where
  spent : s.shared.totalChunks ≤ s.shared.nextChunk
  late : ∀ i st, (s.workers i).pc = .steal st → st.Late s.shared.totalChunks

/-- Worker `i` has moved, and with it the shared record and the log. -/
def Moved (s s' : SpinPool n) (i : Fin n) : Prop :=
  s'.main = s.main ∧ ∃ w' calls, s'.workers = Function.update s.workers i w' ∧
    s'.log = s.log ++ calls ∧ WorkerMove i s.shared (s.workers i) s'.shared w' calls

theorem moved_workStep (s : SpinPool n) (i : Fin n) : Moved s (s.workStep i) i :=
  ⟨rfl, _, _, rfl, rfl, workerStep_move i s.shared (s.workers i)⟩

theorem wake_moved (s : SpinPool n) (i : Fin n) : s.wake i = s ∨ Moved s (s.wake i) i := by
  unfold SpinPool.wake
  split_ifs with h
  · refine Or.inr ⟨rfl, _, [], rfl, (List.append_nil _).symm, ?_⟩
    exact .waits _ (by simp [Worker.busy, h]) (by simp [Worker.busy]) (Or.inl rfl)
  · exact Or.inl rfl

theorem Quiet.moved {s s' : SpinPool n} {i : Fin n} (hq : Quiet s) (h : Moved s s' i) :
    Quiet s' ∧ s'.shared = s.shared ∧ s'.log = s.log := by
  obtain ⟨-, w', calls, hw, hlog, hmove⟩ := h
  have hrest := hq.resting i
  generalize hsh : s'.shared = sh' at hmove
  cases hmove with
  | waits _ hb hb' hgen =>
    refine ⟨⟨fun x => ?_, fun x hx => ?_⟩, rfl, by rw [hlog, List.append_nil]⟩
    · rw [hw]
      by_cases hxi : x = i
      · rw [hxi, Function.update_self]; exact hb'
      · rw [Function.update_of_ne hxi]; exact hq.resting x
    · rw [hsh] at hx ⊢
      rw [hw]
      by_cases hxi : x = i
      · subst hxi
        rw [Function.update_self]
        rcases hgen with hgen | ⟨hgen, -⟩
        · rw [hgen]; exact hq.seen x hx
        · exact hgen
      · rw [Function.update_of_ne hxi]; exact hq.seen x hx
  | enters hb hgen hidx => exact absurd (hq.seen i hidx).symm hgen
  | steals _ _ _ _ hpc _ => simp [Worker.busy, hpc] at hrest
  | leaves _ _ _ hpc _ => simp [Worker.busy, hpc] at hrest
  | counts hpc => simp [Worker.busy, hpc] at hrest

/-- `done_count` goes with the workers that have finished. -/
def Balanced (s s' : SpinPool n) (active : ℕ) : Prop :=
  s'.shared.doneCount + ∑ x, finished s.shared.generation active x (s.workers x) =
    s.shared.doneCount + ∑ x, finished s'.shared.generation active x (s'.workers x)

/-- A worker's move within a dispatch, by what it does to the counters and the claimed calls. -/
theorem Opened.update {s s' : SpinPool n} {r : Multiset Call} {j : Job} {active : ℕ}
    {cur calls : List Call} {i : Fin n} {w' : Worker} (h : Opened s r j active cur)
    (hw : s'.workers = Function.update s.workers i w')
    (hgen : s'.shared.generation = s.shared.generation) (hholds : s'.shared.Holds j)
    (hbusy : w'.busy = true → (i : ℕ) < active ∧ w'.lastGen = s.shared.generation)
    (hcount : s'.shared.doneCount + finished s.shared.generation active i (s.workers i) =
      s.shared.doneCount + finished s.shared.generation active i w')
    (hloaded : ∀ st, w'.pc = .steal st → st.Loaded j)
    (hclaims : (calls : Multiset Call) + w'.running + claimed j s.shared.nextChunk =
      (s.workers i).running + claimed j s'.shared.nextChunk) :
    Opened s' r j active (cur ++ calls) ∧ Balanced s s' active := by
  have hbalance : Balanced s s' active := by
    have hsum := sum_update_add (finished s.shared.generation active) s.workers i w'
    rw [Balanced, hw, hgen]
    omega
  refine ⟨⟨by rw [hgen]; exact h.stamped, hholds, fun x hx => ?_, ?_, fun x st hx => ?_, ?_⟩,
    hbalance⟩
  · rw [hw] at hx ⊢
    rw [hgen]
    by_cases hxi : x = i
    · subst hxi
      rw [Function.update_self] at hx ⊢
      exact hbusy hx
    · rw [Function.update_of_ne hxi] at hx ⊢
      exact h.busy x hx
  · have hc := h.count
    unfold Balanced at hbalance
    omega
  · rw [hw] at hx
    by_cases hxi : x = i
    · rw [hxi, Function.update_self] at hx
      exact hloaded st hx
    · rw [Function.update_of_ne hxi] at hx
      exact h.loaded x st hx
  · have hsum := sum_update_add (fun (_ : Fin n) => Worker.running) s.workers i w'
    rw [hw]
    apply add_right_cancel (b := (s.workers i).running)
    calc ((cur ++ calls : List Call) : Multiset Call) + r + ∑ x,
      (Function.update s.workers i w' x).running +
          (s.workers i).running
        = (cur : Multiset Call) + calls + r +
          (∑ x, (Function.update s.workers i w' x).running + (s.workers i).running) := by
          rw [← Multiset.coe_add]; ac_rfl
      _ = ((cur : Multiset Call) + r + ∑ x, (s.workers x).running) +
        (calls + w'.running) := by rw [hsum]; ac_rfl
      _ = (s.workers i).running + claimed j s'.shared.nextChunk := by
        rw [h.claims, ← hclaims]; ac_rfl
      _ = claimed j s'.shared.nextChunk + (s.workers i).running := add_comm _ _

theorem finished_of_busy {g : UInt64} {active : ℕ} {i : Fin n} {w : Worker} (h : w.busy = true) :
    finished g active i w = 0 := by
  simp [finished, h]

theorem Opened.moved {s s' : SpinPool n} {r : Multiset Call} {j : Job} {active : ℕ}
    {cur : List Call} {i : Fin n} (ho : Opened s r j active cur) (h : Moved s s' i) :
    ∃ calls, s'.log = s.log ++ calls ∧
      (Opened s' r j active (cur ++ calls) ∧ Balanced s s' active) ∧
      s.shared.nextChunk ≤ s'.shared.nextChunk ∧
      s'.shared.activeWorkers = s.shared.activeWorkers := by
  obtain ⟨-, w', calls, hw, hlog, hmove⟩ := h
  refine ⟨calls, hlog, ?_⟩
  generalize hsh : s'.shared = sh' at hmove
  cases hmove with
  | waits _ hb hb' hgen =>
    refine ⟨ho.update hw (by rw [hsh]) (by rw [hsh]; exact ho.holds) (by simp [hb']) ?_ ?_ ?_,
      le_rfl, rfl⟩
    · rw [hsh]
      rcases hgen with hgen | ⟨hgen, hidx⟩
      · simp [finished, hgen, hb, hb']
      · rw [ho.stamped] at hidx
        simp [finished, show ¬ (i : ℕ) < active by omega]
    · intro st hst
      simp [Worker.busy, hst] at hb'
    · rw [hsh, Worker.running_of_not_busy hb, Worker.running_of_not_busy hb']
      simp
  | enters hb hgen hidx =>
    rw [ho.stamped] at hidx
    refine ⟨ho.update hw (by rw [hsh]) (by rw [hsh]; exact ho.holds)
      (fun _ => ⟨hidx, rfl⟩) ?_ ?_ ?_, le_rfl, rfl⟩
    · rw [hsh]
      simp [finished, Ne.symm hgen, Worker.busy]
    · rintro st ⟨⟩
      trivial
    · rw [hsh, Worker.running_of_not_busy hb]
      simp [Worker.running, Steal.running]
  | steals st st' _ _ hpc hstep =>
    obtain ⟨hsame, hnext, hst', -, hcl⟩ := stealStep_claims ho.holds (ho.loaded i st hpc) hstep
    have hbi : (s.workers i).busy = true := by simp [Worker.busy, hpc]
    rw [← hsh] at hsame hnext hcl
    refine ⟨ho.update hw (by rw [hsame]) (by rw [hsame]; exact ho.holds)
      (fun _ => ho.busy i hbi) ?_ ?_ ?_, hsh ▸ hnext, by rw [← hsh, hsame]⟩
    · rw [finished_of_busy hbi, hsame]
      simp [finished, Worker.busy]
    · rintro _ ⟨⟩
      exact hst' st' rfl
    · simpa [Worker.running, hpc] using hcl
  | leaves st _ _ hpc hstep =>
    obtain ⟨hsame, hnext, -, -, hcl⟩ := stealStep_claims ho.holds (ho.loaded i st hpc) hstep
    have hbi : (s.workers i).busy = true := by simp [Worker.busy, hpc]
    rw [← hsh] at hsame hnext hcl
    refine ⟨ho.update hw (by rw [hsame]) (by rw [hsame]; exact ho.holds)
      (fun _ => ho.busy i hbi) ?_ (by simp) ?_,
      hsh ▸ hnext, by rw [← hsh, hsame]⟩
    · rw [finished_of_busy hbi, hsame]
      simp [finished, Worker.busy]
    · simpa [Worker.running, hpc] using hcl
  | counts hpc =>
    have hbi : (s.workers i).busy = true := by simp [Worker.busy, hpc]
    refine ⟨ho.update hw (by rw [hsh]) (by rw [hsh]; exact ho.holds)
      (by simp [Worker.busy]) ?_ (by simp) ?_,
      le_rfl, rfl⟩
    · obtain ⟨hidx, hgen⟩ := ho.busy i hbi
      rw [hsh, finished_of_busy hbi]
      simp [finished, hidx, hgen, Worker.busy]
    · rw [hsh]
      simp [Worker.running, hpc]

theorem stealStep_late {sh sh' : SharedState} {st : Steal} {o : Option Steal} {calls : List Call}
    (hspent : sh.totalChunks ≤ sh.nextChunk) (hst : st.Late sh.totalChunks)
    (h : stealStep sh st = (o, sh', calls)) :
    calls = [] ∧ sh' = { sh with nextChunk := sh'.nextChunk } ∧ sh.nextChunk ≤ sh'.nextChunk ∧
      ∀ st', o = some st' → st'.Late sh.totalChunks := by
  cases st with
  | loadFn =>
    simp only [stealStep, Prod.mk.injEq] at h
    obtain ⟨rfl, rfl, rfl⟩ := h
    simp [Steal.Late]
  | loadCtx f =>
    simp only [stealStep, Prod.mk.injEq] at h
    obtain ⟨rfl, rfl, rfl⟩ := h
    simp [Steal.Late]
  | loadTotal f c =>
    simp only [stealStep, Prod.mk.injEq] at h
    obtain ⟨rfl, rfl, rfl⟩ := h
    simp [Steal.Late]
  | grab f c total =>
    have ht : total = sh.totalChunks := hst
    simp only [stealStep, ht, if_pos hspent, Prod.mk.injEq] at h
    obtain ⟨rfl, rfl, rfl⟩ := h
    simp
  | run f c total k => exact absurd hst (by simp [Steal.Late])

theorem Closing.moved {s s' : SpinPool n} {i : Fin n} (hc : Closing s) (h : Moved s s' i) :
    Closing s' ∧ s'.log = s.log ∧ s'.shared.activeWorkers = s.shared.activeWorkers := by
  obtain ⟨-, w', calls, hw, hlog, hmove⟩ := h
  have hother : ∀ {k}, (∀ st, w'.pc = .steal st → st.Late k) → k = s.shared.totalChunks →
      ∀ x st, (s'.workers x).pc = .steal st → st.Late k := by
    intro k hi hk x st hx
    rw [hw] at hx
    by_cases hxi : x = i
    · rw [hxi, Function.update_self] at hx
      exact hi st hx
    · rw [Function.update_of_ne hxi] at hx
      exact hk ▸ hc.late x st hx
  generalize hsh : s'.shared = sh' at hmove
  cases hmove with
  | waits _ hb hb' hgen =>
    refine ⟨⟨hsh ▸ hc.spent, hother (fun st hst => ?_) (by rw [hsh])⟩,
      by rw [hlog, List.append_nil], rfl⟩
    simp [Worker.busy, hst] at hb'
  | enters hb hgen hidx =>
    refine ⟨⟨hsh ▸ hc.spent, hother (fun st hst => ?_) (by rw [hsh])⟩,
      by rw [hlog, List.append_nil], rfl⟩
    cases hst
    trivial
  | steals st st' _ _ hpc hstep =>
    obtain ⟨rfl, hsame, hnext, hst'⟩ := stealStep_late hc.spent (hc.late i st hpc) hstep
    have htot : sh'.totalChunks = s.shared.totalChunks := by rw [hsame]
    refine ⟨⟨?_, hother (fun st₂ hst => ?_) (by rw [hsh, htot])⟩,
      by rw [hlog, List.append_nil], by rw [hsame]⟩
    · rw [hsh, htot]; exact hc.spent.trans hnext
    · cases hst
      rw [hsh, htot]
      exact hst' st' rfl
  | leaves st _ _ hpc hstep =>
    obtain ⟨rfl, hsame, hnext, -⟩ := stealStep_late hc.spent (hc.late i st hpc) hstep
    have htot : sh'.totalChunks = s.shared.totalChunks := by rw [hsame]
    refine ⟨⟨?_, hother (fun st₂ hst => by simp at hst) (by rw [hsh, htot])⟩,
      by rw [hlog, List.append_nil],
      by rw [hsame]⟩
    rw [hsh, htot]
    exact hc.spent.trans hnext
  | counts hpc =>
    refine ⟨⟨hsh ▸ hc.spent, hother (fun st hst => by simp at hst) (by rw [hsh])⟩,
      by rw [hlog, List.append_nil], rfl⟩

/-! ## The invariant of the pool -/

/-- The log is the calls of the jobs, one job after the other, those of a job in any order. -/
def Covers (log : List Call) (jobs : List Job) : Prop :=
  ∃ segs : List (List Call), log = segs.flatten ∧
    List.Forall₂ (fun seg j => seg.Perm j.calls) segs jobs

theorem covers_nil : Covers [] [] := ⟨[], rfl, .nil⟩

theorem Covers.append {log seg : List Call} {jobs : List Job} {j : Job} (h : Covers log jobs)
    (hseg : seg.Perm j.calls) : Covers (log ++ seg) (jobs ++ [j]) := by
  obtain ⟨segs, rfl, hsegs⟩ := h
  exact ⟨segs ++ [seg], by simp, List.rel_append hsegs (.cons hseg .nil)⟩

/-- The stores of the setup that have been made. -/
def Stored (sh : SharedState) (j : Job) : Store → Prop
  | .workFn => True
  | .workCtx => sh.workFn = j.workFn
  | .totalChunks => sh.workFn = j.workFn ∧ sh.workCtx = j.workCtx
  | .nextChunk => sh.Holds j
  | .doneCount => sh.Holds j ∧ sh.nextChunk = 0

/-- The count that a batch uses is the pool's. -/
def CountOf (s : SpinPool n) (active : Option ℕ) : Prop := ∀ k ∈ active, k = s.shared.activeWorkers

/-- The dispatching thread is before the publication of `j`, the jobs before it being done. -/
def Before (s : SpinPool n) (j : Job) (rest : List Job) (active : Option ℕ)
    (jobs : List Job) : Prop :=
  Quiet s ∧ CountOf s active ∧ ∃ done, jobs = done ++ j :: rest ∧ Covers s.log done

/-- The dispatching thread is within the dispatch of `j`. -/
def Within (s : SpinPool n) (mainRun : Multiset Call) (j : Job) (rest : List Job) (active : ℕ)
    (jobs : List Job) :
    Prop :=
  active = s.shared.activeWorkers ∧ ∃ done base cur, jobs = done ++ j :: rest ∧ Covers base done ∧
    s.log = base ++ cur ∧ Opened s mainRun j active cur

/-- All work is done. -/
def AtRest (s : SpinPool n) (jobs : List Job) : Prop :=
  Quiet s ∧ s.shared.totalChunks ≤ s.shared.nextChunk ∧ Covers s.log jobs

/-- What holds where the dispatching thread is, `jobs` being those issued so far. -/
def PhaseInv (s : SpinPool n) (jobs : List Job) : Prop :=
  match s.main with
  | .idle => AtRest s jobs
  | .setup store j rest active => Before s j rest active jobs ∧ Stored s.shared j store
  | .publish j rest active =>
    Before s j rest active jobs ∧ s.shared.Holds j ∧ s.shared.nextChunk = 0 ∧ s.shared.doneCount = 0
  | .unpark _ j rest active => Within s 0 j rest active jobs
  | .steal st j rest active => Within s st.running j rest active jobs ∧ st.Loaded j
  | .wait j rest active => Within s 0 j rest active jobs ∧ j.chunks ≤ s.shared.nextChunk
  | .dropShutdown => AtRest s jobs
  | .dropBump => AtRest s jobs
  | .dropUnpark _ => Closing s ∧ Covers s.log jobs
  | .join _ => Closing s ∧ Covers s.log jobs
  | .dropped => Closing s ∧ Covers s.log jobs

/-- **The invariant of the pool.** -/
structure PoolInv (s : SpinPool n) (jobs : List Job) : Prop where
  fits : n < 2 ^ 16
  active_le : s.shared.activeWorkers ≤ n
  phase : PhaseInv s jobs

theorem Before.moved {s s' : SpinPool n} {i : Fin n} {j : Job} {rest jobs : List Job}
    {active : Option ℕ} (hb : Before s j rest active jobs) (h : Moved s s' i) :
    Before s' j rest active jobs ∧ s'.shared = s.shared := by
  obtain ⟨hq, hcount, done, hjobs, hcov⟩ := hb
  obtain ⟨hq', hsh, hlog⟩ := hq.moved h
  exact ⟨⟨hq', by rw [CountOf, hsh]; exact hcount, done, hjobs, hlog ▸ hcov⟩, hsh⟩

theorem Within.moved {s s' : SpinPool n} {i : Fin n} {r : Multiset Call} {j : Job}
    {rest jobs : List Job} {active : ℕ} (hw : Within s r j rest active jobs) (h : Moved s s' i) :
    Within s' r j rest active jobs ∧ s.shared.nextChunk ≤ s'.shared.nextChunk ∧
      s'.shared.activeWorkers = s.shared.activeWorkers := by
  obtain ⟨hcount, done, base, cur, hjobs, hcov, hlog, ho⟩ := hw
  obtain ⟨calls, hlog', ⟨ho', -⟩, hnext, hact⟩ := ho.moved h
  exact ⟨⟨hact ▸ hcount, done, base, cur ++ calls, hjobs, hcov,
    by rw [hlog', hlog, List.append_assoc], ho'⟩, hnext, hact⟩

theorem AtRest.moved {s s' : SpinPool n} {i : Fin n} {jobs : List Job} (hr : AtRest s jobs)
    (h : Moved s s' i) : AtRest s' jobs ∧ s'.shared = s.shared := by
  obtain ⟨hq, hspent, hcov⟩ := hr
  obtain ⟨hq', hsh, hlog⟩ := hq.moved h
  exact ⟨⟨hq', by rw [hsh]; exact hspent, hlog ▸ hcov⟩, hsh⟩

theorem PoolInv.moved {s s' : SpinPool n} {i : Fin n} {jobs : List Job} (hinv : PoolInv s jobs)
    (h : Moved s s' i) : PoolInv s' jobs := by
  obtain ⟨hfits, hle, hphase⟩ := hinv
  have hmain : s'.main = s.main := h.1
  cases hpc : s.main with
  | idle =>
    simp only [PhaseInv, hpc] at hphase
    obtain ⟨hr, hsh⟩ := hphase.moved h
    exact ⟨hfits, by rw [hsh]; exact hle, by simpa only [PhaseInv, hmain, hpc] using hr⟩
  | setup store j rest active =>
    simp only [PhaseInv, hpc] at hphase
    obtain ⟨hb, hsh⟩ := hphase.1.moved h
    refine ⟨hfits, by rw [hsh]; exact hle, ?_⟩
    simp only [PhaseInv, hmain, hpc]
    exact ⟨hb, by rw [hsh]; exact hphase.2⟩
  | publish j rest active =>
    simp only [PhaseInv, hpc] at hphase
    obtain ⟨hb, hsh⟩ := hphase.1.moved h
    refine ⟨hfits, by rw [hsh]; exact hle, ?_⟩
    simp only [PhaseInv, hmain, hpc]
    exact ⟨hb, by rw [hsh]; exact hphase.2⟩
  | unpark k j rest active =>
    simp only [PhaseInv, hpc] at hphase
    obtain ⟨hw, -, hact⟩ := hphase.moved h
    exact ⟨hfits, by rw [hact]; exact hle, by simpa only [PhaseInv, hmain, hpc] using hw⟩
  | steal st j rest active =>
    simp only [PhaseInv, hpc] at hphase
    obtain ⟨hw, -, hact⟩ := hphase.1.moved h
    refine ⟨hfits, by rw [hact]; exact hle, ?_⟩
    simp only [PhaseInv, hmain, hpc]
    exact ⟨hw, hphase.2⟩
  | wait j rest active =>
    simp only [PhaseInv, hpc] at hphase
    obtain ⟨hw, hnext, hact⟩ := hphase.1.moved h
    refine ⟨hfits, by rw [hact]; exact hle, ?_⟩
    simp only [PhaseInv, hmain, hpc]
    exact ⟨hw, hphase.2.trans hnext⟩
  | dropShutdown =>
    simp only [PhaseInv, hpc] at hphase
    obtain ⟨hr, hsh⟩ := hphase.moved h
    exact ⟨hfits, by rw [hsh]; exact hle, by simpa only [PhaseInv, hmain, hpc] using hr⟩
  | dropBump =>
    simp only [PhaseInv, hpc] at hphase
    obtain ⟨hr, hsh⟩ := hphase.moved h
    exact ⟨hfits, by rw [hsh]; exact hle, by simpa only [PhaseInv, hmain, hpc] using hr⟩
  | dropUnpark k =>
    simp only [PhaseInv, hpc] at hphase
    obtain ⟨hc, hlog, hact⟩ := hphase.1.moved h
    refine ⟨hfits, by rw [hact]; exact hle, ?_⟩
    simp only [PhaseInv, hmain, hpc]
    exact ⟨hc, hlog ▸ hphase.2⟩
  | join k =>
    simp only [PhaseInv, hpc] at hphase
    obtain ⟨hc, hlog, hact⟩ := hphase.1.moved h
    refine ⟨hfits, by rw [hact]; exact hle, ?_⟩
    simp only [PhaseInv, hmain, hpc]
    exact ⟨hc, hlog ▸ hphase.2⟩
  | dropped =>
    simp only [PhaseInv, hpc] at hphase
    obtain ⟨hc, hlog, hact⟩ := hphase.1.moved h
    refine ⟨hfits, by rw [hact]; exact hle, ?_⟩
    simp only [PhaseInv, hmain, hpc]
    exact ⟨hc, hlog ▸ hphase.2⟩

/-! ## The steps of the dispatching thread -/

theorem Quiet.congr {s s' : SpinPool n} (h : Quiet s) (hw : s'.workers = s.workers)
    (hg : s'.shared.generation = s.shared.generation) : Quiet s' :=
  ⟨fun i => by rw [hw]; exact h.resting i, fun i hi => by
    rw [hg] at hi ⊢; rw [hw]; exact h.seen i hi⟩

theorem unpark_pc (s : SpinPool n) (i x : Fin n) :
    ((s.unpark i).workers x).pc = (s.workers x).pc := by
  by_cases h : x = i
  · rw [h]; simp [SpinPool.unpark]
  · simp [SpinPool.unpark, Function.update_of_ne h]

theorem unpark_lastGen (s : SpinPool n) (i x : Fin n) :
    ((s.unpark i).workers x).lastGen = (s.workers x).lastGen := by
  by_cases h : x = i
  · rw [h]; simp [SpinPool.unpark]
  · simp [SpinPool.unpark, Function.update_of_ne h]

theorem Opened.congr {s s' : SpinPool n} {r : Multiset Call} {j : Job}
    {active : ℕ} {cur : List Call} (h : Opened s r j active cur) (hsh : s'.shared = s.shared)
    (hpc : ∀ x, (s'.workers x).pc = (s.workers x).pc)
    (hgen : ∀ x, (s'.workers x).lastGen = (s.workers x).lastGen) : Opened s' r j active cur := by
  have hbusy : ∀ x, (s'.workers x).busy = (s.workers x).busy := fun x =>
    by simp only [Worker.busy, hpc]
  refine ⟨hsh ▸ h.stamped, hsh ▸ h.holds, fun x hx => ?_, ?_, fun x st hx =>
    h.loaded x st (hpc x ▸ hx), ?_⟩
  · rw [hgen, hsh]
    exact h.busy x (hbusy x ▸ hx)
  · simp only [hsh, finished, hgen, hbusy]
    exact h.count
  · simp only [hsh, Worker.running, hpc]
    exact h.claims

theorem Opened.steal {s : SpinPool n} {j : Job} {active : ℕ} {cur calls : List Call}
    {st : Steal} {o : Option Steal} {sh : SharedState} (h : Opened s st.running j active cur)
    (hst : st.Loaded j) (hstep : stealStep s.shared st = (o, sh, calls)) (main : MainPc)
    (log : List Call) : Opened { s with shared := sh, main := main, log := log }
    (o.elim 0 Steal.running) j active (cur ++ calls) := by
  obtain ⟨hsame, -, -, -, hcl⟩ := stealStep_claims h.holds hst hstep
  refine ⟨by rw [hsame]; exact h.stamped, by rw [hsame]; exact h.holds, by rw [hsame]; exact h.busy,
    by rw [hsame]; exact h.count, h.loaded, ?_⟩
  apply add_right_cancel (b := st.running)
  calc ((cur ++ calls : List Call) : Multiset Call) + o.elim 0 Steal.running + ∑ x,
    (s.workers x).running + st.running
      = ((cur : Multiset Call) + st.running + ∑ x, (s.workers x).running) +
        (calls + o.elim 0 Steal.running) := by
        rw [← Multiset.coe_add]; ac_rfl
    _ = st.running + claimed j sh.nextChunk := by rw [h.claims, ← hcl]; ac_rfl
    _ = claimed j sh.nextChunk + st.running := add_comm _ _

theorem sum_active {active : ℕ} (h : active ≤ n) :
    (∑ i : Fin n, if (i : ℕ) < active then 1 else 0) = active := by
  rw [Fin.sum_univ_eq_sum_range (fun i => if i < active then 1 else 0), Finset.sum_boole]
  have hrange : (Finset.range n).filter (fun i => i < active) = Finset.range active := by
    ext i
    simp only [Finset.mem_filter, Finset.mem_range]
    omega
  rw [hrange, Finset.card_range]
  rfl

theorem finished_le (g : UInt64) (active : ℕ) (i : Fin n) (w : Worker) :
    finished g active i w ≤ if (i : ℕ) < active then 1 else 0 := by
  unfold finished
  split_ifs <;> omega

/-- **The end of a dispatch**: every active worker has left it, and the calls that returned are
those of the job. -/
theorem Opened.closes {s : SpinPool n} {j : Job} {active : ℕ} {cur : List Call}
    (h : Opened s 0 j active cur) (hle : active ≤ n) (hspent : j.chunks ≤ s.shared.nextChunk)
    (hdone : active ≤ s.shared.doneCount) : Quiet s ∧ cur.Perm j.calls := by
  -- the count of the finished workers is at least `active`, so each of these is finished
  have hsum : ∑ i, finished s.shared.generation active i (s.workers i) =
      ∑ i : Fin n, if (i : ℕ) < active then 1 else 0 := by
    apply le_antisymm (Finset.sum_le_sum fun i _ => finished_le _ _ i _)
    rw [sum_active hle]
    exact hdone.trans h.count
  have hall : ∀ i : Fin n, (i : ℕ) < active →
      (s.workers i).lastGen = s.shared.generation ∧ (s.workers i).busy = false := by
    intro i hi
    have hi1 := (Finset.sum_eq_sum_iff_of_le fun i _ => finished_le _ _ i _).mp hsum
      i (Finset.mem_univ i)
    rw [if_pos hi, finished] at hi1
    split_ifs at hi1 with hfin
    exact hfin.2
  have hrest : ∀ i, (s.workers i).busy = false := by
    intro i
    by_cases hi : (s.workers i).busy = true
    · exact (hall i (h.busy i hi).1).2
    · simpa using hi
  refine ⟨⟨hrest, fun i hi => (hall i (h.stamped ▸ hi)).1⟩, ?_⟩
  have hrun : ∑ i, (s.workers i).running = 0 :=
    Finset.sum_eq_zero fun i _ => Worker.running_of_not_busy (hrest i)
  have hcl := h.claims
  rw [hrun, claimed_of_le j hspent, add_zero, add_zero] at hcl
  exact Multiset.coe_eq_coe.mp hcl

/-- **The publication of a job**: no worker has taken anything yet. -/
theorem Before.publish {s : SpinPool n} {j : Job} {rest jobs : List Job} {active : Option ℕ}
    (hb : Before s j rest active jobs) (hfits : n < 2 ^ 16) (hle : s.shared.activeWorkers ≤ n)
    (hj : s.shared.Holds j) (hnext : s.shared.nextChunk = 0) (hdone : s.shared.doneCount = 0)
    (main : MainPc) : Within
      { s with shared := { s.shared with generation := nextGeneration s.shared },
               main := main } 0 j rest
      (active.getD s.shared.activeWorkers) jobs := by
  obtain ⟨hq, hcount, done, hjobs, hcov⟩ := hb
  have hact : active.getD s.shared.activeWorkers = s.shared.activeWorkers := by
    cases active with
    | none => rfl
    | some k => exact hcount k rfl
  rw [hact]
  refine ⟨rfl, done, s.log, [], hjobs, hcov, (List.append_nil _).symm, ?_⟩
  refine ⟨activeOf_nextGeneration _ (by omega), hj, fun i hi => ?_,
    by simp [hdone], fun i st hi => ?_, ?_⟩
  · simp [hq.resting i] at hi
  · have hb := hq.resting i
    simp only [Worker.busy] at hb
    rw [show (s.workers i).pc = .steal st from hi] at hb
    simp at hb
  · have hrun : ∑ i, (s.workers i).running = 0 :=
      Finset.sum_eq_zero fun i _ => Worker.running_of_not_busy (hq.resting i)
    simp only
    rw [hrun, hnext]
    simp [claimed]

/-- A step of the dispatching thread keeps the invariant. -/
theorem PoolInv.mainStep {s : SpinPool n} {jobs : List Job} (hinv : PoolInv s jobs) :
    PoolInv s.mainStep jobs := by
  have hinv' := hinv
  obtain ⟨hfits, hle, hphase⟩ := hinv'
  cases hpc : s.main with
  | idle => simpa only [SpinPool.mainStep, hpc] using hinv
  | setup store j rest active =>
    simp only [PhaseInv, hpc] at hphase
    obtain ⟨⟨hq, hcount, hjobs⟩, hst⟩ := hphase
    simp only [SpinPool.mainStep, hpc]
    cases store with
    | workFn => exact ⟨hfits, hle, ⟨⟨hq.congr rfl rfl, hcount, hjobs⟩, rfl⟩⟩
    | workCtx => exact ⟨hfits, hle, ⟨⟨hq.congr rfl rfl, hcount, hjobs⟩, ⟨hst, rfl⟩⟩⟩
    | totalChunks => exact ⟨hfits, hle, ⟨⟨hq.congr rfl rfl, hcount, hjobs⟩, ⟨hst.1, hst.2, rfl⟩⟩⟩
    | nextChunk => exact ⟨hfits, hle, ⟨⟨hq.congr rfl rfl, hcount, hjobs⟩, ⟨hst, rfl⟩⟩⟩
    | doneCount => exact ⟨hfits, hle, ⟨⟨hq.congr rfl rfl, hcount, hjobs⟩, hst.1, hst.2, rfl⟩⟩
  | publish j rest active =>
    simp only [PhaseInv, hpc] at hphase
    obtain ⟨hb, hj, hnext, hdone⟩ := hphase
    simp only [SpinPool.mainStep, hpc]
    exact ⟨hfits, hle, hb.publish hfits hle hj hnext hdone _⟩
  | unpark k j rest active =>
    simp only [PhaseInv, hpc] at hphase
    obtain ⟨hact, done, base, cur, hjobs, hcov, hlog, ho⟩ := hphase
    simp only [SpinPool.mainStep, hpc]
    split_ifs with hk
    · exact ⟨hfits, hle, hact, done, base, cur, hjobs, hcov, hlog,
        ho.congr rfl (unpark_pc s _) (unpark_lastGen s _)⟩
    · exact ⟨hfits, hle, ⟨hact, done, base, cur, hjobs, hcov, hlog, ho.congr rfl (fun _ => rfl)
        fun _ => rfl⟩, trivial⟩
  | steal st j rest active =>
    simp only [PhaseInv, hpc] at hphase
    obtain ⟨⟨hact, done, base, cur, hjobs, hcov, hlog, ho⟩, hst⟩ := hphase
    rcases hstep : stealStep s.shared st with ⟨o, sh, calls⟩
    obtain ⟨hsame, -, hst', hend, -⟩ := stealStep_claims ho.holds hst hstep
    have hsh : sh.activeWorkers = s.shared.activeWorkers := by rw [hsame]
    cases o with
    | some st' =>
      simp only [SpinPool.mainStep, hpc, hstep]
      exact ⟨hfits, hsh ▸ hle, ⟨hsh ▸ hact, done, base, cur ++ calls, hjobs, hcov,
        by rw [hlog, List.append_assoc], ho.steal hst hstep _ _⟩, hst' st' rfl⟩
    | none =>
      simp only [SpinPool.mainStep, hpc, hstep]
      exact ⟨hfits, hsh ▸ hle, ⟨hsh ▸ hact, done, base, cur ++ calls, hjobs, hcov,
        by rw [hlog, List.append_assoc], ho.steal hst hstep _ _⟩, hend rfl⟩
  | wait j rest active =>
    simp only [PhaseInv, hpc] at hphase
    obtain ⟨⟨hact, done, base, cur, rfl, hcov, hlog, ho⟩, hspent⟩ := hphase
    by_cases hdone : s.shared.doneCount < active
    · simpa only [SpinPool.mainStep, hpc, if_pos hdone] using hinv
    obtain ⟨hq, hperm⟩ := ho.closes (hact ▸ hle) hspent (by omega)
    have hcov' : Covers s.log (done ++ [j]) := hlog ▸ hcov.append hperm
    cases rest with
    | nil =>
      simp only [SpinPool.mainStep, hpc, if_neg hdone]
      exact ⟨hfits, hle, hq.congr rfl rfl, by simpa only [ho.holds.2.2] using hspent, hcov'⟩
    | cons j' rest =>
      simp only [SpinPool.mainStep, hpc, if_neg hdone]
      refine ⟨hfits, hle, ⟨hq.congr rfl rfl, ?_, done ++ [j], by simp, hcov'⟩, trivial⟩
      rintro k ⟨⟩
      exact hact
  | dropShutdown =>
    simp only [PhaseInv, hpc] at hphase
    simp only [SpinPool.mainStep, hpc]
    exact ⟨hfits, hle, hphase.1.congr rfl rfl, hphase.2⟩
  | dropBump =>
    simp only [PhaseInv, hpc] at hphase
    simp only [SpinPool.mainStep, hpc]
    refine ⟨hfits, hle, ⟨hphase.2.1, fun i st hi => ?_⟩, hphase.2.2⟩
    have hb := hphase.1.resting i
    simp only [Worker.busy] at hb
    rw [show (s.workers i).pc = .steal st from hi] at hb
    simp at hb
  | dropUnpark k =>
    simp only [PhaseInv, hpc] at hphase
    simp only [SpinPool.mainStep, hpc]
    split_ifs with hk
    · exact ⟨hfits, hle, ⟨hphase.1.spent, fun i st hi => hphase.1.late i st (unpark_pc s _ i ▸ hi)⟩,
        hphase.2⟩
    · exact ⟨hfits, hle, ⟨hphase.1.spent, hphase.1.late⟩, hphase.2⟩
  | join k =>
    simp only [PhaseInv, hpc] at hphase
    simp only [SpinPool.mainStep, hpc]
    split_ifs with hk hstop
    · exact ⟨hfits, hle, ⟨hphase.1.spent, hphase.1.late⟩, hphase.2⟩
    · exact hinv
    · exact ⟨hfits, hle, ⟨hphase.1.spent, hphase.1.late⟩, hphase.2⟩
  | dropped => simpa only [SpinPool.mainStep, hpc] using hinv

/-- A call keeps the invariant, its jobs being issued. -/
theorem PoolInv.enter {s : SpinPool n} {jobs : List Job} (hinv : PoolInv s jobs)
    (hidle : s.main = .idle) (c : PoolCall) : PoolInv (s.enter c) (jobs ++ c.jobs) := by
  have hinv' := hinv
  obtain ⟨hfits, hle, hphase⟩ := hinv'
  simp only [PhaseInv, hidle] at hphase
  obtain ⟨hq, hspent, hcov⟩ := hphase
  have hsame : PoolInv s (jobs ++ []) := by rwa [List.append_nil]
  have hfirst : ∀ j rest, PoolInv { s with main := .setup .workFn j rest none }
    (jobs ++ j :: rest) := fun j rest =>
    ⟨hfits, hle, ⟨hq.congr rfl rfl, fun k hk => by simp at hk, jobs, rfl, hcov⟩, trivial⟩
  cases c with
  | dispatch k f c =>
    cases k with
    | zero => exact hsame
    | succ k => exact hfirst _ _
  | dispatchBatch items =>
    cases items with
    | nil => exact hsame
    | cons j rest => exact hfirst j rest
  | beginBatch =>
    refine ⟨hfits, hle, ?_⟩
    simp only [PhaseInv, SpinPool.enter, hidle, PoolCall.jobs, List.append_nil]
    exact ⟨hq.congr rfl rfl, hspent, hcov⟩
  | endBatch =>
    refine ⟨hfits, hle, ?_⟩
    simp only [PhaseInv, SpinPool.enter, hidle, PoolCall.jobs, List.append_nil]
    exact ⟨hq.congr rfl rfl, hspent, hcov⟩
  | setActiveWorkers k =>
    refine ⟨hfits, Nat.min_le_right k n, ?_⟩
    simp only [PhaseInv, SpinPool.enter, hidle, PoolCall.jobs, List.append_nil]
    exact ⟨hq.congr rfl rfl, hspent, hcov⟩
  | drop =>
    refine ⟨hfits, hle, ?_⟩
    simp only [PhaseInv, SpinPool.enter, PoolCall.jobs, List.append_nil]
    exact ⟨hq.congr rfl rfl, hspent, hcov⟩

theorem PoolInv.turn {s : SpinPool n} {jobs : List Job} (hinv : PoolInv s jobs) (t : Turn n) :
    PoolInv (s.turn t) jobs := by
  cases t with
  | thread a =>
    cases a with
    | main => exact hinv.mainStep
    | worker i => exact hinv.moved (moved_workStep s i)
  | spurious i =>
    change PoolInv (s.wake i) jobs
    rcases wake_moved s i with hw | hw
    · rw [hw]; exact hinv
    · exact hinv.moved hw

/-- **The step lemma.** -/
theorem PoolInv.step {s s' : SpinPool n} {jobs : List Job} (hinv : PoolInv s jobs) {a : Label n}
    (h : s.step a = some s') : PoolInv s' (jobs ++ a.jobs) := by
  cases a with
  | call c =>
    simp only [SpinPool.step] at h
    split_ifs at h with hidle
    obtain rfl := Option.some.inj h
    exact hinv.enter hidle c
  | turn t =>
    obtain rfl := Option.some.inj h
    rw [Label.jobs, List.append_nil]
    exact hinv.turn t

/-! ## Runs -/

/-- A run of the pool: the labels that led from one state to the other. -/
abbrev PoolRun (s : SpinPool n) (labels : List (Label n)) (s' : SpinPool n) : Prop :=
  Run (fun a s s' => SpinPool.step s a = some s') s labels s'

theorem poolInv_new {s : SpinPool n} (h : SpinPool.new n = some s) : PoolInv s [] := by
  unfold SpinPool.new at h
  split_ifs at h with hn
  obtain rfl := Option.some.inj h
  have hmask : ACTIVE_MASK.toNat = 2 ^ 16 - 1 := by decide
  have h0 : activeOf 0 = 0 := by decide
  refine ⟨by omega, le_rfl, ⟨fun i => rfl, fun i hi => ?_⟩, le_rfl, covers_nil⟩
  rfl

theorem foldl_jobs (labels : List (Label n)) (jobs : List Job) :
    labels.foldl (fun jobs a => jobs ++ a.jobs) jobs = jobs ++ labels.flatMap Label.jobs := by
  induction labels generalizing jobs with
  | nil => simp
  | cons a l ih => simp [ih, List.append_assoc]

/-- **The run lemma.** -/
theorem PoolRun.inv {s₀ s : SpinPool n} {labels : List (Label n)} (h : PoolRun s₀ labels s)
    (h0 : SpinPool.new n = some s₀) : PoolInv s (labels.flatMap Label.jobs) := by
  have hrun := h.simulates (R := PoolInv) (f := fun a t => t ++ a.jobs)
    (fun a s s' t hinv hstep => PoolInv.step hinv hstep) (poolInv_new h0)
  rwa [foldl_jobs, List.nil_append] at hrun

/-- **Exactly once.** When the calls of a run have returned, whatever the interleaving, the work
functions have run for the jobs of the calls in the order of issue, and for each chunk of a job
once. -/
theorem log_at_rest {s₀ s : SpinPool n} {labels : List (Label n)} (h0 : SpinPool.new n = some s₀)
    (h : PoolRun s₀ labels s) (hrest : s.main = .idle ∨ s.main = .dropped) :
    ∃ segs : List (List Call), s.log = segs.flatten ∧
      List.Forall₂ (fun seg j => seg.Perm j.calls) segs (labels.flatMap Label.jobs) := by
  have hphase := (h.inv h0).phase
  rcases hrest with hrest | hrest
  · simp only [PhaseInv, hrest] at hphase
    exact hphase.2.2
  · simp only [PhaseInv, hrest] at hphase
    exact hphase.2

/-- A dispatch of two chunks: the worker runs the first one while the dispatching thread runs the
second. -/
def twoChunks : List (Label 1) :=
  .call (.dispatch 2 11 13) ::
    (List.replicate 10 (.turn (.thread .main)) ++ List.replicate 6 (.turn (.thread (.worker 0))) ++
      List.replicate 4 (.turn (.thread .main)) ++ List.replicate 3 (.turn (.thread (.worker 0))) ++
      [.turn (.thread .main)])

theorem log_at_rest_twoChunks : ∃ s₀ s : SpinPool 1, SpinPool.new 1 = some s₀ ∧
    PoolRun s₀ twoChunks s ∧ s.main = .idle ∧ s.log = [⟨11, 13, 1⟩, ⟨11, 13, 0⟩] ∧
    ∃ segs : List (List Call), s.log = segs.flatten ∧
      List.Forall₂ (fun seg j => seg.Perm j.calls) segs [(⟨11, 13, 2⟩ : Job)] := by
  have hrun : ∃ s₀ s : SpinPool 1, SpinPool.new 1 = some s₀ ∧
    twoChunks.foldlM SpinPool.step s₀ = some s ∧
      s.main = .idle ∧ s.log = [⟨11, 13, 1⟩, ⟨11, 13, 0⟩] := ⟨_, _, rfl, rfl, rfl, rfl⟩
  obtain ⟨s₀, s, h0, hs, hidle, hlog⟩ := hrun
  exact ⟨s₀, s, h0, Run.of_foldlM hs, hidle, hlog, log_at_rest h0 (Run.of_foldlM hs) (Or.inl hidle)⟩

/-! ## What is running -/

/-- The job of the dispatch that the dispatching thread is in. -/
def MainPc.dispatching : MainPc → Option Job
  | .unpark _ j _ _ => some j
  | .steal _ j _ _ => some j
  | .wait j _ _ => some j
  | _ => none

def MainPc.running : MainPc → Multiset Call
  | .steal st _ _ _ => st.running
  | _ => 0

/-- The calls of work functions that have begun and not returned. -/
def SpinPool.running (s : SpinPool n) : Multiset Call := s.main.running + ∑ i, (s.workers i).running

theorem claimed_nodup (j : Job) (k : ℕ) : (claimed j k).Nodup := by
  rw [claimed, Multiset.coe_nodup]
  exact List.nodup_range.map fun a b h => by simpa [Job.call] using h

theorem mem_calls_of_mem_claimed {j : Job} {k : ℕ} {c : Call} (h : c ∈ claimed j k) :
    c ∈ j.calls := by
  rw [claimed, Multiset.mem_coe, List.mem_map] at h
  obtain ⟨m, hm, rfl⟩ := h
  rw [Job.calls, List.mem_map]
  exact ⟨m, by rw [List.mem_range] at hm ⊢; omega, rfl⟩

theorem Opened.running {s : SpinPool n} {r : Multiset Call} {j : Job} {active : ℕ} {cur : List Call}
    (h : Opened s r j active cur) :
    (r + ∑ i, (s.workers i).running).Nodup ∧ ∀ c ∈ r + ∑ i, (s.workers i).running, c ∈ j.calls := by
  have hle : r + ∑ i, (s.workers i).running ≤ claimed j s.shared.nextChunk := by
    rw [← h.claims, add_assoc]
    exact Multiset.le_add_left _ _
  exact ⟨Multiset.nodup_of_le hle (claimed_nodup _ _), fun c hc =>
    mem_calls_of_mem_claimed (Multiset.mem_of_le hle hc)⟩

theorem Quiet.running {s : SpinPool n} (h : Quiet s) : ∑ i, (s.workers i).running = 0 :=
  Finset.sum_eq_zero fun i _ => Worker.running_of_not_busy (h.resting i)

theorem Closing.running {s : SpinPool n} (h : Closing s) : ∑ i, (s.workers i).running = 0 := by
  refine Finset.sum_eq_zero fun i _ => ?_
  unfold Worker.running
  cases hpc : (s.workers i).pc with
  | steal st =>
    have hst := h.late i st hpc
    cases st <;> first | rfl | exact absurd hst (by simp [Steal.Late])
  | _ => rfl

theorem PoolInv.running {s : SpinPool n} {jobs : List Job} (hinv : PoolInv s jobs) :
    s.running.Nodup ∧ ∀ c ∈ s.running, ∃ j, s.main.dispatching = some j ∧ c ∈ j.calls := by
  have hphase := hinv.phase
  have hquiet : Quiet s → s.main.running = 0 →
      s.running.Nodup ∧ ∀ c ∈ s.running, ∃ j, s.main.dispatching = some j ∧ c ∈ j.calls := by
    intro hq hmain
    simp [SpinPool.running, hmain, hq.running]
  have hclosing : Closing s → s.main.running = 0 →
      s.running.Nodup ∧ ∀ c ∈ s.running, ∃ j, s.main.dispatching = some j ∧ c ∈ j.calls := by
    intro hc hmain
    simp [SpinPool.running, hmain, hc.running]
  have hwithin : ∀ {r j rest active}, Within s r j rest active jobs → s.main.running = r →
      s.main.dispatching = some j →
      s.running.Nodup ∧ ∀ c ∈ s.running, ∃ j, s.main.dispatching = some j ∧ c ∈ j.calls := by
    intro r j rest active hw hmain hdisp
    obtain ⟨-, _, _, _, -, -, -, ho⟩ := hw
    rw [SpinPool.running, hmain]
    exact ⟨ho.running.1, fun c hc => ⟨j, hdisp, ho.running.2 c hc⟩⟩
  cases hpc : s.main with
  | idle =>
    simp only [PhaseInv, hpc] at hphase
    exact hpc ▸ hquiet hphase.1 (by rw [hpc]; rfl)
  | setup store j rest active =>
    simp only [PhaseInv, hpc] at hphase
    exact hpc ▸ hquiet hphase.1.1 (by rw [hpc]; rfl)
  | publish j rest active =>
    simp only [PhaseInv, hpc] at hphase
    exact hpc ▸ hquiet hphase.1.1 (by rw [hpc]; rfl)
  | unpark k j rest active =>
    simp only [PhaseInv, hpc] at hphase
    exact hpc ▸ hwithin hphase (by rw [hpc]; rfl) (by rw [hpc]; rfl)
  | steal st j rest active =>
    simp only [PhaseInv, hpc] at hphase
    exact hpc ▸ hwithin hphase.1 (by rw [hpc]; rfl) (by rw [hpc]; rfl)
  | wait j rest active =>
    simp only [PhaseInv, hpc] at hphase
    exact hpc ▸ hwithin hphase.1 (by rw [hpc]; rfl) (by rw [hpc]; rfl)
  | dropShutdown =>
    simp only [PhaseInv, hpc] at hphase
    exact hpc ▸ hquiet hphase.1 (by rw [hpc]; rfl)
  | dropBump =>
    simp only [PhaseInv, hpc] at hphase
    exact hpc ▸ hquiet hphase.1 (by rw [hpc]; rfl)
  | dropUnpark k =>
    simp only [PhaseInv, hpc] at hphase
    exact hpc ▸ hclosing hphase.1 (by rw [hpc]; rfl)
  | join k =>
    simp only [PhaseInv, hpc] at hphase
    exact hpc ▸ hclosing hphase.1 (by rw [hpc]; rfl)
  | dropped =>
    simp only [PhaseInv, hpc] at hphase
    exact hpc ▸ hclosing hphase.1 (by rw [hpc]; rfl)

/-- **Within its dispatch.** Whatever the interleaving, a work function that is running was given a
chunk of the job being dispatched, no two threads are running the same chunk, and outside a dispatch
none is running. -/
theorem running_within {s₀ s : SpinPool n} {labels : List (Label n)} (h0 : SpinPool.new n = some s₀)
    (h : PoolRun s₀ labels s) :
    s.running.Nodup ∧ ∀ c ∈ s.running, ∃ j, s.main.dispatching = some j ∧ c ∈ j.calls :=
  (h.inv h0).running

theorem running_within_twoChunks : ∃ s₀ s : SpinPool 1, SpinPool.new 1 = some s₀ ∧
    PoolRun s₀ (twoChunks.take 18) s ∧ s.main.dispatching = some ⟨11, 13, 2⟩ ∧ s.running.Nodup ∧
    ∀ c ∈ s.running, ∃ j, s.main.dispatching = some j ∧ c ∈ j.calls := by
  have hrun : ∃ s₀ s : SpinPool 1, SpinPool.new 1 = some s₀ ∧
    (twoChunks.take 18).foldlM SpinPool.step s₀ = some s ∧
      s.main.dispatching = some ⟨11, 13, 2⟩ := ⟨_, _, rfl, rfl, rfl⟩
  obtain ⟨s₀, s, h0, hs, hdisp⟩ := hrun
  exact ⟨s₀, s, h0, Run.of_foldlM hs, hdisp, running_within h0 (Run.of_foldlM hs)⟩

end ArgusEngine.Threads
