import ArgusEngine.Kv.AperturbSelect

/-!
# What the chooser planned and applied

* `OwnKeep`: a plan that a candidate's callback stages on a layer, read back from its handle;
* **`planned_of_mem_planPool`**: every entry of the pool is its candidate's own answer at the
  reported ask, within the budget;
* **`gathers_applyPlanned`**: an applied plan is the gather of its lists, right-aligned on a cursor;
* `FirstFault`, **`applyLayers_fault`**: the first buffer move that fails, and what it leaves of the
  layers;
* **`chooseAndApply_cases`**: what a decision can do to the layers.
-/

namespace ArgusEngine

open KVCache

/-! ## Planning -/

section Plan

variable {P : Platform} {nHeadsQ : ℕ} {cand : Candidate P} {signals : Signals P} {nLayers ask : ℕ}

/-- The callback of `cand`, asked for `ask` on layer `layer`, leaves the handle `h` with `plan`
staged. -/
structure OwnKeep (nHeadsQ : ℕ) (cand : Candidate P) (signals : Signals P)
    (nLayers ask layer : ℕ) (c : KVCache) (plan : PlannedKeep)
    (h : EngineCacheHandle P) : Prop where
  handle : cand.handle (stageCtx nHeadsQ cand signals layer nLayers ask c) = .ok h
  keep : plannedKeepOf h = some plan

theorem compaction_of_plannedKeepOf {h : EngineCacheHandle P} {plan : PlannedKeep}
    (hk : plannedKeepOf h = some plan) : h.compaction = some plan.call.compaction := by
  unfold plannedKeepOf at hk
  split at hk <;> cases hk <;> assumption

@[simp] theorem cache_stageCtx (layer : ℕ) (c : KVCache) :
    (stageCtx nHeadsQ cand signals layer nLayers ask c).cache = c := by
  unfold stageCtx
  split_ifs <;> rfl

theorem handle_eq {ctx : StageCtx P} {h : EngineCacheHandle P}
    (hh : cand.handle ctx = .ok h) : ∃ calls, cand.onPhase ctx = .ok calls ∧
    h = runCalls (EngineCacheHandle.new ctx.cache ctx.layerIdx ctx.nLayers none) calls := by
  unfold Candidate.handle at hh
  cases hcalls : cand.onPhase ctx with
  | error e =>
    rw [hcalls] at hh
    cases hh
  | ok calls =>
    rw [hcalls] at hh
    cases hh
    exact ⟨calls, rfl, rfl⟩

theorem OwnKeep.accepted {layer : ℕ} {c : KVCache} {plan : PlannedKeep} {h : EngineCacheHandle P}
    (hown : OwnKeep nHeadsQ cand signals nLayers ask layer c plan h) : plan.call.Accepted c := by
  obtain ⟨calls, -, rfl⟩ := handle_eq hown.handle
  have hstaged := staged_runCalls (stageCtx nHeadsQ cand signals layer nLayers ask c).cache
    (stageCtx nHeadsQ cand signals layer nLayers ask c).layerIdx
    (stageCtx nHeadsQ cand signals layer nLayers ask c).nLayers none calls
  have hkeep := hstaged.keep plan.call (compaction_of_plannedKeepOf hown.keep)
  rwa [cache_stageCtx] at hkeep

theorem OwnKeep.cache_swap {layer : ℕ} {c : KVCache} {plan : PlannedKeep} {h : EngineCacheHandle P}
    (hown : OwnKeep nHeadsQ cand signals nLayers ask layer c plan h) :
    h.cache = c ∧ h.swap = none := by
  obtain ⟨calls, -, rfl⟩ := handle_eq hown.handle
  obtain ⟨hcache, hswap⟩ := runCalls_cache calls (EngineCacheHandle.new
    (stageCtx nHeadsQ cand signals layer nLayers ask c).cache
      (stageCtx nHeadsQ cand signals layer nLayers ask c).layerIdx
    (stageCtx nHeadsQ cand signals layer nLayers ask c).nLayers none)
  exact ⟨hcache.trans (cache_stageCtx layer c), hswap⟩

theorem stagedKeep_ok {kind panicked : String} {ctx : StageCtx P} {plan : PlannedKeep}
    (hok : stagedKeep cand kind panicked ctx = .ok (some plan)) :
    ∃ h, cand.handle ctx = .ok h ∧ plannedKeepOf h = some plan := by
  unfold stagedKeep at hok
  split at hok
  · cases hok
  · cases hok
  · rename_i h hh
    exact ⟨h, hh, Except.ok.inj hok⟩

theorem ownKeep_planLayer {layer : ℕ} {c : KVCache} {plan : PlannedKeep}
    (hok : planLayer nHeadsQ cand signals nLayers ask layer c = .ok (some plan)) :
    ∃ h, OwnKeep nHeadsQ cand signals nLayers ask layer c plan h := by
  unfold planLayer at hok
  split_ifs at hok with hreads
  · split at hok
    · cases hok
    rename_i attn hattn
    unfold planPrefillLayer at hok
    simp only at hok
    split_ifs at hok
    · cases hok
    obtain ⟨h, hh, hkeep⟩ := stagedKeep_ok hok
    exact ⟨h, hh, hkeep⟩
  · unfold planMutationLayer at hok
    split_ifs at hok
    · cases hok
    obtain ⟨h, hh, hkeep⟩ := stagedKeep_ok hok
    exact ⟨h, hh, hkeep⟩

/-- The positions of the lists of a plan. -/
def PlannedKeep.size (nKvHeads : ℕ) (plan : PlannedKeep) : ℕ :=
  ((List.range nKvHeads).map fun h => ((plan.head h).getD []).length).sum

theorem total_pushHeads {layer : ℕ} {plan : PlannedKeep} (heads : List ℕ) :
    ∀ {keep keep' : KeepSets}, pushHeads layer plan keep heads = .ok keep' →
      keep'.total = keep.total + (heads.map fun h => ((plan.head h).getD []).length).sum := by
  induction heads with
  | nil =>
    intro keep keep' hok
    cases hok
    rfl
  | cons kvHead heads ih =>
    intro keep keep' hok
    unfold pushHeads at hok
    rw [List.foldlM_cons] at hok
    obtain ⟨keep₁, hfirst, hok⟩ := Checked.ok_bind.mp hok
    split at hfirst
    · cases hfirst
    rename_i list hlist
    split at hfirst
    · cases hfirst
    rename_i keep₂ hpush
    cases hfirst
    have htotal : keep₁.total = keep.total + list.length := by
      unfold KeepSets.push at hpush
      simp only at hpush
      split_ifs at hpush
      cases hpush
      unfold KeepSets.total KeepSets.append
      rw [List.length_append, List.length_map]
    rw [ih hok, htotal, List.map_cons, List.sum_cons, hlist, Option.getD_some, Nat.add_assoc]

theorem planLayers_ok {nKvHeads : ℕ} (cs : List KVCache) : ∀ {layer : ℕ} {keep keep' : KeepSets}
    {plans : List PlannedKeep},
    planLayers nHeadsQ cand signals nLayers ask nKvHeads layer cs keep = .ok (keep', plans) →
      plans.length = cs.length ∧ keep'.total = keep.total +
        (plans.map (PlannedKeep.size nKvHeads)).sum ∧
      ∀ l c plan, cs[l]? = some c → plans[l]? = some plan →
        ∃ h, OwnKeep nHeadsQ cand signals nLayers ask (layer + l) c plan h := by
  induction cs with
  | nil =>
    intro layer keep keep' plans hok
    cases hok
    exact ⟨rfl, rfl, fun l c plan hc => by simp at hc⟩
  | cons c₀ cs ih =>
    intro layer keep keep' plans hok
    unfold planLayers at hok
    obtain ⟨planned, hplan, hok⟩ := Checked.ok_bind.mp hok
    cases planned with
    | none => cases hok
    | some plan₀ =>
      obtain ⟨keep₁, hpush, hok⟩ := Checked.ok_bind.mp hok
      obtain ⟨⟨keep₂, rest⟩, hrest, hok⟩ := Checked.ok_bind.mp hok
      cases hok
      obtain ⟨hlen, htotal, hall⟩ := ih hrest
      refine ⟨by rw [List.length_cons, List.length_cons, hlen], ?_, fun l c plan hc hl => ?_⟩
      · rw [htotal, total_pushHeads _ hpush, List.map_cons, List.sum_cons,
          PlannedKeep.size, Nat.add_assoc]
      · cases l with
        | zero =>
          cases hc
          cases hl
          exact ownKeep_planLayer hplan
        | succ l =>
          rw [show layer + (l + 1) = layer + 1 + l by omega]
          exact hall l c plan hc hl

end Plan

section Pool

variable {P : Platform} {nHeadsQ : ℕ} {signals : Signals P} {caches : List KVCache}

/-- The answer of a candidate: a plan for every layer, staged by its own callback at the reported
ask. -/
structure OwnAnswer (nHeadsQ : ℕ) (signals : Signals P) (caches : List KVCache)
    (nKvHeads : ℕ) (p : Planned P) : Prop where
  length : p.plans.length = caches.length
  total : p.keep.total = (p.plans.map (PlannedKeep.size nKvHeads)).sum
  own : ∀ l c plan, caches[l]? = some c → p.plans[l]? = some plan →
    ∃ h, OwnKeep nHeadsQ p.cand signals caches.length p.asked l c plan h

theorem planOne_ok {cand : Candidate P} {nKvHeads ask : ℕ} {keep : KeepSets}
    {plans : List PlannedKeep}
    (hok : planOne nHeadsQ cand signals caches nKvHeads ask = .ok (keep, plans)) :
    OwnAnswer nHeadsQ signals caches nKvHeads ⟨cand, keep, plans, ask⟩ := by
  unfold planOne at hok
  obtain ⟨-, -, hok⟩ := Checked.ok_bind.mp hok
  obtain ⟨empty, hempty, hok⟩ := Checked.ok_bind.mp hok
  obtain ⟨-, -, hok⟩ := Checked.ok_bind.mp hok
  obtain ⟨hlen, htotal, hall⟩ := planLayers_ok caches hok
  have hnone : empty.total = 0 := by
    unfold KeepSets.withCapacity withCapacityU32 at hempty
    split_ifs at hempty
    · cases hempty
    · cases hempty
      rfl
  rw [hnone, Nat.zero_add] at htotal
  exact ⟨hlen, htotal, fun l c plan hc hl => Nat.zero_add l ▸ hall l c plan hc hl⟩

theorem calibrate_ok {cand : Candidate P} {nKvHeads budgetTotal : ℕ} (probes : ℕ) :
    ∀ {ask prevTotal : ℕ} {keep : KeepSets} {plans : List PlannedKeep} {asked : ℕ},
    calibrate nHeadsQ cand signals caches nKvHeads budgetTotal probes ask prevTotal =
      .ok (keep, plans, asked) →
      planOne nHeadsQ cand signals caches nKvHeads asked = .ok (keep, plans) ∧
      keep.total ≤ budgetTotal := by
  induction probes with
  | zero =>
    intro ask prevTotal keep plans asked hok
    cases hok
  | succ probes ih =>
    intro ask prevTotal keep plans asked hok
    unfold calibrate at hok
    obtain ⟨⟨keep₁, plans₁⟩, hone, hok⟩ := Checked.ok_bind.mp hok
    simp only at hok
    split_ifs at hok with hfits
    · cases hok
      exact ⟨hone, hfits⟩
    · exact ih hok

/-- **Every entry of the pool is its candidate's own answer, within the budget.** -/
theorem planned_of_mem_planPool {currentPos targetLen budgetTotal nKvHeads : ℕ}
    (cands : List (Candidate P)) : ∀ {pool : List (Planned P)} {excluded : List (String × String)},
    planPool nHeadsQ signals caches currentPos targetLen budgetTotal nKvHeads cands =
      .ok (pool, excluded) →
      ∀ p ∈ pool, p.cand ∈ cands ∧ OwnAnswer nHeadsQ signals caches nKvHeads p ∧
      p.keep.total ≤ budgetTotal := by
  induction cands with
  | nil =>
    intro pool excluded hok p hp
    cases hok
    cases hp
  | cons cand cands ih =>
    intro pool excluded hok p hp
    unfold planPool at hok
    obtain ⟨entry, hentry, hok⟩ := Checked.ok_bind.mp hok
    obtain ⟨⟨rest, excluded'⟩, hrest, hok⟩ := Checked.ok_bind.mp hok
    have hothers : p ∈ rest → p.cand ∈ cand :: cands ∧ OwnAnswer nHeadsQ signals caches nKvHeads p ∧
        p.keep.total ≤ budgetTotal := by
      intro hp
      obtain ⟨hmem, hown, hbudget⟩ := ih hrest p hp
      exact ⟨List.mem_cons_of_mem _ hmem, hown, hbudget⟩
    cases entry with
    | error why =>
      cases hok
      exact hothers hp
    | ok planned =>
      cases hok
      rcases List.mem_cons.mp hp with rfl | hp
      swap
      · exact hothers hp
      unfold planEntry at hentry
      split at hentry
      · cases hentry
      · cases hentry
      · cases hentry
      rename_i keep plans ask hplan
      obtain ⟨valid, -, hentry⟩ := Checked.ok_bind.mp hentry
      cases valid with
      | some e => cases hentry
      | none =>
        cases hentry
        obtain ⟨hone, hbudget⟩ := calibrate_ok _ hplan
        exact ⟨List.mem_cons_self, planOne_ok hone, hbudget⟩

end Pool

/-! ## Applying -/

section Apply

variable {P : Platform} {c : KVCache}

theorem applyKeep_ok (hc : c.WF) {keep : KeepCall} (hacc : keep.Accepted c) (layer nLayers : ℕ) :
    ∃ c', applyKeep P none c layer nLayers keep = (.ok (), c') ∧ keep.step c = .ok c' ∧
      Gathers c c' keep.longest keep.list := by
  obtain ⟨c', hcommit, hG⟩ := KeepCall.gathers_commit (P := P) hc layer nLayers none hacc
  refine ⟨c', ?_, KeepCall.step_of_commit hacc hcommit, hG⟩
  unfold applyKeep
  simp only [(KeepCall.stage_ok c layer nLayers none keep).mpr hacc, hcommit]
  rfl

/-- The cursor that a plan is right-aligned on. -/
def PlannedKeep.cursor (plan : PlannedKeep) (shared : Option ℕ) : ℕ :=
  match plan, shared with
  | .perHead _, some cursor => cursor
  | _, _ => plan.call.longest

/-- The shared cursor reaches from the longest list of a per-head plan to the cursor of the
layer. -/
def CursorFits (c : KVCache) (plan : PlannedKeep) (shared : Option ℕ) : Prop :=
  ∀ cursor ∈ shared, ∀ heads, plan = .perHead heads → plan.call.longest ≤ cursor ∧
    cursor ≤ c.currentPos

theorem applyPerHeadKeepAt_ok (hc : c.WF) {heads : List (List ℕ)}
    (hacc : (KeepCall.keepPerHead heads).Accepted c) {cursor : ℕ}
    (hlong : (KeepCall.keepPerHead heads).longest ≤ cursor) (hle : cursor ≤ c.currentPos)
    (layer nLayers : ℕ) : ∃ c', applyPerHeadKeepAt P none c layer nLayers heads cursor =
      (.ok (), c') ∧
      Gathers c c' cursor (KeepCall.keepPerHead heads).list := by
  have hall : ∀ l ∈ heads, l.Pairwise (· < ·) ∧ ∀ p ∈ l, p < c.currentPos := by
    intro l hl
    obtain ⟨i, hi, rfl⟩ := List.getElem_of_mem hl
    exact ⟨(hacc.2.2.1 i hi).2.1, (hacc.2.2.1 i hi).1⟩
  have hcursor : (some cursor).getD ((heads.map List.length).foldl max 0) = cursor := rfl
  obtain ⟨c', hok, hG⟩ := gathers_commitPerHeadKeepAt hc hacc.1 hacc.2.1 (fun l hl => (hall l hl).1)
    (fun l hl => (hall l hl).2) hcursor hlong hle
  refine ⟨c', ?_, hG⟩
  have hstage : ((EngineCacheHandle.new c layer nLayers none : EngineCacheHandle P).keepPerHead
    heads).1 = .ok () :=
    (KeepCall.stage_ok c layer nLayers none (.keepPerHead heads)).mpr hacc
  unfold applyPerHeadKeepAt
  rw [hstage]
  simp only [hok]
  rfl

/-- **An applied plan is the gather of its lists**, right-aligned on its cursor; away from a shared
cursor it is what the layer's own keep leaves. -/
theorem gathers_applyPlanned (hc : c.WF) {plan : PlannedKeep} (hacc : plan.call.Accepted c)
    {shared : Option ℕ} (hfits : CursorFits c plan shared) (layer nLayers : ℕ) :
    ∃ c', applyPlanned P none c layer nLayers plan shared = (.ok (), c') ∧
      Gathers c c' (plan.cursor shared) plan.call.list ∧
      (plan.call.step c = .ok c' ∨ ∃ heads, plan = .perHead heads ∧ shared.isSome) := by
  cases plan with
  | layerWide positions =>
    obtain ⟨c', happly, hstep, hG⟩ := applyKeep_ok (P := P) hc hacc layer nLayers
    exact ⟨c', happly, hG, .inl hstep⟩
  | perHead heads =>
    cases shared with
    | none =>
      obtain ⟨c', happly, hstep, hG⟩ := applyKeep_ok (P := P) hc hacc layer nLayers
      exact ⟨c', happly, hG, .inl hstep⟩
    | some cursor =>
      obtain ⟨hlong, hle⟩ := hfits cursor rfl heads rfl
      obtain ⟨c', happly, hG⟩ := applyPerHeadKeepAt_ok (P := P) hc hacc hlong hle layer nLayers
      exact ⟨c', happly, hG, .inr ⟨heads, rfl, rfl⟩⟩

theorem onDevice_fault {c' : KVCache} {moved : Except Fail KVCache}
    (h : onDevice none c moved = (.ok (), c')) (f : DeviceFault) :
    onDevice (some f) c moved = (.error (.err f.text), f.torn) := by
  cases moved with
  | error e => cases h
  | ok c₁ => rfl

theorem applyKeep_fault {c' : KVCache} {layer nLayers : ℕ} {keep : KeepCall}
    (h : applyKeep P none c layer nLayers keep = (.ok (), c')) (f : DeviceFault) :
    applyKeep P (some f) c layer nLayers keep = (.error (.err f.text), f.torn) := by
  unfold applyKeep at h ⊢
  simp only at h ⊢
  split at h
  · cases h
  · exact onDevice_fault h f

/-- A plan that would land leaves the torn cache where the device fails. -/
theorem applyPlanned_fault {c' : KVCache} {layer nLayers : ℕ} {plan : PlannedKeep}
    {shared : Option ℕ} (h : applyPlanned P none c layer nLayers plan shared = (.ok (), c'))
    (f : DeviceFault) : applyPlanned P (some f) c layer nLayers plan shared =
    (.error (.err f.text), f.torn) := by
  cases plan with
  | layerWide positions => exact applyKeep_fault h f
  | perHead heads =>
    cases shared with
    | none => exact applyKeep_fault h f
    | some cursor =>
      unfold applyPlanned applyPerHeadKeepAt at h ⊢
      simp only at h ⊢
      split at h
      · cases h
      · exact onDevice_fault h f

/-- The loop over the layers, where every layer succeeds. -/
theorem applyLayers_ok {name : String} {nLayers : ℕ} {plans : List PlannedKeep} {shared : Option ℕ}
    {device : ℕ → Option DeviceFault} (cs : List KVCache) : ∀ (layer : ℕ) (out : List KVCache),
    out.length = cs.length → (∀ l c c', cs[l]? = some c → out[l]? = some c' → ∃ plan,
      plans[layer + l]? = some plan ∧
      applyPlanned P (device (layer + l)) c (layer + l) nLayers plan shared = (.ok (), c')) →
      applyLayers P device name nLayers plans shared layer cs = (.ok (), out) := by
  induction cs with
  | nil =>
    intro layer out hlen _
    rw [List.length_eq_zero_iff.mp hlen, applyLayers]
  | cons c₀ cs ih =>
    intro layer out hlen hall
    obtain ⟨c', out', rfl⟩ := List.exists_cons_of_length_eq_add_one hlen
    obtain ⟨plan, hplan, happly⟩ := hall 0 c₀ c' rfl rfl
    rw [Nat.add_zero] at hplan happly
    have hrest := ih (layer + 1) out' (Nat.succ.inj hlen) fun l c d hc hd => by
      rw [show layer + 1 + l = layer + (l + 1) by omega]
      exact hall (l + 1) c d hc hd
    rw [applyLayers, hplan]
    simp only [happly, hrest]

/-- **The loop over the layers, where layer `layer + f` is the first to fail**: the layers before it
are compacted, it is torn, and the layers after it are as they were. -/
theorem applyLayers_fault {name : String} {nLayers : ℕ} {plans : List PlannedKeep}
    {shared : Option ℕ} {device : ℕ → Option DeviceFault} {fault : DeviceFault}
    (cs : List KVCache) : ∀ (layer f : ℕ) (out : List KVCache), out.length = cs.length →
    f < cs.length →
      (∀ l < f, device (layer + l) = none) → device (layer + f) = some fault →
      (∀ l c c', cs[l]? = some c → out[l]? = some c' → ∃ plan, plans[layer + l]? = some plan ∧
        applyPlanned P none c (layer + l) nLayers plan shared = (.ok (), c')) →
      ∃ text, applyLayers P device name nLayers plans shared layer cs =
        (.error (.err text), out.take f ++ fault.torn :: cs.drop (f + 1)) := by
  induction cs with
  | nil => exact fun layer f out _ hf => absurd hf (Nat.not_lt_zero f)
  | cons c₀ cs ih =>
    intro layer f out hlen hf hbefore hfault hall
    obtain ⟨c', out', rfl⟩ := List.exists_cons_of_length_eq_add_one hlen
    obtain ⟨plan, hplan, happly⟩ := hall 0 c₀ c' rfl rfl
    rw [Nat.add_zero] at hplan happly
    rw [applyLayers, hplan]
    cases f with
    | zero =>
      rw [Nat.add_zero] at hfault
      simp only [hfault, applyPlanned_fault happly]
      exact ⟨_, rfl⟩
    | succ f =>
      obtain ⟨text, hrest⟩ := ih (layer + 1) f out' (Nat.succ.inj hlen) (Nat.lt_of_succ_lt_succ hf)
        (fun l hl => by
          rw [show layer + 1 + l = layer + (l + 1) by omega]
          exact hbefore (l + 1) (Nat.succ_lt_succ hl))
        (by rwa [show layer + 1 + f = layer + (f + 1) by omega])
        fun l c d hc hd => by
          rw [show layer + 1 + l = layer + (l + 1) by omega]
          exact hall (l + 1) c d hc hd
      have hnone : device layer = none := hbefore 0 (Nat.succ_pos f)
      simp only [hnone, happly, hrest]
      exact ⟨text, rfl⟩

end Apply

/-! ## The shared cursor -/

theorem longest_eq_of_max? {heads : List (List ℕ)} {n : ℕ}
    (h : (heads.map List.length).max? = some n) : (KeepCall.keepPerHead heads).longest = n := by
  obtain ⟨hmem, hmax⟩ := List.max?_eq_some_iff.mp h
  refine le_antisymm (foldl_max_le.mpr ⟨Nat.zero_le _, hmax⟩) ?_
  exact (foldl_max_le.mp le_rfl).2 n hmem

/-- **The shared cursor fits every layer**, and all plans are per head where there is one. -/
theorem fits_of_sharedCursorOf {plans : List PlannedKeep} {caches : List KVCache} {cursor : ℕ}
    (h : sharedCursorOf plans caches = some cursor) :
    (∀ p ∈ plans, ∃ heads, p = .perHead heads ∧ p.call.longest ≤ cursor) ∧ ∀ c ∈ caches,
      cursor ≤ c.currentPos := by
  unfold sharedCursorOf at h
  rw [Option.filter_eq_some_iff, Option.bind_eq_some_iff] at h
  obtain ⟨⟨longests, hmap, hmax⟩, hall⟩ := h
  have hlong := Checked.some_mapM.mp hmap
  refine ⟨fun p hp => ?_, fun c hc => of_decide_eq_true (List.all_eq_true.mp hall c hc)⟩
  have hmem : p.longestHead ∈ longests.map some := hlong ▸ List.mem_map_of_mem hp
  obtain ⟨n, hn, hpn⟩ := List.mem_map.mp hmem
  cases p with
  | layerWide positions => cases hpn
  | perHead heads =>
    refine ⟨heads, rfl, ?_⟩
    rw [show (PlannedKeep.perHead heads).call.longest = n from longest_eq_of_max? hpn.symm]
    exact (List.max?_eq_some_iff.mp hmax).2 n hn

theorem cursorFits_sharedCursorOf {plans : List PlannedKeep} {caches : List KVCache}
    {plan : PlannedKeep} {c : KVCache} (hplan : plan ∈ plans) (hc : c ∈ caches) :
    CursorFits c plan (sharedCursorOf plans caches) := by
  intro cursor hcursor heads _
  obtain ⟨hplans, hcaches⟩ := fits_of_sharedCursorOf hcursor
  obtain ⟨-, -, hlong⟩ := hplans plan hplan
  exact ⟨hlong, hcaches c hc⟩

theorem isSome_sharedCursorOf {plans : List PlannedKeep} {caches : List KVCache} (hne : plans ≠ [])
    (hplans : ∀ p ∈ plans, ∃ heads, p = .perHead heads ∧ heads ≠ [] ∧ ∀ c ∈ caches,
    p.call.longest ≤ c.currentPos) : (sharedCursorOf plans caches).isSome := by
  have hlong : ∀ p ∈ plans, p.longestHead = some p.call.longest := by
    intro p hp
    obtain ⟨heads, rfl, hheads, -⟩ := hplans p hp
    obtain ⟨n, hn⟩ := Option.isSome_iff_exists.mp (List.isSome_max?_of_ne_nil
      (fun h => hheads (List.map_eq_nil_iff.mp h) : heads.map List.length ≠ []))
    exact hn.trans (congrArg some (longest_eq_of_max? hn).symm)
  have hmap : plans.mapM PlannedKeep.longestHead = some (plans.map fun p => p.call.longest) := by
    rw [Checked.some_mapM, List.map_map]
    exact List.map_congr_left hlong
  obtain ⟨cursor, hcursor⟩ := Option.isSome_iff_exists.mp (List.isSome_max?_of_ne_nil
    (fun h => hne (List.map_eq_nil_iff.mp h) : (plans.map fun p => p.call.longest) ≠ []))
  obtain ⟨p, hp, rfl⟩ := List.mem_map.mp (List.max?_eq_some_iff.mp hcursor).1
  obtain ⟨-, -, -, hle⟩ := hplans p hp
  unfold sharedCursorOf
  rw [hmap, Option.bind_some, hcursor, Option.filter_some, if_pos]
  · rfl
  · exact List.all_eq_true.mpr fun c hc => decide_eq_true (hle c hc)

/-! ## The layers of an answer -/

theorem exists_layers {α β : Type} (as : List α) : ∀ {R : ℕ → α → β → Prop},
    (∀ (i : ℕ) a, as[i]? = some a → ∃ b, R i a b) →
      ∃ bs : List β, bs.length = as.length ∧ ∀ (i : ℕ) a b, as[i]? = some a →
      bs[i]? = some b → R i a b := by
  induction as with
  | nil => exact fun _ => ⟨[], rfl, fun i a b ha => by simp at ha⟩
  | cons a as ih =>
    intro R h
    obtain ⟨b, hb⟩ := h 0 a rfl
    obtain ⟨bs, hlen, hbs⟩ := ih fun i a ha => h (i + 1) a ha
    refine ⟨b :: bs, by rw [List.length_cons, List.length_cons, hlen], fun i a' b' ha hb' => ?_⟩
    cases i with
    | zero =>
      cases ha
      cases hb'
      exact hb
    | succ i => exact hbs i a' b' ha hb'

section Layers

variable {P : Platform} {nHeadsQ nKvHeads : ℕ} {signals : Signals P}
  {caches : List KVCache} {p : Planned P}

theorem OwnAnswer.accepted (h : OwnAnswer nHeadsQ signals caches nKvHeads p) {l : ℕ} {c : KVCache}
    {plan : PlannedKeep} (hc : caches[l]? = some c) (hplan : p.plans[l]? = some plan) :
    plan.call.Accepted c := by
  obtain ⟨handle, hown⟩ := h.own l c plan hc hplan
  exact hown.accepted

/-- The plan of a layer, right-aligned on its cursor, and away from a shared cursor the layer's own
keep. -/
structure Landed (c c' : KVCache) (plan : PlannedKeep) (shared : Option ℕ) : Prop where
  gathers : Gathers c c' (plan.cursor shared) plan.call.list
  own : plan.call.step c = .ok c' ∨ ∃ heads, plan = .perHead heads ∧ shared.isSome

/-- `after` is what the plans leave of the layers, on a device that does not fail. -/
structure Applied (P : Platform) (caches : List KVCache) (plans : List PlannedKeep)
    (shared : Option ℕ) (after : List KVCache) : Prop where
  length : after.length = caches.length
  applies : ∀ (l : ℕ) c c' plan, caches[l]? = some c → after[l]? = some c' → plans[l]? = some plan →
    applyPlanned P none c l caches.length plan shared = (.ok (), c')
  landed : ∀ (l : ℕ) c c' plan, caches[l]? = some c → after[l]? = some c' → plans[l]? = some plan →
    Landed c c' plan shared

/-- **The plans of an answer land on every layer**, on a device that does not fail. -/
theorem OwnAnswer.applied (h : OwnAnswer nHeadsQ signals caches nKvHeads p)
    (hwf : ∀ c ∈ caches, c.WF) :
    ∃ after, Applied P caches p.plans (sharedCursorOf p.plans caches) after := by
  set shared := sharedCursorOf p.plans caches with hshared
  have hlayer : ∀ (l : ℕ) c, caches[l]? = some c → ∃ c', ∃ plan, p.plans[l]? = some plan ∧
      applyPlanned P none c l caches.length plan shared = (.ok (), c') ∧
      Landed c c' plan shared := by
    intro l c hc
    have hl : l < p.plans.length := h.length ▸ (List.getElem?_eq_some_iff.mp hc).1
    have hplan : p.plans[l]? = some p.plans[l] := List.getElem?_eq_getElem hl
    have hmem := List.mem_of_getElem? hc
    obtain ⟨c', happly, hG, hstep⟩ := gathers_applyPlanned (P := P) (hwf c hmem)
      (h.accepted hc hplan) (cursorFits_sharedCursorOf (List.getElem_mem hl) hmem) l caches.length
    exact ⟨c', _, hplan, happly, hG, hstep⟩
  obtain ⟨after, hlen, hafter⟩ := exists_layers caches hlayer
  refine ⟨after, hlen, fun l c c' plan hc hc' hp => ?_, fun l c c' plan hc hc' hp => ?_⟩
  · obtain ⟨plan', hplan, happly, -⟩ := hafter l c c' hc hc'
    obtain rfl := Option.some.inj (hplan.symm.trans hp)
    exact happly
  · obtain ⟨plan', hplan, -, hlanded⟩ := hafter l c c' hc hc'
    obtain rfl := Option.some.inj (hplan.symm.trans hp)
    exact hlanded

variable {plans : List PlannedKeep} {shared : Option ℕ} {after : List KVCache}

theorem Applied.plan (h : Applied P caches plans shared after)
    (hlen : plans.length = caches.length) (l : ℕ) (c c' : KVCache) (hc : caches[l]? = some c)
    (hc' : after[l]? = some c') : ∃ plan, plans[l]? = some plan ∧
      applyPlanned P none c l caches.length plan shared = (.ok (), c') := by
  have hl : l < plans.length := hlen ▸ (List.getElem?_eq_some_iff.mp hc).1
  exact ⟨_, List.getElem?_eq_getElem hl, h.applies l c c' _ hc hc' (List.getElem?_eq_getElem hl)⟩

/-- The first layer of a decision whose move fails. -/
structure FirstFault (device : ℕ → Option DeviceFault) (nLayers f : ℕ)
    (fault : DeviceFault) : Prop where
  lt : f < nLayers
  fails : device f = some fault
  before : ∀ l < f, device l = none

theorem FirstFault.unique {device : ℕ → Option DeviceFault} {nLayers f f' : ℕ}
    {fault fault' : DeviceFault} (h : FirstFault device nLayers f fault)
    (h' : FirstFault device nLayers f' fault') : f = f' ∧ fault = fault' := by
  have heq : f = f' := by
    rcases Nat.lt_trichotomy f f' with hlt | heq | hlt
    · cases (h'.before f hlt).symm.trans h.fails
    · exact heq
    · cases (h.before f' hlt).symm.trans h'.fails
  subst heq
  exact ⟨rfl, Option.some.inj (h.fails.symm.trans h'.fails)⟩

theorem firstFault_cases (device : ℕ → Option DeviceFault) (nLayers : ℕ) :
    (∀ l < nLayers, device l = none) ∨ ∃ f fault, FirstFault device nLayers f fault := by
  by_cases hex : ∃ f, f < nLayers ∧ (device f).isSome = true
  · obtain ⟨hlt, hsome⟩ := Nat.find_spec hex
    obtain ⟨fault, hfault⟩ := Option.isSome_iff_exists.mp hsome
    refine .inr ⟨Nat.find hex, fault, hlt, hfault, fun l hl => ?_⟩
    have hmin := Nat.find_min hex hl
    rw [not_and, Option.not_isSome_iff_eq_none] at hmin
    exact hmin (hl.trans hlt)
  · refine .inl fun l hl => ?_
    rw [← Option.not_isSome_iff_eq_none]
    exact fun hsome => hex ⟨l, hl, hsome⟩

theorem Applied.applyLayers (h : Applied P caches plans shared after)
    (hlen : plans.length = caches.length) {device : ℕ → Option DeviceFault}
    (hdevice : ∀ l < caches.length, device l = none) (name : String) :
    applyLayers P device name caches.length plans shared 0 caches = (.ok (), after) := by
  refine applyLayers_ok caches 0 after h.length fun l c c' hc hc' => ?_
  rw [Nat.zero_add, hdevice l (List.getElem?_eq_some_iff.mp hc).1]
  exact h.plan hlen l c c' hc hc'

theorem Applied.applyLayers_fault (h : Applied P caches plans shared after)
    (hlen : plans.length = caches.length) {device : ℕ → Option DeviceFault} {f : ℕ}
    {fault : DeviceFault} (hf : FirstFault device caches.length f fault) (name : String) :
    ∃ text, ArgusEngine.applyLayers P device name caches.length plans shared 0 caches =
      (.error (.err text), after.take f ++ fault.torn :: caches.drop (f + 1)) := by
  refine ArgusEngine.applyLayers_fault caches 0 f after h.length hf.lt (fun l hl => ?_) ?_
    fun l c c' hc hc' => ?_
  · rw [Nat.zero_add, hf.before l hl]
  · rw [Nat.zero_add, hf.fails]
  · rw [Nat.zero_add]
    exact h.plan hlen l c c' hc hc'

/-- The cursor of layer 0 once the plans have landed. -/
def landedCursor (plans : List PlannedKeep) (shared : Option ℕ) : ℕ :=
  (plans.head?.map fun plan => plan.cursor shared).getD 0

theorem Applied.cursor (h : Applied P caches plans shared after)
    (hlen : plans.length = caches.length) :
    (after.head?.map KVCache.currentPos).getD 0 = landedCursor plans shared := by
  unfold landedCursor
  rcases after with - | ⟨c', after⟩
  · rw [List.length_eq_zero_iff.mp (hlen.trans h.length.symm)]
    rfl
  obtain ⟨c, cs, rfl⟩ := List.exists_cons_of_length_eq_add_one h.length.symm
  obtain ⟨plan, plans, rfl⟩ := List.exists_cons_of_length_eq_add_one hlen
  exact (h.landed 0 c c' plan rfl rfl rfl).gathers.pos

end Layers

/-! ## The decision -/

namespace Selector

variable {P : Platform} {sel : Selector P}

/-- **The winner of a decision**: its own answer, within the budget, reported in one of the arms. -/
theorem winner_of_judge {c₀ : KVCache} {cs : List KVCache} {ratio : Ratio} {qRows : QRowCapture}
    {signals : Signals P} {v : Verdict P} (h : sel.judge c₀ cs ratio qRows signals = .ok (.ok v)) :
    ∃ src planned,
      sel.metric.read (c₀ :: cs) qRows = .ok src ∧
      sel.planSignals (c₀ :: cs) src signals = .ok planned ∧ v.winner.cand ∈ sel.candidates ∧
      OwnAnswer sel.nHeadsQ planned (c₀ :: cs) c₀.kvHeads v.winner ∧
      v.winner.keep.total ≤ v.budgetTotal ∧ ∃ score,
      ⟨v.winner.cand.name, score, v.winner.keep.total, v.winner.asked⟩ ∈ arms v := by
  unfold judge at h
  simp only at h
  split_ifs at h
  · cases h
  · cases h
  obtain ⟨src, hsrc, h⟩ := Checked.ok_bind.mp h
  obtain ⟨planned, hplanned, h⟩ := Checked.ok_bind.mp h
  obtain ⟨⟨pool, excluded⟩, hpool, h⟩ := Checked.ok_bind.mp h
  simp only at h
  split_ifs at h with hempty
  · cases h
  obtain ⟨⟨scores, winner⟩, hdecide, h⟩ := Checked.ok_bind.mp h
  simp only at h
  split at h
  · cases h
  rename_i w hw
  cases h
  obtain ⟨hmem, hown, hbudget⟩ := planned_of_mem_planPool _ hpool w (List.mem_of_getElem? hw)
  obtain ⟨hlen, hlt⟩ := lt_of_decideWinner hdecide
  rw [List.length_map] at hlen hlt
  refine ⟨src, planned, hsrc, hplanned, hmem, hown, hbudget, scores[winner], ?_⟩
  refine List.mem_of_getElem? (i := winner) ?_
  unfold arms
  rw [List.getElem?_zipWith, hw, List.getElem?_eq_getElem (hlen ▸ hlt)]

/-- The layers after a decision: the plans of its winner have landed on all of them. -/
structure Compacted (sel : Selector P) (caches : List KVCache) (ratio : Ratio) (qRows : QRowCapture)
    (signals : Signals P) (c₀ : KVCache) (v : Verdict P) (after : List KVCache) : Prop where
  judged : ∃ cs, caches = c₀ :: cs ∧ sel.judge c₀ cs ratio qRows signals = .ok (.ok v)
  applied : Applied P caches v.winner.plans (sharedCursorOf v.winner.plans caches) after

theorem panic_of_carry {signals : Signals P} {nKvHeads currentPos cursorAfter : ℕ}
    {plans : List PlannedKeep} {e : Fail}
    (h : sel.carry signals nKvHeads currentPos cursorAfter plans = .error e) :
    ∃ text, e = .panic text := by
  unfold carry at h
  split at h
  · cases h
  split_ifs at h
  exact panic_of_gather h

/-- What a decision reports of its winner. -/
def report (v : Verdict P) (before after : List KVCache)
    (attn : Option (PrefillAttn P.F)) : Choice P :=
  ⟨v.winner.cand.name, arms v, v.excluded, meanResident before, meanResident after, v.budgetTotal,
    v.targetLen, attn⟩

theorem chooseAndApply_judge (sel : Selector P) (device : ℕ → Option DeviceFault)
    (caches : List KVCache) (ratio : Ratio) (qRows : QRowCapture) (signals : Signals P) :
    (∃ r, (∀ choice, r ≠ .ok (.ok choice)) ∧
      (∀ c₀ cs v, caches = c₀ :: cs → sel.judge c₀ cs ratio qRows signals ≠ .ok (.ok v)) ∧
      sel.chooseAndApply device caches ratio qRows signals = ⟨r, caches, qRows⟩) ∨
    ∃ c₀ cs v, caches = c₀ :: cs ∧ sel.judge c₀ cs ratio qRows signals = .ok (.ok v) ∧
      sel.chooseAndApply device caches ratio qRows signals =
        sel.applyWinner device c₀ cs qRows signals v := by
  cases caches with
  | nil => exact .inl ⟨_, fun choice h => (by cases h), fun c₀ cs v h => (by cases h), rfl⟩
  | cons c₀ cs =>
    cases hjudge : sel.judge c₀ cs ratio qRows signals with
    | error e =>
      refine .inl ⟨.error e, fun choice h => (by cases h), fun c₁ cs₁ v h hok => ?_, ?_⟩
      · cases h
        cases hjudge.symm.trans hok
      · simp only [chooseAndApply, hjudge]
    | ok verdict =>
      cases verdict with
      | error no =>
        refine .inl ⟨.ok (.error no), fun choice h => (by cases h), fun c₁ cs₁ v h hok => ?_, ?_⟩
        · cases h
          cases hjudge.symm.trans hok
        · simp only [chooseAndApply, hjudge]
      | ok v =>
        refine .inr ⟨c₀, cs, v, rfl, hjudge, ?_⟩
        simp only [chooseAndApply, hjudge]

section Winner

variable {c₀ : KVCache} {cs : List KVCache} {v : Verdict P} {after : List KVCache}
  {device : ℕ → Option DeviceFault}

/-- The winner on a device that does not fail. -/
theorem applyWinner_ok (sel : Selector P)
    (happlied : Applied P (c₀ :: cs)
      v.winner.plans (sharedCursorOf v.winner.plans (c₀ :: cs)) after)
    (hlen : v.winner.plans.length = (c₀ :: cs).length)
    (hdevice : ∀ l < (c₀ :: cs).length, device l = none) (qRows : QRowCapture)
    (signals : Signals P) : (sel.applyWinner device c₀ cs qRows signals v).caches = after ∧
    ∀ carried, sel.carry signals c₀.kvHeads c₀.currentPos
        (landedCursor v.winner.plans (sharedCursorOf v.winner.plans (c₀ :: cs)))
          v.winner.plans = carried →
      (sel.applyWinner device c₀ cs qRows signals v).result =
        carried.map fun attn => .ok (report v (c₀ :: cs) after attn) := by
  rw [← happlied.cursor hlen]
  simp only [applyWinner, happlied.applyLayers hlen hdevice]
  split
  · rename_i e hcarry
    exact ⟨rfl, fun carried h => h ▸ hcarry ▸ rfl⟩
  · rename_i attn hcarry
    exact ⟨rfl, fun carried h => h ▸ hcarry ▸ rfl⟩

theorem applyWinner_fault (sel : Selector P)
    (happlied : Applied P (c₀ :: cs)
      v.winner.plans (sharedCursorOf v.winner.plans (c₀ :: cs)) after)
    (hlen : v.winner.plans.length = (c₀ :: cs).length) {f : ℕ} {fault : DeviceFault}
    (hf : FirstFault device (c₀ :: cs).length f fault) (qRows : QRowCapture) (signals : Signals P) :
    ∃ text, sel.applyWinner device c₀ cs qRows signals v =
      ⟨.error (.err text), after.take f ++ fault.torn :: (c₀ :: cs).drop (f + 1), qRows⟩ := by
  obtain ⟨text, happly⟩ := happlied.applyLayers_fault hlen hf v.winner.cand.name
  refine ⟨text, ?_⟩
  simp only [applyWinner, happly]

end Winner

/-- **What a decision can do**, on a device that does not fail: leave the layers as they are, or
compact all of them by the plans of its winner. -/
theorem chooseAndApply_cases (sel : Selector P) {caches : List KVCache} (ratio : Ratio)
    (qRows : QRowCapture) (signals : Signals P) (hwf : ∀ c ∈ caches, c.WF) :
    (∃ r, (∀ choice, r ≠ .ok (.ok choice)) ∧
      sel.chooseAndApply (fun _ => none) caches ratio qRows signals = ⟨r, caches, qRows⟩) ∨
    ∃ c₀ v after, Compacted sel caches ratio qRows signals c₀ v after ∧
      (sel.chooseAndApply (fun _ => none) caches ratio qRows signals).caches = after ∧
      ((∃ text, (sel.chooseAndApply (fun _ => none) caches ratio qRows signals).result =
        .error (.panic text)) ∨
        ∃ attn, sel.carry signals c₀.kvHeads c₀.currentPos
          ((after.head?.map KVCache.currentPos).getD 0)
            v.winner.plans = .ok attn ∧
          (sel.chooseAndApply (fun _ => none) caches ratio qRows signals).result =
            .ok (.ok (report v caches after attn))) := by
  rcases sel.chooseAndApply_judge (fun _ => none) caches ratio qRows signals with
    ⟨r, hr, -, hout⟩ | ⟨c₀, cs, v, rfl, hjudge, hout⟩
  · exact .inl ⟨r, hr, hout⟩
  rw [hout]
  obtain ⟨src, planned, -, -, -, hanswer, -⟩ := winner_of_judge hjudge
  obtain ⟨after, happlied⟩ := hanswer.applied hwf
  obtain ⟨hcaches, hresult⟩ :=
    applyWinner_ok sel happlied hanswer.length (fun _ _ => rfl) qRows signals
  refine .inr ⟨c₀, v, after, ⟨⟨cs, rfl, hjudge⟩, happlied⟩, hcaches, ?_⟩
  rw [happlied.cursor hanswer.length, hresult _ rfl]
  cases hcarry : sel.carry signals c₀.kvHeads c₀.currentPos
      (landedCursor v.winner.plans (sharedCursorOf v.winner.plans (c₀ :: cs))) v.winner.plans with
  | error e =>
    obtain ⟨text, rfl⟩ := panic_of_carry hcarry
    exact .inl ⟨text, rfl⟩
  | ok attn => exact .inr ⟨attn, rfl, rfl⟩

end Selector

end ArgusEngine
