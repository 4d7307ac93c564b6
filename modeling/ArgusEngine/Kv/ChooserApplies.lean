import ArgusEngine.Kv.ChooserPlans

/-!
# The chooser applies what it measured

The winner is applied from the lists that were read back and scored. What its callback staged beside
the keep is not among them, and a layer that fails leaves the layers before it compacted.

* `WinnerLands`: the layers are left as the winner's own commits would leave them;
* `AppliesMeasured`: a choice lands, and nothing moves where there is none;
* `Unharmed`: the condition, of the winner of the decision and of the layers that its plans go to;
* **`appliesMeasured_iff`**: the chooser applies what it measured exactly under that condition.
-/

namespace ArgusEngine

open KVCache SlotMem

/-- `c'` is `own` with every head moved up onto its own cursor, which is not below. -/
structure Realigned (own c' : KVCache) : Prop where
  format : c'.format = own.format
  le : own.currentPos ≤ c'.currentPos
  starts : ∀ h < own.kvHeads, c'.headStartOf h = own.headStartOf h +
    (c'.currentPos - own.currentPos)
  rows : ∀ x, ∀ h < own.kvHeads, ∀ i, own.headStartOf h ≤ i → i < own.currentPos →
    c'.rowsOf x h (i + (c'.currentPos - own.currentPos)) = own.rowsOf x h i

theorem Realigned.refl (c : KVCache) : Realigned c c := by
  refine ⟨rfl, le_rfl, fun h _ => ?_, fun x h _ i _ _ => ?_⟩
  · rw [Nat.sub_self, Nat.add_zero]
  · rw [Nat.sub_self, Nat.add_zero]

theorem Realigned.kvHeads {own c' : KVCache} (h : Realigned own c') : c'.kvHeads = own.kvHeads :=
  congrArg Format.kvHeads h.format

theorem Realigned.trans {own alone c' : KVCache} (h : Realigned own alone)
    (h' : Realigned alone c') : Realigned own c' := by
  have hheads := h.kvHeads
  have hle := h.le
  have hle' := h'.le
  refine ⟨h'.format.trans h.format, hle.trans hle', fun k hk => ?_, fun x k hk i hlo hhi => ?_⟩
  · rw [h'.starts k (hheads.symm ▸ hk), h.starts k hk]
    omega
  · have hstart := h.starts k hk
    have hrow := h'.rows x k (hheads.symm ▸ hk) (i + (alone.currentPos - own.currentPos))
      (by omega) (by omega)
    rw [h.rows x k hk i hlo hhi] at hrow
    rw [← hrow]
    congr 1
    omega

theorem Realigned.cancel {own alone c' : KVCache} (h : Realigned own c') (h' : Realigned alone c')
    (hpos : own.currentPos = alone.currentPos) : Realigned own alone := by
  have hformat : alone.format = own.format := h'.format.symm.trans h.format
  have hheads : alone.kvHeads = own.kvHeads := congrArg Format.kvHeads hformat
  have hstarts : ∀ k < own.kvHeads, alone.headStartOf k = own.headStartOf k := by
    intro k hk
    have hstart := (h'.starts k (hheads ▸ hk)).symm.trans (h.starts k hk)
    rw [hpos] at hstart
    exact Nat.add_right_cancel hstart
  refine ⟨hformat, hpos.le, fun k hk => ?_, fun x k hk i hlo hhi => ?_⟩
  · rw [hpos, Nat.sub_self, Nat.add_zero, hstarts k hk]
  · rw [hpos, Nat.sub_self, Nat.add_zero]
    have hrow := h.rows x k hk i hlo hhi
    rw [hpos] at hrow
    rw [← hrow]
    exact (h'.rows x k (hheads ▸ hk) i (hstarts k hk ▸ hlo) (hpos ▸ hhi)).symm

/-- Every layer has a plan of its own for each head. -/
def PerHead (plans : List PlannedKeep) : Prop := ∀ p ∈ plans, ∃ heads, p = .perHead heads

section Lands

variable {P : Platform}

/-- The lists scored for the winner stay within the budget; every layer is left as the commit of the
winner's own callback, at the reported ask, would leave it, up to a cursor that the layers share. -/
structure WinnerLands (nHeadsQ nKvHeads : ℕ) (signals : Signals P) (w : Planned P) (budgetTotal : ℕ)
    (before after : List KVCache) : Prop where
  plans_length : w.plans.length = before.length
  after_length : after.length = before.length
  total : w.keep.total = (w.plans.map (PlannedKeep.size nKvHeads)).sum
  budget : w.keep.total ≤ budgetTotal
  lands : ∀ (l : ℕ) c c' plan, before[l]? = some c → after[l]? = some c' →
    w.plans[l]? = some plan → ∃ h own, OwnKeep nHeadsQ w.cand signals before.length w.asked l c plan
      h ∧ h.commit = (.ok true, own, none) ∧
    (c' = own ∨ PerHead w.plans ∧ Realigned own c')
  oneCursor : PerHead w.plans → ∃ n, ∀ c' ∈ after, c'.currentPos = n

/-- A choice lands the winner that was measured; a decision without a choice moves nothing. -/
structure AppliesMeasured (sel : Selector P) (caches : List KVCache) (ratio : Ratio)
    (qRows : QRowCapture) (signals : Signals P) (out : Selector.Outcome P) : Prop where
  choice : ∀ choice, out.result = .ok (.ok choice) → ∃ c₀ cs src planned v score,
    caches = c₀ :: cs ∧ sel.metric.read caches qRows = .ok src ∧
    sel.planSignals caches src signals = .ok planned ∧
    sel.judge c₀ cs ratio qRows signals = .ok (.ok v) ∧ v.winner.cand ∈ sel.candidates ∧
    choice.winner = v.winner.cand.name ∧
    ⟨v.winner.cand.name, score, v.winner.keep.total, v.winner.asked⟩ ∈ choice.arms ∧
    WinnerLands sel.nHeadsQ c₀.kvHeads planned v.winner choice.budgetTotal caches out.caches
  noChoice : ∀ no, out.result = .ok (.error no) → out.caches = caches
  err : ∀ text, out.result = .error (.err text) → out.caches = caches

/-- What `h` staged beside its keep changes nothing that the keep leaves: the commit of all of it
and the keep alone come to the same cache, or, under a per-head answer, to the same format, starts
and resident rows. -/
def KeepDecides (perHead : Prop) (c : KVCache) (plan : PlannedKeep)
    (h : EngineCacheHandle P) : Prop :=
  ∃ own alone, h.commit = (.ok true, own, none) ∧ plan.call.step c = .ok alone ∧
    (alone = own ∨ perHead ∧ Realigned own alone)

/-- The winner of a decision, and the layers that it goes to. Where a move fails, the layers before
it and the torn one are as they were; where none fails and the capture is carried, the keeps decide
what the layers hold. -/
structure Unharmed (sel : Selector P) (device : ℕ → Option DeviceFault)
    (signals planned : Signals P) (c₀ : KVCache) (cs : List KVCache) (v : Verdict P) : Prop where
  fault : ∀ f fault, FirstFault device (c₀ :: cs).length f fault →
    (c₀ :: cs)[f]? = some fault.torn ∧
    ∀ j < f, ∀ c plan, (c₀ :: cs)[j]? = some c → v.winner.plans[j]? = some plan →
      applyPlanned P none c j (c₀ :: cs).length plan
        (sharedCursorOf v.winner.plans (c₀ :: cs)) = (.ok (), c)
  keeps : (∀ l < (c₀ :: cs).length, device l = none) →
    ∀ attn, sel.carry signals c₀.kvHeads c₀.currentPos
      (landedCursor v.winner.plans (sharedCursorOf v.winner.plans (c₀ :: cs)))
        v.winner.plans = .ok attn →
    ∀ (l : ℕ) c plan h, (c₀ :: cs)[l]? = some c → v.winner.plans[l]? = some plan →
      OwnKeep sel.nHeadsQ v.winner.cand planned (c₀ :: cs).length v.winner.asked l c plan h →
      KeepDecides (PerHead v.winner.plans) c plan h

/-! ## The own commit -/

theorem commit_of_values {h : EngineCacheHandle P} {c own : KVCache}
    {keep : KeepCall} {mutated : Bool} (hkeep : h.compaction = some keep.compaction)
    (hvalues : h.commitValues.1 = .ok (c, mutated)) (hstep : keep.step c = .ok own) :
    h.commit = (.ok true, own, h.swap) := by
  have hcompact : h.commitCompaction c mutated = (.ok true, own, h.swap) := by
    unfold EngineCacheHandle.commitCompaction
    rw [hkeep]
    cases keep with
    | keep positions =>
      unfold KeepCall.step at hstep
      simp only [KeepCall.compaction] at hstep ⊢
      cases hmove : c.compactKeepPositions positions 0 with
      | error e =>
        rw [hmove] at hstep
        cases hstep
      | ok c₁ =>
        rw [hmove] at hstep
        cases hstep
        rfl
    | keepPerHead positions =>
      unfold KeepCall.step at hstep
      simp only [KeepCall.compaction] at hstep ⊢
      rw [hstep]
  unfold EngineCacheHandle.commit
  rcases hcommit : h.commitValues with ⟨values, left⟩
  rw [hcommit] at hvalues
  obtain rfl : values = .ok (c, mutated) := hvalues
  exact hcompact

theorem Gathers.realigned {c own c' : KVCache} {n n' : ℕ} {L : ℕ → List ℕ} (h : Gathers c own n L)
    (h' : Gathers c c' n' L) (hle : n ≤ n') (hlong : ∀ k < c.kvHeads, (L k).length ≤ n) :
    Realigned own c' := by
  have hheads : own.kvHeads = c.kvHeads := congrArg Format.kvHeads h.format
  refine ⟨h'.format.trans h.format.symm,
    by rw [h.pos, h'.pos]; exact hle, fun k hk => ?_, fun x k hk i hlo hhi => ?_⟩
  · have := hlong k (hheads ▸ hk)
    rw [h.starts k (hheads ▸ hk), h'.starts k (hheads ▸ hk), h.pos, h'.pos]
    omega
  · have hfit := hlong k (hheads ▸ hk)
    rw [h.starts k (hheads ▸ hk)] at hlo
    rw [h.pos] at hhi ⊢
    rw [h'.pos]
    have hi : i - (n - (L k).length) < (L k).length := by omega
    have hrow := h.rows x k (hheads ▸ hk) _ hi
    have hrow' := h'.rows x k (hheads ▸ hk) _ hi
    rw [show n - (L k).length + (i - (n - (L k).length)) = i by omega] at hrow
    rw [show n' - (L k).length + (i - (n - (L k).length)) = i + (n' - n) by omega] at hrow'
    rw [hrow, hrow']

theorem KeepCall.list_length_le {c : KVCache} {keep : KeepCall} (hacc : keep.Accepted c) {k : ℕ}
    (hk : k < c.kvHeads) : (keep.list k).length ≤ keep.longest := by
  cases keep with
  | keep positions => exact le_rfl
  | keepPerHead positions =>
    have hk' : k < positions.length := hacc.2.1 ▸ hk
    simp only [KeepCall.list, KeepCall.longest]
    rw [List.getD_eq_getElem _ _ hk']
    exact (foldl_max_le.mp le_rfl).2 _ (List.mem_map_of_mem (List.getElem_mem hk'))

theorem KeepCall.longest_le {c : KVCache} {keep : KeepCall} (hacc : keep.Accepted c) :
    keep.longest ≤ c.currentPos := by
  cases keep with
  | keep positions => exact length_le_of_pairwise hacc.1 hacc.2.1
  | keepPerHead positions =>
    refine ArgusEngine.longest_le (fun l hl => ?_) fun l hl => ?_
    · obtain ⟨i, hi, rfl⟩ := List.getElem_of_mem hl
      exact (hacc.2.2.1 i hi).2.1
    · obtain ⟨i, hi, rfl⟩ := List.getElem_of_mem hl
      exact (hacc.2.2.1 i hi).1

/-- A per-head keep, with whatever is staged beside it, leaves the cursor at its longest list. -/
theorem currentPos_of_commit {h : EngineCacheHandle P} {heads : List (List ℕ)}
    {own : KVCache} {mutated : Bool} {swap : Option SwapHandler}
    (hkeep : h.compaction = some (KeepCall.keepPerHead heads).compaction)
    (hcommit : h.commit = (.ok mutated, own, swap)) :
    own.currentPos = (KeepCall.keepPerHead heads).longest := by
  unfold EngineCacheHandle.commit at hcommit
  split at hcommit
  · cases hcommit
  rename_i c values _ _
  unfold EngineCacheHandle.commitCompaction at hcommit
  rw [hkeep] at hcommit
  simp only [KeepCall.compaction] at hcommit
  split at hcommit
  · cases hcommit
  rename_i c' hstep
  cases hcommit
  unfold commitPerHeadKeep commitPerHeadKeepAt at hstep
  simp only at hstep
  split at hstep
  · cases hstep
  rename_i c₁ _
  cases hstep
  exact (setCurrentPos_same c₁ _).1

end Lands

/-! ## What the chooser applies -/

section Chooser

variable {P : Platform}

/-- **A layer lands exactly where what is staged beside the keep changes nothing that the keep
leaves.** -/
theorem lands_iff {nHeadsQ nLayers ask l : ℕ} {signals : Signals P}
    {cand : Candidate P} {c c' : KVCache} {plan : PlannedKeep} {shared : Option ℕ}
    {h : EngineCacheHandle P} {perHead : Prop} (hc : c.WF)
    (hown : OwnKeep nHeadsQ cand signals nLayers ask l c plan h) (hlanded : Landed c c' plan shared)
    (hfits : CursorFits c plan shared) (hper : shared.isSome → perHead) :
    KeepDecides perHead c plan h ↔
      ∃ own, h.commit = (.ok true, own, none) ∧ (c' = own ∨ perHead ∧ Realigned own c') := by
  have hkeep := compaction_of_plannedKeepOf hown.keep
  have hacc := hown.accepted
  obtain ⟨alone, -, hstep, hG⟩ := applyKeep_ok (P := P) hc hacc l nLayers
  have hdecides : KeepDecides perHead c plan h ↔
      ∃ own, h.commit = (.ok true, own, none) ∧ (alone = own ∨ perHead ∧ Realigned own alone) := by
    constructor
    · rintro ⟨own, alone', hcommit, hstep', h⟩
      obtain rfl := Except.ok.inj (hstep'.symm.trans hstep)
      exact ⟨own, hcommit, h⟩
    · rintro ⟨own, hcommit, h⟩
      exact ⟨own, alone, hcommit, hstep, h⟩
  rw [hdecides]
  rcases hlanded.own with hsame | ⟨heads, rfl, hshared⟩
  · rw [← Except.ok.inj (hsame.symm.trans hstep)]
  -- the layer is the keep alone, moved up onto the shared cursor
  obtain ⟨cursor, rfl⟩ := Option.isSome_iff_exists.mp hshared
  obtain ⟨hlong, -⟩ := hfits cursor rfl heads rfl
  have hmoved : Realigned alone c' := hG.realigned hlanded.gathers hlong fun k hk =>
    KeepCall.list_length_le hacc hk
  refine exists_congr fun own => and_congr_right fun hcommit => ⟨?_, ?_⟩
  · rintro (rfl | ⟨-, hr⟩)
    · exact .inr ⟨hper rfl, hmoved⟩
    · exact .inr ⟨hper rfl, hr.trans hmoved⟩
  · have hpos : own.currentPos = alone.currentPos :=
      (currentPos_of_commit hkeep hcommit).trans hG.pos.symm
    rintro (rfl | ⟨-, hr⟩)
    · exact .inr ⟨hper rfl, (Realigned.refl c').cancel hmoved hpos⟩
    · exact .inr ⟨hper rfl, hr.cancel hmoved hpos⟩

theorem keepDecides_of_values {nHeadsQ nLayers ask l : ℕ} {signals : Signals P}
    {cand : Candidate P} {c : KVCache} {plan : PlannedKeep} {h : EngineCacheHandle P}
    {perHead : Prop} {mutated : Bool} (hc : c.WF)
    (hown : OwnKeep nHeadsQ cand signals nLayers ask l c plan h)
    (hvalues : h.commitValues.1 = .ok (c, mutated)) : KeepDecides perHead c plan h := by
  obtain ⟨alone, -, hstep, -⟩ := applyKeep_ok (P := P) hc hown.accepted l nLayers
  have hcommit := commit_of_values (compaction_of_plannedKeepOf hown.keep) hvalues hstep
  rw [hown.cache_swap.2] at hcommit
  exact ⟨alone, alone, hcommit, hstep, .inl rfl⟩

variable {sel : Selector P} {caches : List KVCache} {ratio : Ratio} {qRows : QRowCapture}
  {signals : Signals P}

/-- **The layers share a cursor exactly where every plan is per head.** -/
theorem OwnAnswer.perHead_iff {nHeadsQ nKvHeads : ℕ} {planned : Signals P} {w : Planned P}
    (hanswer : OwnAnswer nHeadsQ planned caches nKvHeads w) (hheads : ∀ c ∈ caches, 0 < c.kvHeads)
    (hshared : ∀ c ∈ caches, ∀ c' ∈ caches, c.currentPos = c'.currentPos) (hne : caches ≠ []) :
    PerHead w.plans ↔ (sharedCursorOf w.plans caches).isSome := by
  constructor
  · intro hper
    refine isSome_sharedCursorOf (fun h => hne ?_) fun p hp => ?_
    · rw [← List.length_eq_zero_iff, ← hanswer.length, h, List.length_nil]
    obtain ⟨heads, rfl⟩ := hper p hp
    obtain ⟨l, hl⟩ := List.mem_iff_getElem?.mp hp
    obtain ⟨c, hc⟩ : ∃ c, caches[l]? = some c :=
      ⟨_, List.getElem?_eq_getElem (hanswer.length ▸ (List.getElem?_eq_some_iff.mp hl).1)⟩
    have hmem := List.mem_of_getElem? hc
    have hacc := hanswer.accepted hc hl
    refine ⟨heads, rfl, fun h => ?_, fun d hd => hshared c hmem d hd ▸ KeepCall.longest_le hacc⟩
    have hcount : heads.length = c.kvHeads := hacc.2.1
    have hpos := hheads c hmem
    rw [h, List.length_nil] at hcount
    omega
  · intro hsome p hp
    obtain ⟨cursor, hcursor⟩ := Option.isSome_iff_exists.mp hsome
    obtain ⟨heads, rfl, -⟩ := (fits_of_sharedCursorOf hcursor).1 p hp
    exact ⟨heads, rfl⟩

/-- The winner of a decision has landed exactly where the keeps decide. -/
theorem winnerLands_iff {nHeadsQ nKvHeads : ℕ} {planned : Signals P} {w : Planned P}
    {budgetTotal : ℕ} {after : List KVCache} (hwf : ∀ c ∈ caches, c.WF)
    (hanswer : OwnAnswer nHeadsQ planned caches nKvHeads w)
    (hper : PerHead w.plans ↔ (sharedCursorOf w.plans caches).isSome)
    (hbudget : w.keep.total ≤ budgetTotal)
    (happlied : Applied P caches w.plans (sharedCursorOf w.plans caches) after) :
    WinnerLands nHeadsQ nKvHeads planned w budgetTotal caches after ↔
      ∀ (l : ℕ) c plan h, caches[l]? = some c → w.plans[l]? = some plan →
        OwnKeep nHeadsQ w.cand planned caches.length w.asked l c plan h →
        KeepDecides (PerHead w.plans) c plan h := by
  have hlayer : ∀ (l : ℕ) c c' plan h, caches[l]? = some c → after[l]? = some c' →
      w.plans[l]? = some plan → OwnKeep nHeadsQ w.cand planned caches.length w.asked l c plan h →
      (KeepDecides (PerHead w.plans) c plan h ↔ ∃ own, h.commit = (.ok true, own, none) ∧
        (c' = own ∨ PerHead w.plans ∧ Realigned own c')) := by
    intro l c c' plan h hc hc' hp hown
    have hmem := List.mem_of_getElem? hc
    exact lands_iff (hwf c hmem) hown (happlied.landed l c c' plan hc hc' hp)
      (cursorFits_sharedCursorOf (List.mem_of_getElem? hp) hmem) hper.mpr
  constructor
  · intro hlands l c plan h hc hp hown
    have hl : l < after.length := happlied.length ▸ (List.getElem?_eq_some_iff.mp hc).1
    have hc' : after[l]? = some after[l] := List.getElem?_eq_getElem hl
    obtain ⟨h', own, hown', hcommit, heq⟩ := hlands.lands l c _ plan hc hc' hp
    obtain rfl := Except.ok.inj (hown'.handle.symm.trans hown.handle)
    exact (hlayer l c _ plan _ hc hc' hp hown).mpr ⟨own, hcommit, heq⟩
  · intro hkeeps
    refine ⟨hanswer.length, happlied.length, hanswer.total, hbudget,
      fun l c c' plan hc hc' hp => ?_, fun hall => ?_⟩
    · obtain ⟨h, hown⟩ := hanswer.own l c plan hc hp
      obtain ⟨own, hcommit, heq⟩ :=
        (hlayer l c c' plan h hc hc' hp hown).mp (hkeeps l c plan h hc hp hown)
      exact ⟨h, own, hown, hcommit, heq⟩
    · obtain ⟨cursor, hcursor⟩ := Option.isSome_iff_exists.mp (hper.mp hall)
      refine ⟨cursor, fun c' hc' => ?_⟩
      obtain ⟨l, hl⟩ := List.mem_iff_getElem?.mp hc'
      obtain ⟨c, hc⟩ : ∃ c, caches[l]? = some c :=
        ⟨_, List.getElem?_eq_getElem (happlied.length ▸ (List.getElem?_eq_some_iff.mp hl).1)⟩
      obtain ⟨plan, hp, -⟩ := happlied.plan hanswer.length l c c' hc hl
      obtain ⟨heads, rfl⟩ := hall plan (List.mem_of_getElem? hp)
      have hpos := (happlied.landed l c c' _ hc hl hp).gathers.pos
      rwa [hcursor] at hpos

theorem torn_eq_iff {α : Type} {before after : List α} {f : ℕ} {torn : α}
    (hlen : after.length = before.length) (hf : f < before.length) :
    after.take f ++ torn :: before.drop (f + 1) = before ↔
      before[f]? = some torn ∧ ∀ j < f, after[j]? = before[j]? := by
  have hsplit : before.take f ++ before[f] :: before.drop (f + 1) = before := by
    rw [← List.drop_eq_getElem_cons hf, List.take_append_drop]
  have htakes : (after.take f).length = (before.take f).length := by
    rw [List.length_take, List.length_take, hlen]
  have hget : before[f]? = some before[f] := List.getElem?_eq_getElem hf
  constructor
  · intro h
    obtain ⟨htake, htorn⟩ := List.append_inj (h.trans hsplit.symm) htakes
    refine ⟨hget.trans (congrArg some (List.cons.inj htorn).1.symm), fun j hj => ?_⟩
    rw [← List.getElem?_take_of_lt hj, htake, List.getElem?_take_of_lt hj]
  · rintro ⟨htorn, hbefore⟩
    have htake : after.take f = before.take f := by
      refine List.ext_getElem? fun j => ?_
      rw [List.getElem?_take, List.getElem?_take]
      split_ifs with hj
      · exact hbefore j hj
      · rfl
    rw [htake, Option.some.inj (htorn.symm.trans hget)]
    exact hsplit

/-- A fault moves nothing exactly where the layers before it and the torn one are as they were. -/
theorem fault_unharmed_iff {plans : List PlannedKeep} {shared : Option ℕ} {after : List KVCache}
    {device : ℕ → Option DeviceFault} {f : ℕ} {fault : DeviceFault}
    (happlied : Applied P caches plans shared after) (hlen : plans.length = caches.length)
    (hf : FirstFault device caches.length f fault) :
    after.take f ++ fault.torn :: caches.drop (f + 1) = caches ↔
      caches[f]? = some fault.torn ∧ ∀ j < f, ∀ c plan, caches[j]? = some c →
        plans[j]? = some plan →
        applyPlanned P none c j caches.length plan shared = (.ok (), c) := by
  rw [torn_eq_iff happlied.length hf.lt]
  refine and_congr_right fun _ => forall₂_congr fun j hj => ?_
  have hj' : j < caches.length := hj.trans hf.lt
  have hc : caches[j]? = some caches[j] := List.getElem?_eq_getElem hj'
  have hj'' : j < after.length := happlied.length ▸ hj'
  have hc' : after[j]? = some after[j] := List.getElem?_eq_getElem hj''
  obtain ⟨plan, hplan, happly⟩ := happlied.plan hlen j _ _ hc hc'
  rw [hc, hc']
  constructor
  · intro heq c plan' hcj hp
    obtain rfl := Option.some.inj hcj
    obtain rfl := Option.some.inj (hplan.symm.trans hp)
    rwa [Option.some.inj heq] at happly
  · intro h
    have hsame := congrArg Prod.snd (happly.symm.trans (h _ _ rfl hplan))
    exact congrArg some hsame

/-- **The chooser applies what it measured exactly where the winner of its decision is
unharmed.** -/
theorem appliesMeasured_iff (sel : Selector P) (caches : List KVCache) (ratio : Ratio)
    (qRows : QRowCapture) (signals : Signals P) (device : ℕ → Option DeviceFault)
    (hwf : ∀ c ∈ caches, c.WF) (hheads : ∀ c ∈ caches, 0 < c.kvHeads)
    (hshared : ∀ c ∈ caches, ∀ c' ∈ caches, c.currentPos = c'.currentPos) :
    AppliesMeasured sel caches ratio qRows signals
      (sel.chooseAndApply device caches ratio qRows signals) ↔ ∀ c₀ cs src planned v,
      caches = c₀ :: cs → sel.metric.read caches qRows = .ok src →
        sel.planSignals caches src signals = .ok planned →
        sel.judge c₀ cs ratio qRows signals = .ok (.ok v) →
        Unharmed sel device signals planned c₀ cs v := by
  rcases sel.chooseAndApply_judge device caches ratio qRows signals with
    ⟨r, hr, hnone, hout⟩ | ⟨c₀, cs, v, rfl, hjudge, hout⟩
  · rw [hout]
    refine ⟨fun _ c₀ cs src planned v h _ _ hv => absurd hv (hnone c₀ cs v h), fun _ => ?_⟩
    exact ⟨fun choice h => absurd h (hr choice), fun no h => rfl, fun text h => rfl⟩
  obtain ⟨src, planned, hsrc, hplanned, hmem, hanswer, hbudget, score, harm⟩ :=
    Selector.winner_of_judge hjudge
  obtain ⟨after, happlied⟩ := hanswer.applied hwf
  have hper := hanswer.perHead_iff hheads hshared (List.cons_ne_nil c₀ cs)
  rw [hout]
  rcases firstFault_cases device (c₀ :: cs).length with hdevice | ⟨f, fault, hf⟩
  · obtain ⟨hcaches, hresult⟩ :=
      Selector.applyWinner_ok sel happlied hanswer.length hdevice qRows signals
    constructor
    · -- the layers are what the winner's own commits leave
      intro h c₁ cs₁ src₁ planned₁ v₁ hcons hsrc₁ hplanned₁ hjudge₁
      obtain ⟨rfl, rfl⟩ := List.cons.inj hcons
      obtain rfl := Except.ok.inj (Except.ok.inj (hjudge.symm.trans hjudge₁))
      obtain rfl := Except.ok.inj (hsrc.symm.trans hsrc₁)
      obtain rfl := Except.ok.inj (hplanned.symm.trans hplanned₁)
      refine ⟨fun f fault hf => ?_, fun _ attn hcarry => ?_⟩
      · cases (hdevice f hf.lt).symm.trans hf.fails
      obtain ⟨c₂, cs₂, src₂, planned₂, v₂, -, hcons, hsrc₂, hplanned₂, hjudge₂, -, -, -, hlands⟩ :=
        h.choice _ (hresult _ hcarry)
      obtain ⟨rfl, rfl⟩ := List.cons.inj hcons
      obtain rfl := Except.ok.inj (Except.ok.inj (hjudge.symm.trans hjudge₂))
      obtain rfl := Except.ok.inj (hsrc.symm.trans hsrc₂)
      obtain rfl := Except.ok.inj (hplanned.symm.trans hplanned₂)
      rw [hcaches] at hlands
      exact (winnerLands_iff hwf hanswer hper hbudget happlied).mp hlands
    · intro h
      have hunharmed := h c₀ cs src planned v rfl hsrc hplanned hjudge
      cases hcarry : sel.carry signals c₀.kvHeads c₀.currentPos
          (landedCursor v.winner.plans (sharedCursorOf v.winner.plans (c₀ :: cs)))
            v.winner.plans with
      | error e =>
        obtain ⟨text, rfl⟩ := Selector.panic_of_carry hcarry
        have hpanic := hresult _ hcarry
        refine ⟨fun choice h => ?_, fun no h => ?_, fun text' h => ?_⟩ <;> cases hpanic.symm.trans h
      | ok attn =>
        have hchoice := hresult _ hcarry
        refine ⟨fun choice h => ?_, fun no h => ?_, fun text h => ?_⟩ <;> cases hchoice.symm.trans h
        rw [hcaches]
        exact ⟨c₀, cs, src, planned, v, score, rfl, hsrc, hplanned, hjudge, hmem, rfl, harm,
          (winnerLands_iff hwf hanswer hper hbudget happlied).mpr
            (hunharmed.keeps hdevice attn hcarry)⟩
  · obtain ⟨text, hfault⟩ := Selector.applyWinner_fault sel happlied hanswer.length hf qRows signals
    rw [hfault]
    constructor
    · intro h c₁ cs₁ src₁ planned₁ v₁ hcons _ _ hjudge₁
      obtain ⟨rfl, rfl⟩ := List.cons.inj hcons
      obtain rfl := Except.ok.inj (Except.ok.inj (hjudge.symm.trans hjudge₁))
      refine ⟨fun f' fault' hf' => ?_, fun hdevice => ?_⟩
      · obtain ⟨rfl, rfl⟩ := hf.unique hf'
        exact (fault_unharmed_iff happlied hanswer.length hf).mp (h.err text rfl)
      · cases (hdevice f hf.lt).symm.trans hf.fails
    · intro h
      have hunharmed := h c₀ cs src planned v rfl hsrc hplanned hjudge
      have hsame := (fault_unharmed_iff happlied hanswer.length hf).mpr (hunharmed.fault f fault hf)
      exact ⟨fun choice h => (by cases h), fun no h => (by cases h), fun text h => hsame⟩

end Chooser

/-! ## Two layers and one technique -/

/-- A technique that makes the same calls on every layer. -/
def fixedCandidate (calls : List (HandleCall .fixedPoint)) : Candidate .fixedPoint :=
  ⟨"fixed", "fixed", false, 0, fun _ => .ok calls⟩

def fixedMetric : Metric .fixedPoint :=
  ⟨Unit, fun _ _ => .ok (), fun _ _ => .ok [], fun _ _ => .ok (0 : Int), fun _ _ => false⟩

/-- A pool of that technique alone, for two query heads. -/
def fixedSelector (calls : List (HandleCall .fixedPoint)) (nLayers : ℕ) : Selector .fixedPoint :=
  ⟨[fixedCandidate calls], nLayers, 2, 2, 1, fixedMetric, List.cons_ne_nil _ _⟩

/-- The ring holds the last of three rows. -/
def lastRow : QRowCapture := ⟨1, [some 2], 0⟩

def noSignals : Signals .fixedPoint := ⟨none, none, none, none⟩

theorem commitValues_fixedCandidate (keep : KeepCall) {ctx : StageCtx .fixedPoint}
    {h : EngineCacheHandle .fixedPoint} (hh : (fixedCandidate [keep.call]).handle ctx = .ok h) :
    h.commitValues.1 = .ok (ctx.cache, false) := by
  obtain ⟨calls, hcalls, rfl⟩ := handle_eq hh
  obtain rfl := Except.ok.inj hcalls
  rcases (keep.call : HandleCall .fixedPoint).apply_cases
    (EngineCacheHandle.new ctx.cache ctx.layerIdx ctx.nLayers none) with ⟨e, he⟩ | ⟨he, -⟩
  · rw [runCalls, List.foldl_cons, List.foldl_nil, he]
    rfl
  · rw [runCalls, List.foldl_cons, List.foldl_nil, he]
    cases keep <;> rfl

/-- Two layers, one of them ragged, and a per-head winner of two lengths. -/
theorem appliesMeasured_two_layers :
    (((fixedSelector [.keepPerHead [[0, 2], [2]]] 2).chooseAndApply (fun _ => none)
      [filledCache, raggedCache] (.finite (3 / 4)) lastRow noSignals).result.toOption.bind
        Except.toOption).isSome = true ∧
    AppliesMeasured (fixedSelector [.keepPerHead [[0, 2], [2]]] 2) [filledCache, raggedCache]
      (.finite (3 / 4))
      lastRow noSignals
      ((fixedSelector [.keepPerHead [[0, 2], [2]]] 2).chooseAndApply (fun _ => none)
        [filledCache, raggedCache] (.finite (3 / 4)) lastRow noSignals) := by
  have hwf : ∀ c ∈ [filledCache, raggedCache], c.WF := by
    simp only [List.forall_mem_cons, List.not_mem_nil, false_implies, implies_true, and_true]
    exact ⟨filledCache_wf, raggedCache_wf⟩
  refine ⟨by decide +kernel, (appliesMeasured_iff _ _ _ _ _ _ hwf (by decide) (by decide)).mpr ?_⟩
  intro c₀ cs src planned v hcons _ _ hjudge
  refine ⟨fun f fault hf => ?_, fun _ attn _ l c plan h hc _ hown => ?_⟩
  · cases hf.fails
  · obtain ⟨-, -, -, -, hmem, -⟩ := Selector.winner_of_judge hjudge
    rw [List.mem_singleton.mp hmem] at hown
    have hvalues := commitValues_fixedCandidate (.keepPerHead [[0, 2], [2]]) hown.handle
    rw [cache_stageCtx] at hvalues
    exact keepDecides_of_values (hwf c (hcons ▸ List.mem_of_getElem? hc)) hown hvalues

theorem exists_choice {P : Platform} {r : Except Fail (Except NoChoice (Choice P))}
    (h : (r.toOption.bind Except.toOption).isSome = true) : ∃ choice, r = .ok (.ok choice) := by
  cases r with
  | error e => cases h
  | ok r =>
    cases r with
    | error no => cases h
    | ok choice => exact ⟨choice, rfl⟩

/-- A winner that also re-encodes is applied without the re-encode. -/
theorem reencode_dropped :
    ¬ AppliesMeasured (fixedSelector [.keep [2], .reencode "f16"] 1) [filledCache]
      (.finite (1 / 2)) lastRow
      noSignals ((fixedSelector [.keep [2], .reencode "f16"] 1).chooseAndApply (fun _ => none)
        [filledCache] (.finite (1 / 2)) lastRow noSignals) := by
  intro h
  set out := (fixedSelector [.keep [2], .reencode "f16"] 1).chooseAndApply (fun _ => none)
    [filledCache] (.finite (1 / 2)) lastRow noSignals with hout
  have hdtype : out.caches.map KVCache.kvDtype = [.f32] := by decide +kernel
  obtain ⟨choice, hchoice⟩ :=
    exists_choice (by decide +kernel : (out.result.toOption.bind Except.toOption).isSome = true)
  obtain ⟨c₀, cs, src, planned, v, score, -, -, -, -, hmem, -, -, hlands⟩ := h.choice choice hchoice
  have hcand := List.mem_singleton.mp hmem
  have hplans : 0 < v.winner.plans.length := by rw [hlands.plans_length]; exact Nat.one_pos
  have hafter : 0 < out.caches.length := by rw [hlands.after_length]; exact Nat.one_pos
  obtain ⟨handle, own, hown, hcommit, heq⟩ :=
    hlands.lands 0 filledCache _ _ rfl (List.getElem?_eq_getElem hafter)
      (List.getElem?_eq_getElem hplans)
  rw [hcand] at hown
  have hf32 : out.caches[0].kvDtype = .f32 := by
    have hget := congrArg (fun l => l[0]?) hdtype
    simp only [List.getElem?_map, List.getElem?_eq_getElem hafter, Option.map_some] at hget
    exact Option.some.inj hget
  have hf16 : own.kvDtype = .f16 := by
    have hown' : own = handle.commit.2.1 := by rw [hcommit]
    rw [hown', ← Except.ok.inj hown.handle]
    exact (by decide +kernel :
      (runCalls (EngineCacheHandle.new filledCache 0 1 none : EngineCacheHandle .fixedPoint)
        [.keep [2], .reencode "f16"]).commit.2.1.kvDtype = .f16)
  rcases heq with heq | ⟨-, heq⟩
  · rw [heq, hf16] at hf32
    cases hf32
  · have hformat := congrArg Format.dtype heq.format
    simp only [KVCache.format] at hformat
    rw [hf32, hf16] at hformat
    cases hformat

theorem layers_torn :
    ¬ AppliesMeasured (fixedSelector [.keep [2]] 2) [filledCache, filledCache]
      (.finite (1 / 2)) lastRow
      noSignals ((fixedSelector [.keep [2]] 2).chooseAndApply
        (fun l => if l = 1 then some ⟨"buffer_shift failed", filledCache⟩ else none)
        [filledCache, filledCache] (.finite (1 / 2)) lastRow noSignals) := by
  intro h
  set out := (fixedSelector [.keep [2]] 2).chooseAndApply
    (fun l => if l = 1 then some ⟨"buffer_shift failed", filledCache⟩ else none)
      [filledCache, filledCache]
    (.finite (1 / 2)) lastRow noSignals with hout
  have herr : out.result.map (fun _ => ()) =
      .error (.err "applying 'fixed' to layer 1: buffer_shift failed") := by decide +kernel
  have hpos : out.caches.map KVCache.currentPos = [1, 3] := by decide +kernel
  cases hresult : out.result with
  | ok r =>
    rw [hresult] at herr
    cases herr
  | error e =>
    rw [hresult] at herr
    cases herr
    rw [h.err _ hresult] at hpos
    exact absurd hpos (by decide)

/-- Both ways in which the chooser does not apply what it measured. -/
theorem not_appliesMeasured :
    ¬ AppliesMeasured (fixedSelector [.keep [2], .reencode "f16"] 1) [filledCache]
      (.finite (1 / 2)) lastRow
      noSignals ((fixedSelector [.keep [2], .reencode "f16"] 1).chooseAndApply (fun _ => none)
        [filledCache] (.finite (1 / 2)) lastRow noSignals) ∧
    ¬ AppliesMeasured (fixedSelector [.keep [2]] 2) [filledCache, filledCache]
      (.finite (1 / 2)) lastRow
      noSignals ((fixedSelector [.keep [2]] 2).chooseAndApply
        (fun l => if l = 1 then some ⟨"buffer_shift failed", filledCache⟩ else none)
        [filledCache, filledCache] (.finite (1 / 2)) lastRow noSignals) :=
  ⟨reencode_dropped, layers_torn⟩

end ArgusEngine
