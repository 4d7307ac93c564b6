import ArgusEngine.Session.Dispatcher

/-!
# The answers of a step

A directive is answered `Ok` when it is submitted, and `finalizeResults` looks again at the pending
one only. The answers to directives that are folded into a tighter one, or whose pending slot a
later one takes, are never looked at again.

* `Folded`, `isFolded_iff`: the directives that another one of their segment stands for;
* `ok_compress_iff`: when a compression is answered `Ok`;
* `Honest`: what the answers of a step owe to the manager;
* `honest_iff`: the answers are honest exactly where every unchecked directive is within its budget;
* **`answers_honest`**: what the answers of every step keep to.
-/

namespace ArgusEngine.Session

/-! ## The folded directives -/

/-- No `RestoreDefaults` lies between the two commands. -/
def SameSegment (cmds : List EngineCommand) (j k : ℕ) : Prop :=
  ∀ m, min j k < m → m < max j k → cmds[m]? ≠ some .restoreDefaults

/-- Another compression of its segment stands for the one at `k`: a tighter one, or a later one of
its budget. -/
def Folded (cmds : List EngineCommand) (k : ℕ) : Prop :=
  ∃ b j b', cmds[k]? = some (.kvCompress b) ∧ cmds[j]? = some (.kvCompress b') ∧
    SameSegment cmds j k ∧ (b' < b ∨ (b' = b ∧ k < j))

section Fold

variable {cmds : List EngineCommand} {start stop : ℕ}

theorem mem_compressIndices {x : ℕ × ℚ} : x ∈ compressIndices cmds start stop ↔
    start ≤ x.1 ∧ x.1 < stop ∧ cmds[x.1]? = some (.kvCompress x.2) := by
  have hbudget : ∀ (c : EngineCommand) b, c.budget? = some b ↔ c = .kvCompress b := by
    intro c b
    cases c <;> simp [EngineCommand.budget?]
  obtain ⟨i, b⟩ := x
  simp only [compressIndices, List.mem_filterMap, List.mem_range'_1, Option.map_eq_some_iff,
    Option.bind_eq_some_iff, hbudget, Prod.mk.injEq]
  constructor
  · rintro ⟨i, ⟨hstart, hstop⟩, b, ⟨c, hc, rfl⟩, rfl, rfl⟩
    exact ⟨hstart, by omega, hc⟩
  · rintro ⟨hstart, hstop, hc⟩
    exact ⟨i, ⟨hstart, by omega⟩, b, ⟨_, hc, rfl⟩, rfl, rfl⟩

theorem pairwise_compressIndices (cmds : List EngineCommand) (start stop : ℕ) :
    (compressIndices cmds start stop).Pairwise fun x y => x.1 < y.1 := by
  refine List.Pairwise.filterMap _ (fun i j hij x hx y hy => ?_)
    (List.pairwise_lt_range' (s := start))
  obtain ⟨b, -, rfl⟩ := Option.map_eq_some_iff.mp hx
  obtain ⟨b', -, rfl⟩ := Option.map_eq_some_iff.mp hy
  exact hij

/-- The chosen compression is the tightest, and the last of the tightest. -/
theorem chosen_spec {best : ℕ × ℚ} {cs : List (ℕ × ℚ)}
    (h : (best :: cs).Pairwise fun x y => x.1 < y.1) :
    chosen best cs ∈ best :: cs ∧ ∀ x ∈ best :: cs, x = chosen best cs ∨ (chosen best cs).2 < x.2 ∨
      ((chosen best cs).2 = x.2 ∧ x.1 < (chosen best cs).1) := by
  induction cs generalizing best with
  | nil => exact ⟨List.mem_cons_self, fun x hx => .inl (List.mem_singleton.mp hx)⟩
  | cons c cs ih =>
    rw [chosen]
    split_ifs with hle
    · obtain ⟨hmem, hspec⟩ := ih (List.pairwise_cons.mp h).2
      refine ⟨List.mem_cons_of_mem _ hmem, fun x hx => ?_⟩
      rcases List.mem_cons.mp hx with rfl | hx
      · have hbefore := (List.pairwise_cons.mp h).1 _ hmem
        have hc : (chosen c cs).2 ≤ c.2 := by
          rcases hspec c List.mem_cons_self with heq | hlt | heq
          · rw [← heq]
          · exact hlt.le
          · exact heq.1.le
        rcases (hc.trans hle).lt_or_eq with hlt | heq
        · exact .inr (.inl hlt)
        · exact .inr (.inr ⟨heq, hbefore⟩)
      · exact hspec x hx
    · have hsub : (best :: cs).Sublist (best :: c :: cs) :=
        (List.sublist_cons_self c cs).cons_cons best
      obtain ⟨hmem, hspec⟩ := ih (h.sublist hsub)
      refine ⟨hsub.subset hmem, fun x hx => ?_⟩
      have hbest : (chosen best cs).2 ≤ best.2 := by
        rcases hspec best List.mem_cons_self with heq | hlt | heq
        · rw [← heq]
        · exact hlt.le
        · exact heq.1.le
      rcases List.mem_cons.mp hx with rfl | hx
      · exact hspec _ List.mem_cons_self
      · rcases List.mem_cons.mp hx with rfl | hx
        · exact .inr (.inl (hbest.trans_lt (not_le.mp hle)))
        · exact hspec x (List.mem_cons_of_mem _ hx)

theorem getElem?_marked {w : ℕ} (xs : List (ℕ × ℚ)) (folded : List Bool) (k : ℕ) :
    (xs.foldl (fun folded x => if x.1 = w then folded else folded.set x.1 true) folded)[k]? =
      some true ↔
      folded[k]? = some true ∨ (k < folded.length ∧ k ≠ w ∧ ∃ x ∈ xs, x.1 = k) := by
  induction xs generalizing folded with
  | nil => simp
  | cons x xs ih =>
    rw [List.foldl_cons, ih]
    split_ifs with hw
    · simp only [List.exists_mem_cons_iff]
      grind
    · rw [List.length_set, List.getElem?_set]
      simp only [List.exists_mem_cons_iff]
      grind

theorem length_foldSegment (folded : List Bool) :
    (foldSegment cmds start stop folded).length = folded.length := by
  have hset : ∀ (w : ℕ) (xs : List (ℕ × ℚ)) (folded : List Bool),
      (xs.foldl (fun folded x => if x.1 = w then folded else folded.set x.1 true) folded).length =
        folded.length := by
    intro w xs
    induction xs with
    | nil => exact fun _ => rfl
    | cons x xs ih =>
      intro folded
      rw [List.foldl_cons, ih]
      split_ifs
      · rfl
      · exact List.length_set
  unfold foldSegment
  split
  · exact hset _ _ _
  · rfl

/-- The commands from `start` on, up to `stop`, are a segment. -/
structure Segment (cmds : List EngineCommand) (start stop : ℕ) : Prop where
  first : start = 0 ∨ cmds[start - 1]? = some .restoreDefaults
  last : cmds.length ≤ stop ∨ cmds[stop]? = some .restoreDefaults
  inner : ∀ m, start ≤ m → m < stop → cmds[m]? ≠ some .restoreDefaults

theorem Segment.mem {j k : ℕ} {b : ℚ} (h : Segment cmds start stop) (hk : start ≤ k ∧ k < stop)
    (hj : cmds[j]? = some (.kvCompress b)) (hsame : SameSegment cmds j k) :
    start ≤ j ∧ j < stop := by
  have hlen := (List.getElem?_eq_some_iff.mp hj).1
  constructor
  · by_contra hlt
    rcases h.first with hzero | hrestore
    · omega
    · have hne : j ≠ start - 1 := by
        rintro rfl
        rw [hj] at hrestore
        cases hrestore
      exact hsame (start - 1) (by omega) (by omega) hrestore
  · by_contra hge
    rcases h.last with hend | hrestore
    · omega
    · have hne : j ≠ stop := by
        rintro rfl
        rw [hj] at hrestore
        cases hrestore
      exact hsame stop (by omega) (by omega) hrestore

/-- **A turn of the segment loop marks the folded directives of the segment.** -/
theorem getElem?_foldSegment (h : Segment cmds start stop) {folded : List Bool}
    (hlen : folded.length = cmds.length) (k : ℕ) :
    (foldSegment cmds start stop folded)[k]? = some true ↔
      folded[k]? = some true ∨ (start ≤ k ∧ k < stop ∧ Folded cmds k) := by
  have hsorted := pairwise_compressIndices cmds start stop
  -- a folded directive shares the segment with the one that stands for it
  have hpair : start ≤ k ∧ k < stop ∧ Folded cmds k → ∃ x ∈ compressIndices cmds start stop,
      ∃ y ∈ compressIndices cmds start stop, x.1 = k ∧ (y.2 < x.2 ∨ (y.2 = x.2 ∧ k < y.1)) := by
    rintro ⟨hstart, hstop, b, j, b', hk, hj, hsame, htighter⟩
    obtain ⟨hjstart, hjstop⟩ := h.mem ⟨hstart, hstop⟩ hj hsame
    exact ⟨(k, b), mem_compressIndices.mpr ⟨hstart, hstop, hk⟩, (j, b'),
      mem_compressIndices.mpr ⟨hjstart, hjstop, hj⟩, rfl, htighter⟩
  unfold foldSegment
  split
  · next c c' cs hindices =>
    rw [hindices] at hsorted hpair
    obtain ⟨hmem, hspec⟩ := chosen_spec hsorted
    have hin : ∀ x ∈ c :: c' :: cs, start ≤ x.1 ∧ x.1 < stop ∧
      cmds[x.1]? = some (.kvCompress x.2) := fun x hx =>
      mem_compressIndices.mp (hindices ▸ hx)
    rw [getElem?_marked]
    refine or_congr_right ⟨?_, fun hf => ?_⟩
    · rintro ⟨-, hne, x, hx, rfl⟩
      obtain ⟨hstart, hstop, hk⟩ := hin x hx
      obtain ⟨hwstart, hwstop, hw⟩ := hin _ hmem
      refine ⟨hstart, hstop, x.2, _, _, hk, hw, fun m hm hm' => h.inner m (by omega) (by omega), ?_⟩
      rcases hspec x hx with heq | hlt | heq
      · exact absurd (congrArg Prod.fst heq) hne
      · exact .inl hlt
      · exact .inr heq
    · obtain ⟨x, hx, y, hy, rfl, htighter⟩ := hpair hf
      obtain ⟨-, -, hk⟩ := hin x hx
      refine ⟨?_, fun heq => ?_, x, hx, rfl⟩
      · rw [hlen]
        exact (List.getElem?_eq_some_iff.mp hk).1
      · -- the chosen directive is not folded
        have hbudget : x.2 = (chosen c (c' :: cs)).2 := by
          have hw := (hin _ hmem).2.2
          rw [← heq, hk] at hw
          simpa using hw
        rw [← hbudget, ← heq] at hspec
        rcases hspec y hy with hy' | hlt | ⟨heq', hlt'⟩
        · have hidx : y.1 = x.1 := (congrArg Prod.fst hy').trans heq.symm
          have hval : y.2 = x.2 := (congrArg Prod.snd hy').trans hbudget.symm
          exact htighter.elim (fun hb => absurd hval hb.ne) fun hb => absurd hb.2 (by omega)
        · exact htighter.elim (fun hb => absurd hlt hb.not_gt) fun hb => absurd hlt hb.1.not_gt
        · exact htighter.elim (fun hb => absurd heq' hb.ne') fun hb => absurd hb.2 (by omega)
  · next hshort =>
    refine ⟨.inl, fun hf => hf.resolve_right fun hf => ?_⟩
    obtain ⟨x, hx, y, hy, rfl, htighter⟩ := hpair hf
    match hindices : compressIndices cmds start stop with
    | [] =>
      rw [hindices] at hx
      cases hx
    | [c] =>
      rw [hindices, List.mem_singleton] at hx hy
      subst hx hy
      rcases htighter with hlt | ⟨-, hlt⟩
      · exact lt_irrefl _ hlt
      · exact lt_irrefl _ hlt
    | c :: c' :: cs => exact hshort c c' cs hindices

/-- The segment loop, before the command `i`. -/
structure FoldLoop (cmds : List EngineCommand) (i : ℕ) (s : ℕ × List Bool) : Prop where
  length : s.2.length = cmds.length
  le : s.1 ≤ i
  first : s.1 = 0 ∨ cmds[s.1 - 1]? = some .restoreDefaults ∨ cmds.length < s.1
  inner : ∀ m, s.1 ≤ m → m < i → cmds[m]? ≠ some .restoreDefaults
  marked : ∀ k : ℕ, s.2[k]? = some true ↔ k < s.1 ∧ Folded cmds k

theorem FoldLoop.turn {i : ℕ} {s : ℕ × List Bool} (h : FoldLoop cmds i s) (hi : i ≤ cmds.length) :
    FoldLoop cmds (i + 1) (foldTurn cmds s i) := by
  have hle := h.le
  unfold foldTurn
  split_ifs with hend
  · have hseg : Segment cmds s.1 i := by
      refine ⟨?_, hend.imp (fun heq => heq.ge) id, h.inner⟩
      rcases h.first with hzero | hrestore | hlt
      · exact .inl hzero
      · exact .inr hrestore
      · omega
    refine ⟨by rw [length_foldSegment, h.length], Nat.le_refl _, ?_, fun m hm hm' => by
      dsimp only at hm; omega, ?_⟩
    · rcases hend with heq | hrestore
      · exact .inr (.inr (by dsimp only; omega))
      · exact .inr (.inl hrestore)
    · intro k
      rw [getElem?_foldSegment hseg h.length, h.marked]
      constructor
      · rintro (⟨hlt, hf⟩ | ⟨-, hlt, hf⟩)
        · exact ⟨by dsimp only; omega, hf⟩
        · exact ⟨by dsimp only; omega, hf⟩
      · rintro ⟨hlt, hf⟩
        -- the command that ends the segment is not folded
        have hne : k ≠ i := by
          rintro rfl
          obtain ⟨b, -, -, hk, -⟩ := hf
          rcases hend with heq | hrestore
          · rw [List.getElem?_eq_none (by omega)] at hk
            cases hk
          · rw [hk] at hrestore
            cases hrestore
        dsimp only at hlt
        by_cases hstart : k < s.1
        · exact .inl ⟨hstart, hf⟩
        · exact .inr ⟨by omega, by omega, hf⟩
  · refine ⟨h.length, by omega, h.first, fun m hm hm' => ?_, h.marked⟩
    rcases Nat.lt_succ_iff_lt_or_eq.mp hm' with hlt | rfl
    · exact h.inner m hm hlt
    · exact fun hrestore => hend (.inr hrestore)

theorem foldLoop_range (cmds : List EngineCommand) {n : ℕ} (hn : n ≤ cmds.length + 1) :
    FoldLoop cmds n ((List.range n).foldl (foldTurn cmds)
      (0, List.replicate cmds.length false)) := by
  induction n with
  | zero =>
    refine ⟨List.length_replicate, Nat.le_refl _, .inl rfl, fun m _ hm =>
      absurd hm (Nat.not_lt_zero m), fun k => ?_⟩
    simp [List.getElem?_replicate]
  | succ n ih =>
    rw [List.range_succ, List.foldl_append]
    exact (ih (by omega)).turn (by omega)

/-- **The folded directives** are those that another one of their segment stands for. -/
theorem isFolded_iff (cmds : List EngineCommand) (k : ℕ) :
    (isFolded cmds)[k]? = some true ↔ Folded cmds k := by
  have hloop := foldLoop_range cmds (Nat.le_refl (cmds.length + 1))
  rw [isFolded, hloop.marked]
  refine and_iff_right_of_imp fun hf => ?_
  obtain ⟨b, -, -, hk, -⟩ := hf
  have hlt := (List.getElem?_eq_some_iff.mp hk).1
  have hstart : cmds.length < ((List.range (cmds.length + 1)).foldl (foldTurn cmds)
      (0, List.replicate cmds.length false)).1 := by
    rw [List.range_succ, List.foldl_append, List.foldl_cons, List.foldl_nil, foldTurn,
      if_pos (.inl rfl)]
    exact Nat.lt_succ_self _
  omega

theorem length_isFolded (cmds : List EngineCommand) : (isFolded cmds).length = cmds.length :=
  (foldLoop_range cmds (Nat.le_refl (cmds.length + 1))).length

end Fold

/-! ## A step -/

/-- The answers of a step whose stages leave the layers `after`. -/
def stepAnswers (d : CommandDispatcher) (layers : List Layer)
    (switchApply : Bool → Except String Unit) (cmds : List EngineCommand) (after : List Layer) :
    List CommandResult :=
  ((d.dispatch layers switchApply cmds).finalizeResults after).2

/-- The stages reduce every layer, or leave it as it is. -/
def Reduced (layers after : List Layer) : Prop :=
  List.Forall₂ (fun l l' : Layer => l'.residentTokens ≤ l.residentTokens) layers after

/-- The comparison of `compress_outcome`. -/
def MeetsRounded (logicalLen : ℕ) (budget : ℚ) (after : ℕ) : Prop :=
  f32 (f32 after / f32 logicalLen) ≤ f32 (budget + f32 (1 / f32 logicalLen))

/-- A later directive of the step submits a stage and takes the pending slot. -/
def Superseded (d : CommandDispatcher) (layers : List Layer) (cmds : List EngineCommand)
    (k : ℕ) : Prop :=
  ∃ (j : ℕ) (b : ℚ), k < j ∧ cmds[j]? = some (.kvCompress b) ∧ ¬ Folded cmds j ∧ d.Submits layers b

section Step

open CommandDispatcher

variable {d : CommandDispatcher} {layers after : List Layer}
  {switchApply : Bool → Except String Unit} {cmds : List EngineCommand} {k : ℕ} {b : ℚ}

theorem Reduced.nil_iff (h : Reduced layers after) : after = [] ↔ layers = [] := by
  rw [← List.length_eq_zero_iff, ← List.length_eq_zero_iff, h.length_eq]

theorem layerMeanResident_le (h : Reduced layers after) :
    layerMeanResident after ≤ layerMeanResident layers := by
  have hsum : (after.map Layer.residentTokens).sum ≤ (layers.map Layer.residentTokens).sum := by
    induction h with
    | nil => exact Nat.le_refl _
    | cons hle _ ih => exact Nat.add_le_add hle ih
  unfold layerMeanResident
  simp only [h.nil_iff, ← h.length_eq]
  split_ifs
  · exact Nat.le_refl _
  · exact Nat.div_le_div_right (by omega)

theorem canCompress_of_submits (h : d.Submits layers b) : d.canCompress layers = true := by
  have hne := h.handles
  rcases h.configured with hconf | hconf <;> simp [canCompress, hne, hconf]

theorem length_foldedIn (d : CommandDispatcher) (layers : List Layer) (cmds : List EngineCommand) :
    (d.foldedIn layers cmds).length = cmds.length := by
  unfold foldedIn
  split_ifs
  · exact length_isFolded cmds
  · exact List.length_replicate

theorem getElem?_foldedIn (d : CommandDispatcher) (layers : List Layer)
    (cmds : List EngineCommand) (k : ℕ) : (d.foldedIn layers cmds)[k]? = some true ↔
    d.canCompress layers = true ∧ Folded cmds k := by
  unfold foldedIn
  split_ifs with hcan
  · rw [isFolded_iff, and_iff_right hcan]
  · simp [List.getElem?_replicate, hcan]

theorem getElem?_flagged (d : CommandDispatcher) (layers : List Layer) {c : EngineCommand}
    (hk : cmds[k]? = some c) :
    (d.canCompress layers = true ∧ Folded cmds k ∧
      (cmds.zip (d.foldedIn layers cmds))[k]? = some (c, true)) ∨
      (¬ (d.canCompress layers = true ∧ Folded cmds k) ∧
        (cmds.zip (d.foldedIn layers cmds))[k]? = some (c, false)) := by
  have hlt : k < (d.foldedIn layers cmds).length := by
    rw [length_foldedIn]
    exact (List.getElem?_eq_some_iff.mp hk).1
  have hflag := List.getElem?_eq_getElem hlt
  have hiff := getElem?_foldedIn d layers cmds k
  cases hf : (d.foldedIn layers cmds)[k] with
  | true =>
    rw [hf] at hflag
    obtain ⟨hcan, hfold⟩ := hiff.mp hflag
    exact .inl ⟨hcan, hfold, List.getElem?_zip_eq_some.mpr ⟨hk, hflag⟩⟩
  | false =>
    rw [hf] at hflag
    rw [hflag] at hiff
    exact .inr ⟨fun h => (by simpa using hiff.mpr h), List.getElem?_zip_eq_some.mpr ⟨hk, hflag⟩⟩

theorem answer_compress_iff : d.answer layers (.kvCompress b, false) = .ok ↔
    (layers ≠ [] ∧ layerMeanResident layers ≤ compressTargetLen d.logicalLen b) ∨
    d.Submits layers b := by
  have hanswer : d.answer layers (.kvCompress b, false) = (d.submitCompress layers b).2 := rfl
  rw [hanswer]
  rcases submitCompress_cases d layers b with ⟨hne, hfits, heq⟩ | ⟨hsub, stage, heq⟩ | ⟨hnot, -, hr⟩
  · rw [heq]
    exact ⟨fun _ => .inl ⟨hne, hfits⟩, fun _ => rfl⟩
  · rw [heq]
    exact ⟨fun _ => .inr hsub, fun _ => rfl⟩
  · refine ⟨fun h => absurd h hr, ?_⟩
    rintro (⟨hne, hfits⟩ | hsub)
    · unfold submitCompress
      rw [if_neg hne, if_pos hfits]
    · exact absurd hsub hnot

/-- The partition switch answers only at its own request. -/
theorem getElem?_applyTpTarget {d' : CommandDispatcher}
    (h : ∀ want, d'.tpTarget ≠ some (want, some k)) :
    (d'.applyTpTarget switchApply).lastResults[k]? = d'.lastResults[k]? := by
  unfold applyTpTarget
  split
  · next want idx sw htarget hsw =>
    split_ifs
    · rfl
    · split
      · rfl
      · cases idx with
        | none => rfl
        | some i =>
          have hne : i ≠ k := by
            rintro rfl
            exact h want htarget
          exact List.getElem?_set_ne hne
  · rfl

theorem getElem?_finalizeResults (h : ∀ p, d.pendingCompress = some p → p.resultIdx ≠ k) :
    (d.finalizeResults after).2[k]? = d.lastResults[k]? := by
  unfold finalizeResults
  cases hp : d.pendingCompress with
  | none => rfl
  | some p =>
    dsimp only
    split
    · exact List.getElem?_set_ne (h p hp)
    · rfl

theorem finalizeResults_pending {p : PendingCompress} (h : d.pendingCompress = some p) :
    (d.finalizeResults after).2 = match compressOutcome after p with
      | some r => d.lastResults.set p.resultIdx r
      | none => d.lastResults := by
  cases hc : compressOutcome after p <;> simp only [finalizeResults, h, hc]

theorem compressOutcome_iff (p : PendingCompress) (hafter : after ≠ []) :
    (p.logicalLen = 0 ∧ compressOutcome after p = none) ∨
      (p.logicalLen ≠ 0 ∧ ∃ r, compressOutcome after p = some r ∧
        (r = .ok ↔ MeetsRounded p.logicalLen p.budget (layerMeanResident after))) := by
  unfold compressOutcome
  by_cases hzero : p.logicalLen = 0
  · exact .inl ⟨hzero, if_pos (.inr hzero)⟩
  · refine .inr ⟨hzero, ?_⟩
    rw [if_neg (not_or.mpr ⟨hafter, hzero⟩)]
    dsimp only
    split_ifs with hmeets
    · exact ⟨_, rfl, fun _ => hmeets, fun _ => rfl⟩
    · exact ⟨_, rfl, nofun, fun h => absurd h hmeets⟩
    · exact ⟨_, rfl, nofun, fun h => absurd h hmeets⟩

/-- **When a compression is answered `Ok`**: it is folded, it fits, or it is submitted and either
never looked at again or found within its budget. -/
theorem ok_compress_iff (hreduced : Reduced layers after) (hk : cmds[k]? = some (.kvCompress b)) :
    (stepAnswers d layers switchApply cmds after)[k]? = some .ok ↔
      ((d.observeContext layers).canCompress layers = true ∧ Folded cmds k) ∨
      (¬ ((d.observeContext layers).canCompress layers = true ∧ Folded cmds k) ∧ layers ≠ [] ∧
        layerMeanResident layers ≤ compressTargetLen (d.observeContext layers).logicalLen b) ∨
      (¬ Folded cmds k ∧ (d.observeContext layers).Submits layers b ∧
        ((d.observeContext layers).logicalLen = 0 ∨
          Superseded (d.observeContext layers) layers cmds k ∨
          MeetsRounded (d.observeContext layers).logicalLen b (layerMeanResident after))) := by
  obtain ⟨d', happ, heq⟩ := exists_applied d layers switchApply cmds
  set e := d.observeContext layers with he
  have hframe : Frame e.cleared e := ⟨rfl, rfl, rfl, rfl, rfl⟩
  have hpending := (applyTpTarget_keeps d' switchApply).2.2.2
  have hlater : ∀ (j : ℕ) (c : ℚ), (cmds.zip (e.foldedIn layers cmds))[j]? =
    some (.kvCompress c, false) →
      e.Submits layers c → cmds[j]? = some (.kvCompress c) ∧ ¬ Folded cmds j := by
    intro j c hj hsub
    obtain ⟨hcmd, hflag⟩ := List.getElem?_zip_eq_some.mp hj
    refine ⟨hcmd, fun hfold => ?_⟩
    rw [(getElem?_foldedIn e layers cmds j).mpr ⟨canCompress_of_submits hsub, hfold⟩] at hflag
    cases hflag
  -- the answer before the stages run
  have hbefore : ∀ f, (cmds.zip (e.foldedIn layers cmds))[k]? = some (.kvCompress b, f) →
      (d'.applyTpTarget switchApply).lastResults[k]? =
        some (e.answer layers (.kvCompress b, f)) := by
    intro f hc
    rw [getElem?_applyTpTarget, happ.results, List.getElem?_map, hc, Option.map_some,
      ← hframe.answer]
    intro want htarget
    rw [happ.targetIdx want k htarget] at hc
    cases hc
  rw [stepAnswers, heq]
  have hplain : (∀ p, d'.pendingCompress = some p → p.resultIdx ≠ k) →
      ((d'.applyTpTarget switchApply).finalizeResults after).2[k]? =
        (d'.applyTpTarget switchApply).lastResults[k]? := fun h =>
          getElem?_finalizeResults (hpending ▸ h)
  rcases getElem?_flagged e layers hk with ⟨hcan, hfold, hdone⟩ | ⟨hnot, hdone⟩
  · -- folded: the pending directive is another one
    refine ⟨fun _ => .inl ⟨hcan, hfold⟩, fun _ => ?_⟩
    rw [hplain fun p hp heq => ?_]
    · exact hbefore true hdone
    · have hat := (happ.pending p hp).1
      rw [heq, hdone] at hat
      cases hat
  have hok := hbefore false hdone
  rw [or_iff_right hnot, and_iff_right hnot]
  by_cases hsub : e.Submits layers b
  · have hfits : ¬ (layers ≠ [] ∧ layerMeanResident layers ≤
      compressTargetLen e.logicalLen b) := fun h =>
      absurd hsub.outside (Nat.not_lt.mpr h.2)
    rw [or_iff_right hfits, and_iff_right (hlater k b hdone hsub).2, and_iff_right hsub]
    rw [answer_compress_iff.mpr (.inr hsub)] at hok
    cases hp : d'.pendingCompress with
    | none => exact absurd (hframe.submits.mp hsub) (happ.noPending hp k b hdone)
    | some p =>
      obtain ⟨hat, hsub', hlogical, hlast⟩ := happ.pending p hp
      by_cases hidx : p.resultIdx = k
      · -- the directive is the pending one
        subst hidx
        obtain rfl : p.budget = b := by
          rw [hat] at hdone
          simpa using hdone
        have hnone : ¬ Superseded e layers cmds p.resultIdx := by
          rintro ⟨j, c, hj, hcmd, hunfolded, hsub''⟩
          rcases getElem?_flagged e layers hcmd with ⟨-, hfold, -⟩ | ⟨-, hj'⟩
          · exact hunfolded hfold
          · exact hlast j c hj hj' (hframe.submits.mp hsub'')
        rw [or_iff_right hnone, finalizeResults_pending (hpending.trans hp)]
        have hlen : p.logicalLen = e.logicalLen := hlogical
        rw [← hlen]
        rcases compressOutcome_iff p (mt hreduced.nil_iff.mp hsub.handles) with ⟨hzero, hr⟩ |
          ⟨hzero, r, hr, hiff⟩
        · rw [hr]
          exact iff_of_true hok (.inl hzero)
        · rw [hr, or_iff_right hzero, ← hiff]
          dsimp only
          rw [List.getElem?_set_self (List.getElem?_eq_some_iff.mp hok).1, Option.some.injEq]
      · have hlt : k < p.resultIdx := by
          by_contra hge
          exact hlast k b (by omega) hdone (hframe.submits.mp hsub)
        rw [hplain fun q hq => (by rw [hp] at hq; cases hq; exact hidx)]
        refine iff_of_true hok (.inr (.inl ⟨p.resultIdx, p.budget, hlt, ?_⟩))
        obtain ⟨hcmd, hunfolded⟩ := hlater _ _ hat (hframe.submits.mpr hsub')
        exact ⟨hcmd, hunfolded, hframe.submits.mpr hsub'⟩
  · have hno : ¬ (¬ Folded cmds k ∧ e.Submits layers b ∧
      (e.logicalLen = 0 ∨ Superseded e layers cmds k ∨
        MeetsRounded e.logicalLen b (layerMeanResident after))) := fun h => hsub h.2.1
    rw [or_iff_left hno, hplain fun p hp heq => ?_, hok, Option.some.injEq, answer_compress_iff,
      or_iff_left hsub]
    obtain ⟨hat, hsub', -⟩ := happ.pending p hp
    rw [heq, hdone] at hat
    obtain rfl : b = p.budget := by simpa using hat
    exact hsub (hframe.submits.mpr hsub')

/-- The last request to the partition switch is applied, or answered with its error. -/
theorem offload_applied {on : Bool} (hk : cmds[k]? = some (.gpuOffload on))
    (hlast : ∀ (j : ℕ) c, k < j → cmds[j]? = some c → c.isPartitionRequest = false)
    (hok : (stepAnswers d layers switchApply cmds after)[k]? = some .ok) :
    (d.dispatch layers switchApply cmds).tpSwitch.map TpSwitch.on = some on := by
  obtain ⟨d', happ, heq⟩ := exists_applied d layers switchApply cmds
  set e := d.observeContext layers with he
  have hpending := (applyTpTarget_keeps d' switchApply).2.2.2
  have hdone : (cmds.zip (e.foldedIn layers cmds))[k]? = some (.gpuOffload on, false) := by
    rcases getElem?_flagged e layers hk with ⟨-, ⟨b, -, -, hcompress, -⟩, -⟩ | ⟨-, hdone⟩
    · rw [hk] at hcompress
      cases hcompress
    · exact hdone
  rw [stepAnswers, heq, getElem?_finalizeResults fun p hp hidx => ?_] at hok
  · rw [heq]
    cases hsw : e.cleared.tpSwitch with
    | none =>
      -- without a switch the request is rejected
      have hnone : d'.tpSwitch = none := happ.frame.tpSwitch.trans hsw
      have hsame : (d'.applyTpTarget switchApply).lastResults = d'.lastResults := by
        unfold applyTpTarget
        rw [hnone]
        rcases d'.tpTarget with _ | ⟨_, _⟩ <;> rfl
      have hreject : e.cleared.answer layers (.gpuOffload on, false) ≠ .ok := by
        rw [answer, if_neg Bool.false_ne_true, apply, if_pos hsw]
        intro hrejected
        cases hrejected
      rw [hsame, happ.results, List.getElem?_map, hdone, Option.map_some, Option.some.injEq] at hok
      exact absurd hok hreject
    | some sw =>
      have hswitch : d'.tpSwitch = some sw := happ.frame.tpSwitch.trans hsw
      have htarget : d'.tpTarget = some (on, some k) :=
        happ.target (by rw [hsw]; exact Option.some_ne_none sw) k on hdone fun j x hj hx =>
          hlast j x.1 hj (List.getElem?_zip_eq_some.mp hx).1
      unfold applyTpTarget at hok ⊢
      rw [htarget, hswitch] at hok ⊢
      dsimp only at hok ⊢
      split_ifs at hok ⊢ with hon
      · exact congrArg some hon.symm
      · cases happly : switchApply on with
        | ok _ => rfl
        | error err =>
          rw [happly] at hok
          dsimp only at hok
          rw [List.getElem?_set_self'] at hok
          cases hr : d'.lastResults[k]? with
          | none => rw [hr] at hok; cases hok
          | some r => rw [hr] at hok; cases hok
  · have hat := (happ.pending p (hpending ▸ hp)).1
    rw [hidx, hdone] at hat
    cases hat

theorem length_stepAnswers :
    (stepAnswers d layers switchApply cmds after).length = cmds.length := by
  obtain ⟨d', happ, heq⟩ := exists_applied d layers switchApply cmds
  have happly : (d'.applyTpTarget switchApply).lastResults.length = d'.lastResults.length := by
    unfold applyTpTarget
    split
    · next want idx sw _ _ =>
      split_ifs
      · rfl
      · split
        · rfl
        · cases idx <;> simp
    · rfl
  have hfinal : ∀ d : CommandDispatcher, (d.finalizeResults after).2.length =
    d.lastResults.length := by
    intro d
    unfold finalizeResults
    dsimp only
    split
    · split
      · exact List.length_set
      · rfl
    · rfl
  rw [stepAnswers, heq, hfinal, happly, happ.results, List.length_map, List.length_zip,
    length_foldedIn, Nat.min_self]

end Step

/-! ## Honest answers -/

/-- The resident length is within the budget of the uncompressed length, or the target of the
directive. -/
def Within (logicalLen : ℕ) (budget : ℚ) (resident : ℕ) : Prop :=
  (resident : ℚ) ≤ max (compressTargetLen logicalLen budget : ℚ) (budget * logicalLen + 1)

instance (logicalLen : ℕ) (budget : ℚ) (resident : ℕ) :
    Decidable (Within logicalLen budget resident) :=
  inferInstanceAs (Decidable (_ ≤ _))

/-- **What the answers of a step owe**: one for each command, `Ok` to a compression only where the
layers are within its budget, and `Ok` to the last request of the partition switch only where the
switch is in that state. -/
structure Honest (d : CommandDispatcher) (layers : List Layer)
    (switchApply : Bool → Except String Unit) (cmds : List EngineCommand)
    (after : List Layer) : Prop where
  length : (stepAnswers d layers switchApply cmds after).length = cmds.length
  compress : ∀ (k : ℕ) (b : ℚ), cmds[k]? = some (.kvCompress b) →
    (stepAnswers d layers switchApply cmds after)[k]? = some .ok →
      Within (d.observeContext layers).logicalLen b (layerMeanResident after)
  offload : ∀ (k : ℕ) (on : Bool), cmds[k]? = some (.gpuOffload on) →
    (∀ (j : ℕ) c, k < j → cmds[j]? = some c → c.isPartitionRequest = false) →
      (stepAnswers d layers switchApply cmds after)[k]? = some .ok →
        (d.dispatch layers switchApply cmds).tpSwitch.map TpSwitch.on = some on

/-- The directives whose answer no one looks at again are within their budgets: the folded ones, and
those submitted before another one or against an empty context. The comparison of the last one
submitted errs by no rounding. -/
structure UncheckedWithin (d : CommandDispatcher) (layers : List Layer) (cmds : List EngineCommand)
    (after : List Layer) : Prop where
  folded : d.canCompress layers = true → ∀ (k : ℕ) (b : ℚ), cmds[k]? = some (.kvCompress b) →
    Folded cmds k → Within d.logicalLen b (layerMeanResident after)
  unlooked : ∀ (k : ℕ) (b : ℚ), cmds[k]? = some (.kvCompress b) → ¬ Folded cmds k →
    d.Submits layers b → (d.logicalLen = 0 ∨ Superseded d layers cmds k) →
    Within d.logicalLen b (layerMeanResident after)
  rounded : ∀ (k : ℕ) (b : ℚ), cmds[k]? = some (.kvCompress b) → ¬ Folded cmds k →
    d.Submits layers b → MeetsRounded d.logicalLen b (layerMeanResident after) →
    Within d.logicalLen b (layerMeanResident after)

/-- **The answers of a step are honest exactly where every directive that is not looked at again is
within its budget.** -/
theorem honest_iff (d : CommandDispatcher) (layers : List Layer)
    (switchApply : Bool → Except String Unit) (cmds : List EngineCommand) (after : List Layer)
    (hreduced : Reduced layers after) : Honest d layers switchApply cmds after ↔
    UncheckedWithin (d.observeContext layers) layers cmds after := by
  constructor
  · intro h
    refine ⟨fun hcan k b hk hf => ?_, fun k b hk hf hsub hun => ?_, fun k b hk hf hsub hround => ?_⟩
    · exact h.compress k b hk ((ok_compress_iff hreduced hk).mpr (.inl ⟨hcan, hf⟩))
    · refine h.compress k b hk ((ok_compress_iff hreduced hk).mpr (.inr (.inr ⟨hf, hsub, ?_⟩)))
      exact hun.imp_right .inl
    · exact h.compress k b hk
        ((ok_compress_iff hreduced hk).mpr (.inr (.inr ⟨hf, hsub, .inr (.inr hround)⟩)))
  · intro h
    refine ⟨length_stepAnswers, fun k b hk hok => ?_, fun k on hk hlast hok =>
      offload_applied hk hlast hok⟩
    rcases (ok_compress_iff hreduced hk).mp hok with ⟨hcan, hf⟩ | ⟨-, -, hfits⟩ |
      ⟨hf, hsub, hun | hun | hround⟩
    · exact h.folded hcan k b hk hf
    · have hle : layerMeanResident after ≤
        compressTargetLen (d.observeContext layers).logicalLen b :=
        (layerMeanResident_le hreduced).trans hfits
      exact le_max_of_le_left (Nat.cast_le.mpr hle)
    · exact h.unlooked k b hk hf hsub (.inl hun)
    · exact h.unlooked k b hk hf hsub (.inr hun)
    · exact h.rounded k b hk hf hsub hround

/-- What the answers of a step keep to: a directive that no other one of the step stands for, and
that no later one supersedes, is answered `Ok` only where the layers reach its target or, as
compared in `f32`, its budget. -/
structure HonestLast (d : CommandDispatcher) (layers : List Layer)
    (switchApply : Bool → Except String Unit) (cmds : List EngineCommand)
    (after : List Layer) : Prop where
  length : (stepAnswers d layers switchApply cmds after).length = cmds.length
  compress : ∀ (k : ℕ) (b : ℚ), cmds[k]? = some (.kvCompress b) → ¬ Folded cmds k →
    ¬ Superseded (d.observeContext layers) layers cmds k →
      (d.observeContext layers).logicalLen ≠ 0 →
      (stepAnswers d layers switchApply cmds after)[k]? = some .ok →
        layerMeanResident after ≤ compressTargetLen (d.observeContext layers).logicalLen b ∨
          MeetsRounded (d.observeContext layers).logicalLen b (layerMeanResident after)
  offload : ∀ (k : ℕ) (on : Bool), cmds[k]? = some (.gpuOffload on) →
    (∀ (j : ℕ) c, k < j → cmds[j]? = some c → c.isPartitionRequest = false) →
      (stepAnswers d layers switchApply cmds after)[k]? = some .ok →
        (d.dispatch layers switchApply cmds).tpSwitch.map TpSwitch.on = some on

/-- **The answers of every step** are one for each command, and honest where they are looked at. -/
theorem answers_honest (d : CommandDispatcher) (layers : List Layer)
    (switchApply : Bool → Except String Unit) (cmds : List EngineCommand) (after : List Layer)
    (hreduced : Reduced layers after) : HonestLast d layers switchApply cmds after := by
  refine ⟨length_stepAnswers, fun k b hk hf hlast hlen hok => ?_, fun k on hk hlast hok =>
    offload_applied hk hlast hok⟩
  rcases (ok_compress_iff hreduced hk).mp hok with ⟨-, hfold⟩ | ⟨-, -, hfits⟩ |
    ⟨-, -, hzero | hsuper | hround⟩
  · exact absurd hfold hf
  · exact .inl ((layerMeanResident_le hreduced).trans hfits)
  · exact absurd hzero hlen
  · exact absurd hsuper hlast
  · exact .inr hround

/-- Two directives behind each other, the first folded, with a stage that stops short of the
second. -/
theorem answers_short_stage : HonestLast poolDispatcher [⟨1200, 1200⟩] (fun _ => .ok ())
    [.kvCompress (1 / 2), .kvCompress (1 / 4)] [⟨400, 400⟩] :=
  answers_honest _ _ _ _ _ (.cons (by decide) .nil)

/-- Directives that are answered `Ok` outside their budgets: one folded into a tighter one for which
the stage removed nothing, one whose layers are 601 tokens where the budget, just under one half,
allows less than 601, and one against layers of which the first is empty. -/
theorem dishonest_answers :
    ¬ Honest poolDispatcher [⟨1200, 1200⟩] (fun _ => .ok ())
      [.kvCompress (1 / 2), .kvCompress (1 / 4)]
        [⟨1200, 1200⟩] ∧
      ¬ Honest poolDispatcher [⟨1200, 1200⟩] (fun _ => .ok ()) [.kvCompress (16777215 / 33554432)]
      [⟨601, 601⟩] ∧ ¬ Honest poolDispatcher [⟨0, 0⟩, ⟨100, 100⟩] (fun _ => .ok ())
      [.kvCompress (1 / 2)]
        [⟨0, 0⟩, ⟨100, 100⟩] := by
  refine ⟨fun h => ?_, fun h => ?_, fun h => ?_⟩
  · exact absurd (h.compress 0 (1 / 2) rfl (by decide +kernel)) (by decide +kernel)
  · exact absurd (h.compress 0 (16777215 / 33554432) rfl (by decide +kernel)) (by decide +kernel)
  · exact absurd (h.compress 0 (1 / 2) rfl (by decide +kernel)) (by decide +kernel)

end ArgusEngine.Session
