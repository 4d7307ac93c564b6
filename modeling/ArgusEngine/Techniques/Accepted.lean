import ArgusEngine.Kv.Gather
import ArgusEngine.Techniques.Budgets

/-!
# What the planners plan is accepted

Every list of a plan ascends within what its head holds, with the protected prefix and the recent
window of the head: that is what the handle checks. The exception is H2O without scores, whose two
sizes are added without a check.

* `Plans`: the lists of a plan; **`Plans.accepted`**: the handle takes them;
* `plans_keepWindow`, `plans_keepFallback`, `snapkvPerHeadKeepFrom_ok`, `adakvPerHeadKeep_ok`: the
  branches;
* `PyramidKv.sound`, `AdaKv.sound`;
* **`sound_iff`**: a planner is sound exactly where the sizes of H2O do not wrap.
-/

namespace ArgusEngine.Techniques

open Checked FlatMem

/-- The plan as a call of the handle. -/
def KeepSpec.call : KeepSpec → KeepCall
  | .layerWide keep => .keep keep
  | .perHead heads => .keepPerHead heads

section Plans

variable {F : Type}

/-- **The lists of a plan.** -/
structure Plans (ctx : StageCtx F) (protectedPrefix recent : ℕ) (spec : KeepSpec) : Prop where
  count : ∀ heads, spec = .perHead heads → heads.length = ctx.heads
  keeps : ∀ h < ctx.heads, Keeps (ctx.headStart h) ctx.currentPos protectedPrefix
    recent (spec.call.list h)

/-- The lists of all heads have one length. -/
def EvenLists (ctx : StageCtx F) (spec : KeepSpec) : Prop :=
  ∀ h < ctx.heads, ∀ h' < ctx.heads, (spec.call.list h).length = (spec.call.list h').length

/-- No head has a hole. -/
def StageCtx.Uniform (ctx : StageCtx F) : Prop := ∀ h < ctx.heads, ctx.headStart h = 0

/-- The context shows the first positions of the cache. -/
structure Describes (ctx : StageCtx F) (c : KVCache) : Prop where
  heads : ctx.nKvHeads = c.kvHeads
  heads_pos : 0 < c.kvHeads
  currentPos : ctx.currentPos ≤ c.currentPos
  headStart : ∀ h < c.kvHeads, ctx.headStart h = min (c.headStartOf h) ctx.currentPos

variable {ctx : StageCtx F} {protectedPrefix recent : ℕ} {spec : KeepSpec}

theorem Describes.heads_eq {c : KVCache} (h : Describes ctx c) : ctx.heads = c.kvHeads := by
  have hpos := h.heads_pos
  rw [StageCtx.heads, h.heads]
  omega

theorem Describes.resident {c : KVCache} (h : Describes ctx c) {k p : ℕ} (hk : k < c.kvHeads)
    (hp : ctx.headStart k ≤ p ∧ p < ctx.currentPos) : c.headStartOf k ≤ p ∧ p < c.currentPos := by
  have hstart := h.headStart k hk
  have hcurrent := h.currentPos
  omega

/-- **A plan is accepted.** -/
theorem Plans.accepted (h : Plans ctx protectedPrefix recent spec) {c : KVCache}
    (hc : Describes ctx c) (hragged : c.supportsRagged = true) : spec.call.Accepted c := by
  have hheads := hc.heads_eq
  have hlists : ∀ k < c.kvHeads, (spec.call.list k).Pairwise (· < ·) ∧
      ∀ p ∈ spec.call.list k, c.headStartOf k ≤ p ∧ p < c.currentPos := by
    intro k hk
    have hkeeps := h.keeps k (hheads ▸ hk)
    exact ⟨hkeeps.ascending, fun p hp => hc.resident hk (hkeeps.resident p hp)⟩
  cases spec with
  | layerWide keep =>
    refine ⟨(hlists 0 hc.heads_pos).1, fun p hp => ((hlists 0 hc.heads_pos).2 p hp).2,
      fun k hk p hp => ?_⟩
    exact ((hlists k hk).2 p hp).1
  | perHead heads =>
    have hlayout : c.layout = .headMajor := by
      unfold KVCache.supportsRagged at hragged
      simp only [Bool.and_eq_true, decide_eq_true_eq] at hragged
      exact hragged.1.1
    have hcount : heads.length = c.kvHeads := (h.count heads rfl).trans hheads
    refine ⟨hlayout, hcount, fun k hk => ?_, .inr hragged⟩
    obtain ⟨hasc, hres⟩ := hlists k (hcount ▸ hk)
    have hlist : (KeepSpec.perHead heads).call.list k = heads[k] := List.getD_eq_getElem _ _ hk
    rw [hlist] at hasc hres
    exact ⟨fun p hp => (hres p hp).2, hasc, fun p hp => (hres p hp).1⟩

theorem Keeps.of_min {start current n recent : ℕ} {l : List ℕ}
    (h : Keeps start current (min n current) recent l) : Keeps start current n recent l :=
  ⟨h.ascending, h.resident, fun p hp hp' => h.first p hp (by omega), h.last⟩

/-! ## One list for every start -/

theorem getD_headStarts {h : ℕ} (hh : h < ctx.heads) :
    ctx.headStarts.getD h 0 = ctx.headStart h := by
  unfold StageCtx.headStarts
  rw [List.getD_eq_getElem _ _ (by rw [List.length_map, List.length_range]; exact hh),
    List.getElem_map, List.getElem_range]

theorem length_headStarts (ctx : StageCtx F) : ctx.headStarts.length = ctx.heads := by
  rw [StageCtx.headStarts, List.length_map, List.length_range]

theorem all_headStarts : (ctx.headStarts.all fun start => decide (start = 0)) = true ↔
    ctx.Uniform := by
  unfold StageCtx.headStarts StageCtx.Uniform
  simp only [List.all_map, List.all_eq_true, List.mem_range, Function.comp_apply, decide_eq_true_eq]

theorem any_headStarts : (ctx.headStarts.any fun start => decide (0 < start)) = true ↔
    ¬ ctx.Uniform := by
  rw [← all_headStarts, Bool.not_eq_true, List.any_eq_true, List.all_eq_false]
  simp only [decide_eq_true_eq, Nat.pos_iff_ne_zero]

theorem list_perHead_map (list : ℕ → List ℕ) {h : ℕ} (hh : h < ctx.heads) :
    (KeepSpec.perHead (ctx.headStarts.map list)).call.list h = list (ctx.headStart h) := by
  show (ctx.headStarts.map list).getD h [] = _
  have hlen : h < ctx.headStarts.length := by
    rw [length_headStarts]
    exact hh
  rw [List.getD_eq_getElem _ _ (by rw [List.length_map]; exact hlen), List.getElem_map,
    ← List.getD_eq_getElem _ 0 hlen, getD_headStarts hh]

theorem fanOut {list : ℕ → List ℕ} (hspec : spec = .perHead (ctx.headStarts.map list) ∨
    ctx.Uniform ∧ spec = .layerWide (list 0)) :
    (∀ heads, spec = .perHead heads → heads.length = ctx.heads) ∧
      ∀ h < ctx.heads, spec.call.list h = list (ctx.headStart h) := by
  rcases hspec with rfl | ⟨huniform, rfl⟩
  · refine ⟨fun heads heq => ?_, fun h hh => list_perHead_map list hh⟩
    rw [← KeepSpec.perHead.inj heq, List.length_map, length_headStarts]
  · refine ⟨nofun, fun h hh => ?_⟩
    rw [huniform h hh]
    rfl

theorem fanOut_cases (list : ℕ → List ℕ) :
    (if ctx.headStarts.all fun start => decide (start = 0) then KeepSpec.layerWide (list 0)
      else .perHead (ctx.headStarts.map list)) = .perHead (ctx.headStarts.map list) ∨
    ctx.Uniform ∧ (if ctx.headStarts.all fun start => decide (start = 0)
      then KeepSpec.layerWide (list 0)
      else .perHead (ctx.headStarts.map list)) = .layerWide (list 0) := by
  by_cases hall : (ctx.headStarts.all fun start => decide (start = 0)) = true
  · rw [if_pos hall]
    exact .inr ⟨all_headStarts.mp hall, rfl⟩
  · rw [if_neg hall]
    exact .inl rfl

theorem plans_fanOut (protectedPrefix recent : ℕ) (list : ℕ → List ℕ)
    (hspec : spec = .perHead (ctx.headStarts.map list) ∨ ctx.Uniform ∧ spec = .layerWide (list 0))
    (hlist : ∀ h < ctx.heads, Keeps (ctx.headStart h) ctx.currentPos protectedPrefix recent
      (list (ctx.headStart h))) :
    Plans ctx protectedPrefix recent spec ∧ (ctx.Uniform → EvenLists ctx spec) := by
  obtain ⟨hcount, hlists⟩ := fanOut hspec
  refine ⟨⟨hcount, fun h hh => ?_⟩, fun huniform h hh h' hh' => ?_⟩
  · rw [hlists h hh]
    exact hlist h hh
  · rw [hlists h hh, hlists h' hh', huniform h hh, huniform h' hh']

theorem plans_perHead [LinearOrder F] {heads : List (List ℕ)} (heavy : ℕ → ℕ)
    (hlen : heads.length = ctx.heads)
    (hlists : ∀ h l, heads[h]? = some l → ∃ score : ℕ → F, l = compileKeepTopK
      ⟨ctx.headStarts.getD h 0, ctx.currentPos, min protectedPrefix ctx.currentPos,
      recent, heavy h⟩ score) :
    Plans ctx protectedPrefix recent (.perHead heads) ∧
      (ctx.Uniform → (∀ h h', heavy h = heavy h') → EvenLists ctx (.perHead heads)) := by
  have hlist : ∀ h < ctx.heads, ∃ score : ℕ → F,
    (KeepSpec.perHead heads).call.list h = compileKeepTopK
      ⟨ctx.headStart h, ctx.currentPos, min protectedPrefix ctx.currentPos, recent,
      heavy h⟩ score := by
    intro h hh
    obtain ⟨score, hscore⟩ := hlists h heads[h] (List.getElem?_eq_getElem _)
    refine ⟨score, ?_⟩
    rw [← getD_headStarts hh, ← hscore]
    exact List.getD_eq_getElem _ _ _
  refine ⟨⟨fun heads' heq => (KeepSpec.perHead.inj heq) ▸ hlen, fun h hh => ?_⟩,
    fun huniform hheavy h hh h' hh' => ?_⟩
  · obtain ⟨score, hscore⟩ := hlist h hh
    rw [hscore]
    exact (keeps_compileKeepTopK ⟨ctx.headStart h, ctx.currentPos,
      min protectedPrefix ctx.currentPos, recent, heavy h⟩ (ctx.headStart_le h) score).of_min
  · obtain ⟨score, hscore⟩ := hlist h hh
    obtain ⟨score', hscore'⟩ := hlist h' hh'
    rw [hscore, hscore', huniform h hh, huniform h' hh', hheavy h h']
    exact length_compileKeepTopK _ score score'

end Plans

/-! ## The shared branches -/

section Branches

variable {F : Type} [LinearOrder F] (A : ScoreArith F) (ctx : StageCtx F)

theorem keeps_window {current n nKept : ℕ} (hn : n ≤ current) (hle : nKept ≤ current) :
    Keeps 0 current n nKept
      (List.range n ++ (List.range' (current - nKept) (current - (current - nKept))).filter fun p =>
      decide (n ≤ p)) := by
  have hmem : ∀ p, p ∈ (List.range' (current - nKept) (current - (current - nKept))).filter
    (fun p => decide (n ≤ p)) ↔
      (current - nKept ≤ p ∧ p < current) ∧ n ≤ p := by
    intro p
    rw [List.mem_filter, List.mem_range'_1, decide_eq_true_eq]
    omega
  refine ⟨?_, fun p hp => ?_, fun p _ hp => ?_, fun p _ hp hp' => ?_⟩
  · refine List.pairwise_append.mpr
      ⟨List.pairwise_lt_range, List.Pairwise.filter _ List.pairwise_lt_range', fun a ha b hb => ?_⟩
    have hb := (hmem b).mp hb
    have ha := List.mem_range.mp ha
    omega
  · rcases List.mem_append.mp hp with hp | hp
    · have hp := List.mem_range.mp hp
      omega
    · have hp := (hmem p).mp hp
      omega
  · exact List.mem_append_left _ (List.mem_range.mpr (by omega))
  · by_cases hfirst : p < n
    · exact List.mem_append_left _ (List.mem_range.mpr hfirst)
    · exact List.mem_append_right _ ((hmem p).mpr (by omega))

theorem plans_keepWindow (nKept : ℕ) (hle : nKept ≤ ctx.currentPos) :
    ∃ spec, keepWindow A ctx nKept = .ok spec ∧ Plans ctx ctx.protectedPrefix nKept spec ∧
      (ctx.Uniform → EvenLists ctx spec) := by
  unfold keepWindow
  dsimp only
  by_cases hall : (ctx.headStarts.all fun start => decide (start = 0)) = true
  · rw [if_pos hall, sub_of_le hle, ok_seq]
    have huniform := all_headStarts.mp hall
    obtain ⟨hplans, heven⟩ := plans_fanOut ctx.protectedPrefix nKept
      (fun _ => List.range (min ctx.protectedPrefix ctx.currentPos) ++
        (List.range' (ctx.currentPos - nKept) (ctx.currentPos - (ctx.currentPos - nKept))).filter
          fun p => decide (min ctx.protectedPrefix ctx.currentPos ≤ p)) (.inr ⟨huniform, rfl⟩)
            (fun h hh => by
      rw [huniform h hh]
      exact (keeps_window (Nat.min_le_right _ _) hle).of_min)
    exact ⟨_, rfl, hplans, heven⟩
  · rw [if_neg hall]
    obtain ⟨hplans, heven⟩ := plans_fanOut ctx.protectedPrefix nKept
      (fun start => compileKeepTopK ⟨start, ctx.currentPos,
      min ctx.protectedPrefix ctx.currentPos, nKept, 0⟩
        fun _ => A.ofNat 0) (.inl rfl) fun h hh =>
          (keeps_compileKeepTopK ⟨ctx.headStart h, ctx.currentPos,
          min ctx.protectedPrefix ctx.currentPos, nKept, 0⟩ (ctx.headStart_le h) _).of_min
    exact ⟨_, rfl, hplans, heven⟩

theorem plans_keepFallback {window nKept heavy : ℕ} (hle : window ≤ nKept) :
    Plans ctx ctx.protectedPrefix window (keepFallback A ctx window nKept heavy) ∧
      (ctx.Uniform → EvenLists ctx (keepFallback A ctx window nKept heavy)) := by
  unfold keepFallback
  dsimp only
  cases ctx.importance with
  | some imp =>
    refine plans_fanOut _ _ (fun start => compileKeepTopK
      ⟨start, ctx.currentPos, min ctx.protectedPrefix ctx.currentPos, window, heavy⟩ fun pos =>
      imp.getD pos (A.ofNat 0)) (fanOut_cases _) fun h hh => ?_
    exact (keeps_compileKeepTopK ⟨ctx.headStart h, ctx.currentPos,
      min ctx.protectedPrefix ctx.currentPos, window, heavy⟩ (ctx.headStart_le h) _).of_min
  | none =>
    refine plans_fanOut _ _ (fun start => compileKeepTopK
      ⟨start, ctx.currentPos, min ctx.protectedPrefix ctx.currentPos, nKept, 0⟩ fun _ => A.ofNat 0)
      (fanOut_cases _) fun h hh => ?_
    exact (keeps_compileKeepTopK ⟨ctx.headStart h, ctx.currentPos,
      min ctx.protectedPrefix ctx.currentPos, nKept, 0⟩ (ctx.headStart_le h) _).of_min.mono hle

variable {ctx}

omit [LinearOrder F] in
theorem usable_of_usablePfa {heavyLen : ℕ} {pfa : PrefillAttention F}
    (h : usablePfa ctx heavyLen = some pfa) : ctx.heads ≤ pfa.rows ∧ pfa.rows % ctx.heads = 0 ∧
    heavyLen ≤ pfa.cols :=
  of_decide_eq_true (Option.filter_eq_some_iff.mp h).2

omit [LinearOrder F] in
theorem length_row (pfa : PrefillAttention F) (qh : ℕ) : (pfa.row qh).length = pfa.cols := by
  rw [PrefillAttention.row, List.length_map, List.length_range]

omit [LinearOrder F] in
theorem one_le_heads (ctx : StageCtx F) : 1 ≤ ctx.heads := Nat.le_max_right _ _

end Branches

/-! ## PyramidKV -/

/-- The positions that a budget keeps. -/
def keptCount (rawBudget current : ℕ) : ℕ := max 1 (min rawBudget current)

namespace PyramidKv

variable (s : PyramidKv) {F : Type} [LinearOrder F] (A : ScoreArith F) (ctx : StageCtx F)

/-- The window that a plan holds: as much of it as the budget keeps. -/
def recent : ℕ :=
  min (min s.cfg.windowSize ctx.currentPos) (keptCount (getLayerBudget ctx.currentPos
    (s.cfg.effectiveCr ctx.currentPos ctx.targetLen) s.cfg.windowSize s.cfg.beta
      ctx.nLayers ctx.layerIdx)
    ctx.currentPos)

theorem sound : ∃ o, s.keepSpec A ctx = .ok o ∧ ∀ spec, o = some spec →
    Plans ctx ctx.protectedPrefix (s.recent ctx) spec ∧ (ctx.Uniform → EvenLists ctx spec) := by
  unfold keepSpec recent
  dsimp only
  generalize getLayerBudget ctx.currentPos (s.cfg.effectiveCr ctx.currentPos ctx.targetLen)
    s.cfg.windowSize s.cfg.beta ctx.nLayers ctx.layerIdx = rawBudget
  rw [show max 1 (min rawBudget ctx.currentPos) = keptCount rawBudget ctx.currentPos from rfl]
  generalize keptCount rawBudget ctx.currentPos = nKept
  generalize hwindow : min s.cfg.windowSize ctx.currentPos = window
  split_ifs with hzero hcr hle hsub
  · exact ⟨none, rfl, nofun⟩
  · exact ⟨none, rfl, nofun⟩
  · exact ⟨none, rfl, nofun⟩
  · obtain ⟨spec, hspec, hplans, heven⟩ := plans_keepWindow A ctx nKept (by omega)
    rw [hspec, min_eq_right hsub]
    exact ⟨_, rfl, fun spec' h => Option.some.inj h ▸ ⟨hplans, heven⟩⟩
  · have hrecent : min window nKept = window := by omega
    rw [sub_of_le (by omega), ok_seq, sub_of_le (by omega), ok_seq, hrecent]
    split
    · next pfa hpfa =>
      obtain ⟨hrows, hdvd, hcols⟩ := usable_of_usablePfa hpfa
      obtain ⟨heads, hheads, hlen, hlists⟩ := snapkvPerHeadKeepFrom_ok (A := A)
        ⟨pfa.rows, ctx.heads, pfa.cols, ctx.currentPos, window, s.cfg.kernelSize, nKept - window,
        min ctx.protectedPrefix ctx.currentPos⟩ (length_row pfa) hcols (one_le_heads ctx)
          hrows hdvd ctx.headStarts
      obtain ⟨hplans, heven⟩ := plans_perHead (fun _ => nKept - window) hlen hlists
      rw [hheads]
      exact ⟨_, rfl, fun spec' h => Option.some.inj h ▸ ⟨hplans, fun hu => heven hu fun _ _ => rfl⟩⟩
    · exact ⟨_, rfl, fun spec' h => Option.some.inj h ▸ plans_keepFallback A ctx (by omega)⟩

end PyramidKv

/-! ## AdaKV -/

section AdaKvSelection

variable {F : Type} [LinearOrder F] (A : ScoreArith F) (spec : AdaKvSelect) {readQhead : ℕ → List F}

/-- **Every head gets the list of `compile_keep_top_k`**, of a capacity and by scores of its own. -/
theorem adakvPerHeadKeep_ok (hcols : ∀ qh, (readQhead qh).length = spec.cols)
    (hlen : spec.current - spec.window ≤ spec.cols) (headStart : List ℕ)
    (hstart : ∀ s ∈ headStart, s ≤ spec.current) :
    ∃ caps heads, adakvPerHeadKeep A spec readQhead headStart = .ok (caps, heads) ∧
      heads.length = max spec.nKvHeads 1 ∧ ∀ h l, heads[h]? = some l → ∃ score : ℕ → F,
      l = compileKeepTopK
        ⟨headStart.getD h 0, spec.current, spec.protectedPrefix, spec.window,
        caps.getD h 0⟩ score := by
  have hclamp : ∀ h, min (headStart.getD h 0) spec.current = headStart.getD h 0 := by
    intro h
    refine min_eq_left ?_
    by_cases hh : h < headStart.length
    · rw [List.getD_eq_getElem _ _ hh]
      exact hstart _ (List.getElem_mem hh)
    · rw [List.getD_eq_default _ _ (Nat.le_of_not_lt hh)]
      exact Nat.zero_le _
  obtain ⟨pooled, counts, heads, -, -, hok, -, -, hheadsLen, hlists⟩ :=
    perHeadKeep_ok .machine A spec readQhead (fun qh => (hcols qh).symm ▸ hlen) headStart
  refine ⟨_, heads, hok, hheadsLen, fun h l hl =>
    ⟨fun pos => (pooled.getD h []).getD pos (A.ofNat 0), ?_⟩⟩
  rw [hlists h l hl, hclamp]

end AdaKvSelection

namespace AdaKv

variable (s : AdaKv) {F : Type} [LinearOrder F] (A : ScoreArith F) (ctx : StageCtx F)

/-- The window that a plan holds: as much of it as the budget keeps. -/
def recent : ℕ :=
  min (min s.cfg.windowSize ctx.currentPos)
    (keptCount ((s.cfg.budget ctx.currentPos ctx.targetLen).getD 0) ctx.currentPos)

theorem sound : ∃ o, s.keepSpec A ctx = .ok o ∧ ∀ spec, o = some spec →
    Plans ctx ctx.protectedPrefix (s.recent ctx) spec := by
  unfold keepSpec recent
  dsimp only
  split_ifs with hzero
  · exact ⟨none, rfl, nofun⟩
  cases s.cfg.budget ctx.currentPos ctx.targetLen with
  | none => exact ⟨none, rfl, nofun⟩
  | some rawBudget =>
    dsimp only [Option.getD_some]
    rw [show max 1 (min rawBudget ctx.currentPos) = keptCount rawBudget ctx.currentPos from rfl]
    generalize keptCount rawBudget ctx.currentPos = nKept
    generalize hwindow : min s.cfg.windowSize ctx.currentPos = window
    split_ifs with hle hsub
    · exact ⟨none, rfl, nofun⟩
    · obtain ⟨spec, hspec, hplans, -⟩ := plans_keepWindow A ctx nKept (by omega)
      rw [hspec, min_eq_right hsub]
      exact ⟨_, rfl, fun spec' h => Option.some.inj h ▸ hplans⟩
    · have hrecent : min window nKept = window := by omega
      rw [sub_of_le (by omega), ok_seq, sub_of_le (by omega), ok_seq, hrecent]
      split
      · next pfa hpfa =>
        obtain ⟨-, -, hcols⟩ := usable_of_usablePfa hpfa
        obtain ⟨caps, heads, hheads, hlen, hlists⟩ :=
          adakvPerHeadKeep_ok A ⟨pfa.rows, ctx.heads, pfa.cols, ctx.currentPos, window,
          s.cfg.kernelSize, s.cfg.pooling, nKept - window, s.cfg.floorAlpha,
          min ctx.protectedPrefix ctx.currentPos⟩ (length_row pfa) hcols ctx.headStarts (by
            intro start hstart
            obtain ⟨h, -, rfl⟩ := List.mem_map.mp hstart
            exact ctx.headStart_le h)
        obtain ⟨hplans, -⟩ := plans_perHead (fun h => caps.getD h 0)
          (hlen.trans (max_eq_left (one_le_heads ctx))) hlists
        rw [hheads]
        exact ⟨_, rfl, fun spec' h => Option.some.inj h ▸ hplans⟩
      · exact ⟨_, rfl, fun spec' h => Option.some.inj h ▸ (plans_keepFallback A ctx (by omega)).1⟩

end AdaKv

/-! ## H2O -/

namespace H2o

variable (s : H2o) {F : Type} (ctx : StageCtx F)

/-- The recent window: the size asked for, or half of the target. -/
def recent : ℕ :=
  match s.budget with
  | .absolute _ recentSize => recentSize
  | .fromTarget =>
    let evictable := min ctx.targetLen ctx.currentPos - min s.protectedPrefix ctx.currentPos
    evictable - evictable / 2

/-- The heavy positions. -/
def heavy : ℕ :=
  match s.budget with
  | .absolute hhSize _ => hhSize
  | .fromTarget => (min ctx.targetLen ctx.currentPos - min s.protectedPrefix ctx.currentPos) / 2

/-- Without scores the two sizes are added, and the sum wraps to less than a head holds behind its
prefix. -/
def Wraps : Prop :=
  ctx.headScores = none ∧ ctx.importance = none ∧ 2 ^ 64 ≤ s.heavy ctx + s.recent ctx ∧
    ∃ h < ctx.heads, ctx.headStart h + min s.protectedPrefix ctx.currentPos +
      (s.heavy ctx + s.recent ctx - 2 ^ 64) < ctx.currentPos

theorem heavy_lt : s.heavy ctx < 2 ^ 64 := by
  have hcurrent := ctx.currentPos_lt
  unfold heavy
  cases s.budget with
  | absolute hhSize recentSize => exact hhSize.isLt
  | fromTarget =>
    dsimp only
    omega

theorem recent_lt : s.recent ctx < 2 ^ 64 := by
  have hcurrent := ctx.currentPos_lt
  unfold recent
  cases s.budget with
  | absolute hhSize recentSize => exact recentSize.isLt
  | fromTarget =>
    dsimp only
    omega

theorem partition_ok : ∃ o, s.partition ctx.currentPos ctx.targetLen = .ok o ∧
    ∀ p, o = some p → p = ⟨min s.protectedPrefix ctx.currentPos, s.heavy ctx, s.recent ctx,
    ctx.currentPos⟩ := by
  unfold partition sizes heavy recent
  cases s.budget with
  | absolute hhSize recentSize =>
    dsimp only
    rw [ok_seq]
    dsimp only
    split_ifs
    · exact ⟨none, rfl, nofun⟩
    · exact ⟨_, rfl, fun p hp => (Option.some.inj hp).symm⟩
  | fromTarget =>
    dsimp only
    split_ifs with htarget
    · exact ⟨none, rfl, nofun⟩
    · rw [sub_of_le (Nat.div_le_self _ _), ok_seq]
      rw [show ∀ x : Option (ℕ × ℕ), (pure x : Except (Fault Empty) _) = .ok x from fun _ =>
        rfl, ok_seq]
      dsimp only
      split_ifs
      · exact ⟨none, rfl, nofun⟩
      · exact ⟨_, rfl, fun p hp => (Option.some.inj hp).symm⟩

variable [LinearOrder F] (A : ScoreArith F)

/-- The list of H2O from a start, where there are no scores by head. -/
def listFrom (start : ℕ) : List ℕ :=
  let p : Partition := ⟨min s.protectedPrefix ctx.currentPos, s.heavy ctx,
    s.recent ctx, ctx.currentPos⟩
  match ctx.importance with
  | some imp => p.keepListFrom start fun pos => imp.getD pos (A.ofNat 0)
  | none => p.keepListRecencyFrom A start

/-- The plan by scores of each head, and the plan without. -/
theorem keepSpec_ok : ∃ o, s.keepSpec A ctx = .ok o ∧ ∀ spec, o = some spec →
    (∃ score heads, ctx.headScores = some score ∧ spec = .perHead heads ∧ heads.length = ctx.heads ∧
      ∀ h l, heads[h]? = some l → l = compileKeepTopK ⟨ctx.headStarts.getD h 0, ctx.currentPos,
        min s.protectedPrefix ctx.currentPos, s.recent ctx, s.heavy ctx⟩ (score h)) ∨
    ctx.headScores = none ∧ (spec = .perHead (ctx.headStarts.map (s.listFrom ctx A)) ∨
      ctx.Uniform ∧ spec = .layerWide (s.listFrom ctx A 0)) := by
  obtain ⟨o, ho, hp⟩ := s.partition_ok ctx
  unfold keepSpec
  rw [ho, ok_seq]
  cases o with
  | none => exact ⟨none, rfl, nofun⟩
  | some p =>
    obtain rfl := hp p rfl
    dsimp only
    cases hscores : ctx.headScores with
    | some score =>
      obtain ⟨heads, hheads, hlen, hlists⟩ := exists_mapM_range (n := ctx.heads)
        (R := fun h l => l = compileKeepTopK ⟨ctx.headStarts.getD h 0, ctx.currentPos,
          min s.protectedPrefix ctx.currentPos, s.recent ctx, s.heavy ctx⟩ (score h))
        (f := fun kvH => do
          let start ← get (ε := Empty) ctx.headStarts kvH
          return Partition.keepListFrom ⟨min s.protectedPrefix ctx.currentPos,
            s.heavy ctx, s.recent ctx, ctx.currentPos⟩ start (score kvH)) fun kvH hkvH => by
        rw [get_of_lt (by rw [length_headStarts]; exact hkvH), ← List.getD_eq_getElem _ 0]
        exact ⟨_, rfl, rfl⟩
      dsimp only
      rw [hheads]
      refine ⟨_, rfl, fun spec h =>
        .inl ⟨score, heads, rfl, (Option.some.inj h).symm, hlen, hlists⟩⟩
    | none =>
      dsimp only
      by_cases hragged : (ctx.headStarts.any fun start => decide (0 < start)) = true
      · rw [if_pos hragged]
        exact ⟨_, rfl, fun spec h => .inr ⟨rfl, .inl (Option.some.inj h).symm⟩⟩
      · rw [if_neg hragged]
        refine ⟨_, rfl, fun spec h => .inr ⟨rfl, .inr ⟨?_, (Option.some.inj h).symm⟩⟩⟩
        exact not_not.mp fun hu => hragged (any_headStarts.mpr hu)

/-- The list from the start of a head keeps its window, unless the sum wraps. -/
theorem keeps_listFrom {h : ℕ} (hh : h < ctx.heads) (hscores : ctx.headScores = none)
    (hwraps : ¬ s.Wraps ctx) :
    Keeps (ctx.headStart h) ctx.currentPos s.protectedPrefix (s.recent ctx)
      (s.listFrom ctx A (ctx.headStart h)) := by
  have hstart := ctx.headStart_le h
  unfold listFrom
  cases himp : ctx.importance with
  | some imp =>
    exact (keeps_compileKeepTopK ⟨ctx.headStart h, ctx.currentPos,
      min s.protectedPrefix ctx.currentPos, s.recent ctx, s.heavy ctx⟩ hstart _).of_min
  | none =>
    have hheavy := s.heavy_lt ctx
    have hrecent := s.recent_lt ctx
    have hkeeps := keeps_compileKeepTopK ⟨ctx.headStart h, ctx.currentPos,
      min s.protectedPrefix ctx.currentPos, (s.heavy ctx + s.recent ctx) % 2 ^ 64, 0⟩
        hstart fun _ => A.ofNat 0
    refine Keeps.of_min ⟨hkeeps.ascending, hkeeps.resident, hkeeps.first,
      fun p hp hlast hcurrent => ?_⟩
    refine (mem_compileKeepTopK ⟨ctx.headStart h, ctx.currentPos,
      min s.protectedPrefix ctx.currentPos, (s.heavy ctx + s.recent ctx) % 2 ^ 64, 0⟩
        hstart rfl _ p).mpr ⟨hp, hcurrent, ?_⟩
    dsimp only
    by_cases hsum : s.heavy ctx + s.recent ctx < 2 ^ 64
    · rw [Nat.mod_eq_of_lt hsum]
      omega
    · have hle : ctx.currentPos ≤ ctx.headStart h + min s.protectedPrefix ctx.currentPos +
          (s.heavy ctx + s.recent ctx - 2 ^ 64) :=
        Nat.le_of_not_lt fun hlt => hwraps ⟨hscores, himp, Nat.le_of_not_lt hsum, h, hh, hlt⟩
      omega

theorem sound (hwraps : ¬ s.Wraps ctx) : ∃ o, s.keepSpec A ctx = .ok o ∧ ∀ spec, o = some spec →
    Plans ctx s.protectedPrefix (s.recent ctx) spec ∧ (ctx.Uniform → EvenLists ctx spec) := by
  obtain ⟨o, ho, hspec⟩ := s.keepSpec_ok ctx A
  refine ⟨o, ho, fun spec h => ?_⟩
  rcases hspec spec h with ⟨score, heads, -, rfl, hlen, hlists⟩ | ⟨hscores, hfan⟩
  · obtain ⟨hplans, heven⟩ := plans_perHead (fun _ => s.heavy ctx) hlen fun h l hl =>
      ⟨score h, hlists h l hl⟩
    exact ⟨hplans, fun hu => heven hu fun _ _ => rfl⟩
  · exact plans_fanOut _ _ _ hfan fun h hh => s.keeps_listFrom ctx A hh hscores hwraps

/-- Where the sum wraps there is a plan, and some head misses a position of its window. -/
theorem exists_missing (hwraps : s.Wraps ctx) : ∃ spec, s.keepSpec A ctx = .ok (some spec) ∧
    ∃ h < ctx.heads, ∃ p, ctx.headStart h ≤ p ∧ ctx.currentPos - s.recent ctx ≤ p ∧
      p < ctx.currentPos ∧
      p ∉ spec.call.list h := by
  obtain ⟨hscores, himp, hsum, h, hh, hlt⟩ := hwraps
  have hheavy := s.heavy_lt ctx
  have hrecent := s.recent_lt ctx
  have hcurrent := ctx.currentPos_lt
  have hstart := ctx.headStart_le h
  -- the sizes are those of the arguments
  have hpartition : s.partition ctx.currentPos ctx.targetLen =
      .ok (some ⟨min s.protectedPrefix ctx.currentPos, s.heavy ctx, s.recent ctx,
      ctx.currentPos⟩) := by
    cases hbudget : s.budget with
    | fromTarget =>
      unfold heavy recent at hsum
      rw [hbudget] at hsum
      dsimp only at hsum
      omega
    | absolute hhSize recentSize =>
      have hH : s.heavy ctx = hhSize := by
        unfold heavy
        rw [hbudget]
      have hR : s.recent ctx = recentSize := by
        unfold recent
        rw [hbudget]
      unfold partition sizes
      rw [hbudget]
      dsimp only
      rw [ok_seq, ← hH, ← hR]
      dsimp only
      rw [if_neg (by omega)]
      rfl
  obtain ⟨o, ho, hspec⟩ := s.keepSpec_ok ctx A
  have hsome : ∃ spec, o = some spec := by
    unfold keepSpec at ho
    rw [hpartition, ok_seq, hscores] at ho
    dsimp only at ho
    split_ifs at ho
    · exact ⟨_, (Except.ok.inj ho).symm⟩
    · exact ⟨_, (Except.ok.inj ho).symm⟩
  obtain ⟨spec, rfl⟩ := hsome
  refine ⟨spec, ho, h, hh, ctx.currentPos - 1 - (s.heavy ctx + s.recent ctx - 2 ^ 64),
    by omega, by omega, by omega, ?_⟩
  rcases hspec spec rfl with ⟨score, -, hsome, -⟩ | ⟨-, hfan⟩
  · rw [hscores] at hsome
    cases hsome
  · rw [(fanOut hfan).2 h hh]
    unfold listFrom
    rw [himp]
    intro hmem
    have hmem := (mem_compileKeepTopK ⟨ctx.headStart h, ctx.currentPos,
      min s.protectedPrefix ctx.currentPos, (s.heavy ctx + s.recent ctx) % 2 ^ 64, 0⟩
        hstart rfl _ _).mp hmem
    dsimp only at hmem
    omega

end H2o

/-! ## The planners -/

/-- The score-based planners. -/
inductive Planner where
  | h2o (s : H2o)
  | pyramidKv (s : PyramidKv)
  | adaKv (s : AdaKv)

namespace Planner

variable {F : Type} [LinearOrder F] (A : ScoreArith F)

def keepSpec (p : Planner) (ctx : StageCtx F) : Except (Fault Empty) (Option KeepSpec) :=
  match p with
  | .h2o s => s.keepSpec A ctx
  | .pyramidKv s => s.keepSpec A ctx
  | .adaKv s => s.keepSpec A ctx

omit [LinearOrder F] in
/-- The protected prefix of a planner. -/
def protectedPrefix (p : Planner) (ctx : StageCtx F) : ℕ :=
  match p with
  | .h2o s => s.protectedPrefix
  | .pyramidKv _ => ctx.protectedPrefix
  | .adaKv _ => ctx.protectedPrefix

omit [LinearOrder F] in
/-- The recent window of a planner. -/
def recent (p : Planner) (ctx : StageCtx F) : ℕ :=
  match p with
  | .h2o s => s.recent ctx
  | .pyramidKv s => s.recent ctx
  | .adaKv s => s.recent ctx

/-- The planner keeps an equal number of every head. -/
def IsEven : Planner → Prop
  | .h2o _ => True
  | .pyramidKv _ => True
  | .adaKv _ => False

omit [LinearOrder F] in
/-- The sum of the sizes wraps. -/
def Wraps (p : Planner) (ctx : StageCtx F) : Prop :=
  match p with
  | .h2o s => s.Wraps ctx
  | .pyramidKv _ => False
  | .adaKv _ => False

/-- **What a planner owes.** -/
structure Sound (p : Planner) (ctx : StageCtx F) : Prop where
  /-- No index or subtraction is out of range. -/
  inRange : ∃ o, p.keepSpec A ctx = .ok o
  plans : ∀ spec, p.keepSpec A ctx = .ok (some spec) →
    Plans ctx (p.protectedPrefix ctx) (p.recent ctx) spec
  even : ∀ spec, p.keepSpec A ctx = .ok (some spec) → p.IsEven → ctx.Uniform → EvenLists ctx spec
  /-- The handle of the cache that the context shows takes the plan. -/
  accepted : ∀ spec, p.keepSpec A ctx = .ok (some spec) → ∀ (P : Platform) (c : KVCache),
    Describes ctx c → c.supportsRagged = true → ∀ layerIdx nLayers swap,
    (spec.call.stage (EngineCacheHandle.new c layerIdx nLayers swap : EngineCacheHandle P)).1 =
      .ok ()

variable {A} {ctx : StageCtx F}

theorem Sound.of_plans {p : Planner} (h : ∃ o, p.keepSpec A ctx = .ok o ∧ ∀ spec, o = some spec →
    Plans ctx (p.protectedPrefix ctx) (p.recent ctx) spec ∧
    (p.IsEven → ctx.Uniform → EvenLists ctx spec)) : Sound A p ctx := by
  obtain ⟨o, ho, hspec⟩ := h
  have hplans : ∀ spec, p.keepSpec A ctx = .ok (some spec) → Plans ctx (p.protectedPrefix ctx)
    (p.recent ctx) spec ∧
      (p.IsEven → ctx.Uniform → EvenLists ctx spec) :=
    fun spec h => hspec spec (Except.ok.inj (ho.symm.trans h))
  refine ⟨⟨o, ho⟩, fun spec h => (hplans spec h).1, fun spec h => (hplans spec h).2,
    fun spec h P c hc hragged layerIdx nLayers swap => ?_⟩
  exact (KeepCall.stage_ok c layerIdx nLayers swap spec.call).mpr
    ((hplans spec h).1.accepted hc hragged)

/-- **When a planner is sound**: unless the sizes of H2O wrap. -/
theorem sound_iff (p : Planner) (ctx : StageCtx F) : Sound A p ctx ↔ ¬ p.Wraps ctx := by
  constructor
  · intro hsound hwraps
    cases p with
    | h2o s =>
      obtain ⟨spec, hspec, h, hh, q, hq, hlast, hlt, hmissing⟩ := s.exists_missing ctx A hwraps
      exact hmissing (((hsound.plans spec hspec).keeps h hh).last q hq hlast hlt)
    | pyramidKv s => exact hwraps
    | adaKv s => exact hwraps
  · intro hwraps
    refine Sound.of_plans ?_
    cases p with
    | h2o s =>
      obtain ⟨o, ho, hspec⟩ := s.sound ctx A hwraps
      exact ⟨o, ho, fun spec h => ⟨(hspec spec h).1, fun _ => (hspec spec h).2⟩⟩
    | pyramidKv s =>
      obtain ⟨o, ho, hspec⟩ := s.sound A ctx
      exact ⟨o, ho, fun spec h => ⟨(hspec spec h).1, fun _ => (hspec spec h).2⟩⟩
    | adaKv s =>
      obtain ⟨o, ho, hspec⟩ := s.sound A ctx
      exact ⟨o, ho, fun spec h => ⟨hspec spec h, fun heven => heven.elim⟩⟩

/-- A context of ten positions in two heads, without scores. -/
def unscoredCtx : StageCtx ℚ where
  currentPos := 10
  headStart _ := 0
  targetLen := 0
  nLayers := 1
  layerIdx := 0
  nKvHeads := 2
  protectedPrefix := 0
  importance := none
  headScores := none
  prefillWindow := none
  currentPos_lt := by norm_num
  headStart_le _ := Nat.zero_le _

/-- The rationals as scores. -/
def ratScores : ScoreArith ℚ := ⟨fun n => n, 0, (· + ·), (· * ·), (· / ·)⟩

/-- H2O with `hh_size=18446744073709551615` and `recent_size=1`. -/
def largestH2o : H2o := .fromArgs 0 [("hh_size", "18446744073709551615"), ("recent_size", "1")]

/-- The sizes add up to `2 ^ 64`: the plan keeps nothing, not even the one recent position. -/
theorem largestH2o_not_sound : ¬ Sound ratScores (.h2o largestH2o) unscoredCtx := by
  have hbudget : largestH2o.budget = .absolute ⟨18446744073709551615, by norm_num⟩
    ⟨1, by norm_num⟩ := by
    decide +kernel
  have hheavy : largestH2o.heavy unscoredCtx = 18446744073709551615 := by
    unfold H2o.heavy
    rw [hbudget]
  have hrecent : largestH2o.recent unscoredCtx = 1 := by
    unfold H2o.recent
    rw [hbudget]
  intro hsound
  obtain ⟨spec, hspec, h, hh, q, hq, hlast, hlt, hmissing⟩ :=
    largestH2o.exists_missing unscoredCtx ratScores ⟨rfl, rfl,
    by rw [hheavy, hrecent]; norm_num, 0, by decide, by rw [hheavy, hrecent]; decide⟩
  exact hmissing (((hsound.plans spec hspec).keeps h hh).last q hq hlast hlt)

end Planner

end ArgusEngine.Techniques
