import ArgusEngine.Layers.TpBalance

/-!
# The split controller converges

A segment that observes two devices of constant speeds settles at their balance, and stays there.

* `Settled`: Lookup at a quantum. **`token_settled`**: it is not left, where the next quantum makes
  the CPU wait;
* `Devices.Settles`: a number of tokens in Descent, the last of which ends it unforced;
* `Standing`: a quantum held at an end of the axis; `Ladder`: a climb below a quantum that was
  waited at;
* **`settles_at_balance`**: from any share, within 16 tokens of Descent, and for every number of
  tokens after them.
-/

namespace ArgusEngine.Layers

open SegState

variable {g : SegGeom} {d : Devices} {cfg : TpConfig} {s : SegState}

/-! ## Lookup -/

/-- Lookup at the quantum `q`, or at the next one while it is probed. -/
structure Settled (d : Devices) (g : SegGeom) (q : ℕ) (s : SegState) : Prop where
  geom : s.geom = g
  phase : s.phase = .lookup
  qOpt : s.qOpt = q
  tBest : s.tBest = d.time g q
  slowStreak : s.slowStreak = 0
  probeConfirm : s.probeConfirm = false
  held : s.probing = false ∧ s.q = q ∨ s.probing = true ∧ s.q = q + 1 ∧ q < g.qMax

/-- **A token in Lookup** is not slow, and a probe of the next quantum is waited at. -/
theorem token_settled (hs : g.splittable = true) {q : ℕ} (hq : 1 ≤ q ∧ q ≤ g.qMax)
    (hwait : q < g.qMax → d.Waits g (q + 1)) (hratio : 1 ≤ cfg.contentionRatio)
    (h : Settled d g q s) : ∃ s', d.token cfg s = some (s', .none) ∧ Settled d g q s' := by
  obtain ⟨rfl, hphase, hqOpt, hbest, hslow, hconfirm, hheld⟩ := h
  unfold Devices.token SegState.observe
  rw [hphase]
  dsimp only
  unfold observeLookup
  rcases hheld with ⟨hprobing, hqs⟩ | ⟨hprobing, hqs, hlt⟩
  · -- the token runs at the best quantum
    have hseg : (d.observation s).tSeg = s.tBest := by rw [d.tSeg_observation, hqs, hbest]
    have hnot : ¬ cfg.contentionRatio * s.tBest < (d.observation s).tSeg := by
      rw [hseg, not_lt, hbest]
      exact le_mul_of_one_le_left (Devices.time_pos hs hq.1).le hratio
    dsimp only
    rw [if_neg (by rw [hprobing]; exact Bool.false_ne_true), if_neg hnot,
      if_neg (show ¬ STREAK ≤ 0 by decide)]
    split_ifs with hprobe
    · refine ⟨_, rfl, rfl, hphase, hqOpt, hbest, rfl, hconfirm, .inr ⟨rfl, ?_, hqOpt ▸ hprobe.2.2⟩⟩
      rw [setQ_eq ⟨by omega, by have := hprobe.2.2; dsimp only at this ⊢; omega⟩, hqOpt]
    · exact ⟨_, rfl, rfl, hphase, hqOpt, hbest, rfl, hconfirm, .inl ⟨hprobing, hqs⟩⟩
  · -- the probe is waited at
    have hwaited : (d.observation s).waited = true :=
      decide_eq_true (show d.Waits s.geom s.q from hqs ▸ hwait hlt)
    rw [if_pos hprobing, hwaited, hconfirm]
    refine ⟨_, rfl, rfl, hphase, hqOpt, hbest, hslow, rfl, .inl ⟨rfl, ?_⟩⟩
    rw [setQ_eq (by rw [hqOpt]; exact hq), hqOpt]

/-- The segment after a number of tokens. -/
def Devices.tokens (d : Devices) (cfg : TpConfig) : ℕ → SegState → Option SegState
  | 0, s => some s
  | n + 1, s => do
    let (s, _) ← d.token cfg s
    d.tokens cfg n s

/-- **Lookup is not left.** -/
theorem tokens_settled (hs : g.splittable = true) {q : ℕ} (hq : 1 ≤ q ∧ q ≤ g.qMax)
    (hwait : q < g.qMax → d.Waits g (q + 1)) (hratio : 1 ≤ cfg.contentionRatio)
    (h : Settled d g q s) (n : ℕ) : ∃ s', d.tokens cfg n s = some s' ∧ Settled d g q s' := by
  induction n generalizing s with
  | zero => exact ⟨s, rfl, h⟩
  | succ n ih =>
    obtain ⟨s₁, hs₁, h₁⟩ := token_settled hs hq hwait hratio h
    obtain ⟨s', hs', h'⟩ := ih h₁
    refine ⟨s', ?_, h'⟩
    rw [Devices.tokens, hs₁]
    exact hs'

/-! ## The history -/

/-- A segment in Descent, with the times of its devices in the history. -/
structure Descending (d : Devices) (g : SegGeom) (s : SegState) : Prop where
  geom : s.geom = g
  phase : s.phase = .descent
  applied : 1 ≤ s.q ∧ s.q ≤ g.qMax
  timed : ∀ h ∈ s.hist, h.tSeg = d.time g h.q

theorem foldl_min_const {ts : List (WithTop ℚ)} {t : WithTop ℚ} (h : ∀ x ∈ ts, x = t) :
    ts.foldl min t = t := by
  induction ts with
  | nil => rfl
  | cons x ts ih =>
    rw [List.foldl_cons, h x (.head _), min_self]
    exact ih fun y hy => h y (.tail _ hy)

theorem bestAt_of_mem (htimed : ∀ h ∈ s.hist, h.tSeg = d.time g h.q) {q : ℕ}
    (hq : ∃ x ∈ s.hist, x.q = q) : s.bestAt q = (d.time g q : ℚ) := by
  have hconst : ∀ t ∈ (s.hist.filter fun x => x.q = q).map fun x => (x.tSeg : WithTop ℚ),
    t = (d.time g q : ℚ) := by
    intro t ht
    obtain ⟨x, hx, rfl⟩ := List.mem_map.mp ht
    obtain ⟨hmem, hxq⟩ := List.mem_filter.mp hx
    rw [htimed x hmem, of_decide_eq_true hxq]
  have hne : (s.hist.filter fun x => x.q = q).map (fun x => (x.tSeg : WithTop ℚ)) ≠ [] := by
    obtain ⟨x, hx, hxq⟩ := hq
    exact List.ne_nil_of_mem (List.mem_map_of_mem (List.mem_filter.mpr ⟨hx, decide_eq_true hxq⟩))
  unfold bestAt
  obtain ⟨t, ts, hts⟩ := List.exists_cons_of_ne_nil hne
  rw [hts] at hconst ⊢
  rw [List.foldl_cons, hconst t (.head _), min_eq_right le_top]
  exact foldl_min_const fun y hy => hconst y (.tail _ hy)

theorem bestAt_of_not_mem {q : ℕ} (hq : ¬ ∃ x ∈ s.hist, x.q = q) : s.bestAt q = ⊤ := by
  have hnil : s.hist.filter (fun x => x.q = q) = [] :=
    List.filter_eq_nil_iff.mpr fun x hx hxq => hq ⟨x, hx, of_decide_eq_true hxq⟩
  unfold bestAt
  rw [hnil]
  rfl

theorem hist_record (s : SegState) (o : Obs) :
    (∃ x ∈ (s.record o).hist, x.q = s.q) ∧ ∀ x ∈ (s.record o).hist, x ∈ s.hist ∨
    x = ⟨s.q, o.waited, o.tSeg, o.tCpu⟩ := by
  unfold record
  dsimp only
  refine ⟨⟨_, List.mem_append_right _ List.mem_cons_self, rfl⟩, fun x hx => ?_⟩
  rcases List.mem_append.mp hx with hx | hx
  · split_ifs at hx
    · exact .inl (List.mem_of_mem_tail hx)
    · exact .inl hx
  · exact .inr (List.mem_singleton.mp hx)

theorem Descending.timed_record (h : Descending d g s) :
    ∀ x ∈ (s.record (d.observation s)).hist, x.tSeg = d.time g x.q := by
  intro x hx
  rcases (hist_record s _).2 x hx with hx | rfl
  · exact h.timed x hx
  · exact (d.tSeg_observation s).trans (by rw [h.geom])

/-- **The bracket closes** at the faster of its ends. -/
theorem convergedAt_closed {a : ℕ} (hlo : s.lo = some a) (hhi : s.hi = some (a + 1))
    (htimed : ∀ h ∈ s.hist, h.tSeg = d.time g h.q) (hmem : ∃ x ∈ s.hist, x.q = a ∨ x.q = a + 1) :
    ∃ q, s.convergedAt = some q ∧ (q = a ∨ q = a + 1) ∧ ∃ x ∈ s.hist, x.q = q := by
  unfold convergedAt
  rw [hlo, hhi]
  dsimp only
  rw [if_pos rfl]
  by_cases hhiMem : ∃ x ∈ s.hist, x.q = a + 1
  · by_cases hloMem : ∃ x ∈ s.hist, x.q = a
    · split_ifs
      · exact ⟨_, rfl, .inr rfl, hhiMem⟩
      · exact ⟨_, rfl, .inl rfl, hloMem⟩
    · rw [bestAt_of_not_mem hloMem, bestAt_of_mem htimed hhiMem, if_pos (WithTop.coe_lt_top _)]
      exact ⟨_, rfl, .inr rfl, hhiMem⟩
  · rw [bestAt_of_not_mem hhiMem, if_neg not_top_lt]
    obtain ⟨x, hx, hxq | hxq⟩ := hmem
    · exact ⟨_, rfl, .inl rfl, x, hx, hxq⟩
    · exact absurd ⟨x, hx, hxq⟩ hhiMem

/-! ## Descent -/

/-- After `n` tokens of Descent the segment is in Lookup, and was not forced. -/
inductive Devices.Settles (d : Devices) (cfg : TpConfig) : ℕ → SegState → SegState → Prop
  | last {s s' : SegState} (hphase : s.phase = .descent)
    (h : d.token cfg s = some (s', .converged false)) :
      Settles d cfg 1 s s'
  | token {n : ℕ} {s s₁ s' : SegState} (hphase : s.phase = .descent)
    (h : d.token cfg s = some (s₁, .none))
      (hrest : Settles d cfg n s₁ s') : Settles d cfg (n + 1) s s'

theorem Devices.Settles.unique {n m : ℕ} {s₁ s₂ : SegState} (h : d.Settles cfg n s s₁)
    (h' : d.Settles cfg m s s₂) : s₁ = s₂ := by
  induction h generalizing m with
  | last hphase h =>
    cases h' with
    | last hphase' h' => exact (Prod.mk.inj (Option.some.inj (h.symm.trans h'))).1
    | token hphase' h' hrest => cases h.symm.trans h'
  | token hphase h hrest ih =>
    cases h' with
    | last hphase' h' => cases h.symm.trans h'
    | token hphase' h' hrest' =>
      obtain rfl := (Prod.mk.inj (Option.some.inj (h.symm.trans h'))).1
      exact ih hrest'

variable (cfg) in
/-- **A token that converges** ends Descent. -/
theorem Descending.settle (h : Descending d g s) {q : ℕ} (hq : 1 ≤ q ∧ q ≤ g.qMax)
    (hconv : (s.record (d.observation s)).convergedAt = some q)
    (hmem : ∃ x ∈ (s.record (d.observation s)).hist, x.q = q) :
    ∃ s', d.Settles cfg 1 s s' ∧ Settled d g q s' := by
  obtain ⟨median, -, hmedian⟩ := exists_tCpuMedian (hist_record_ne s (d.observation s))
  refine ⟨(s.record (d.observation s)).enterLookup q (d.time g q) median, .last h.phase ?_, h.geom,
    rfl, rfl, rfl, rfl, rfl,
    .inl ⟨rfl, setQ_eq (by rw [show (s.record (d.observation s)).geom = g from h.geom]; exact hq)⟩⟩
  unfold Devices.token SegState.observe
  rw [h.phase]
  dsimp only
  unfold observeDescent
  dsimp only
  rw [hconv, hmedian]
  dsimp only
  rw [bestAt_of_mem h.timed_record hmem]
  rfl

theorem Descending.token_eq (h : Descending d g s)
    (hopen : (s.record (d.observation s)).convergedAt = none)
    (htokens : s.descentTokens + 1 < MAX_DESCENT_TOKENS) {s₁ : SegState}
    (hmove : (s.record (d.observation s)).move (d.observation s) cfg.eta = some s₁) :
    d.token cfg s = some (s₁.intoBracket, .none) := by
  unfold Devices.token SegState.observe
  rw [h.phase]
  dsimp only
  unfold observeDescent
  dsimp only
  have hnot : ¬ MAX_DESCENT_TOKENS ≤ (s.record (d.observation s)).descentTokens :=
    not_le.mpr htokens
  rw [hopen]
  dsimp only
  rw [if_neg hnot, hmove]
  rfl

/-- The quantum that `intoBracket` asks for. -/
def bracketed (s : SegState) : ℕ :=
  let q := match s.hi with
    | some hi => min s.q (max (hi - 1) 1)
    | none => s.q
  match s.lo with
  | some lo => max q lo
  | none => q

theorem intoBracket_eq (h : 1 ≤ bracketed s ∧ bracketed s ≤ s.geom.qMax) :
    ∃ r, s.intoBracket = { s with r := r, q := bracketed s } ∧
    (r = s.r ∨ r = s.geom.share (bracketed s)) := by
  have heq : s.intoBracket = if bracketed s ≠ s.q then s.setQ (bracketed s) else s := rfl
  rw [heq]
  split_ifs with hne
  · refine ⟨s.geom.share (bracketed s), ?_, .inr rfl⟩
    unfold setQ
    dsimp only
    rw [min_eq_left h.2, max_eq_right h.1]
  · refine ⟨s.r, ?_, .inl rfl⟩
    rw [not_not.mp hne]

theorem Descending.waited (h : Descending d g s) :
    (d.observation s).waited = decide (d.Waits g s.q) := by
  rw [← h.geom]
  rfl

theorem Descending.record_not_waits (h : Descending d g s) (hw : ¬ d.Waits g s.q) :
    (s.record (d.observation s)).lo = some s.q ∧
      (s.record (d.observation s)).hi = s.hi.filter fun hi => s.q < hi := by
  unfold record
  dsimp only
  rw [h.waited, decide_eq_false hw]
  exact ⟨rfl, rfl⟩

theorem Descending.record_waits (h : Descending d g s) (hw : d.Waits g s.q) :
    (s.record (d.observation s)).lo = (s.lo.filter fun lo => lo < s.q) ∧
    (s.record (d.observation s)).hi = some s.q := by
  unfold record
  dsimp only
  rw [h.waited, decide_eq_true hw]
  exact ⟨rfl, rfl⟩

theorem Descending.tGpu_of_not_waits (h : Descending d g s) (hw : ¬ d.Waits g s.q) :
    (d.observation s).tGpu = none := by
  refine if_neg (not_or.mpr ⟨?_, ?_⟩)
  · rw [h.geom]
    exact hw
  · rw [serial, h.phase]
    decide

variable (cfg) in
/-- **A probe**: without a wait the quantum goes up, at most to the top. -/
theorem Descending.probe (h : Descending d g s) (hw : ¬ d.Waits g s.q) {top : ℕ}
    (htop : s.hi = none ∧ top = g.qMax ∨ s.hi = some (top + 1) ∧ top + 1 ≤ g.qMax) (hle : s.q ≤ top)
    (hopen : (s.record (d.observation s)).convergedAt = none)
    (htokens : s.descentTokens + 1 < MAX_DESCENT_TOKENS) (hk : s.kProbe < 64) :
    ∃ s', d.token cfg s = some (s', .none) ∧ Descending d g s' ∧
      s'.hist = (s.record (d.observation s)).hist ∧
      s'.lo = some s.q ∧ s'.hi = s.hi ∧ s'.kProbe = s.kProbe + 1 ∧
      s'.descentTokens = s.descentTokens + 1 ∧
      s'.q = min (s.q + min (2 ^ s.kProbe) MAX_PROBE_QUANTA) top := by
  obtain ⟨hrecLo, hrecHi⟩ := h.record_not_waits hw
  have hquanta : 1 ≤ min (2 ^ s.kProbe) MAX_PROBE_QUANTA := le_min Nat.one_le_two_pow (by decide)
  obtain ⟨t, ht⟩ : ∃ t, t =
    { (s.record (d.observation s)).setQ (s.q + min (2 ^ s.kProbe) MAX_PROBE_QUANTA) with
    kProbe := s.kProbe + 1 } := ⟨_, rfl⟩
  have hmove : (s.record (d.observation s)).move (d.observation s) cfg.eta = some t := by
    unfold move
    rw [h.tGpu_of_not_waits hw]
    dsimp only
    rw [if_neg (show ¬ 64 ≤ (s.record (d.observation s)).kProbe from Nat.not_le.mpr hk), ht]
    rfl
  have hq : t.q = max 1 (min (s.q + min (2 ^ s.kProbe) MAX_PROBE_QUANTA) g.qMax) := by
    rw [ht, ← h.geom]
    rfl
  have hlo : t.lo = some s.q := by
    rw [ht]
    exact hrecLo
  have hhi : t.hi = s.hi := by
    rw [ht]
    refine hrecHi.trans ?_
    rcases htop with ⟨hnone, -⟩ | ⟨hsome, -⟩
    · rw [hnone]
      rfl
    · rw [hsome]
      exact if_pos (decide_eq_true (Nat.lt_succ_iff.mpr hle))
  have hin : bracketed t = min (s.q + min (2 ^ s.kProbe) MAX_PROBE_QUANTA) top := by
    have happlied := h.applied
    unfold bracketed
    rw [hlo, hhi, hq]
    rcases htop with ⟨hnone, htop⟩ | ⟨hsome, htop⟩
    · rw [hnone]
      dsimp only
      omega
    · rw [hsome]
      dsimp only
      omega
  have htgeom : t.geom = g := by
    rw [ht, ← h.geom]
    rfl
  have hrange : 1 ≤ bracketed t ∧ bracketed t ≤ g.qMax := by
    have happlied := h.applied
    rw [hin]
    rcases htop with ⟨-, htop⟩ | ⟨-, htop⟩ <;> omega
  obtain ⟨r, hinto, -⟩ := intoBracket_eq (s := t) (by rw [htgeom]; exact hrange)
  have hhist : t.hist = (s.record (d.observation s)).hist := by
    rw [ht]
    rfl
  refine ⟨t.intoBracket, h.token_eq hopen htokens hmove, ?_⟩
  rw [hinto]
  refine ⟨⟨htgeom, ?_, hrange, ?_⟩, hhist, hlo, hhi, ?_, ?_, hin⟩
  · rw [ht]
    exact h.phase
  · intro x hx
    exact h.timed_record x (hhist ▸ hx)
  · rw [ht]
  · rw [ht]
    rfl

variable (cfg) in
/-- **A step along the gradient**: after a wait the quantum goes below the one that was waited
at. -/
theorem Descending.gradient (h : Descending d g s) (hs : g.splittable = true) (hfits : g.Fits)
    (hw : d.Waits g s.q) (hlo : s.lo = none)
    (hopen : (s.record (d.observation s)).convergedAt = none)
    (htokens : s.descentTokens + 1 < MAX_DESCENT_TOKENS) {r : ℚ}
    (hr : r = max (g.share 1) (min (s.r + cfg.eta * (d.timeCpu g s.q - d.timeGpu g s.q) /
      max (d.timeCpu g s.q + d.timeGpu g s.q) EPSILON) (g.share g.qMax))) :
    ∃ s' q', d.token cfg s = some (s', .none) ∧ Descending d g s' ∧
      s'.hist = (s.record (d.observation s)).hist ∧
      s'.lo = none ∧ s'.hi = some s.q ∧ s'.kProbe = 0 ∧ s'.descentTokens = s.descentTokens + 1 ∧
      g.quantize r = some q' ∧ s'.q = min q' (max (s.q - 1) 1) ∧
      (s'.r = r ∨ s'.r = g.share s'.q) := by
  have hwaited : (d.observation s).waited = true := by
    rw [h.waited]
    exact decide_eq_true hw
  have hgpu : (d.observation s).tGpu = some (d.timeGpu g s.q) := by
    rw [← h.geom]
    exact if_pos (.inl (by rw [h.geom]; exact hw))
  have hcpu : (d.observation s).tCpu = d.timeCpu g s.q := by
    rw [← h.geom]
    rfl
  have hlt : r < GPU_ONLY_THRESHOLD := by
    rw [hr]
    exact max_lt ((SegGeom.share_mono (SegGeom.one_le_qMax hs)).trans_lt hfits)
      ((min_le_right _ _).trans_lt hfits)
  obtain ⟨q', hquant⟩ := SegGeom.quantize_isSome hs hlt
  have hq' := SegGeom.quantize_range hs hquant
  obtain ⟨t, ht⟩ : ∃ t, t =
    { s.record (d.observation s) with r := r, q := q', kProbe := 0 } := ⟨_, rfl⟩
  have hmove : (s.record (d.observation s)).move (d.observation s) cfg.eta = some t := by
    have hset : (s.record (d.observation s)).setR
      (s.r + cfg.eta * (d.timeCpu g s.q - d.timeGpu g s.q) /
        max (d.timeCpu g s.q + d.timeGpu g s.q) EPSILON) =
          some { s.record (d.observation s) with r := r, q := q' } := by
      unfold setR
      dsimp only
      rw [show (s.record (d.observation s)).geom = g from h.geom, ← hr, hquant]
      rfl
    unfold move
    rw [hgpu, hwaited, hcpu]
    dsimp only
    rw [show (s.record (d.observation s)).r = s.r from rfl, hset, ht]
    rfl
  have htlo : t.lo = none := by
    rw [ht]
    refine (h.record_waits hw).1.trans ?_
    rw [hlo]
    rfl
  have hthi : t.hi = some s.q := by
    rw [ht]
    exact (h.record_waits hw).2
  have htgeom : t.geom = g := by
    rw [ht, ← h.geom]
    rfl
  have hin : bracketed t = min q' (max (s.q - 1) 1) := by
    unfold bracketed
    rw [htlo, hthi, ht]
  have hrange : 1 ≤ bracketed t ∧ bracketed t ≤ g.qMax := by
    rw [hin]
    omega
  obtain ⟨r', hinto, hr'⟩ := intoBracket_eq (s := t) (by rw [htgeom]; exact hrange)
  have hhist : t.hist = (s.record (d.observation s)).hist := by
    rw [ht]
  refine ⟨t.intoBracket, q', h.token_eq hopen htokens hmove, ?_⟩
  rw [hinto]
  refine ⟨⟨htgeom, ?_, hrange, ?_⟩, hhist, htlo, hthi, ?_, ?_, hquant, hin, ?_⟩
  · rw [ht]
    exact h.phase
  · intro x hx
    exact h.timed_record x (hhist ▸ hx)
  · rw [ht]
  · rw [ht]
    rfl
  · rw [htgeom] at hr'
    rcases hr' with hr' | hr'
    · exact .inl (hr'.trans (by rw [ht]))
    · exact .inr hr'

/-! ## At the balance -/

theorem quanta_le_quanta {r r' : ℚ} (h : r ≤ r') : g.quanta r ≤ g.quanta r' := by
  unfold SegGeom.quanta
  gcongr

theorem quanta_target (hs : g.splittable = true) :
    g.quanta (d.target g) = max 1 (min (g.quanta d.balance) g.qMax) := by
  have h1 : g.quanta (g.share 1) = 1 := (SegGeom.quanta_share hs 1).trans Nat.cast_one
  have hmax := SegGeom.quanta_share hs g.qMax
  unfold Devices.target
  rcases le_total d.balance (g.share g.qMax) with hle | hle
  · rw [min_eq_left hle, min_eq_left ((SegGeom.le_share_iff hs).mp hle)]
    rcases le_total (g.share 1) d.balance with hle' | hle'
    · rw [max_eq_right hle', max_eq_right (h1 ▸ quanta_le_quanta hle')]
    · rw [max_eq_left hle', max_eq_left (h1 ▸ quanta_le_quanta hle'), h1]
  · rw [min_eq_right hle, min_eq_right ((SegGeom.share_le_iff hs).mp hle)]
    have hle' := SegGeom.share_mono (g := g) (SegGeom.one_le_qMax hs)
    rw [max_eq_right hle', hmax, max_eq_right]
    exact_mod_cast SegGeom.one_le_qMax hs

/-- A quantum to settle at: it is next to the balance, and the CPU waits at the one above. -/
structure AtBalance (d : Devices) (g : SegGeom) (q : ℕ) : Prop where
  applied : 1 ≤ q ∧ q ≤ g.qMax
  waits : q < g.qMax → d.Waits g (q + 1)
  near : |g.share q - d.target g| ≤ g.unit / g.total

theorem atBalance_of (hs : g.splittable = true) {q : ℕ} (hq : 1 ≤ q ∧ q ≤ g.qMax)
    (hwaits : q < g.qMax → d.Waits g (q + 1)) (hlo : (q : ℚ) - 1 ≤ g.quanta (d.target g))
    (hhi : g.quanta (d.target g) ≤ q + 1) : AtBalance d g q := by
  refine ⟨hq, hwaits, ?_⟩
  have htotal := SegGeom.total_cast_pos hs
  have hunit := g.unit_cast_pos
  have hscale : g.share q - d.target g = (q - g.quanta (d.target g)) * (g.unit / g.total) := by
    rw [SegGeom.share_eq, SegGeom.quanta]
    field_simp
  rw [hscale, abs_mul, abs_of_pos (div_pos hunit htotal)]
  refine mul_le_of_le_one_left (div_pos hunit htotal).le (abs_le.mpr ⟨by linarith, by linarith⟩)

/-- Within `n` tokens the segment settles at the balance. -/
def Lands (d : Devices) (g : SegGeom) (cfg : TpConfig) (n : ℕ) (s : SegState) : Prop :=
  ∃ k ≤ n, ∃ s' q, d.Settles cfg k s s' ∧ Settled d g q s' ∧ AtBalance d g q

theorem Lands.token {n : ℕ} {s₁ : SegState} (h : Lands d g cfg n s₁) (hphase : s.phase = .descent)
    (htoken : d.token cfg s = some (s₁, .none)) : Lands d g cfg (n + 1) s := by
  obtain ⟨k, hk, s', q, hsettles, hsettled⟩ := h
  exact ⟨k + 1, Nat.succ_le_succ hk, s', q, .token hphase htoken hsettles, hsettled⟩

theorem Lands.mono {n m : ℕ} (h : Lands d g cfg n s) (hle : n ≤ m) : Lands d g cfg m s := by
  obtain ⟨k, hk, hrest⟩ := h
  exact ⟨k, hk.trans hle, hrest⟩

/-- **The bracket closes around the balance.** -/
theorem Descending.close (h : Descending d g s) (hs : g.splittable = true) {a : ℕ} (ha : 1 ≤ a)
    (ha' : a + 1 ≤ g.qMax) (hnot : ¬ d.Waits g a) (hwaits : d.Waits g (a + 1))
    (hlo : (s.record (d.observation s)).lo = some a)
    (hhi : (s.record (d.observation s)).hi = some (a + 1)) (hq : s.q = a ∨ s.q = a + 1) :
    Lands d g cfg 1 s := by
  have hmem : ∃ x ∈ (s.record (d.observation s)).hist, x.q = a ∨ x.q = a + 1 := by
    obtain ⟨x, hx, hxq⟩ := (hist_record s (d.observation s)).1
    exact ⟨x, hx, by rwa [hxq]⟩
  obtain ⟨q, hconv, hqa, hqmem⟩ := convergedAt_closed hlo hhi h.timed_record hmem
  have hrange : 1 ≤ q ∧ q ≤ g.qMax := by omega
  obtain ⟨s', hsettles, hsettled⟩ := h.settle cfg hrange hconv hqmem
  -- the balance is between the ends
  have hlow : (a : ℚ) ≤ g.quanta d.balance :=
    (SegGeom.share_le_iff hs).mp (not_lt.mp (mt Devices.waits_iff.mpr hnot))
  have hhigh : g.quanta d.balance < (a + 1 : ℕ) :=
    (SegGeom.lt_share_iff hs).mp (Devices.waits_iff.mp hwaits)
  have ha1 : (1 : ℚ) ≤ a := by exact_mod_cast ha
  have hmax : ((a + 1 : ℕ) : ℚ) ≤ g.qMax := by exact_mod_cast ha'
  have htarget : g.quanta (d.target g) = g.quanta d.balance := by
    rw [quanta_target hs, min_eq_left (hhigh.le.trans hmax), max_eq_right (ha1.trans hlow)]
  rw [Nat.cast_succ] at hhigh
  refine ⟨1, le_rfl, s', q, hsettles, hsettled, ?_⟩
  rcases hqa with rfl | rfl
  · exact atBalance_of hs hrange (fun _ => hwaits) (by linarith) (by linarith)
  · refine atBalance_of hs hrange (fun _ => ?_) (by push_cast; linarith) (by push_cast; linarith)
    exact Devices.waits_iff.mpr
      ((Devices.waits_iff.mp hwaits).trans_le (SegGeom.share_mono (Nat.le_succ _)))

/-! ## A quantum that is held -/

theorem convergedAt_open (h : s.lo = none ∨ s.hi = none) : s.convergedAt = s.heldAt := by
  unfold convergedAt
  rcases h with h | h
  · rw [h]
  · rw [h]
    cases s.lo <;> rfl

theorem Descending.convergedAt_of_hi (h : Descending d g s) (hw : ¬ d.Waits g s.q)
    (hhi : s.hi = none) : (s.record (d.observation s)).convergedAt =
    (s.record (d.observation s)).heldAt := by
  refine convergedAt_open (.inr ((h.record_not_waits hw).2.trans ?_))
  rw [hhi]
  rfl

theorem Descending.convergedAt_of_lo (h : Descending d g s) (hw : d.Waits g s.q)
    (hlo : s.lo = none) : (s.record (d.observation s)).convergedAt =
    (s.record (d.observation s)).heldAt := by
  refine convergedAt_open (.inl ((h.record_waits hw).1.trans ?_))
  rw [hlo]
  rfl

theorem heldAt_of_length (h : s.hist.length ≠ STREAK) : s.heldAt = none := by
  unfold heldAt
  cases hhist : s.hist with
  | nil => rfl
  | cons x xs => exact if_neg fun hx => h (hhist ▸ hx.1)

theorem heldAt_of_all {q : ℕ} (hlen : s.hist.length = STREAK) (hall : ∀ x ∈ s.hist, x.q = q) :
    s.heldAt = some q := by
  unfold heldAt
  cases hhist : s.hist with
  | nil =>
    rw [hhist] at hlen
    cases hlen
  | cons x xs =>
    rw [hhist] at hlen hall
    have hx := hall x List.mem_cons_self
    dsimp only
    rw [if_pos ⟨hlen, fun y hy => (hall y hy).trans hx.symm⟩, hx]

theorem heldAt_record_new (h : ∀ x ∈ s.hist, x.q ≠ s.q) (o : Obs) : (s.record o).heldAt = none := by
  obtain ⟨front, hfront, hsub⟩ : ∃ front, (s.record o).hist = front ++
    [⟨s.q, o.waited, o.tSeg, o.tCpu⟩] ∧
      ∀ x ∈ front, x ∈ s.hist := by
    refine ⟨_, rfl, fun x hx => ?_⟩
    split_ifs at hx
    · exact List.mem_of_mem_tail hx
    · exact hx
  cases front with
  | nil =>
    refine heldAt_of_length ?_
    rw [hfront]
    exact show 1 ≠ 3 by decide
  | cons x xs =>
    unfold heldAt
    rw [hfront]
    refine if_neg fun hall => h x (hsub x List.mem_cons_self) ?_
    exact (hall.2 _ (List.mem_append_right (x :: xs) List.mem_cons_self)).symm

/-- Descent at one quantum, for `k` tokens. -/
structure Standing (d : Devices) (g : SegGeom) (k : ℕ) (s : SegState) :
    Prop extends Descending d g s where
  held : ∀ x ∈ s.hist, x.q = s.q
  length : s.hist.length = k
  tokens : s.descentTokens = k
  probe : s.kProbe ≤ k

theorem Standing.record {k : ℕ} (h : Standing d g k s) (hk : k < STREAK) (o : Obs) :
    (∀ x ∈ (s.record o).hist, x.q = s.q) ∧ (s.record o).hist.length = k + 1 := by
  constructor
  · intro x hx
    rcases (hist_record s o).2 x hx with hx | rfl
    · exact h.held x hx
    · rfl
  · unfold SegState.record
    dsimp only
    rw [if_neg (by rw [h.length]; exact hk.ne), List.length_append, h.length]
    rfl

/-- **The largest quantum is held** where the CPU never waits. -/
theorem Standing.top (hs : g.splittable = true) (hnot : ¬ d.Waits g g.qMax) {left k : ℕ}
    (hleft : k + left = 2) (h : Standing d g k s) (hq : s.q = g.qMax) (hhi : s.hi = none) :
    Lands d g cfg (left + 1) s := by
  induction left generalizing k s with
  | zero =>
    have hopen := h.convergedAt_of_hi (by rwa [hq]) hhi
    obtain ⟨hall, hlen⟩ := h.record (by unfold STREAK; omega) (d.observation s)
    have hheld := heldAt_of_all (hlen.trans (by unfold STREAK; omega)) hall
    obtain ⟨s', hsettles, hsettled⟩ := h.settle cfg h.applied (hopen.trans hheld)
      (hist_record s _).1
    have hbalance : (g.qMax : ℚ) ≤ g.quanta d.balance :=
      (SegGeom.share_le_iff hs).mp (not_lt.mp (mt Devices.waits_iff.mpr hnot))
    have htarget : g.quanta (d.target g) = g.qMax := by
      rw [quanta_target hs, min_eq_right hbalance, max_eq_right]
      exact_mod_cast SegGeom.one_le_qMax hs
    refine ⟨1, le_rfl, s', s.q, hsettles, hsettled, ?_⟩
    rw [hq]
    exact atBalance_of hs ⟨SegGeom.one_le_qMax hs, le_rfl⟩ (fun hlt => absurd hlt (lt_irrefl _))
      (by linarith) (by linarith)
  | succ left ih =>
    have hw : ¬ d.Waits g s.q := by rwa [hq]
    obtain ⟨hall, hlen⟩ := h.record (by unfold STREAK; omega) (d.observation s)
    have hheld := heldAt_of_length (s := s.record (d.observation s)) (by unfold STREAK; omega)
    have htokens := h.tokens
    have hprobe := h.probe
    obtain ⟨s₁, htoken, hdesc, hhist, -, hhi₁, hk₁, htokens₁, hq₁⟩ := h.toDescending.probe cfg hw
      (.inl ⟨hhi, rfl⟩) hq.le ((h.convergedAt_of_hi hw hhi).trans hheld)
        (by unfold MAX_DESCENT_TOKENS; omega) (by omega)
    have hq₁' : s₁.q = g.qMax := by
      rw [hq₁, hq]
      exact min_eq_right (Nat.le_add_right _ _)
    have hstand : Standing d g (k + 1) s₁ :=
      ⟨hdesc, by rw [hhist, hq₁', ← hq]; exact hall, by rw [hhist]; exact hlen, by omega, by omega⟩
    exact (ih (by omega) hstand hq₁' (hhi₁.trans hhi)).token h.phase htoken

/-- **The first quantum is held** where the CPU always waits. -/
theorem Standing.bottom (hs : g.splittable = true) (hfits : g.Fits) (heta : 0 < cfg.eta)
    (hw : d.Waits g 1) {left k : ℕ} (hleft : k + left = 2) (h : Standing d g k s) (hq : s.q = 1)
    (hlo : s.lo = none) (hr : s.r = g.share 1) : Lands d g cfg (left + 1) s := by
  have hbelow : g.quanta d.balance < 1 := by
    have := (SegGeom.lt_share_iff hs).mp (Devices.waits_iff.mp hw)
    rwa [Nat.cast_one] at this
  induction left generalizing k s with
  | zero =>
    have hopen := h.convergedAt_of_lo (by rwa [hq]) hlo
    obtain ⟨hall, hlen⟩ := h.record (by unfold STREAK; omega) (d.observation s)
    have hheld := heldAt_of_all (hlen.trans (by unfold STREAK; omega)) hall
    obtain ⟨s', hsettles, hsettled⟩ := h.settle cfg h.applied (hopen.trans hheld)
      (hist_record s _).1
    have htarget : g.quanta (d.target g) = 1 := by
      rw [quanta_target hs, max_eq_left]
      exact (min_le_left _ _).trans hbelow.le
    refine ⟨1, le_rfl, s', s.q, hsettles, hsettled, ?_⟩
    rw [hq]
    refine atBalance_of hs ⟨le_rfl, SegGeom.one_le_qMax hs⟩ (fun _ => ?_)
      (by rw [htarget]; norm_num) (by rw [htarget]; norm_num)
    exact Devices.waits_iff.mpr ((Devices.waits_iff.mp hw).trans_le (SegGeom.share_mono (by omega)))
  | succ left ih =>
    have hws : d.Waits g s.q := by rwa [hq]
    obtain ⟨hall, hlen⟩ := h.record (by unfold STREAK; omega) (d.observation s)
    have hheld := heldAt_of_length (s := s.record (d.observation s)) (by unfold STREAK; omega)
    have htokens := h.tokens
    -- the step leads below the first share
    have hclamp : g.share 1 = max (g.share 1)
      (min (s.r + cfg.eta * (d.timeCpu g s.q - d.timeGpu g s.q) /
        max (d.timeCpu g s.q + d.timeGpu g s.q) EPSILON) (g.share g.qMax)) := by
      have hslower : d.timeCpu g s.q - d.timeGpu g s.q ≤ 0 := sub_nonpos.mpr (le_of_lt hws)
      have hstep : cfg.eta * (d.timeCpu g s.q - d.timeGpu g s.q) /
        max (d.timeCpu g s.q + d.timeGpu g s.q) EPSILON ≤ 0 :=
        div_nonpos_of_nonpos_of_nonneg (mul_nonpos_of_nonneg_of_nonpos heta.le hslower)
          (le_max_of_le_right (by unfold EPSILON; norm_num))
      refine (max_eq_left ((min_le_left _ _).trans ?_)).symm
      linarith
    obtain ⟨s₁, q', htoken, hdesc, hhist, hlo₁, -, hk₁, htokens₁, -, hq₁, hr₁⟩ :=
      h.toDescending.gradient cfg hs hfits hws hlo ((h.convergedAt_of_lo hws hlo).trans hheld)
        (by unfold MAX_DESCENT_TOKENS; omega) hclamp
    have hq₁' : s₁.q = 1 := by
      have := hdesc.applied
      omega
    have hstand : Standing d g (k + 1) s₁ :=
      ⟨hdesc, by rw [hhist, hq₁', ← hq]; exact hall, by rw [hhist]; exact hlen, by omega, by omega⟩
    refine (ih (by omega) hstand hq₁' hlo₁ ?_).token h.phase htoken
    rcases hr₁ with hr₁ | hr₁
    · exact hr₁
    · rw [hr₁, hq₁']

/-! ## A climb below a quantum that was waited at -/

/-- How far `left` probes go, the first of them by `2 ^ k` quanta. -/
def reach : (left k : ℕ) → ℕ
  | 0, _ => 0
  | left + 1, k => min (2 ^ k) MAX_PROBE_QUANTA + reach left (k + 1)

/-- Descent below `top + 1`, after `k + 1` tokens and `k` probes. -/
structure Ladder (d : Devices) (g : SegGeom) (top k : ℕ) (s : SegState) :
    Prop extends Descending d g s where
  hi : s.hi = some (top + 1)
  below : s.q ≤ top
  new : ∀ x ∈ s.hist, x.q < s.q ∨ top < x.q
  tokens : s.descentTokens = k + 1
  probe : s.kProbe = k

theorem Ladder.close_top (hs : g.splittable = true) {top k : ℕ} (htop : 1 ≤ top ∧ top + 1 ≤ g.qMax)
    (hnot : ¬ d.Waits g top) (hwaits : d.Waits g (top + 1)) (h : Ladder d g top k s)
    (hq : s.q = top) : Lands d g cfg 1 s := by
  obtain ⟨hlo, hhi⟩ := h.record_not_waits (by rwa [hq])
  refine h.close hs htop.1 htop.2 hnot hwaits (hlo.trans (congrArg some hq))
    (hhi.trans ?_) (.inl hq)
  rw [h.hi, hq]
  exact if_pos (decide_eq_true (Nat.lt_succ_self _))

/-- **The climb ends at the top.** -/
theorem Ladder.lands (hs : g.splittable = true) {top : ℕ} (htop : 1 ≤ top ∧ top + 1 ≤ g.qMax)
    (hnot : ¬ d.Waits g top) (hwaits : d.Waits g (top + 1)) {left k : ℕ} (hleft : k + left = 14)
    (h : Ladder d g top k s) (hreach : top - s.q ≤ reach left k) : Lands d g cfg (left + 1) s := by
  induction left generalizing k s with
  | zero =>
    have hbelow := h.below
    unfold reach at hreach
    exact h.close_top hs htop hnot hwaits (by omega)
  | succ left ih =>
    have hbelow := h.below
    rcases hbelow.eq_or_lt with hq | hlt
    · exact (h.close_top hs htop hnot hwaits hq).mono (Nat.le_add_left _ _)
    · have hw : ¬ d.Waits g s.q := fun hw => hnot (Devices.waits_iff.mpr
        ((Devices.waits_iff.mp hw).trans_le (SegGeom.share_mono hbelow)))
      obtain ⟨hlo, hhi⟩ := h.record_not_waits hw
      have hheld := heldAt_record_new (s := s) (fun x hx => by have := h.new x hx; omega)
        (d.observation s)
      have hopen : (s.record (d.observation s)).convergedAt = none := by
        unfold convergedAt
        rw [hlo, hhi, h.hi, Option.filter_some, if_pos (decide_eq_true (by omega))]
        dsimp only
        rw [if_neg (by omega), hheld]
      have htokens := h.tokens
      have hprobe := h.probe
      obtain ⟨s₁, htoken, hdesc, hhist, -, hhi₁, hk₁, htokens₁, hq₁⟩ := h.toDescending.probe cfg hw
        (.inr ⟨h.hi, htop.2⟩) hbelow hopen (by unfold MAX_DESCENT_TOKENS; omega) (by omega)
      have hquanta : 1 ≤ min (2 ^ s.kProbe) MAX_PROBE_QUANTA :=
        le_min Nat.one_le_two_pow (by decide)
      have hladder : Ladder d g top (k + 1) s₁ := by
        refine ⟨hdesc, hhi₁.trans h.hi, by omega, fun x hx => ?_, by omega, by omega⟩
        rw [hhist] at hx
        rcases (hist_record s _).2 x hx with hx | rfl
        · have := h.new x hx
          omega
        · dsimp only
          omega
      refine (ih (by omega) hladder ?_).token h.phase htoken
      unfold reach at hreach
      rw [← hprobe] at hreach
      rw [← hprobe]
      omega

/-! ## From the first token on -/

/-- Descent after the first token: the share is the one next to the balance. -/
structure Balanced (d : Devices) (g : SegGeom) (s : SegState) : Prop extends Descending d g s where
  r : s.r = d.target g
  hist : s.hist = []
  lo : s.lo = none
  hi : s.hi = none
  tokens : s.descentTokens = 0
  probe : s.kProbe = 0
  rounded : (s.q : ℚ) ≤ g.quanta (d.target g) + g.half
  rounded_up : g.quanta (d.target g) + g.half < s.q + 1

theorem Balanced.standing (h : Balanced d g s) : Standing d g 0 s :=
  ⟨h.toDescending, fun x hx => absurd (h.hist ▸ hx) List.not_mem_nil,
    by rw [h.hist]; rfl, h.tokens, h.probe.le⟩

theorem Balanced.heldAt_record (h : Balanced d g s) (o : Obs) : (s.record o).heldAt = none :=
  heldAt_record_new (fun _ hx => absurd (h.hist ▸ hx) List.not_mem_nil) o

/-- **Rounded down**: the next quantum is waited at. -/
theorem Balanced.climbs (h : Balanced d g s) (hs : g.splittable = true) (hw : ¬ d.Waits g s.q)
    (hlt : s.q < g.qMax) : Lands d g cfg 2 s := by
  have hhalf := g.half_range
  have hmax : (s.q : ℚ) + 1 ≤ g.qMax := by exact_mod_cast hlt
  have hup : d.Waits g (s.q + 1) := by
    rw [Devices.waits_iff, SegGeom.lt_share_iff hs, Nat.cast_succ]
    have hround := h.rounded_up
    rw [quanta_target hs] at hround
    have hmin : min (g.quanta d.balance) g.qMax < s.q + 1 := by
      have := le_max_right (1 : ℚ) (min (g.quanta d.balance) g.qMax)
      linarith
    exact (min_lt_iff.mp hmin).resolve_right (not_lt.mpr hmax)
  have htokens := h.tokens
  have hprobe := h.probe
  obtain ⟨s₁, htoken, hdesc, hhist, hlo₁, hhi₁, -, -, hq₁⟩ :=
    h.toDescending.probe cfg hw (.inl ⟨h.hi, rfl⟩)
      h.applied.2 ((h.convergedAt_of_hi hw h.hi).trans (h.heldAt_record _))
        (by rw [htokens]; decide) (by omega)
  have hq₁' : s₁.q = s.q + 1 := by
    rw [hq₁, hprobe]
    exact min_eq_left hlt
  obtain ⟨hlo, hhi⟩ := hdesc.record_waits (by rwa [hq₁'])
  refine (hdesc.close hs h.applied.1 hlt hw hup (hlo.trans ?_) (hhi.trans (congrArg some hq₁'))
    (.inr hq₁')).token h.phase htoken
  rw [hlo₁, hq₁']
  exact if_pos (decide_eq_true (Nat.lt_succ_self _))

theorem Balanced.rounded_balance (h : Balanced d g s) (hs : g.splittable = true)
    (hw : d.Waits g s.q) (h2 : 2 ≤ s.q) : 1 < g.quanta d.balance ∧
    (s.q : ℚ) ≤ g.quanta d.balance + g.half := by
  have hhalf := g.half_range
  have hbelow := (SegGeom.lt_share_iff hs).mp (Devices.waits_iff.mp hw)
  have h2Q : (2 : ℚ) ≤ s.q := by exact_mod_cast h2
  have hmaxQ : (s.q : ℚ) ≤ g.qMax := by exact_mod_cast h.applied.2
  have hround := h.rounded
  rw [quanta_target hs, min_eq_left (hbelow.le.trans hmaxQ)] at hround
  have hone : 1 < g.quanta d.balance := by
    have hlt : 1 < max 1 (g.quanta d.balance) := by linarith
    exact (lt_max_iff.mp hlt).resolve_left (lt_irrefl _)
  rw [max_eq_right hone.le] at hround
  exact ⟨hone, hround⟩

theorem Balanced.attn_of_waits (h : Balanced d g s) (hs : g.splittable = true)
    (hw : d.Waits g s.q) (h2 : 2 ≤ s.q) : g.kind = .attn := by
  have hbelow := (SegGeom.lt_share_iff hs).mp (Devices.waits_iff.mp hw)
  have hround := (h.rounded_balance hs hw h2).2
  cases hkind : g.kind with
  | attn => rfl
  | ffn =>
    have hzero : g.half = 0 := by
      unfold SegGeom.half
      rw [hkind]
    linarith

theorem Balanced.r_eq_balance (h : Balanced d g s) (hs : g.splittable = true)
    (hw : d.Waits g s.q) (h2 : 2 ≤ s.q) : s.r = d.balance := by
  have hbelow := (SegGeom.lt_share_iff hs).mp (Devices.waits_iff.mp hw)
  have hmaxQ : (s.q : ℚ) ≤ g.qMax := by exact_mod_cast h.applied.2
  rw [h.r, Devices.target, min_eq_left, max_eq_right]
  · rw [SegGeom.share_le_iff hs, Nat.cast_one]
    exact (h.rounded_balance hs hw h2).1.le
  · rw [SegGeom.le_share_iff hs]
    linarith

/-- A step along the gradient goes down by fewer than 96 quanta. -/
theorem Balanced.gradient_far (h : Balanced d g s) (hs : g.splittable = true) (hfits : g.Fits)
    (hvisible : d.Visible g) {eta : ℚ} (heta : eta ≤ 1) (hw : d.Waits g s.q) (h2 : 2 ≤ s.q) {r : ℚ}
    (hr : r = max (g.share 1) (min (s.r + eta * (d.timeCpu g s.q - d.timeGpu g s.q) /
      max (d.timeCpu g s.q + d.timeGpu g s.q) EPSILON) (g.share g.qMax)))
    {q : ℕ} (hquant : g.quantize r = some q) : s.q < q + 96 := by
  have happlied := h.applied
  have hround := (h.rounded_balance hs hw h2).2
  have hattn := h.attn_of_waits hs hw h2
  have hhalf : g.half = 1 / 2 := by
    unfold SegGeom.half
    rw [hattn]
  rw [hhalf] at hround
  have hmaxQ : (s.q : ℚ) ≤ g.qMax := by exact_mod_cast happlied.2
  have hreach := Devices.gradient_reach hs hfits hattn h2 happlied.2 hw hround heta
  have htimes : EPSILON ≤ d.timeCpu g s.q + d.timeGpu g s.q := by
    have hε : (0 : ℚ) < EPSILON := by
      unfold EPSILON
      norm_num
    obtain ⟨hG, hC⟩ := hvisible s.q happlied.1 happlied.2
    linarith
  rw [h.r_eq_balance hs hw h2, max_eq_left htimes] at hr
  have hrange : g.share 1 ≤ r ∧ r ≤ g.share g.qMax := by
    rw [hr]
    exact ⟨le_max_left _ _, max_le (SegGeom.share_mono (SegGeom.one_le_qMax hs)) (min_le_right _ _)⟩
  obtain ⟨q', hquant', -, -, -, hlt⟩ := SegGeom.quantize_spec hs hfits hrange.1 hrange.2
  obtain rfl : q = q' := Option.some.inj (hquant.symm.trans hquant')
  have hle : g.quanta d.balance - 95 ≤ g.quanta r := by
    rcases le_total (d.balance + eta * (d.timeCpu g s.q - d.timeGpu g s.q) /
      (d.timeCpu g s.q + d.timeGpu g s.q)) (g.share g.qMax) with hle | hle
    · refine hreach.trans (quanta_le_quanta ?_)
      rw [hr, min_eq_left hle]
      exact le_max_right _ _
    · have hmax : g.quanta (g.share g.qMax) ≤ g.quanta r := by
        refine quanta_le_quanta ?_
        rw [hr, min_eq_right hle]
        exact le_max_right _ _
      rw [SegGeom.quanta_share hs] at hmax
      have hbelow := (SegGeom.lt_share_iff hs).mp (Devices.waits_iff.mp hw)
      linarith
  have hfar : (s.q : ℚ) < q + 96 := by linarith
  exact_mod_cast hfar

/-- **Rounded up**: after a step along the gradient the quantum climbs back below the one that was
waited at. -/
theorem Balanced.steps_back (h : Balanced d g s) (hs : g.splittable = true) (hfits : g.Fits)
    (hvisible : d.Visible g) (heta : cfg.eta ≤ 1) (hw : d.Waits g s.q) (h2 : 2 ≤ s.q) :
    Lands d g cfg 16 s := by
  have happlied := h.applied
  -- the step
  obtain ⟨r, hr⟩ : ∃ r, r = max (g.share 1)
    (min (s.r + cfg.eta * (d.timeCpu g s.q - d.timeGpu g s.q) /
      max (d.timeCpu g s.q + d.timeGpu g s.q) EPSILON) (g.share g.qMax)) := ⟨_, rfl⟩
  have htokens := h.tokens
  obtain ⟨s₁, q', htoken, hdesc, hhist, -, hhi₁, hk₁, htokens₁, hquant, hq₁, -⟩ :=
    h.toDescending.gradient cfg hs hfits hw h.lo
      ((h.convergedAt_of_lo hw h.lo).trans (h.heldAt_record _)) (by rw [htokens]; decide) hr
  have hfar := h.gradient_far hs hfits hvisible heta hw h2 hr hquant
  -- the climb
  obtain ⟨top, htop⟩ : ∃ top, s.q = top + 1 := ⟨s.q - 1, by omega⟩
  have hnot : ¬ d.Waits g top := by
    obtain ⟨-, hround⟩ := h.rounded_balance hs hw h2
    have hhalf := g.half_range
    rw [Devices.waits_iff, SegGeom.lt_share_iff hs, not_lt]
    have hcast : (s.q : ℚ) = top + 1 := by exact_mod_cast htop
    linarith
  have hladder : Ladder d g top 0 s₁ := by
    refine ⟨hdesc, by rw [hhi₁, htop], by omega, fun x hx => ?_, by omega, hk₁⟩
    rw [hhist] at hx
    rcases (hist_record s _).2 x hx with hx | rfl
    · exact absurd (h.hist ▸ hx) List.not_mem_nil
    · exact .inr (by dsimp only; omega)
  refine (hladder.lands hs (by omega) hnot (htop ▸ hw) rfl ?_).token h.phase htoken
  rw [show reach 14 0 = 95 by decide]
  omega

/-- **Descent lands at the balance** within its tokens. -/
theorem Balanced.lands (h : Balanced d g s) (hs : g.splittable = true) (hfits : g.Fits)
    (hvisible : d.Visible g) (heta : 0 < cfg.eta ∧ cfg.eta ≤ 1) : Lands d g cfg 16 s := by
  have happlied := h.applied
  by_cases hw : d.Waits g s.q
  · rcases happlied.1.eq_or_lt with hone | h2
    · -- the first quantum is already too much for the GPU
      have hr : s.r = g.share 1 := by
        have hbelow := Devices.waits_iff.mp hw
        rw [← hone] at hbelow
        rw [h.r, Devices.target, max_eq_left]
        exact (min_le_left _ _).trans hbelow.le
      have hheld : Lands d g cfg (2 + 1) s := h.standing.bottom hs hfits heta.1 (hone ▸ hw)
        rfl hone.symm h.lo hr
      exact hheld.mono (by decide)
    · exact h.steps_back hs hfits hvisible heta.2 hw h2
  · rcases happlied.2.eq_or_lt with htop | hlt
    · have hheld : Lands d g cfg (2 + 1) s := h.standing.top hs (htop ▸ hw) rfl htop h.hi
      exact hheld.mono (by decide)
    · exact (h.climbs hs hw hlt).mono (by decide)

theorem exists_settled (hs : g.splittable = true) (hfits : g.share g.qMax < GPU_ONLY_THRESHOLD)
    (hvisible : d.Visible g) (heta : 0 < cfg.eta ∧ cfg.eta ≤ 1) (r₀ : ℚ) :
    ∃ s₁, d.token cfg (.new g r₀) = some (s₁, .none) ∧ Lands d g cfg MAX_DESCENT_TOKENS s₁ := by
  have hnew : 1 ≤ (SegState.new g r₀).q ∧ (SegState.new g r₀).q ≤ g.qMax := by
    unfold SegState.new
    dsimp only
    cases hquant : g.quantize r₀ with
    | none => exact ⟨SegGeom.one_le_qMax hs, le_rfl⟩
    | some q => exact SegGeom.quantize_range hs hquant
  obtain ⟨q₁, htoken, h1, hmax, hround, hup⟩ :=
    d.startup_balanced hs hfits hvisible cfg (s := .new g r₀) rfl rfl hnew
  have hbalanced : Balanced d g ({ SegState.new g r₀ with r := d.target g,
                                                          q := q₁ }.enterDescent 0) :=
    ⟨⟨rfl, rfl, ⟨h1, hmax⟩, fun x hx => absurd hx List.not_mem_nil⟩, rfl, rfl, rfl, rfl,
      rfl, rfl, hround, hup⟩
  exact ⟨_, htoken, hbalanced.lands hs hfits hvisible heta⟩

/-- **The controller converges**: the first token is followed by at most 16 tokens of Descent, which
end it at the balance and unforced; then Lookup is not left, and only the quantum that was found and
the next one are applied. -/
theorem settles_at_balance (hs : g.splittable = true) (hfits : g.share g.qMax < GPU_ONLY_THRESHOLD)
    (hvisible : d.Visible g) (heta : 0 < cfg.eta ∧ cfg.eta ≤ 1) (r₀ : ℚ) :
    ∃ s₁ n s q, d.token cfg (.new g r₀) = some (s₁, .none) ∧ n ≤ MAX_DESCENT_TOKENS ∧
      d.Settles cfg n s₁ s ∧
      s.phase = .lookup ∧ s.qOpt = q ∧ |g.share q - d.target g| ≤ g.unit / g.total ∧
      (1 ≤ cfg.contentionRatio → ∀ m, ∃ s', d.tokens cfg m s = some s' ∧
        s'.phase = .lookup ∧ s'.qOpt = q ∧
        (s'.applied = q ∨ s'.applied = q + 1)) := by
  obtain ⟨s₁, htoken, n, hn, s, q, hsettles, hsettled, hbalance⟩ :=
    exists_settled hs hfits hvisible heta r₀
  refine ⟨s₁, n, s, q, htoken, hn, hsettles, hsettled.phase, hsettled.qOpt, hbalance.near,
    fun hratio m => ?_⟩
  obtain ⟨s', hs', hsettled'⟩ := tokens_settled hs hbalance.applied hbalance.waits hratio hsettled m
  refine ⟨s', hs', hsettled'.phase, hsettled'.qOpt, ?_⟩
  rcases hsettled'.held with ⟨-, hq⟩ | ⟨-, hq, -⟩
  · exact .inl hq
  · exact .inr hq

/-- Twelve heads. -/
def twelveHeads : SegGeom := ⟨.attn, 12⟩

/-- A CPU four times as fast as the GPU. -/
def slowGpu : Devices := ⟨1, 4, by norm_num, by norm_num⟩

theorem visible_twelveHeads : slowGpu.Visible twelveHeads := by
  intro q h1 hmax
  have h1Q : (1 : ℚ) ≤ q := by exact_mod_cast h1
  have hmaxQ : (q : ℚ) ≤ 11 := by exact_mod_cast (show q ≤ 11 from hmax)
  have hshare : twelveHeads.share q = q / 12 := by
    rw [SegGeom.share_eq]
    unfold twelveHeads SegGeom.unit
    norm_num
  unfold Devices.timeGpu Devices.timeCpu EPSILON slowGpu
  rw [hshare]
  constructor
  · linarith
  · linarith

/-- Twelve heads on a slow GPU, from three quarters of them. -/
theorem settles_twelveHeads :
    ∃ s₁ n s q, slowGpu.token TpController.defaultConfig (.new twelveHeads (3 / 4)) =
      some (s₁, .none) ∧
      n ≤ MAX_DESCENT_TOKENS ∧ slowGpu.Settles TpController.defaultConfig n s₁ s ∧
      s.phase = .lookup ∧ s.qOpt = q ∧
      |twelveHeads.share q - slowGpu.target twelveHeads| ≤ twelveHeads.unit / twelveHeads.total ∧
      ∀ m, ∃ s', slowGpu.tokens TpController.defaultConfig m s = some s' ∧
        s'.phase = .lookup ∧ s'.qOpt = q ∧ (s'.applied = q ∨ s'.applied = q + 1) := by
  obtain ⟨s₁, n, s, q, htoken, hn, hsettles, hphase, hqOpt, hnear, hstays⟩ := settles_at_balance
    (show twelveHeads.splittable = true by decide) (by decide +kernel) visible_twelveHeads
    (show 0 < TpController.defaultConfig.eta ∧
    TpController.defaultConfig.eta ≤ 1 by decide +kernel) (3 / 4)
  exact ⟨s₁, n, s, q, htoken, hn, hsettles, hphase, hqOpt, hnear, hstays (by decide +kernel)⟩

/-! ## A contention ratio below one -/

theorem phase_intoBracket (s : SegState) : s.intoBracket.phase = s.phase := by
  unfold intoBracket
  dsimp only
  split_ifs <;> rfl

theorem phase_move {o : Obs} {eta : ℚ} {s' : SegState} (h : s.move o eta = some s') :
    s'.phase = s.phase := by
  unfold move at h
  split at h
  · obtain ⟨s₁, hset, h⟩ := Option.bind_eq_some_iff.mp h
    obtain ⟨q, -, hset⟩ := Option.bind_eq_some_iff.mp hset
    cases h
    cases hset
    rfl
  · split_ifs at h
    cases h
    rfl

/-- The first token of Descent does not end it. -/
theorem phase_enterDescent (s : SegState) (k : ℕ) {o : Obs} {out : SegState × SegEvent}
    (h : (s.enterDescent k).observeDescent o cfg = some out) : out.1.phase = .descent := by
  have hopen : ((s.enterDescent k).record o).convergedAt = none := by
    rw [convergedAt_open, heldAt_of_length]
    · simp [record, enterDescent, STREAK]
    · cases hw : o.waited with
      | false => exact .inr (by simp only [record, hw, enterDescent]; rfl)
      | true => exact .inl (by simp only [record, hw, enterDescent]; rfl)
  unfold observeDescent at h
  dsimp only at h
  rw [hopen] at h
  dsimp only at h
  rw [if_neg (show ¬ MAX_DESCENT_TOKENS ≤ ((s.enterDescent k).record o).descentTokens by
    show ¬ 16 ≤ 0 + 1
    decide)] at h
  obtain ⟨s₁, hmove, h⟩ := Option.bind_eq_some_iff.mp h
  cases h
  rw [phase_intoBracket, phase_move hmove]
  rfl

theorem phase_streak {o : Obs} {out : SegState × SegEvent} (hphase : s.phase = .lookup)
    (hprobing : s.probing = false) (hslow : cfg.contentionRatio * s.tBest < o.tSeg)
    (hstreak : s.slowStreak + 1 = STREAK) (h : s.observe o cfg = some out) :
    out.1.phase ≠ .lookup := by
  unfold observe observeLookup at h
  rw [hphase, hprobing] at h
  dsimp only at h
  rw [if_neg Bool.false_ne_true, if_pos hslow, if_pos hstreak.ge] at h
  split_ifs at h
  · cases h
    exact fun h => (by cases h)
  · obtain ⟨out', hdescent, h⟩ := Option.bind_eq_some_iff.mp h
    cases h
    dsimp only
    rw [phase_enterDescent _ _ hdescent]
    exact fun h => (by cases h)

theorem Devices.Settles.entered {n : ℕ} {s' : SegState} (h : d.Settles cfg n s s') :
    s'.probing = false ∧ s'.sinceProbe = 0 := by
  induction h with
  | last hphase h =>
    unfold Devices.token SegState.observe at h
    rw [hphase] at h
    dsimp only at h
    unfold observeDescent at h
    dsimp only at h
    split at h
    · obtain ⟨median, -, h⟩ := Option.bind_eq_some_iff.mp h
      cases h
      exact ⟨rfl, rfl⟩
    · split_ifs at h
      · obtain ⟨median, -, h⟩ := Option.bind_eq_some_iff.mp h
        cases h
      · obtain ⟨s₁, -, h⟩ := Option.bind_eq_some_iff.mp h
        cases h
  | token hphase h hrest ih => exact ih

/-- **At a contention ratio below one the third token of Lookup leaves it**: a token at the best
time is slow. -/
theorem Settled.leaves {q : ℕ} (h : Settled d g q s) (hs : g.splittable = true) (hq : 1 ≤ q)
    (hentered : s.probing = false ∧ s.sinceProbe = 0) (hratio : cfg.contentionRatio < 1)
    {s' : SegState} (hrun : d.tokens cfg 3 s = some s') : s'.phase ≠ .lookup := by
  obtain ⟨hgeom, hphase, -, hbest, hstreak, -, hheld⟩ := h
  obtain ⟨hprobing, hsince⟩ := hentered
  have hsq : s.q = q := by
    rcases hheld with ⟨-, hq⟩ | ⟨hprobes, -⟩
    · exact hq
    · cases hprobing.symm.trans hprobes
  have hslow : cfg.contentionRatio * s.tBest < d.time s.geom s.q := by
    rw [hbest, hgeom, hsq]
    exact mul_lt_of_lt_one_left (Devices.time_pos hs hq) hratio
  have hfirst := observe_slow (o := d.observation s) hphase hprobing (d.tSeg_observation s ▸ hslow)
    (by rw [hstreak]; decide) (by rw [hsince]; decide)
  rw [hstreak, hsince] at hfirst
  set s₁ := { s with slowStreak := 0 + 1, sinceProbe := 0 + 1 } with hs₁
  have hsecond := observe_slow (s := s₁) (o := d.observation s₁)
    hphase hprobing (d.tSeg_observation s₁ ▸ hslow) (show 0 + 1 + 1 < STREAK by decide)
      (show 0 + 1 + 2 < PROBE_PERIOD by decide)
  set s₂ := { s₁ with slowStreak := s₁.slowStreak + 1, sinceProbe := s₁.sinceProbe + 1 } with hs₂
  rw [Devices.tokens, Devices.token, hfirst] at hrun
  simp only [Option.bind_eq_bind, Option.bind_some] at hrun
  rw [Devices.tokens, Devices.token, hsecond] at hrun
  simp only [Option.bind_eq_bind, Option.bind_some] at hrun
  rw [Devices.tokens] at hrun
  obtain ⟨out, hthird, hrun⟩ := Option.bind_eq_some_iff.mp hrun
  obtain rfl := Option.some.inj hrun
  exact phase_streak (s := s₂) hphase hprobing (d.tSeg_observation s₂ ▸ hslow) rfl hthird

/-- A token is slow from half the best time on. -/
def halfRatio : TpConfig := ⟨1 / 4, 1 / 2, true⟩

/-- Twelve heads at a contention ratio of a half. -/
theorem not_settles_halfRatio :
    twelveHeads.splittable = true ∧ twelveHeads.share twelveHeads.qMax < GPU_ONLY_THRESHOLD ∧
    slowGpu.Visible twelveHeads ∧ 0 < halfRatio.eta ∧ halfRatio.eta ≤ 1 ∧
    ¬ ∃ s₁ n s q, slowGpu.token halfRatio (.new twelveHeads (3 / 4)) = some (s₁, .none) ∧
      n ≤ MAX_DESCENT_TOKENS ∧
      slowGpu.Settles halfRatio n s₁ s ∧ s.phase = .lookup ∧ s.qOpt = q ∧
      |twelveHeads.share q - slowGpu.target twelveHeads| ≤ twelveHeads.unit / twelveHeads.total ∧
      ∀ m, ∃ s', slowGpu.tokens halfRatio m s = some s' ∧ s'.phase = .lookup ∧ s'.qOpt = q ∧
        (s'.applied = q ∨ s'.applied = q + 1) := by
  have hs : twelveHeads.splittable = true := by decide
  have hfits : twelveHeads.share twelveHeads.qMax < GPU_ONLY_THRESHOLD := by decide +kernel
  have heta : 0 < halfRatio.eta ∧ halfRatio.eta ≤ 1 := by decide +kernel
  refine ⟨hs, hfits, visible_twelveHeads, heta.1, heta.2, ?_⟩
  rintro ⟨s₁, n, s, q, htoken, -, hsettles, -, -, -, hstays⟩
  obtain ⟨s₁', htoken', n', -, s', q', hsettles', hsettled, hbalance⟩ :=
    exists_settled hs hfits visible_twelveHeads heta (3 / 4)
  obtain rfl := (Prod.mk.inj (Option.some.inj (htoken.symm.trans htoken'))).1
  obtain rfl := hsettles.unique hsettles'
  obtain ⟨s'', hrun, hphase, -⟩ := hstays 3
  exact hsettled.leaves hs hbalance.applied.1 hsettles.entered (by decide +kernel) hrun hphase

end ArgusEngine.Layers
