import ArgusEngine.Layers.TpController
import Mathlib.Tactic.Linarith
import Mathlib.Tactic.FieldSimp

/-!
# The split controller is safe

`set_r` clamps a share to those of the quanta and quantizes it again, which `quantize` refuses from
`GPU_ONLY_THRESHOLD` on; `end_token` raises a thread count below `MIN_THREADS` to it.

* `SegInv`, `SegInv.observe`: what one observation keeps of a segment, where the largest share is
  quantized;
* `CtrlInv.call`, `CtrlInv.run`: one call, and every session;
* `Safe`: what a session owes;
* **`safe_iff`**: every session is safe exactly where there are no layers, or the largest shares lie
  below the threshold and the threads do not lie below their minimum.
-/

namespace ArgusEngine.Layers

/-! ## Quanta -/

namespace SegGeom

variable {g : SegGeom}

theorem unit_pos (g : SegGeom) : 0 < g.unit := by
  unfold unit
  cases g.kind <;> decide

theorem two_le_nUnits (h : g.splittable = true) : 2 ≤ g.nUnits := of_decide_eq_true h

theorem one_le_qMax (h : g.splittable = true) : 1 ≤ g.qMax := by
  have hunits := two_le_nUnits h
  unfold qMax
  omega

theorem qMax_mul_lt (h : g.splittable = true) : g.qMax * g.unit < g.total := by
  have hunits := two_le_nUnits h
  have hle : g.nUnits * g.unit ≤ g.total := Nat.div_mul_le_self _ _
  have hlt : g.qMax * g.unit < g.nUnits * g.unit :=
    Nat.mul_lt_mul_of_pos_right (by unfold qMax; omega) g.unit_pos
  omega

theorem total_pos (h : g.splittable = true) : 0 < g.total := Nat.zero_lt_of_lt (qMax_mul_lt h)

theorem share_mono {q q' : ℕ} (h : q ≤ q') : g.share q ≤ g.share q' := by
  unfold share
  gcongr

theorem share_lt_one (h : g.splittable = true) {q : ℕ} (hq : q ≤ g.qMax) : g.share q < 1 := by
  have htotal : (0 : ℚ) < g.total := Nat.cast_pos.mpr (total_pos h)
  rw [share, div_lt_one htotal, Nat.cast_lt]
  exact (Nat.mul_le_mul_right _ hq).trans_lt (qMax_mul_lt h)

theorem share_pos (h : g.splittable = true) {q : ℕ} (hq : 1 ≤ q) : 0 < g.share q := by
  have htotal : (0 : ℚ) < g.total := Nat.cast_pos.mpr (total_pos h)
  exact div_pos (Nat.cast_pos.mpr (Nat.mul_pos hq g.unit_pos)) htotal

theorem quantize_range (h : g.splittable = true) {r : ℚ} {q : ℕ} (hq : g.quantize r = some q) :
    1 ≤ q ∧ q ≤ g.qMax := by
  have hmax := one_le_qMax h
  unfold quantize at hq
  split_ifs at hq
  obtain rfl := Option.some.inj hq
  omega

theorem quantize_isSome (h : g.splittable = true) {r : ℚ} (hr : r < GPU_ONLY_THRESHOLD) :
    ∃ q, g.quantize r = some q := by
  unfold quantize
  rw [if_neg (by simp [h, hr])]
  exact ⟨_, rfl⟩

end SegGeom

/-! ## One segment -/

/-- The largest share is quantized. -/
def SegGeom.Fits (g : SegGeom) : Prop := g.share g.qMax < GPU_ONLY_THRESHOLD

namespace SegState

variable {s : SegState} {o : Obs} {cfg : TpConfig}

/-- In Descent the ends of the bracket are apart and the quantum lies between them. -/
def Bracket (s : SegState) : Prop :=
  ∀ lo ∈ s.lo, ∀ hi ∈ s.hi, lo < hi ∧ lo ≤ s.q ∧ (s.q < hi ∨ s.q = 1)

/-- **The invariant of a segment.** -/
structure SegInv (s : SegState) : Prop where
  splittable : s.geom.splittable = true
  applied : 1 ≤ s.q ∧ s.q ≤ s.geom.qMax
  lo : ∀ lo ∈ s.lo, 1 ≤ lo ∧ lo ≤ s.geom.qMax
  descent : s.phase = .descent → s.descentTokens < MAX_DESCENT_TOKENS ∧
    s.kProbe ≤ s.descentTokens + 1 ∧ s.Bracket

theorem setR_range (hs : s.geom.splittable = true) (hfits : s.geom.Fits) (r : ℚ) :
    ∃ r' q', s.setR r = some { s with r := r', q := q' } ∧ 1 ≤ q' ∧ q' ≤ s.geom.qMax := by
  have hlt : max (s.geom.share 1) (min r (s.geom.share s.geom.qMax)) < GPU_ONLY_THRESHOLD := by
    refine max_lt ?_ (lt_of_le_of_lt (min_le_right _ _) hfits)
    exact lt_of_le_of_lt (SegGeom.share_mono (SegGeom.one_le_qMax hs)) hfits
  obtain ⟨q, hq⟩ := SegGeom.quantize_isSome hs hlt
  refine ⟨max (s.geom.share 1) (min r (s.geom.share s.geom.qMax)), q, ?_,
    SegGeom.quantize_range hs hq⟩
  unfold setR
  dsimp only
  rw [hq]
  rfl

theorem setQ_range (hs : s.geom.splittable = true) (q : ℕ) : 1 ≤ (s.setQ q).q ∧
    (s.setQ q).q ≤ s.geom.qMax := by
  have hmax := SegGeom.one_le_qMax hs
  unfold setQ
  dsimp only
  omega

theorem setQ_eq {q : ℕ} (h : 1 ≤ q ∧ q ≤ s.geom.qMax) : (s.setQ q).q = q := by
  unfold setQ
  dsimp only
  omega

theorem move_range (hs : s.geom.splittable = true) (hfits : s.geom.Fits) (hk : s.kProbe < 64)
    (o : Obs) (eta : ℚ) : ∃ r' q' k',
    s.move o eta = some { s with r := r', q := q', kProbe := k' } ∧ 1 ≤ q' ∧ q' ≤ s.geom.qMax ∧
      k' ≤ s.kProbe + 1 := by
  unfold move
  split
  · next tGpu _ _ =>
    obtain ⟨r', q', heq, hq⟩ := setR_range hs hfits
      (s.r + eta * (o.tCpu - tGpu) / max (o.tCpu + tGpu) EPSILON)
    refine ⟨r', q', 0, ?_, hq.1, hq.2, Nat.zero_le _⟩
    dsimp only
    rw [heq]
    rfl
  · rw [if_neg (Nat.not_le.mpr hk)]
    obtain ⟨hq, hq'⟩ := setQ_range hs (s.q + min (2 ^ s.kProbe) MAX_PROBE_QUANTA)
    exact ⟨_, _, _, rfl, hq, hq', Nat.le_refl _⟩

theorem intoBracket_range (hq : 1 ≤ s.q ∧ s.q ≤ s.geom.qMax)
    (hlo : ∀ lo ∈ s.lo, 1 ≤ lo ∧ lo ≤ s.geom.qMax) (hlt : ∀ lo ∈ s.lo, ∀ hi ∈ s.hi, lo < hi) :
    ∃ r' q', s.intoBracket = { s with r := r', q := q' } ∧ 1 ≤ q' ∧ q' ≤ s.geom.qMax ∧
      ∀ lo ∈ s.lo, ∀ hi ∈ s.hi, lo ≤ q' ∧ (q' < hi ∨ q' = 1) := by
  -- the quantum that `intoBracket` asks for
  obtain ⟨q, hwrite, hrange, hin⟩ : ∃ q, s.intoBracket = (if q ≠ s.q then s.setQ q else s) ∧
      (1 ≤ q ∧ q ≤ s.geom.qMax) ∧ ∀ lo ∈ s.lo, ∀ hi ∈ s.hi, lo ≤ q ∧ (q < hi ∨ q = 1) := by
    unfold intoBracket
    cases hl : s.lo with
    | none =>
      cases hh : s.hi with
      | none => exact ⟨s.q, rfl, hq, nofun⟩
      | some hi => exact ⟨_, rfl, ⟨by dsimp only; omega, by dsimp only; omega⟩, nofun⟩
    | some lo =>
      have hlo' := hlo lo hl
      cases hh : s.hi with
      | none => exact ⟨_, rfl, ⟨by dsimp only; omega, by dsimp only; omega⟩, fun _ _ => nofun⟩
      | some hi =>
        have hlt' := hlt lo hl hi hh
        refine ⟨_, rfl, ⟨by dsimp only; omega, by dsimp only; omega⟩, fun l hl' h hh' => ?_⟩
        obtain rfl : lo = l := Option.some.inj hl'
        obtain rfl : hi = h := Option.some.inj hh'
        dsimp only
        omega
  rw [hwrite]
  split_ifs with hne
  · refine ⟨(s.setQ q).r, (s.setQ q).q, rfl, ?_⟩
    rw [setQ_eq hrange]
    exact ⟨hrange.1, hrange.2, hin⟩
  · obtain rfl : q = s.q := by_contra fun h => hne h
    exact ⟨s.r, s.q, rfl, hrange.1, hrange.2, hin⟩

theorem hist_record_ne (s : SegState) (o : Obs) : (s.record o).hist ≠ [] := by
  unfold record
  dsimp only
  exact List.append_ne_nil_of_right_ne_nil _ (List.cons_ne_nil _ _)

theorem exists_tCpuMedian (h : s.hist ≠ []) :
    ∃ t ∈ s.hist.map Sample.tCpu, s.tCpuMedian = some t := by
  have hlen : s.hist.length / 2 <
    ((s.hist.map Sample.tCpu).mergeSort fun a b => decide (a ≤ b)).length := by
    rw [List.length_mergeSort, List.length_map]
    exact Nat.div_lt_self (List.length_pos_iff.mpr h) (by decide)
  refine ⟨_, List.mem_mergeSort.mp (List.getElem_mem hlen), ?_⟩
  exact List.getElem?_eq_getElem hlen

theorem record_bracket (hlo : ∀ lo ∈ s.lo, 1 ≤ lo ∧ lo ≤ s.geom.qMax)
    (hq : 1 ≤ s.q ∧ s.q ≤ s.geom.qMax) (o : Obs) :
    (∀ lo ∈ (s.record o).lo, 1 ≤ lo ∧ lo ≤ s.geom.qMax) ∧
      ∀ lo ∈ (s.record o).lo, ∀ hi ∈ (s.record o).hi, lo < hi := by
  unfold record
  dsimp only
  cases o.waited with
  | true =>
    refine ⟨fun lo hl => hlo lo ?_, fun lo hl hi hh => ?_⟩
    · exact (Option.mem_filter_iff.mp hl).1
    · obtain rfl : s.q = hi := Option.some.inj hh
      exact of_decide_eq_true (Option.mem_filter_iff.mp hl).2
  | false =>
    refine ⟨fun lo hl => ?_, fun lo hl hi hh => ?_⟩
    · obtain rfl : s.q = lo := Option.some.inj hl
      exact hq
    · obtain rfl : s.q = lo := Option.some.inj hl
      exact of_decide_eq_true (Option.mem_filter_iff.mp hh).2

/-- What holds of a segment that observes a token in Descent. -/
structure InDescent (s : SegState) : Prop where
  splittable : s.geom.splittable = true
  applied : 1 ≤ s.q ∧ s.q ≤ s.geom.qMax
  lo : ∀ lo ∈ s.lo, 1 ≤ lo ∧ lo ≤ s.geom.qMax
  phase : s.phase = .descent
  tokens : s.descentTokens < MAX_DESCENT_TOKENS
  probe : s.kProbe ≤ s.descentTokens + 1

theorem SegInv.inDescent (h : SegInv s) (hphase : s.phase = .descent) : InDescent s :=
  ⟨h.splittable, h.applied, h.lo, hphase, (h.descent hphase).1, (h.descent hphase).2.1⟩

theorem inDescent_enter (hs : s.geom.splittable = true) (hq : 1 ≤ s.q ∧ s.q ≤ s.geom.qMax)
    {k : ℕ} (hk : k ≤ 1) : InDescent (s.enterDescent k) :=
  ⟨hs, hq, nofun, rfl, show 0 < MAX_DESCENT_TOKENS by decide, hk⟩

theorem segInv_enterLookup (hs : s.geom.splittable = true)
    (hlo : ∀ lo ∈ s.lo, 1 ≤ lo ∧ lo ≤ s.geom.qMax) (qOpt : ℕ) (tBest tCpuBest : ℚ) :
    SegInv (s.enterLookup qOpt tBest tCpuBest) := by
  refine ⟨hs, ?_, hlo, nofun⟩
  exact setQ_range (s := { s with
    phase := .lookup, qOpt, tBest, tCpuBest, slowStreak := 0, sinceProbe := 0, probing := false,
    probeConfirm := false }) hs qOpt

/-- **A token in Descent**: the segment settles, or goes on by one token. -/
theorem InDescent.observe (h : InDescent s) (hfits : s.geom.Fits) (o : Obs) (cfg : TpConfig) :
    ∃ s' e, s.observeDescent o cfg = some (s', e) ∧ SegInv s' ∧ s'.geom = s.geom ∧
      (s'.phase = .lookup ∨ s'.phase = .descent ∧ s'.descentTokens = s.descentTokens + 1) := by
  obtain ⟨hlo, hlt⟩ := record_bracket h.lo h.applied o
  obtain ⟨median, -, hmedian⟩ := exists_tCpuMedian (hist_record_ne s o)
  have htokens := h.tokens
  have hprobe := h.probe
  unfold observeDescent
  dsimp only
  split
  · rw [hmedian]
    exact ⟨_, _, rfl, segInv_enterLookup (s := s.record o) h.splittable hlo _ _ _, rfl, .inl rfl⟩
  · split_ifs with hforced
    · rw [hmedian]
      exact ⟨_, _, rfl, segInv_enterLookup (s := s.record o) h.splittable hlo _ _ _, rfl, .inl rfl⟩
    · have hcount : (s.record o).descentTokens = s.descentTokens + 1 := rfl
      obtain ⟨r₁, q₁, k₁, hmove, hq, hq', hk⟩ := move_range (s := s.record o) h.splittable hfits
        (by unfold MAX_DESCENT_TOKENS at htokens; exact lt_of_le_of_lt hprobe (by omega)) o cfg.eta
      obtain ⟨r₂, q₂, hinto, hq₂, hq₂', hin⟩ := intoBracket_range
        (s := { s.record o with r := r₁, q := q₁, kProbe := k₁ }) ⟨hq, hq'⟩ hlo hlt
      refine ⟨_, .none, by rw [hmove]; rfl, ?_, ?_, .inr ?_⟩
      · rw [hinto]
        refine ⟨h.splittable, ⟨hq₂, hq₂'⟩, hlo, fun _ =>
          ⟨Nat.lt_of_not_le hforced, ?_, fun lo hl hi hh => ?_⟩⟩
        · have hkeep : (s.record o).kProbe = s.kProbe := rfl
          dsimp only
          omega
        · exact ⟨hlt lo hl hi hh, hin lo hl hi hh⟩
      · rw [hinto]
        rfl
      · rw [hinto]
        exact ⟨h.phase, rfl⟩

theorem SegInv.outside (h : SegInv s) {s' : SegState} (hgeom : s'.geom = s.geom)
    (hlo : s'.lo = s.lo) (hphase : s'.phase ≠ .descent) (hq : 1 ≤ s'.q ∧ s'.q ≤ s.geom.qMax) :
    SegInv s' :=
  ⟨hgeom ▸ h.splittable, hgeom ▸ hq, by rw [hlo, hgeom]; exact h.lo, fun hd => absurd hd hphase⟩

theorem SegInv.enter (h : SegInv s) (hfits : s.geom.Fits) (s₀ : SegState) {k : ℕ}
    (hgeom : s₀.geom = s.geom) (hq : s₀.q = s.q) (hk : k ≤ 1) (o : Obs)
    (cfg : TpConfig) (e : SegEvent) :
    ∃ s' e', ((s₀.enterDescent k).observeDescent o cfg >>= fun x => pure (x.1, e)) = some
      (s', e') ∧ SegInv s' ∧ s'.geom = s.geom := by
  have hin : InDescent (s₀.enterDescent k) :=
    inDescent_enter (hgeom ▸ h.splittable) (by rw [hgeom, hq]; exact h.applied) hk
  obtain ⟨s', e', heq, hinv, hg, -⟩ := hin.observe (show s₀.geom.Fits from hgeom ▸ hfits) o cfg
  exact ⟨s', e, by rw [heq]; rfl, hinv, hg.trans hgeom⟩

/-- **A token in Lookup.** -/
theorem SegInv.lookup (h : SegInv s) (hfits : s.geom.Fits) (hphase : s.phase = .lookup)
    (o : Obs) (cfg : TpConfig) : ∃ s' e, s.observeLookup o cfg = some (s', e) ∧ SegInv s' ∧
    s'.geom = s.geom := by
  have hnot : s.phase ≠ .descent := by
    rw [hphase]
    nofun
  unfold observeLookup
  dsimp only
  generalize (if cfg.contentionRatio * s.tBest < o.tSeg then s.slowStreak + 1 else 0) = streak
  split_ifs
  · exact ⟨_, _, rfl, h.outside rfl rfl hnot h.applied, rfl⟩
  · exact h.enter hfits { s with probing := false, sinceProbe := 0,
                                 probeConfirm := false } rfl rfl (Nat.le_refl 1) o cfg
      .probeHit
  · refine ⟨_, _, rfl, h.outside rfl rfl hnot ?_, rfl⟩
    exact setQ_range (s := { s with probing := false, sinceProbe := 0, probeConfirm := false })
      h.splittable _
  · exact ⟨_, _, rfl, h.outside rfl rfl nofun h.applied, rfl⟩
  · exact h.enter hfits { s with slowStreak := 0 } rfl rfl (Nat.zero_le 1) o cfg .contentionGpu
  · refine ⟨_, _, rfl, h.outside rfl rfl hnot ?_, rfl⟩
    exact setQ_range (s := { s with
      slowStreak := streak, sinceProbe := (s.sinceProbe + 1) % 2 ^ 32, probing := true })
        h.splittable _
  · exact ⟨_, _, rfl, h.outside rfl rfl hnot h.applied, rfl⟩

/-- **One observation** of a segment whose largest share is quantized. -/
theorem SegInv.observe (h : SegInv s) (hfits : s.geom.Fits) (o : Obs) (cfg : TpConfig) :
    ∃ s' e, s.observe o cfg = some (s', e) ∧ SegInv s' ∧ s'.geom = s.geom ∧
      (s.phase = .descent → s'.phase = .descent → s'.descentTokens = s.descentTokens + 1) := by
  unfold SegState.observe
  cases hphase : s.phase with
  | startup =>
    obtain ⟨r', q', heq, hq⟩ := setR_range h.splittable hfits
      (s.geom.share s.applied / max (o.tGpu.getD o.tCpu) EPSILON /
        (s.geom.share s.applied / max (o.tGpu.getD o.tCpu) EPSILON +
          (1 - s.geom.share s.applied) / max o.tCpu EPSILON))
    refine ⟨{ s with r := r', q := q' }.enterDescent 0, .none,
      by dsimp only; rw [heq]; rfl, ?_, rfl, nofun⟩
    have hin := inDescent_enter (s := { s with r := r', q := q' }) (k := 0)
      h.splittable hq (by decide)
    exact ⟨h.splittable, hq, hin.lo, fun _ => ⟨hin.tokens, hin.probe, nofun⟩⟩
  | descent =>
    obtain ⟨s', e, heq, hinv, hgeom, hcount⟩ := (h.inDescent hphase).observe hfits o cfg
    refine ⟨s', e, heq, hinv, hgeom, fun _ hs' => ?_⟩
    rcases hcount with hlookup | ⟨-, hcount⟩
    · rw [hlookup] at hs'
      cases hs'
    · exact hcount
  | lookup =>
    obtain ⟨s', e, heq, hinv, hgeom⟩ := h.lookup hfits hphase o cfg
    exact ⟨s', e, heq, hinv, hgeom, nofun⟩

theorem segInv_new {geom : SegGeom} {r₀ : ℚ} (hs : geom.splittable = true)
    (hr₀ : r₀ < GPU_ONLY_THRESHOLD) : SegInv (.new geom r₀) := by
  obtain ⟨q, hq⟩ := SegGeom.quantize_isSome hs hr₀
  have hrange := SegGeom.quantize_range hs hq
  refine ⟨hs, ?_, nofun, nofun⟩
  unfold new
  dsimp only
  rw [hq]
  exact hrange

theorem SegInv.restart (h : SegInv s) : SegInv s.restart := h.outside rfl rfl nofun h.applied

end SegState

/-! ## Sessions -/

/-- The call observes the segment. -/
def Call.observes {n : ℕ} (layer : Fin n) (seg : SegKind) : Call n → Bool
  | .observe l k _ => l = layer && k = seg
  | _ => false

namespace TpController

variable {n : ℕ} {c : TpController n}

/-- **The invariant of the controller.** -/
structure CtrlInv (c : TpController n) : Prop where
  segs : ∀ layer seg, (c.segs layer seg).SegInv
  fits : ∀ layer seg, (c.segs layer seg).geom.Fits
  r₀ : c.r₀ < GPU_ONLY_THRESHOLD

/-- **What a call does.** -/
structure Called (c : TpController n) (x : Call n) (c' : TpController n) : Prop where
  inv : CtrlInv c'
  geom : ∀ layer seg, (c'.segs layer seg).geom = (c.segs layer seg).geom
  initial : c'.threadsInitial = c.threadsInitial
  descent : ∀ layer seg, (c.segs layer seg).phase = .descent →
    (c'.segs layer seg).phase = .descent → (c'.segs layer seg).descentTokens =
    (c.segs layer seg).descentTokens + (if x.observes layer seg then 1 else 0)
  threads : c'.threads = c.threads ∨
    (c.reducePending = true ∧ c'.threads = max (c.threads - THREAD_STEP) MIN_THREADS) ∨
    (x = .resetForOn ∧ c'.threads = c.threadsInitial)
  reduce : c'.reducePending = true → c.reducePending = true ∨ ∃ layer seg o,
    x = .observe layer seg o

theorem account_keeps (c : TpController n) (layer : Fin n) (seg : SegKind) (e : SegEvent) :
    (c.account layer seg e).segs = c.segs ∧ (c.account layer seg e).threads = c.threads ∧
      (c.account layer seg e).threadsInitial = c.threadsInitial ∧
      (c.account layer seg e).r₀ = c.r₀ ∧ (c.account layer seg e).cfg = c.cfg := by
  cases e <;> exact ⟨rfl, rfl, rfl, rfl, rfl⟩

theorem CtrlInv.observe (h : CtrlInv c) (layer : Fin n) (seg : SegKind) (o : Obs) :
    ∃ c', c.observe layer seg o = some c' ∧ Called c (.observe layer seg o) c' := by
  obtain ⟨s', e, heq, hinv, hgeom, hcount⟩ := (h.segs layer seg).observe (h.fits layer seg) o c.cfg
  obtain ⟨hsegs, hthreads, hinitial, hr₀, -⟩ := account_keeps (c.setSeg layer seg s') layer seg e
  have hself : ∀ l k, ((c.setSeg layer seg s').account layer seg e).segs l k =
      if l = layer ∧ k = seg then s' else c.segs l k := fun l k => by rw [hsegs]; rfl
  refine ⟨(c.setSeg layer seg s').account layer seg e, by rw [TpController.observe, heq]; rfl,
    ⟨?_, ?_, hr₀.trans_lt h.r₀⟩,
    fun l k => ?_, hinitial, fun l k hd hd' => ?_, .inl hthreads, fun _ =>
      .inr ⟨layer, seg, o, rfl⟩⟩
  · intro l k
    rw [hself]
    split_ifs
    · exact hinv
    · exact h.segs l k
  · intro l k
    rw [hself]
    split_ifs
    · exact hgeom ▸ h.fits layer seg
    · exact h.fits l k
  · rw [hself]
    split_ifs with hlk
    · rw [hgeom, hlk.1, hlk.2]
    · rfl
  · rw [hself] at hd' ⊢
    by_cases hlk : l = layer ∧ k = seg
    · obtain ⟨rfl, rfl⟩ := hlk
      rw [if_pos ⟨rfl, rfl⟩] at hd' ⊢
      rw [hcount hd hd', if_pos (by simp [Call.observes])]
    · rw [if_neg hlk, if_neg, Nat.add_zero]
      simp only [Call.observes, Bool.and_eq_true, decide_eq_true_eq]
      exact fun ⟨hl, hk⟩ => hlk ⟨hl.symm, hk.symm⟩

theorem CtrlInv.endToken (h : CtrlInv c) : Called c .endToken c.endToken := by
  unfold TpController.endToken
  dsimp only
  by_cases hreduce : c.reducePending
  · rw [if_pos hreduce]
    exact ⟨⟨fun l k => (h.segs l k).restart, h.fits, h.r₀⟩, fun _ _ => rfl, rfl, fun _ _ _ => nofun,
      .inr (.inl ⟨hreduce, rfl⟩), nofun⟩
  · rw [if_neg hreduce]
    exact ⟨⟨h.segs, h.fits, h.r₀⟩, fun _ _ => rfl, rfl, fun _ _ _ _ => rfl, .inl rfl, .inl⟩

theorem CtrlInv.resetForOn (h : CtrlInv c) : Called c .resetForOn c.resetForOn :=
  ⟨⟨fun l k => SegState.segInv_new (h.segs l k).splittable h.r₀, h.fits, h.r₀⟩, fun _ _ => rfl, rfl,
    fun _ _ _ => nofun, .inr (.inr ⟨rfl, rfl⟩), nofun⟩

/-- **No call panics.** -/
theorem CtrlInv.call (h : CtrlInv c) (x : Call n) : ∃ c', c.call x = some c' ∧ Called c x c' := by
  cases x with
  | observe layer seg o => exact h.observe layer seg o
  | endToken => exact ⟨_, rfl, h.endToken⟩
  | resetForOn => exact ⟨_, rfl, h.resetForOn⟩

theorem run_cons {x : Call n} {c' : TpController n} (h : c.call x = some c')
    (calls : List (Call n)) : c.run (x :: calls) = c'.run calls := by
  rw [run, List.foldlM_cons, h]
  rfl

theorem run_append {calls calls' : List (Call n)} {c' : TpController n}
    (h : c.run calls = some c') : c.run (calls ++ calls') = c'.run calls' := by
  rw [run, List.foldlM_append]
  rw [run] at h
  rw [h]
  rfl

/-- **No session panics.** -/
theorem CtrlInv.run (h : CtrlInv c) (calls : List (Call n)) :
    ∃ c', c.run calls = some c' ∧ CtrlInv c' ∧
    (∀ layer seg, (c'.segs layer seg).geom = (c.segs layer seg).geom) ∧
    c'.threadsInitial = c.threadsInitial := by
  induction calls generalizing c with
  | nil => exact ⟨c, rfl, h, fun _ _ => rfl, rfl⟩
  | cons x calls ih =>
    obtain ⟨c₁, heq, hcalled⟩ := h.call x
    obtain ⟨c', hrun, hinv, hgeom, hinitial⟩ := ih hcalled.inv
    exact ⟨c', by rw [run_cons heq, hrun], hinv, fun l k => (hgeom l k).trans (hcalled.geom l k),
      hinitial.trans hcalled.initial⟩

theorem CtrlInv.of_run (h : CtrlInv c) {calls : List (Call n)} {c' : TpController n}
    (hrun : c.run calls = some c') : CtrlInv c' ∧ c'.threadsInitial = c.threadsInitial := by
  obtain ⟨c₁, hrun₁, hinv, -, hinitial⟩ := h.run calls
  obtain rfl : c₁ = c' := Option.some.inj (hrun₁.symm.trans hrun)
  exact ⟨hinv, hinitial⟩

/-- **Descent ends**: a segment that is in Descent before every call of a stretch observes at most
so many tokens there as are left to it. -/
theorem CtrlInv.descent (h : CtrlInv c) (layer : Fin n) (seg : SegKind) {calls : List (Call n)}
    (hdescent : ∀ i < calls.length, ∀ c', c.run (calls.take i) = some c' →
    (c'.segs layer seg).phase = .descent) : (calls.filter (Call.observes layer seg)).length ≤
    MAX_DESCENT_TOKENS - (c.segs layer seg).descentTokens ∨
      calls = [] := by
  induction calls generalizing c with
  | nil => exact .inr rfl
  | cons x calls ih =>
    obtain ⟨c₁, heq, hcalled⟩ := h.call x
    have hphase : (c.segs layer seg).phase = .descent := hdescent 0 (Nat.zero_lt_succ _) c rfl
    have htokens := ((h.segs layer seg).descent hphase).1
    have hcount : (List.filter (Call.observes layer seg) (x :: calls)).length =
        (if x.observes layer seg then 1 else 0) +
          (calls.filter (Call.observes layer seg)).length := by
      rw [List.filter_cons]
      split_ifs
      · rw [List.length_cons, Nat.add_comm]
      · rw [Nat.zero_add]
    refine .inl ?_
    rw [hcount]
    have hrest := ih hcalled.inv fun i hi c' hc' =>
      hdescent (i + 1) (Nat.succ_lt_succ hi) c' (by rw [List.take_succ_cons, run_cons heq, hc'])
    rcases hrest with hle | rfl
    · by_cases hempty : calls = []
      · subst hempty
        simp only [List.filter_nil, List.length_nil]
        split_ifs <;> omega
      · have hphase₁ : (c₁.segs layer seg).phase = .descent := by
          refine hdescent 1 ?_ c₁ ?_
          · rw [List.length_cons]
            have := List.length_pos_iff.mpr hempty
            omega
          · rw [List.take_succ_cons, run_cons heq]
            rfl
        have hstep := hcalled.descent layer seg hphase hphase₁
        have htokens₁ := ((hcalled.inv.segs layer seg).descent hphase₁).1
        split_ifs at hstep ⊢ <;> omega
    · simp only [List.filter_nil, List.length_nil]
      split_ifs <;> omega

/-! ## Threads -/

/-- Enough threads for their minimum, or nothing that would reduce them. -/
def ThreadInv (c : TpController n) : Prop :=
  MIN_THREADS ≤ c.threads ∧ MIN_THREADS ≤ c.threadsInitial ∨
    n = 0 ∧ c.reducePending = false ∧ c.threads = c.threadsInitial

theorem Called.threadInv {x : Call n} {c' : TpController n} (h : Called c x c') (ht : ThreadInv c) :
    ThreadInv c' := by
  have hinitial := h.initial
  rcases ht with ⟨hmin, hmin'⟩ | ⟨hn, hreduce, heq⟩
  · refine .inl ?_
    rcases h.threads with hc' | ⟨-, hc'⟩ | ⟨-, hc'⟩ <;> omega
  · refine .inr ⟨hn, ?_, ?_⟩
    · cases hc' : c'.reducePending with
      | false => rfl
      | true =>
        rcases h.reduce hc' with hpending | ⟨layer, -⟩
        · rw [hreduce] at hpending
          cases hpending
        · subst hn
          exact layer.elim0
    · rcases h.threads with hc' | ⟨hpending, -⟩ | ⟨-, hc'⟩
      · omega
      · rw [hreduce] at hpending
        cases hpending
      · omega

theorem Called.threads_le {x : Call n} {c' : TpController n} (h : Called c x c') (ht : ThreadInv c)
    (hx : x ≠ .resetForOn) : c'.threads ≤ c.threads := by
  rcases h.threads with hc' | ⟨hpending, hc'⟩ | ⟨hreset, -⟩
  · exact hc'.le
  · rcases ht with ⟨hmin, -⟩ | ⟨-, hreduce, -⟩
    · omega
    · rw [hreduce] at hpending
      cases hpending
  · exact absurd hreset hx

theorem CtrlInv.threadInv (h : CtrlInv c) (ht : ThreadInv c) {calls : List (Call n)}
    {c' : TpController n} (hrun : c.run calls = some c') : ThreadInv c' := by
  induction calls generalizing c with
  | nil =>
    obtain rfl := Option.some.inj hrun
    exact ht
  | cons x calls ih =>
    obtain ⟨c₁, heq, hcalled⟩ := h.call x
    rw [run_cons heq] at hrun
    exact ih hcalled.inv (hcalled.threadInv ht) hrun

theorem CtrlInv.threads_le (h : CtrlInv c) (ht : ThreadInv c) {calls : List (Call n)}
    {c' : TpController n} (hrun : c.run calls = some c') (hreset : ∀ x ∈ calls, x ≠ .resetForOn) :
    c'.threads ≤ c.threads := by
  induction calls generalizing c with
  | nil =>
    obtain rfl := Option.some.inj hrun
    exact Nat.le_refl _
  | cons x calls ih =>
    obtain ⟨c₁, heq, hcalled⟩ := h.call x
    rw [run_cons heq] at hrun
    exact (ih hcalled.inv (hcalled.threadInv ht) hrun fun y hy => hreset y (.tail _ hy)).trans
      (hcalled.threads_le ht (hreset x (.head _)))

/-! ## Safety -/

/-- **What the sessions of a controller owe.** -/
structure Safe (c₀ : TpController n) : Prop where
  /-- No call panics. -/
  runs : ∀ calls, ∃ c, c₀.run calls = some c
  /-- Both devices keep a quantum. -/
  split : ∀ calls c, c₀.run calls = some c → ∀ layer seg,
    (1 ≤ (c.segs layer seg).applied ∧ (c.segs layer seg).applied ≤ (c.segs layer seg).geom.qMax) ∧
      0 < (c.segs layer seg).geom.share (c.segs layer seg).applied ∧
      (c.segs layer seg).geom.share (c.segs layer seg).applied < 1
  bracket : ∀ calls c, c₀.run calls = some c → ∀ layer seg, (c.segs layer seg).phase = .descent →
    (c.segs layer seg).Bracket
  /-- A stretch of calls with the segment in Descent before each observes it for at most so many
  tokens. -/
  descent : ∀ calls c, c₀.run calls = some c → ∀ (stretch : List (Call n)) layer seg,
    (∀ i < stretch.length, ∀ c', c.run (stretch.take i) = some c' →
    (c'.segs layer seg).phase = .descent) → (stretch.filter (Call.observes layer seg)).length ≤
    MAX_DESCENT_TOKENS
  /-- Between resets. -/
  threads_le : ∀ calls c, c₀.run calls = some c → ∀ (stretch : List (Call n)) c',
    c.run stretch = some c' → (∀ x ∈ stretch, x ≠ .resetForOn) → c'.threads ≤ c.threads
  le_threads : ∀ calls c, c₀.run calls = some c → min MIN_THREADS c₀.threadsInitial ≤ c.threads

theorem CtrlInv.safe (h : CtrlInv c) (ht : ThreadInv c) : Safe c where
  runs calls := by
    obtain ⟨c', hrun, -⟩ := h.run calls
    exact ⟨c', hrun⟩
  split calls c' hrun layer seg := by
    have hinv := (h.of_run hrun).1.segs layer seg
    exact ⟨hinv.applied, SegGeom.share_pos hinv.splittable hinv.applied.1,
      SegGeom.share_lt_one hinv.splittable hinv.applied.2⟩
  bracket calls c' hrun layer seg hphase := (((h.of_run hrun).1.segs layer seg).descent hphase).2.2
  descent calls c' hrun stretch layer seg hdescent := by
    rcases (h.of_run hrun).1.descent layer seg hdescent with hle | rfl
    · exact hle.trans (Nat.sub_le _ _)
    · exact Nat.zero_le _
  threads_le calls c' hrun stretch c'' hrun' hreset :=
    (h.of_run hrun).1.threads_le (h.threadInv ht hrun) hrun' hreset
  le_threads calls c' hrun := by
    have hinitial := (h.of_run hrun).2
    rcases h.threadInv ht hrun with ⟨hmin, -⟩ | ⟨-, -, heq⟩ <;> omega

/-! ## The sessions that go wrong -/

end TpController

namespace SegState

variable {s : SegState}

/-- A balance at or past the largest share: a GPU that takes no time. -/
theorem observe_refused (hs : s.geom.splittable = true) (hfits : ¬ s.geom.Fits)
    (hphase : s.phase = .startup) (hq : 1 ≤ s.q ∧ s.q ≤ s.geom.qMax) (cfg : TpConfig) :
    ∃ o : Obs, s.observe o cfg = none := by
  have hσ := SegGeom.share_pos hs hq.1
  have hσ' := SegGeom.share_lt_one hs hq.2
  have hH := SegGeom.share_pos hs (SegGeom.one_le_qMax hs)
  have hH' := SegGeom.share_lt_one hs (Nat.le_refl s.geom.qMax)
  have hone := SegGeom.share_mono (g := s.geom) (SegGeom.one_le_qMax hs)
  have hthreshold : GPU_ONLY_THRESHOLD ≤ s.geom.share s.geom.qMax := not_lt.mp hfits
  obtain ⟨σ, hshare⟩ : ∃ σ, s.geom.share s.applied = σ := ⟨_, rfl⟩
  obtain ⟨H, hlargest⟩ : ∃ H, s.geom.share s.geom.qMax = H := ⟨_, rfl⟩
  rw [show s.geom.share s.q = σ from hshare] at hσ hσ'
  rw [hlargest] at hH hH' hone hthreshold
  have hε : (0 : ℚ) < EPSILON := by
    unfold EPSILON
    norm_num
  have hσ₁ : 0 < 1 - σ := sub_pos.mpr hσ'
  have hH₁ : 0 < 1 - H := sub_pos.mpr hH'
  have hden : 0 < σ * (1 - H) := mul_pos hσ hH₁
  -- the CPU time at which the balance is the largest share, and no less than the measurable one
  obtain ⟨t, ht, htε⟩ : ∃ t, H * (1 - σ) * EPSILON / (σ * (1 - H)) ≤ t ∧ EPSILON ≤ t :=
    ⟨H * (1 - σ) * EPSILON / (σ * (1 - H)) + EPSILON, le_add_of_nonneg_right hε.le,
      le_add_of_nonneg_left (div_nonneg (mul_nonneg (mul_nonneg hH.le hσ₁.le) hε.le) hden.le)⟩
  have htpos : 0 < t := lt_of_lt_of_le hε htε
  refine ⟨⟨true, t, some 0⟩, ?_⟩
  have hbalance : H ≤ σ / EPSILON / (σ / EPSILON + (1 - σ) / t) := by
    have hvG : 0 < σ / EPSILON := div_pos hσ hε
    have hvC : 0 < (1 - σ) / t := div_pos hσ₁ htpos
    rw [le_div_iff₀ (add_pos hvG hvC)]
    have hcross : H * ((1 - σ) / t) ≤ (1 - H) * (σ / EPSILON) := by
      rw [div_le_iff₀ hden] at ht
      rw [← mul_div_assoc, ← mul_div_assoc, div_le_div_iff₀ htpos hε]
      linarith
    linarith
  have hset : s.setR (σ / EPSILON / (σ / EPSILON + (1 - σ) / t)) = none := by
    unfold setR SegGeom.quantize
    rw [hlargest, min_eq_right hbalance, max_eq_right hone]
    dsimp only
    rw [if_pos (.inl hthreshold)]
    rfl
  unfold observe
  rw [hphase]
  dsimp only [Option.getD_some]
  rw [hshare, max_eq_right hε.le, max_eq_left htε, hset]
  rfl

/-- Every token of the history took no time. -/
def Idle (s : SegState) : Prop := ∀ h ∈ s.hist, h.tSeg = 0 ∧ h.tCpu = 0

/-- Lookup just entered, after tokens that took no time. -/
structure Quiet (s : SegState) : Prop where
  phase : s.phase = .lookup
  tBest : s.tBest = 0
  tCpuBest : s.tCpuBest = 0
  slowStreak : s.slowStreak = 0
  sinceProbe : s.sinceProbe = 0
  probing : s.probing = false

/-- A token that takes no time. -/
def idle : Obs := ⟨false, 0, none⟩

/-- A token that takes some on the CPU. -/
def busy : Obs := ⟨false, 1, none⟩

theorem Idle.record (h : Idle s) : Idle (s.record idle) := by
  intro x hx
  rcases List.mem_append.mp hx with hx | hx
  · split_ifs at hx
    · exact h x (List.mem_of_mem_tail hx)
    · exact h x hx
  · obtain rfl := List.mem_singleton.mp hx
    exact ⟨rfl, rfl⟩

theorem foldl_min_zero {ts : List (WithTop ℚ)} (h : ∀ t ∈ ts, t = (0 : ℚ)) :
    ts.foldl min ((0 : ℚ) : WithTop ℚ) = (0 : ℚ) := by
  induction ts with
  | nil => rfl
  | cons t ts ih =>
    rw [List.foldl_cons, h t (.head _), min_self]
    exact ih fun t' ht' => h t' (.tail _ ht')

/-- The least of no times is no time, where there is one. -/
theorem Idle.bestAt (h : Idle s) (q : ℕ) : s.bestAt q = ⊤ ∨ s.bestAt q = (0 : ℚ) := by
  unfold SegState.bestAt
  have hzero : ∀ t ∈ (s.hist.filter fun x => x.q = q).map fun x => (x.tSeg : WithTop ℚ),
    t = (0 : ℚ) := by
    intro t ht
    obtain ⟨x, hx, rfl⟩ := List.mem_map.mp ht
    rw [(h x (List.mem_of_mem_filter hx)).1]
  generalize (s.hist.filter fun x => x.q = q).map (fun x => (x.tSeg : WithTop ℚ)) = ts at hzero
  cases ts with
  | nil => exact .inl rfl
  | cons t ts =>
    refine .inr ?_
    rw [List.foldl_cons, hzero t (.head _), min_eq_right le_top]
    exact foldl_min_zero fun t' ht' => hzero t' (.tail _ ht')

theorem Idle.median (h : Idle s) (hne : s.hist ≠ []) : s.tCpuMedian = some 0 := by
  obtain ⟨t, hmem, heq⟩ := exists_tCpuMedian hne
  obtain ⟨x, hx, rfl⟩ := List.mem_map.mp hmem
  rw [heq, (h x hx).2]

theorem Idle.observe (h : Idle s) (hin : InDescent s) (hfits : s.geom.Fits) (cfg : TpConfig) :
    ∃ s' e, s.observeDescent idle cfg = some (s', e) ∧
    (Quiet s' ∨ s'.phase = .descent ∧ Idle s') := by
  have hrec := h.record
  have hmedian := hrec.median (hist_record_ne s idle)
  unfold observeDescent
  dsimp only
  split
  · next qOpt _ =>
    rw [hmedian]
    rcases hrec.bestAt qOpt with hbest | hbest
    · rw [hbest]
      exact ⟨_, _, rfl, .inl ⟨rfl, rfl, rfl, rfl, rfl, rfl⟩⟩
    · rw [hbest]
      exact ⟨_, _, rfl, .inl ⟨rfl, rfl, rfl, rfl, rfl, rfl⟩⟩
  · split_ifs
    · rw [hmedian]
      exact ⟨_, _, rfl, .inl ⟨rfl, rfl, rfl, rfl, rfl, rfl⟩⟩
    · have htokens := hin.tokens
      have hprobe := hin.probe
      obtain ⟨r₁, q₁, k₁, hmove, -⟩ := move_range (s := s.record idle) hin.splittable hfits
        (by unfold MAX_DESCENT_TOKENS at htokens; exact lt_of_le_of_lt hprobe (by omega))
          idle cfg.eta
      rw [hmove]
      refine ⟨_, _, rfl, .inr ?_⟩
      unfold intoBracket
      dsimp only
      split_ifs
      · exact ⟨hin.phase, hrec⟩
      · exact ⟨hin.phase, hrec⟩

/-- A slow token of Lookup that does not end a streak. -/
theorem observe_slow {o : Obs} {cfg : TpConfig} (hphase : s.phase = .lookup)
    (hprobing : s.probing = false) (hslow : cfg.contentionRatio * s.tBest < o.tSeg)
    (hstreak : s.slowStreak + 1 < STREAK) (hsince : s.sinceProbe + 2 < PROBE_PERIOD) :
    s.observe o cfg = some ({ s with slowStreak := s.slowStreak + 1,
                                     sinceProbe := s.sinceProbe + 1 }, .none) := by
  unfold STREAK at hstreak
  unfold PROBE_PERIOD at hsince
  unfold observe observeLookup
  rw [hphase, hprobing]
  dsimp only
  rw [if_neg Bool.false_ne_true, if_pos hslow, if_neg (by unfold STREAK; omega), if_neg]
  · rw [Nat.mod_eq_of_lt (by omega)]
  · unfold PROBE_PERIOD
    omega

theorem observe_busy (hphase : s.phase = .lookup) (hbest : s.tBest = 0)
    (hprobing : s.probing = false) (hstreak : s.slowStreak + 1 < STREAK)
    (hsince : s.sinceProbe + 2 < PROBE_PERIOD) (cfg : TpConfig) : s.observe busy cfg =
      some ({ s with slowStreak := s.slowStreak + 1, sinceProbe := s.sinceProbe + 1 }, .none) := by
  refine observe_slow hphase hprobing ?_ hstreak hsince
  rw [hbest, mul_zero]
  exact zero_lt_one

theorem observe_streak (hphase : s.phase = .lookup) (hbest : s.tBest = 0) (hcpu : s.tCpuBest = 0)
    (hprobing : s.probing = false) (hstreak : s.slowStreak + 1 = STREAK) (cfg : TpConfig) :
    ∃ s', s.observe busy cfg = some (s', .contentionCpu) := by
  have hslow : cfg.contentionRatio * 0 < busy.tSeg := by
    rw [mul_zero]
    exact zero_lt_one
  have hslow' : cfg.contentionRatio * 0 < busy.tCpu := hslow
  unfold observe observeLookup
  rw [hphase, hprobing, hbest, hcpu]
  dsimp only
  rw [if_neg Bool.false_ne_true, if_pos hslow, if_pos hstreak.ge, if_pos hslow']
  exact ⟨_, rfl⟩

theorem Quiet.contended (h : Quiet s) (cfg : TpConfig) :
    ∃ s₁ s₂ s₃, s.observe busy cfg = some (s₁, .none) ∧ s₁.observe busy cfg = some (s₂, .none) ∧
      s₂.observe busy cfg = some (s₃, .contentionCpu) := by
  have h₁ := observe_busy h.phase h.tBest h.probing (by rw [h.slowStreak]; decide)
    (by rw [h.sinceProbe]; decide) cfg
  rw [h.slowStreak, h.sinceProbe] at h₁
  have h₂ := observe_busy (s := { s with slowStreak := 0 + 1, sinceProbe := 0 + 1 })
    h.phase h.tBest h.probing (show 2 < STREAK by decide) (show 3 < PROBE_PERIOD by decide) cfg
  obtain ⟨s₃, h₃⟩ := observe_streak (s := { s with slowStreak := 0 + 1 + 1,
                                                   sinceProbe := 0 + 1 + 1 }) h.phase h.tBest
    h.tCpuBest h.probing rfl cfg
  exact ⟨_, _, s₃, h₁, h₂, h₃⟩

end SegState

namespace TpController

variable {n : ℕ} {c : TpController n}

theorem exists_observe {layer : Fin n} {seg : SegKind} {o : Obs} {s' : SegState} {e : SegEvent}
    (h : (c.segs layer seg).observe o c.cfg = some (s', e)) :
    ∃ c', c.call (.observe layer seg o) = some c' ∧ c'.segs layer seg = s' ∧ c'.cfg = c.cfg ∧
      c'.threads = c.threads ∧
      (e = .contentionCpu → c'.reducePending = true) := by
  obtain ⟨hsegs, hthreads, -, -, hcfg⟩ := account_keeps (c.setSeg layer seg s') layer seg e
  refine ⟨(c.setSeg layer seg s').account layer seg e, ?_, ?_, hcfg, hthreads, fun he => ?_⟩
  · rw [call, TpController.observe, h]
    rfl
  · rw [hsegs]
    exact if_pos ⟨rfl, rfl⟩
  · subst he
    rfl

/-- **Quiet is reached** from Descent: the induction is on the tokens left to it. -/
theorem exists_quiet (layer : Fin n) (seg : SegKind) (hin : (c.segs layer seg).InDescent)
    (hidle : (c.segs layer seg).Idle) (hfits : (c.segs layer seg).geom.Fits) :
    ∃ (obs : List Obs) (c' : TpController n), c.run (obs.map (.observe layer seg)) = some c' ∧
      (c'.segs layer seg).Quiet ∧ c'.threads = c.threads := by
  obtain ⟨left, hleft⟩ : ∃ left, MAX_DESCENT_TOKENS - (c.segs layer seg).descentTokens ≤ left :=
    ⟨_, Nat.le_refl _⟩
  induction left generalizing c with
  | zero =>
    have htokens := hin.tokens
    omega
  | succ left ih =>
    obtain ⟨s', e, heq, hinv, hgeom, hphase⟩ := hin.observe hfits SegState.idle c.cfg
    obtain ⟨s'', e'', heq', hnext⟩ := hidle.observe hin hfits c.cfg
    obtain ⟨rfl, rfl⟩ : s' = s'' ∧ e = e'' := Prod.mk.inj (Option.some.inj (heq.symm.trans heq'))
    have hobs : (c.segs layer seg).observe SegState.idle c.cfg = some (s', e) := by
      rw [SegState.observe, hin.phase]
      exact heq
    obtain ⟨c₁, hcall, hseg, -, hthreads, -⟩ := exists_observe hobs
    rcases hnext with hquiet | ⟨hdescent, hidle'⟩
    · exact ⟨[SegState.idle], c₁, run_cons hcall [], hseg ▸ hquiet, hthreads⟩
    · have hcount : s'.descentTokens = (c.segs layer seg).descentTokens + 1 := by
        rcases hphase with hlookup | ⟨-, hcount⟩
        · rw [hlookup] at hdescent
          cases hdescent
        · exact hcount
      obtain ⟨obs, c', hrun, hquiet, hthreads'⟩ :=
        ih (c := c₁) (hseg ▸ hinv.inDescent hdescent) (hseg ▸ hidle')
          (by rw [hseg, hgeom]; exact hfits) (by rw [hseg]; omega)
      exact ⟨SegState.idle :: obs, c', (run_cons hcall _).trans hrun, hquiet,
        hthreads'.trans hthreads⟩

/-- Contention raises the threads to their minimum. -/
theorem exists_raised (h : CtrlInv c) (layer : Fin n) (seg : SegKind)
    (hphase : (c.segs layer seg).phase = .startup) : ∃ (obs : List Obs) (c' : TpController n),
    c.run (obs.map (.observe layer seg) ++ [.endToken]) = some c' ∧
      c'.threads = max (c.threads - THREAD_STEP) MIN_THREADS := by
  have hinv := h.segs layer seg
  have hfits := h.fits layer seg
  -- Startup, with the first token
  obtain ⟨r', q', hset, hq⟩ := SegState.setR_range hinv.splittable hfits
    ((c.segs layer seg).geom.share (c.segs layer seg).applied / max 0 EPSILON /
      ((c.segs layer seg).geom.share (c.segs layer seg).applied / max 0 EPSILON +
        (1 - (c.segs layer seg).geom.share (c.segs layer seg).applied) / max 0 EPSILON))
  have hobs : (c.segs layer seg).observe SegState.idle c.cfg =
      some ({ c.segs layer seg with r := r', q := q' }.enterDescent 0, .none) := by
    unfold SegState.observe
    rw [hphase]
    dsimp only [SegState.idle, Option.getD_none]
    rw [hset]
    rfl
  obtain ⟨c₁, hcall, hseg, -, hthreads₁, -⟩ := exists_observe hobs
  have hin : (c₁.segs layer seg).InDescent := by
    rw [hseg]
    exact SegState.inDescent_enter (s := { c.segs layer seg with r := r', q := q' })
      hinv.splittable hq (Nat.zero_le 1)
  -- the rest of Descent
  obtain ⟨obs, c₂, hrun, hquiet, hthreads₂⟩ :=
    exists_quiet layer seg hin (by rw [hseg]; nofun) (by rw [hseg]; exact hfits)
  -- three busy tokens
  obtain ⟨s₃, s₄, s₅, hobs₃, hobs₄, hobs₅⟩ := hquiet.contended c₂.cfg
  obtain ⟨c₃, hcall₃, hseg₃, hcfg₃, hthreads₃, -⟩ := exists_observe hobs₃
  rw [← hseg₃, ← hcfg₃] at hobs₄
  obtain ⟨c₄, hcall₄, hseg₄, hcfg₄, hthreads₄, -⟩ := exists_observe hobs₄
  rw [← hseg₄, ← hcfg₃, ← hcfg₄] at hobs₅
  obtain ⟨c₅, hcall₅, -, -, hthreads₅, hpending⟩ := exists_observe hobs₅
  refine ⟨SegState.idle :: obs ++ [SegState.busy, SegState.busy, SegState.busy],
    c₅.endToken, ?_, ?_⟩
  · rw [List.map_append, List.append_assoc, List.map_cons, List.cons_append, run_cons hcall,
      run_append hrun]
    exact (run_cons hcall₃ _).trans
      ((run_cons hcall₄ _).trans ((run_cons hcall₅ _).trans (run_cons rfl [])))
  · have hthreads : c₅.threads = c.threads := by
      rw [hthreads₅, hthreads₄, hthreads₃, hthreads₂, hthreads₁]
    unfold endToken
    dsimp only
    rw [if_pos (hpending rfl), hthreads]

theorem Safe.min_le (hsafe : Safe c) (h : CtrlInv c) (layer : Fin n) (seg : SegKind)
    (hphase : (c.segs layer seg).phase = .startup) : MIN_THREADS ≤ c.threads := by
  obtain ⟨obs, c', hrun, hraised⟩ := exists_raised h layer seg hphase
  have hle := hsafe.threads_le [] c rfl _ c' hrun (by
    intro x hx
    rcases List.mem_append.mp hx with hx | hx
    · obtain ⟨o, -, rfl⟩ := List.mem_map.mp hx
      nofun
    · rw [List.mem_singleton.mp hx]
      nofun)
  rw [hraised] at hle
  exact (Nat.le_max_right _ _).trans hle

theorem segInv_segs_new {nHeadsQ ffnHidden : ℕ} (hheads : 2 ≤ nHeadsQ)
    (hffn : 256 ≤ ffnHidden) {r₀ : ℚ} (hr₀ : r₀ < GPU_ONLY_THRESHOLD) (threads : ℕ) (cfg : TpConfig)
    (layer : Fin n) (seg : SegKind) :
    ((new n nHeadsQ ffnHidden r₀ threads cfg).segs layer seg).SegInv := by
  refine SegState.segInv_new ?_ hr₀
  unfold SegGeom.splittable SegGeom.nUnits
  cases seg with
  | attn =>
    refine decide_eq_true ?_
    rw [show (geom nHeadsQ ffnHidden .attn).unit = 1 from rfl, Nat.div_one]
    exact hheads
  | ffn =>
    refine decide_eq_true ?_
    rw [show (geom nHeadsQ ffnHidden .ffn).unit = 128 from rfl, Nat.le_div_iff_mul_le (by decide)]
    exact hffn

/-- **When the controller is safe**: there are no layers, or both largest shares lie below the
threshold and the threads do not lie below their minimum. -/
theorem safe_iff (n nHeadsQ ffnHidden : ℕ) (r₀ : ℚ) (threads : ℕ) (cfg : TpConfig)
    (hheads : 2 ≤ nHeadsQ) (hffn : 256 ≤ ffnHidden) (hr₀ : r₀ < GPU_ONLY_THRESHOLD)
    (_heta : 0 ≤ cfg.eta) (_hthreads : 1 ≤ threads) :
    Safe (new n nHeadsQ ffnHidden r₀ threads cfg) ↔
      n = 0 ∨ ((∀ seg, (geom nHeadsQ ffnHidden seg).Fits) ∧ MIN_THREADS ≤ threads) := by
  have hsegs := segInv_segs_new (n := n) hheads hffn hr₀ threads cfg
  constructor
  · intro hsafe
    refine or_iff_not_imp_left.mpr fun hn => ?_
    obtain ⟨layer⟩ : Nonempty (Fin n) := ⟨⟨0, Nat.pos_of_ne_zero hn⟩⟩
    have hfits : ∀ seg, (geom nHeadsQ ffnHidden seg).Fits := by
      by_contra hnot
      obtain ⟨seg, hseg⟩ := not_forall.mp hnot
      have hinv := hsegs layer seg
      obtain ⟨o, ho⟩ := SegState.observe_refused hinv.splittable hseg rfl hinv.applied cfg
      obtain ⟨c, hc⟩ := hsafe.runs [.observe layer seg o]
      rw [run, List.foldlM_cons, call, TpController.observe] at hc
      rw [show (new n nHeadsQ ffnHidden r₀ threads cfg).cfg = cfg from rfl, ho] at hc
      cases hc
    refine ⟨hfits, ?_⟩
    have hinv : CtrlInv (new n nHeadsQ ffnHidden r₀ threads cfg) :=
      ⟨hsegs, fun _ seg => hfits seg, hr₀⟩
    exact hsafe.min_le hinv layer .attn rfl
  · rintro (rfl | ⟨hfits, hmin⟩)
    · exact CtrlInv.safe ⟨hsegs, fun layer => layer.elim0, hr₀⟩ (.inr ⟨rfl, rfl, rfl⟩)
    · exact CtrlInv.safe ⟨hsegs, fun _ seg => hfits seg, hr₀⟩ (.inl ⟨hmin, hmin⟩)

/-- The default configuration. -/
def defaultConfig : TpConfig := ⟨1 / 4, 6 / 5, true⟩

theorem fits_small (seg : SegKind) : (geom 32 8192 seg).Fits := by
  unfold SegGeom.Fits SegGeom.share GPU_ONLY_THRESHOLD
  cases seg with
  | attn =>
    rw [show (geom 32 8192 .attn).qMax = 31 from rfl, show (geom 32 8192 .attn).unit = 1 from rfl,
      show (geom 32 8192 .attn).total = 32 from rfl]
    norm_num
  | ffn =>
    rw [show (geom 32 8192 .ffn).qMax = 63 from rfl, show (geom 32 8192 .ffn).unit = 128 from rfl,
      show (geom 32 8192 .ffn).total = 8192 from rfl]
    norm_num

theorem half_lt_threshold : (1 / 2 : ℚ) < GPU_ONLY_THRESHOLD := by
  unfold GPU_ONLY_THRESHOLD
  norm_num

/-- 28 layers on 8 threads. -/
theorem safe_eight_threads : Safe (new 28 32 8192 (1 / 2) 8 defaultConfig) := by
  refine (safe_iff 28 32 8192 (1 / 2) 8 defaultConfig (by decide) (by decide)
    half_lt_threshold ?_ (by decide)).mpr
    (.inr ⟨fits_small, by decide⟩)
  norm_num [defaultConfig]

/-- 28672 rows: one token on a fast GPU panics. Two threads: contention raises them to four. -/
theorem refused_and_raised :
    ¬ Safe (new 80 64 28672 (1 / 2) 8 defaultConfig) ∧
    ¬ Safe (new 28 32 8192 (1 / 2) 2 defaultConfig) := by
  constructor
  · intro hsafe
    obtain ⟨c, hc⟩ := hsafe.runs [.observe 0 .ffn ⟨true, 1, some 0⟩]
    have hnone :
      ((new 80 64 28672 (1 / 2) 8 defaultConfig).run [.observe 0 .ffn ⟨true, 1, some 0⟩]).isNone =
        true := by
      decide +kernel
    rw [hc] at hnone
    cases hnone
  · intro hsafe
    have hsegs := segInv_segs_new (n := 28) (by decide : 2 ≤ 32) (by decide : 256 ≤ 8192)
      half_lt_threshold 2 defaultConfig
    have hmin := hsafe.min_le ⟨hsegs, fun _ => fits_small, half_lt_threshold⟩ 0 .attn rfl
    exact absurd hmin (by decide)

end TpController

end ArgusEngine.Layers
