import ArgusEngine.Layers.TpSafety

/-!
# The balance of two devices

Two devices of constant speed share a segment: they are done at the same time at the share
`balance`, and the CPU waits for the GPU at every share above it.

* `Devices.observation`: what a segment observes of them. **`waits_iff`**: when the CPU waits;
* `quanta`: a share in quanta. **`quantize_spec`**: the quantum of a share, with the rounding of its
  axis;
* **`startup_balanced`**: the first token moves the share to the balance;
* **`gradient_reach`**: how far the first step along the gradient can go.
-/

namespace ArgusEngine.Layers

namespace SegGeom

variable {g : SegGeom}

/-- A share in quanta. -/
def quanta (g : SegGeom) (r : ℚ) : ℚ := r * g.total / g.unit

/-- What the quantization adds before it rounds down: heads are rounded to the nearest, rows are
aligned down. -/
def half (g : SegGeom) : ℚ :=
  match g.kind with
  | .attn => 1 / 2
  | .ffn => 0

theorem unit_cast_pos (g : SegGeom) : (0 : ℚ) < g.unit := Nat.cast_pos.mpr g.unit_pos

theorem total_cast_pos (h : g.splittable = true) : (0 : ℚ) < g.total :=
  Nat.cast_pos.mpr (total_pos h)

theorem share_eq (g : SegGeom) (q : ℕ) : g.share q = q * g.unit / g.total := by
  unfold share
  rw [Nat.cast_mul]

theorem quanta_share (h : g.splittable = true) (q : ℕ) : g.quanta (g.share q) = q := by
  have htotal := total_cast_pos h
  have hunit := g.unit_cast_pos
  rw [quanta, share_eq]
  field_simp

theorem share_le_iff (h : g.splittable = true) {q : ℕ} {r : ℚ} : g.share q ≤ r ↔
    (q : ℚ) ≤ g.quanta r := by
  rw [share_eq, quanta, div_le_iff₀ (total_cast_pos h), le_div_iff₀ g.unit_cast_pos]

theorem lt_share_iff (h : g.splittable = true) {q : ℕ} {r : ℚ} :
    r < g.share q ↔ g.quanta r < q := by
  rw [share_eq, quanta, lt_div_iff₀ (total_cast_pos h), div_lt_iff₀ g.unit_cast_pos]

theorem le_share_iff (h : g.splittable = true) {q : ℕ} {r : ℚ} :
    r ≤ g.share q ↔ g.quanta r ≤ q := by
  rw [share_eq, quanta, le_div_iff₀ (total_cast_pos h), div_le_iff₀ g.unit_cast_pos]

theorem half_range (g : SegGeom) : 0 ≤ g.half ∧ g.half ≤ 1 / 2 := by
  unfold half
  cases g.kind <;> norm_num

theorem unit_attn (hkind : g.kind = .attn) : g.unit = 1 := by
  unfold unit
  rw [hkind]

theorem quanta_attn (hkind : g.kind = .attn) (r : ℚ) : g.quanta r = r * g.total := by
  rw [quanta, unit_attn hkind, Nat.cast_one, div_one]

theorem share_attn (h : g.splittable = true) (hkind : g.kind = .attn) (q : ℕ) :
    g.share q * g.total = q := by
  rw [share_eq, unit_attn hkind, Nat.cast_one, mul_one, div_mul_cancel₀ _ (total_cast_pos h).ne']

theorem qMax_attn (h : g.splittable = true) (hkind : g.kind = .attn) : g.qMax + 1 = g.total := by
  have htwo := two_le_nUnits h
  have hunits : g.nUnits = g.total := by
    unfold nUnits
    rw [unit_attn hkind, Nat.div_one]
  unfold qMax
  omega

theorem total_attn (h : g.splittable = true) (hfits : g.Fits) (hkind : g.kind = .attn) :
    g.total ≤ 199 := by
  have hmax : (g.qMax : ℚ) + 1 = g.total := by exact_mod_cast qMax_attn h hkind
  have htotal := total_cast_pos h
  unfold Fits at hfits
  rw [share_eq, unit_attn hkind, Nat.cast_one, mul_one, div_lt_iff₀ htotal] at hfits
  unfold GPU_ONLY_THRESHOLD at hfits
  have hlt : (g.total : ℚ) < 200 := by linarith
  have hnat : g.total < 200 := by exact_mod_cast hlt
  omega

/-- **The quantum of a share** between the first and the last one. -/
theorem quantize_spec (h : g.splittable = true) (hfits : g.Fits) {r : ℚ} (hlo : g.share 1 ≤ r)
    (hhi : r ≤ g.share g.qMax) : ∃ q : ℕ, g.quantize r = some q ∧ 1 ≤ q ∧ q ≤ g.qMax ∧
      (q : ℚ) ≤ g.quanta r + g.half ∧
      g.quanta r + g.half < q + 1 := by
  have hpos : 0 ≤ r := (share_pos h le_rfl).le.trans hlo
  have hone : (1 : ℚ) ≤ g.quanta r := by
    have := (share_le_iff h).mp hlo
    rwa [Nat.cast_one] at this
  have hmax : g.quanta r ≤ g.qMax := (le_share_iff h).mp hhi
  have hlt : r < GPU_ONLY_THRESHOLD := hhi.trans_lt hfits
  unfold quantize
  rw [if_neg (by simp [h, hlt]), max_eq_left hpos]
  unfold quanta half unit at *
  cases hkind : g.kind with
  | attn =>
    rw [hkind] at hone hmax
    dsimp only at hone hmax ⊢
    rw [Nat.cast_one, div_one] at hone hmax ⊢
    obtain ⟨z, hz⟩ : ∃ z : ℕ, ⌊r * g.total + 1 / 2⌋ = z :=
      Int.eq_ofNat_of_zero_le (Int.floor_nonneg.mpr (by linarith))
    have hfloor : (z : ℚ) ≤ r * g.total + 1 / 2 ∧ r * g.total + 1 / 2 < z + 1 := by
      rw [Int.floor_eq_iff] at hz
      exact_mod_cast hz
    have hz1 : 1 ≤ z := by
      have : (0 : ℚ) < z := by linarith
      exact_mod_cast this
    have hz2 : z ≤ g.qMax := by
      have : (z : ℚ) < g.qMax + 1 := by linarith
      exact Nat.lt_succ_iff.mp (by exact_mod_cast this)
    refine ⟨z, ?_, hz1, hz2, hfloor.1, hfloor.2⟩
    rw [hz, Int.toNat_natCast, min_eq_left hz2, max_eq_right hz1]
  | ffn =>
    rw [hkind] at hone hmax
    dsimp only at hone hmax ⊢
    unfold FFN_ROW_QUANTUM at *
    rw [le_div_iff₀ (by norm_num)] at hone
    rw [div_le_iff₀ (by norm_num)] at hmax
    obtain ⟨z, hz⟩ : ∃ z : ℕ, ⌊r * g.total⌋ = z :=
      Int.eq_ofNat_of_zero_le (Int.floor_nonneg.mpr (by linarith))
    have hfloor : (z : ℚ) ≤ r * g.total ∧ r * g.total < z + 1 := by
      rw [Int.floor_eq_iff] at hz
      exact_mod_cast hz
    have hz1 : 128 ≤ z := by
      have : (128 : ℚ) < z + 1 := by
        push_cast at hone
        linarith
      exact Nat.lt_succ_iff.mp (by exact_mod_cast this)
    have hz2 : z ≤ g.qMax * 128 := by
      have : (z : ℚ) ≤ g.qMax * 128 := hfloor.1.trans hmax
      exact_mod_cast this
    have hdiv : z / 128 * 128 ≤ z ∧ z + 1 ≤ (z / 128 + 1) * 128 := by omega
    have hdiv1 : ((z / 128 : ℕ) : ℚ) * 128 ≤ z := by exact_mod_cast hdiv.1
    have hdiv2 : (z : ℚ) + 1 ≤ ((z / 128 : ℕ) + 1) * 128 := by exact_mod_cast hdiv.2
    refine ⟨z / 128, ?_, by omega, by omega, ?_, ?_⟩
    · rw [hz, Int.toNat_natCast]
      congr 1
      omega
    · rw [add_zero, le_div_iff₀ (by norm_num)]
      push_cast
      linarith
    · rw [add_zero, div_lt_iff₀ (by norm_num)]
      push_cast
      linarith

end SegGeom

/-! ## The devices -/

/-- Two devices that run a share of a segment at constant speeds. -/
structure Devices where
  vG : ℚ
  vC : ℚ
  vG_pos : 0 < vG
  vC_pos : 0 < vC

/-- `serial`: the token runs on one device after the other. -/
def SegState.serial (s : SegState) : Bool := s.phase = .startup

namespace Devices

variable (d : Devices) (g : SegGeom)

def timeGpu (q : ℕ) : ℚ := g.share q / d.vG

def timeCpu (q : ℕ) : ℚ := (1 - g.share q) / d.vC

/-- The time of a segment: the one of the slower device. -/
def time (q : ℕ) : ℚ := max (d.timeGpu g q) (d.timeCpu g q)

/-- The CPU waits at a quantum. -/
def Waits (q : ℕ) : Prop := d.timeCpu g q < d.timeGpu g q

instance (q : ℕ) : Decidable (d.Waits g q) := inferInstanceAs (Decidable (_ < _))

/-- What a segment observes: the time of the GPU is known where the CPU waits, and on a serial
token. -/
def observation (s : SegState) : Obs where
  waited := d.Waits s.geom s.applied
  tCpu := d.timeCpu s.geom s.applied
  tGpu := if d.Waits s.geom s.applied ∨ s.serial then some (d.timeGpu s.geom s.applied) else none

/-- A token of a segment that observes the devices. -/
def token (cfg : TpConfig) (s : SegState) : Option (SegState × SegEvent) :=
  s.observe (d.observation s) cfg

/-- Every share takes both devices longer than `EPSILON`. -/
def Visible : Prop := ∀ q, 1 ≤ q → q ≤ g.qMax → EPSILON < d.timeGpu g q ∧ EPSILON < d.timeCpu g q

/-- The share at which both devices take the same time. -/
def balance : ℚ := d.vG / (d.vG + d.vC)

variable {d g}

theorem sum_pos : 0 < d.vG + d.vC := add_pos d.vG_pos d.vC_pos

theorem balance_pos : 0 < d.balance := div_pos d.vG_pos sum_pos

/-- **The CPU waits** above the balance. -/
theorem waits_iff {q : ℕ} : d.Waits g q ↔ d.balance < g.share q := by
  have hG := d.vG_pos
  have hC := d.vC_pos
  unfold Waits timeCpu timeGpu balance
  rw [div_lt_div_iff₀ hC hG, div_lt_iff₀ sum_pos]
  constructor
  · intro h
    linarith
  · intro h
    linarith

theorem time_of_not_waits {q : ℕ} (h : ¬ d.Waits g q) : d.time g q = d.timeCpu g q :=
  max_eq_right (not_lt.mp h)

theorem time_pos (hs : g.splittable = true) {q : ℕ} (h1 : 1 ≤ q) : 0 < d.time g q :=
  lt_max_of_lt_left (div_pos (SegGeom.share_pos hs h1) d.vG_pos)

theorem tSeg_observation (s : SegState) : (d.observation s).tSeg = d.time s.geom s.q := by
  unfold Obs.tSeg observation SegState.applied
  dsimp only
  by_cases hw : d.Waits s.geom s.q
  · rw [if_pos (.inl hw)]
    dsimp only
    rw [if_pos (decide_eq_true hw)]
    rfl
  · rw [time_of_not_waits hw]
    by_cases hserial : s.serial = true
    · rw [if_pos (.inr hserial)]
      exact if_neg (by simpa using hw)
    · rw [if_neg (not_or.mpr ⟨hw, hserial⟩)]

/-! ## The first token -/

/-- The share that is nearest to the balance among those of the quanta. -/
def target (d : Devices) (g : SegGeom) : ℚ := max (g.share 1) (min d.balance (g.share g.qMax))

/-- **Startup moves the share to the balance.** -/
theorem startup_balanced (hs : g.splittable = true) (hfits : g.Fits) (hvisible : d.Visible g)
    (cfg : TpConfig) {s : SegState} (hgeom : s.geom = g) (hphase : s.phase = .startup)
    (hq : 1 ≤ s.q ∧ s.q ≤ g.qMax) :
    ∃ q : ℕ, d.token cfg s = some ({ s with r := d.target g, q := q }.enterDescent 0, .none) ∧
      1 ≤ q ∧ q ≤ g.qMax ∧
      (q : ℚ) ≤ g.quanta (d.target g) + g.half ∧ g.quanta (d.target g) + g.half < q + 1 := by
  subst hgeom
  obtain ⟨hG, hC⟩ := hvisible s.q hq.1 hq.2
  have hshare := SegGeom.share_pos hs hq.1
  have hrest : 0 < 1 - s.geom.share s.q := sub_pos.mpr (SegGeom.share_lt_one hs hq.2)
  obtain ⟨q, hquant, h1, h2, h3, h4⟩ := SegGeom.quantize_spec hs hfits (r := d.target s.geom)
    (le_max_left _ _) (max_le (SegGeom.share_mono (SegGeom.one_le_qMax hs)) (min_le_right _ _))
  refine ⟨q, ?_, h1, h2, h3, h4⟩
  have hvG : s.geom.share s.q / d.timeGpu s.geom s.q = d.vG := by
    unfold timeGpu
    field_simp
  have hvC : (1 - s.geom.share s.q) / d.timeCpu s.geom s.q = d.vC := by
    unfold timeCpu
    rw [div_div_eq_mul_div, mul_div_cancel_left₀ _ hrest.ne']
  have hset : s.setR d.balance = some { s with r := d.target s.geom, q := q } := by
    unfold SegState.setR
    dsimp only
    rw [show max (s.geom.share 1) (min d.balance (s.geom.share s.geom.qMax)) =
      d.target s.geom from rfl, hquant]
    rfl
  have hgpu : (d.observation s).tGpu = some (d.timeGpu s.geom s.q) :=
    if_pos (.inr (decide_eq_true hphase))
  have hcpu : (d.observation s).tCpu = d.timeCpu s.geom s.q := rfl
  unfold token SegState.observe
  rw [hphase]
  dsimp only [SegState.applied]
  rw [hgpu, hcpu, Option.getD_some, max_eq_left hG.le, max_eq_left hC.le, hvG, hvC]
  rw [show d.vG / (d.vG + d.vC) = d.balance from rfl, hset]
  rfl

/-! ## The step along the gradient -/

theorem gradient_eq {q : ℕ} (hs : g.splittable = true) (h1 : 1 ≤ q) (h2 : q ≤ g.qMax) :
    (d.timeCpu g q - d.timeGpu g q) / (d.timeCpu g q + d.timeGpu g q) =
      (d.balance - g.share q) / (g.share q * (1 - d.balance) + (1 - g.share q) * d.balance) := by
  have hG := d.vG_pos
  have hC := d.vC_pos
  have hsum : 0 < d.vG + d.vC := sum_pos
  have hshare := SegGeom.share_pos hs h1
  have hrest : 0 < 1 - g.share q := sub_pos.mpr (SegGeom.share_lt_one hs h2)
  have hother : 1 - d.balance = d.vC / (d.vG + d.vC) := by
    unfold balance
    field_simp
    ring
  have htimes : 0 < d.timeCpu g q + d.timeGpu g q := add_pos (div_pos hrest hC) (div_pos hshare hG)
  have hden : 0 < g.share q * (1 - d.balance) + (1 - g.share q) * d.balance := by
    rw [hother]
    exact add_pos (mul_pos hshare (div_pos hC hsum)) (mul_pos hrest balance_pos)
  rw [div_eq_div_iff htimes.ne' hden.ne', hother]
  unfold timeCpu timeGpu balance
  field_simp
  ring

theorem spread_bound {n m x : ℚ} (hm : 2 ≤ m) (hn : m + 1 ≤ n) (hn' : n ≤ 199) (hx : x < m)
    (hx' : m ≤ x + 1 / 2) : n ^ 2 ≤ 190 * (m * (n - x) + x * (n - m)) := by
  have hspread : (n - m) * (2 * m - 1 / 2) ≤ m * (n - x) + x * (n - m) := by
    have h1 : 0 ≤ (m - x) * m := mul_nonneg (by linarith) (by linarith)
    have h2 : 0 ≤ (n - m) * (1 / 2 - (m - x)) := mul_nonneg (by linarith) (by linarith)
    linarith
  have hends : 2 * n - 5 / 2 ≤ (n - m) * (2 * m - 1 / 2) := by
    have := mul_nonneg (show 0 ≤ 2 * m - 5 / 2 by linarith) (show 0 ≤ n - m - 1 by linarith)
    linarith
  have hsquare : n ^ 2 ≤ 190 * (2 * n - 5 / 2) := by nlinarith
  linarith

/-- **The first step along the gradient** of a head count that was rounded up stays within 95
heads. -/
theorem gradient_reach (hs : g.splittable = true) (hfits : g.Fits) (hkind : g.kind = .attn)
    {m : ℕ} (h2 : 2 ≤ m) (hm : m ≤ g.qMax) (hw : d.Waits g m)
    (hround : (m : ℚ) ≤ g.quanta d.balance + 1 / 2) {eta : ℚ} (heta : eta ≤ 1) :
    g.quanta d.balance - 95 ≤
      g.quanta (d.balance + eta * (d.timeCpu g m - d.timeGpu g m) /
        (d.timeCpu g m + d.timeGpu g m)) := by
  have htotal := SegGeom.total_cast_pos hs
  have hbelow := (SegGeom.lt_share_iff hs).mp (waits_iff.mp hw)
  have hshare := SegGeom.share_attn hs hkind m
  -- the axis is short enough for its largest share to be below the threshold
  have hshort : (g.total : ℚ) ≤ 199 := by exact_mod_cast SegGeom.total_attn hs hfits hkind
  have hmQ : (2 : ℚ) ≤ m := by exact_mod_cast h2
  have hmn : (m : ℚ) + 1 ≤ g.total := by
    have hle := SegGeom.qMax_attn hs hkind
    exact_mod_cast (show m + 1 ≤ g.total by omega)
  rw [SegGeom.quanta_attn hkind] at hbelow hround ⊢
  rw [SegGeom.quanta_attn hkind]
  have hspread := spread_bound hmQ hmn hshort hbelow hround
  obtain ⟨den, hden⟩ : ∃ den, den = g.share m * (1 - d.balance) + (1 - g.share m) *
    d.balance := ⟨_, rfl⟩
  have hscaled : (m : ℚ) * (g.total - d.balance * g.total) + d.balance * g.total * (g.total - m) =
    den * g.total ^ 2 := by
    rw [hden, ← hshare]
    ring
  rw [hscaled] at hspread
  have hden1 : 1 ≤ 190 * den := by
    have hsq : (0 : ℚ) < (g.total : ℚ) ^ 2 := pow_pos htotal 2
    by_contra hlt
    have := mul_lt_mul_of_pos_right (not_le.mp hlt) hsq
    linarith
  have hdenpos : 0 < den := by linarith
  rw [mul_div_assoc, gradient_eq hs (by omega) hm, ← hden, add_mul]
  have hstep : eta * ((g.share m - d.balance) / den) * g.total ≤ 95 := by
    have hdiff : (g.share m - d.balance) * g.total ≤ 1 / 2 := by
      rw [sub_mul, hshare]
      linarith
    have hdiff0 : 0 ≤ (g.share m - d.balance) * g.total := by
      rw [sub_mul, hshare]
      linarith
    calc eta * ((g.share m - d.balance) / den) * g.total =
      eta * ((g.share m - d.balance) * g.total / den) := by ring
      _ ≤ 1 * ((g.share m - d.balance) * g.total / den) :=
          mul_le_mul_of_nonneg_right heta (div_nonneg hdiff0 hdenpos.le)
      _ ≤ 95 := by
          rw [one_mul, div_le_iff₀ hdenpos]
          linarith
  have hneg : eta * ((d.balance - g.share m) / den) * g.total =
    -(eta * ((g.share m - d.balance) / den) * g.total) := by
    ring
  rw [hneg]
  linarith

end Devices

end ArgusEngine.Layers
