import Mathlib.Algebra.Order.Field.Rat
import Mathlib.Data.Rat.Floor
import Mathlib.Order.WithBot

/-!
# The split controller of the tensor partition

For each segment of a layer the controller holds a quantum of the split axis, the GPU's share. A
token runs at the quantum and is observed; the segment answers with the next quantum. It measures
both devices (Startup), follows the gradient or probes upwards within a bracket (Descent), and holds
the quantum it found (Lookup).

Shares and times are exact rationals. A panic is `none`; the `u32` counters wrap.

* `SegGeom.quantize`: the quantum of a share, refused from `GPU_ONLY_THRESHOLD` on;
* `SegState.setR`, `SegState.setQ`: the two ways to write the quantum;
* `SegState.observe`: one observation of a segment;
* `TpController.observe`, `endToken`, `resetForOn`, and `TpController.run`: the calls of a session.
-/

namespace ArgusEngine.Layers

/-- `GPU_ONLY_THRESHOLD`. -/
def GPU_ONLY_THRESHOLD : ℚ := 995 / 1000

def FFN_ROW_QUANTUM : ℕ := 128
def STREAK : ℕ := 3
def MAX_DESCENT_TOKENS : ℕ := 16
def MAX_PROBE_QUANTA : ℕ := 8
def PROBE_PERIOD : ℕ := 8
def MIN_THREADS : ℕ := 4
def THREAD_STEP : ℕ := 2

/-- `f32::EPSILON`. -/
def EPSILON : ℚ := 1 / 8388608

inductive SegKind where
  | attn
  | ffn
deriving DecidableEq

/-- `SegGeom`: `total` is `n_heads_q` or `ffn_hidden`. -/
structure SegGeom where
  kind : SegKind
  total : ℕ
deriving DecidableEq

namespace SegGeom

variable (g : SegGeom)

def unit : ℕ :=
  match g.kind with
  | .attn => 1
  | .ffn => FFN_ROW_QUANTUM

def nUnits : ℕ := g.total / g.unit

def splittable : Bool := 2 ≤ g.nUnits

/-- The largest quantum. -/
def qMax : ℕ := g.nUnits - 1

/-- The share of a quantum. -/
def share (q : ℕ) : ℚ := (q * g.unit : ℕ) / g.total

/-- `quantize`: `none` is the partition turned off. -/
def quantize (r : ℚ) : Option ℕ :=
  if GPU_ONLY_THRESHOLD ≤ r ∨ g.splittable = false then none
  else
    let r := max r 0
    let q := match g.kind with
      | .attn => ⌊r * g.total + 1 / 2⌋.toNat
      | .ffn => ⌊r * g.total⌋.toNat / g.unit
    some (max 1 (min q g.qMax))

end SegGeom

/-- `TpConfig`. -/
structure TpConfig where
  eta : ℚ
  contentionRatio : ℚ
  probe : Bool

/-- `Obs`. -/
structure Obs where
  waited : Bool
  tCpu : ℚ
  tGpu : Option ℚ

/-- `t_seg`. -/
def Obs.tSeg (o : Obs) : ℚ :=
  match o.tGpu with
  | some g => if o.waited then max g o.tCpu else o.tCpu
  | none => o.tCpu

inductive Phase where
  | startup
  | descent
  | lookup
deriving DecidableEq

inductive SegEvent where
  | none
  | converged (forced : Bool)
  | contentionCpu
  | contentionGpu
  | probeHit

/-- An observation of Descent. -/
structure Sample where
  q : ℕ
  waited : Bool
  tSeg : ℚ
  tCpu : ℚ

/-- `SegState`. -/
structure SegState where
  geom : SegGeom
  phase : Phase
  r : ℚ
  q : ℕ
  kProbe : ℕ := 0
  hist : List Sample := []
  lo : Option ℕ := none
  hi : Option ℕ := none
  descentTokens : ℕ := 0
  qOpt : ℕ
  tBest : ℚ := 0
  tCpuBest : ℚ := 0
  slowStreak : ℕ := 0
  sinceProbe : ℕ := 0
  probing : Bool := false
  probeConfirm : Bool := false

namespace SegState

def new (geom : SegGeom) (r₀ : ℚ) : SegState :=
  let q := (geom.quantize r₀).getD geom.qMax
  { geom, phase := .startup, r := geom.share q, q, qOpt := q }

variable (s : SegState)

/-- The quantum that the next token runs at. -/
def applied : ℕ := s.q

def restart : SegState :=
  { s with phase := .startup, probing := false, probeConfirm := false, slowStreak := 0, hist := [] }

/-- `set_r`, with its `expect`. -/
def setR (r : ℚ) : Option SegState := do
  let r := max (s.geom.share 1) (min r (s.geom.share s.geom.qMax))
  let q ← s.geom.quantize r
  return { s with r, q }

/-- `set_q`. -/
def setQ (q : ℕ) : SegState :=
  let q := max 1 (min q s.geom.qMax)
  { s with q, r := s.geom.share q }

def enterDescent (kProbe : ℕ) : SegState :=
  { s with
    phase := .descent, kProbe, hist := [], lo := none, hi := none, descentTokens :=
      0, probing := false,
    probeConfirm := false, slowStreak := 0 }

def enterLookup (qOpt : ℕ) (tBest tCpuBest : ℚ) : SegState :=
  { s with
    phase := .lookup, qOpt, tBest, tCpuBest, slowStreak := 0, sinceProbe := 0, probing := false,
    probeConfirm := false }.setQ qOpt

/-- The least segment time at the quantum; `⊤` is infinity. -/
def bestAt (q : ℕ) : WithTop ℚ :=
  ((s.hist.filter fun h => h.q = q).map fun h => (h.tSeg : WithTop ℚ)).foldl min ⊤

/-- The same quantum three times in a row. -/
def heldAt : Option ℕ :=
  match s.hist with
  | h :: hs => if s.hist.length = STREAK ∧ ∀ x ∈ h :: hs, x.q = h.q then some h.q else none
  | [] => none

/-- `converged_at`: the bracket closed, or the quantum was held. -/
def convergedAt : Option ℕ :=
  match s.lo, s.hi with
  | some lo, some hi =>
    if hi = lo + 1 then some (if s.bestAt hi < s.bestAt lo then hi else lo) else s.heldAt
  | _, _ => s.heldAt

/-- `t_cpu_median`, which indexes into the history. -/
def tCpuMedian : Option ℚ :=
  ((s.hist.map Sample.tCpu).mergeSort fun a b => a ≤ b)[s.hist.length / 2]?

/-- The token is recorded and the bracket follows: the newest observation wins. -/
def record (o : Obs) : SegState :=
  { s with
    descentTokens := s.descentTokens + 1
    hist := (if s.hist.length = STREAK then s.hist.tail else s.hist) ++
      [⟨s.q, o.waited, o.tSeg, o.tCpu⟩]
    hi := if o.waited then some s.q else s.hi.filter fun hi => s.q < hi
    lo := if o.waited then s.lo.filter fun lo => lo < s.q else some s.q }

/-- The step of Descent: along the gradient, or upwards by a doubling number of quanta. A shift by
64 bits or more overflows. -/
def move (o : Obs) (eta : ℚ) : Option SegState :=
  match o.tGpu, o.waited with
  | some tGpu, true => do
    let step := eta * (o.tCpu - tGpu) / max (o.tCpu + tGpu) EPSILON
    let s ← s.setR (s.r + step)
    return { s with kProbe := 0 }
  | _, _ =>
    if 64 ≤ s.kProbe then none
    else
      let quanta := min (2 ^ s.kProbe) MAX_PROBE_QUANTA
      let s := s.setQ (s.q + quanta)
      some { s with kProbe := s.kProbe + 1 }

/-- The quantum stays below the lowest one waited at and not below the highest one not waited at. -/
def intoBracket : SegState :=
  let q := match s.hi with
    | some hi => min s.q (max (hi - 1) 1)
    | none => s.q
  let q := match s.lo with
    | some lo => max q lo
    | none => q
  if q ≠ s.q then s.setQ q else s

/-- `observe_descent`. -/
def observeDescent (o : Obs) (cfg : TpConfig) : Option (SegState × SegEvent) :=
  let qRan := s.q
  let s := s.record o
  match s.convergedAt with
  | some qOpt => do
    let tBest := match s.bestAt qOpt with
      | some t => t
      | none => o.tSeg
    let median ← s.tCpuMedian
    return (s.enterLookup qOpt tBest median, .converged false)
  | none =>
    if MAX_DESCENT_TOKENS ≤ s.descentTokens then do
      let median ← s.tCpuMedian
      return (s.enterLookup qRan o.tSeg median, .converged true)
    else do
      let s ← s.move o cfg.eta
      return (s.intoBracket, .none)

/-- `observe_lookup`. -/
def observeLookup (o : Obs) (cfg : TpConfig) : Option (SegState × SegEvent) :=
  if s.probing then
    if !o.waited && !s.probeConfirm then some ({ s with probeConfirm := true }, .none)
    else
      let s := { s with probing := false, sinceProbe := 0, probeConfirm := false }
      if !o.waited then do
        let (s, _) ← (s.enterDescent 1).observeDescent o cfg
        return (s, .probeHit)
      else some (s.setQ s.qOpt, .none)
  else
    let s := { s with slowStreak := if cfg.contentionRatio * s.tBest < o.tSeg
                        then s.slowStreak + 1 else 0 }
    if STREAK ≤ s.slowStreak then
      let s := { s with slowStreak := 0 }
      if cfg.contentionRatio * s.tCpuBest < o.tCpu then some (s.restart, .contentionCpu)
      else do
        let (s, _) ← (s.enterDescent 0).observeDescent o cfg
        return (s, .contentionGpu)
    else
      let s := { s with sinceProbe := (s.sinceProbe + 1) % 2 ^ 32 }
      if cfg.probe ∧ PROBE_PERIOD ≤ (s.sinceProbe + 1) % 2 ^ 32 ∧ s.qOpt < s.geom.qMax then
        some ({ s with probing := true }.setQ (s.qOpt + 1), .none)
      else some (s, .none)

/-- `observe`: Startup balances the two measured speeds. -/
def observe (o : Obs) (cfg : TpConfig) : Option (SegState × SegEvent) :=
  match s.phase with
  | .startup => do
    let r₀ := s.geom.share s.applied
    let vG := r₀ / max (o.tGpu.getD o.tCpu) EPSILON
    let vC := (1 - r₀) / max o.tCpu EPSILON
    let s ← s.setR (vG / (vG + vC))
    return (s.enterDescent 0, .none)
  | .descent => s.observeDescent o cfg
  | .lookup => s.observeLookup o cfg

end SegState

/-! ## The controller -/

/-- `TpController` over `n` layers, adaptive. -/
structure TpController (n : ℕ) where
  cfg : TpConfig
  segs : Fin n → SegKind → SegState
  threads : ℕ
  threadsInitial : ℕ
  r₀ : ℚ
  tokens : ℕ := 0
  convergedTok : Option ℕ := none
  onTokens : Option ℕ := none
  convergedOnce : Fin n → SegKind → Bool := fun _ _ => false
  forced : ℕ := 0
  contention : ℕ := 0
  probeHits : ℕ := 0
  reducePending : Bool := false

/-- A call of a session. -/
inductive Call (n : ℕ) where
  | observe (layer : Fin n) (seg : SegKind) (obs : Obs)
  | endToken
  | resetForOn

namespace TpController

variable {n : ℕ}

def geom (nHeadsQ ffnHidden : ℕ) : SegKind → SegGeom
  | .attn => ⟨.attn, nHeadsQ⟩
  | .ffn => ⟨.ffn, ffnHidden⟩

def new (n nHeadsQ ffnHidden : ℕ) (r₀ : ℚ) (threads : ℕ) (cfg : TpConfig) : TpController n where
  cfg := cfg
  segs _ k := .new (geom nHeadsQ ffnHidden k) r₀
  threads := threads
  threadsInitial := threads
  r₀ := r₀

variable (c : TpController n)

/-- The controller with one segment replaced. -/
def setSeg (layer : Fin n) (seg : SegKind) (s : SegState) : TpController n :=
  { c with segs := fun l k => if l = layer ∧ k = seg then s else c.segs l k }

/-- The bookkeeping of an event. -/
def account (layer : Fin n) (seg : SegKind) : SegEvent → TpController n
  | .converged forced =>
    { c with
      forced := if forced then c.forced + 1 else c.forced
      convergedOnce := fun l k => if l = layer ∧ k = seg then true else c.convergedOnce l k }
  | .contentionCpu => { c with contention := c.contention + 1, reducePending := true }
  | .contentionGpu => { c with contention := c.contention + 1 }
  | .probeHit => { c with probeHits := c.probeHits + 1 }
  | .none => c

def observe (layer : Fin n) (seg : SegKind) (o : Obs) : Option (TpController n) := do
  let (s, event) ← (c.segs layer seg).observe o c.cfg
  return (c.setSeg layer seg s).account layer seg event

/-- `end_token`. -/
def endToken : TpController n :=
  let tokens := (c.tokens + 1) % 2 ^ 32
  let c := { c with
    tokens
    convergedTok :=
      if c.convergedTok.isNone && (List.finRange n).all fun l => c.convergedOnce l .attn &&
        c.convergedOnce l .ffn then
        some tokens
      else c.convergedTok }
  if c.reducePending then
    { c with
      reducePending := false
      segs := fun l k => (c.segs l k).restart
      threads := max (c.threads - THREAD_STEP) MIN_THREADS }
  else c

/-- `reset_for_on`. -/
def resetForOn : TpController n :=
  { c with
    segs := fun l k => .new (c.segs l k).geom c.r₀
    convergedOnce := fun _ _ => false
    convergedTok := none
    threads := c.threadsInitial
    reducePending := false
    onTokens := some c.tokens }

def call : Call n → Option (TpController n)
  | .observe layer seg o => c.observe layer seg o
  | .endToken => some c.endToken
  | .resetForOn => some c.resetForOn

/-- A session: `none` where a call panics. -/
def run (calls : List (Call n)) : Option (TpController n) := calls.foldlM TpController.call c

end TpController

end ArgusEngine.Layers
