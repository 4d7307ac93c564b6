import ArgusEngine.Lib.Checked
import ArgusEngine.Kv.AperturbSelect

/-!
# The ring of query rows

`QRowCapture` with its ring: the trailing query rows of every layer, the row of position `p` in slot
`p % rows`. The ring counts the positions that went past the model; the cache counts the slots it
has, which a compaction lowers.

* `capture`, `noteDecodeStep`, `snapshot`: the functions of the source, with `planCopy` for the
  copies of a plan;
* `Event`, `exec`: what happens between two reads;
* `Serves`: a snapshot has the newest rows, and there is one where they were captured;
* **`serves_of_timely`**: so it is in every run in which the newest position was captured at each
  compaction.
-/

namespace ArgusEngine

open Checked FlatMem SlotMem

/-! ## The ring -/

/-- `stamp`: the slots of `count` positions hold them. -/
def QRowCapture.stamp (r : QRowCapture) (firstPos count : ℕ) : QRowCapture :=
  { r with slotPos := (List.range' firstPos count).foldl (fun s p =>
             s.set (p % r.rows) (some p)) r.slotPos }

/-- `QRowCapture`: the ring holds `nLayers` times `rows` rows of `qDim` floats. -/
structure QRowRing (F : Type) extends QRowCapture where
  nLayers : ℕ
  qDim : ℕ
  ring : List F

/-- `QRowSnapshot`. -/
structure QRowSnapshot (F : Type) where
  nLayers : ℕ
  rows : ℕ
  qDim : ℕ
  firstPos : ℕ
  data : List F

namespace QRowRing

variable {F : Type}

/-- `QRowCapture::new`, on the memory that the allocator returns. -/
def new (nLayers rows qDim : ℕ)
    (alloc : (n : ℕ) → Except (Fault String) {b : List F // b.length = n}) :
    Except (Fault String) (QRowRing F) := do
  ensure (¬ (nLayers = 0 ∨ rows = 0 ∨ qDim = 0))
    s!"q-rows: degenerate geometry ({nLayers} layers, {rows} rows, q_dim {qDim})"
  let buf ← alloc (nLayers * rows * qDim)
  return ⟨⟨rows, List.replicate rows none, 0⟩, nLayers, qDim, buf⟩

/-- The loop of `capture`: the longest runs that do not wrap, from the row `done` of those to take.
Each run has a row at least, so `take` rounds of fuel are enough. -/
def copyRuns (rows qDim base firstInChunk firstPos take : ℕ) (qRope : List F) :
    (fuel done : ℕ) → List F → Except (Fault String) (List F)
  | 0, done, ring => if done < take then .error (.panic "copyRuns: no fuel") else .ok ring
  | fuel + 1, done, ring =>
    if done < take then do
      let slot ← rem (firstPos + done) rows
      let run := min (rows - slot) (take - done)
      let part ← index qRope ((firstInChunk + done) * qDim)
        ((firstInChunk + done) * qDim + run * qDim)
      let ring ← copyAt ring ((base + slot) * qDim) part
      copyRuns rows qDim base firstInChunk firstPos take qRope fuel (done + run) ring
    else .ok ring

/-- `capture`. -/
def capture (r : QRowRing F) (layer : ℕ) (qRope : List F) (startPos seqLen qDim : ℕ) :
    Except (Fault String) (QRowRing F) :=
  if r.nLayers ≤ layer then .ok r
  else do
    ensure (qDim = r.qDim) s!"q-rows: layer q_dim {qDim} but the ring was armed for {r.qDim}"
    ensure (qRope.length = seqLen * r.qDim)
      s!"q-rows: expected a single batch of {seqLen} x {r.qDim} rows, got {qRope.length} floats"
    let take := min r.rows seqLen
    let firstInChunk := seqLen - take
    let firstPos := startPos + firstInChunk
    let base := layer * r.rows
    let ring ← copyRuns r.rows r.qDim base firstInChunk firstPos take qRope take 0 r.ring
    if layer = 0 then return { r with ring := ring,
                                      toQRowCapture := r.toQRowCapture.stamp firstPos take }
    else return { r with ring := ring }

/-- `QRowPlanCopy`: the plan copies the row of a layer itself. -/
def planCopy (r : QRowRing F) (layer : ℕ) (row : List F) (pos : ℕ) :
    Except (Fault String) (QRowRing F) := do
  let slot ← rem pos r.rows
  return { r with ring := ← copyAt r.ring ((layer * r.rows + slot) * r.qDim) row }

/-- `note_decode_step`. -/
def noteDecodeStep (r : QRowRing F) (pos : ℕ) : QRowRing F :=
  { r with toQRowCapture := r.toQRowCapture.stamp pos 1 }

/-- `renumbered_to`. -/
def renumberedTo (r : QRowRing F) (resident : ℕ) : QRowRing F :=
  { r with toQRowCapture := r.toQRowCapture.renumberedTo resident }

/-- `snapshot`: the rows of the window, layer by layer and in order. -/
def snapshot (r : QRowRing F) (nResident : ℕ) : Except (Fault String) (QRowSnapshot F) :=
  match r.trailingWindow nResident with
  | none =>
    .error (.err
      (s!"q-rows: cannot serve the {min r.rows nResident} trailing row(s) for {nResident} " ++
        s!"resident token(s) (ring is {r.drift} position(s) ahead of the cache) — " ++
      "the capture was not armed when those tokens went past"))
  | some (firstPos, rEff) => do
    let data ← (List.range r.nLayers).mapM fun l => (List.range rEff).mapM fun j => do
      let s := (l * r.rows + (firstPos + j) % r.rows) * r.qDim
      index r.ring s (s + r.qDim)
    return ⟨r.nLayers, rEff, r.qDim, firstPos, (data.map List.flatten).flatten⟩

end QRowRing

/-! ## Runs -/

/-- What happens to the ring and the cache. -/
inductive QRowEvent where
  /-- A forward of `n` positions, the ring not armed. -/
  | skipped (n : ℕ)
  /-- A forward of `n` positions, captured for every layer. -/
  | captured (n : ℕ)
  /-- A decode step whose rows the plan has copied. -/
  | planned
  /-- A compaction that drops `k` positions of the cache, reported by `renumbered_to`. -/
  | compacted (k : ℕ)
  deriving Repr, DecidableEq

/-- The ring, the positions that went past, each with whether it was captured, and the cursor of the
cache. -/
structure QRowWorld (F : Type) where
  ring : QRowRing F
  seen : List Bool
  currentPos : ℕ

namespace QRowWorld

variable {F : Type} (q : ℕ → ℕ → List F)

/-- The query rows of a layer for `n` positions. -/
def chunk (layer startPos n : ℕ) : List F := (List.range' startPos n).flatMap (q layer)

/-- One event; `q` has the query row of every layer and position. -/
def exec (w : QRowWorld F) : QRowEvent → Except (Fault String) (QRowWorld F)
  | .skipped n =>
    .ok { w with seen := w.seen ++ List.replicate n false, currentPos := w.currentPos + n }
  | .captured n => do
    let ring ← (List.range w.ring.nLayers).foldlM (fun r layer =>
      r.capture layer (chunk q layer w.seen.length n) w.seen.length n w.ring.qDim) w.ring
    return ⟨ring, w.seen ++ List.replicate n true, w.currentPos + n⟩
  | .planned => do
    let ring ← (List.range w.ring.nLayers).foldlM (fun r layer =>
      r.planCopy layer (q layer w.seen.length) w.seen.length) w.ring
    return ⟨ring.noteDecodeStep w.seen.length, w.seen ++ [true], w.currentPos + 1⟩
  | .compacted k =>
    .ok { w with ring := w.ring.renumberedTo (w.currentPos - k), currentPos := w.currentPos - k }

def run (w : QRowWorld F) (es : List QRowEvent) : Except (Fault String) (QRowWorld F) :=
  es.foldlM (exec q) w

/-- The ring before anything went past. -/
def fresh (ring : QRowRing F) : QRowWorld F := ⟨ring, [], 0⟩

/-- The positions that a snapshot is to have. -/
def window (w : QRowWorld F) : List ℕ :=
  List.range' (w.seen.length - min w.ring.rows w.currentPos) (min w.ring.rows w.currentPos)

/-- A snapshot has the rows of the newest positions, and where these were captured there is one. -/
structure Serves (w : QRowWorld F) : Prop where
  right : ∀ snap, w.ring.snapshot w.currentPos = .ok snap →
    snap.rows = min w.ring.rows w.currentPos ∧
    snap.data = (List.range w.ring.nLayers).flatMap fun layer => w.window.flatMap (q layer)
  complete : w.window ≠ [] → (∀ p ∈ w.window, w.seen[p]? = some true) → ∃ snap,
    w.ring.snapshot w.currentPos = .ok snap

/-- At a compaction the newest position was captured, or there is nothing to account for: the cache
still has every position that went past. -/
def Timely (w : QRowWorld F) : QRowEvent → Prop
  | .compacted k => w.seen = [] ∨ w.seen.getLast? = some true ∨ w.currentPos - k = w.seen.length
  | _ => True

end QRowWorld

/-! ## Slots -/

theorem eq_of_mod_eq {a b m : ℕ} (hab : a ≤ b) (hlt : b < a + m) (h : a % m = b % m) : a = b := by
  have hdvd := Nat.sub_mod_eq_zero_of_mod_eq h.symm
  rw [Nat.mod_eq_of_lt (by omega)] at hdvd
  omega

theorem add_mod_of_lt {a i m : ℕ} (h : a % m + i < m) : (a + i) % m = a % m + i := by
  rw [Nat.add_mod, Nat.mod_eq_of_lt (show i < m by omega), Nat.mod_eq_of_lt h]

theorem eq_of_slot_eq {first count m p p' : ℕ} (hcount : count ≤ m)
    (hp : first ≤ p ∧ p < first + count) (hp' : first ≤ p' ∧ p' < first + count)
    (h : p % m = p' % m) : p = p' := by
  rcases Nat.le_total p p' with hle | hle
  · exact eq_of_mod_eq hle (by omega) h
  · exact (eq_of_mod_eq hle (by omega) h.symm).symm

namespace QRowCapture

variable {r : QRowCapture} {first count : ℕ}

@[simp] theorem stamp_rows : (r.stamp first count).rows = r.rows := rfl

@[simp] theorem stamp_drift : (r.stamp first count).drift = r.drift := rfl

theorem stamp_succ : (r.stamp first (count + 1)).slotPos =
    (r.stamp first count).slotPos.set ((first + count) % r.rows) (some (first + count)) := by
  rw [stamp, List.range'_concat, List.foldl_append]
  simp [stamp]

theorem length_stamp : (r.stamp first count).slotPos.length = r.slotPos.length := by
  induction count with
  | zero => rfl
  | succ n ih => rw [stamp_succ, List.length_set, ih]

theorem stamp_hit (hpos : 0 < r.rows) (hlen : r.slotPos.length = r.rows)
    (hcount : count ≤ r.rows) {p : ℕ} (hp : first ≤ p ∧ p < first + count) :
    (r.stamp first count).slotPos[p % r.rows]? = some (some p) := by
  induction count with
  | zero => omega
  | succ n ih =>
    rw [stamp_succ]
    by_cases hlast : p = first + n
    · rw [hlast, List.getElem?_set_self]
      rw [length_stamp, hlen]
      exact Nat.mod_lt _ hpos
    · rw [List.getElem?_set_ne fun h => hlast ?_]
      · exact ih (by omega) ⟨hp.1, by omega⟩
      · exact (eq_of_slot_eq hcount ⟨by omega, by omega⟩ hp h).symm

theorem stamp_keep {s : ℕ} (h : ∀ p, first ≤ p → p < first + count → p % r.rows ≠ s) :
    (r.stamp first count).slotPos[s]? = r.slotPos[s]? := by
  induction count with
  | zero => rfl
  | succ n ih =>
    rw [stamp_succ, List.getElem?_set_ne (h _ (by omega) (by omega))]
    exact ih fun p h₁ h₂ => h p h₁ (by omega)

end QRowCapture

/-! ## Copies -/

section Copies

variable {F : Type} {R w base fic take : ℕ} {src : List F}

theorem copyAt_rows {ring : List F} {a e n : ℕ} (hsrc : (a + n) * w ≤ src.length)
    (hring : (e + n) * w ≤ ring.length) :
    ∃ ring', copyAt (ε := String) ring (e * w) (slice src (a * w) (n * w)) = .ok ring' ∧
      ring'.length = ring.length ∧ rows w ring' = place (rows w src) a (rows w ring) e n := by
  have hsrc' : a * w + n * w ≤ src.length := by rwa [← Nat.add_mul]
  have hlen : (slice src (a * w) (n * w)).length = n * w := length_slice hsrc'
  refine ⟨_, copyAt_of_le (by rw [hlen, ← Nat.add_mul]; exact hring), length_blit .., ?_⟩
  have hblit : rows w (blit (slice src (a * w) (n * w)) (0 * w) ring (e * w) (n * w)) =
      place (rows w (slice src (a * w) (n * w))) 0 (rows w ring) e n :=
      rows_blit (by rw [Nat.zero_add, hlen]) hring
  rw [Nat.zero_mul] at hblit
  rw [hlen, hblit]
  funext p
  by_cases hp : e ≤ p ∧ p < e + n
  · have hin := row_bound (w := w) (show p - e < n by omega)
    rw [place_of_mem hp.1 hp.2, place_of_mem hp.1 hp.2, rows, rows,
      slice_slice _ _ (by rwa [Nat.zero_add]),
      Nat.zero_add, ← Nat.add_mul]
  · rw [place_of_notMem hp, place_of_notMem hp]

/-- **The loop of `capture`** puts row `d` of those to take into the slot of its position. -/
theorem copyRuns_ok (first : ℕ) (hR : 0 < R) (htake : take ≤ R)
    (hsrc : (fic + take) * w ≤ src.length) {fuel done : ℕ} (hdone : done ≤ take)
    (hfuel : take - done ≤ fuel) {ring : List F} (hring : (base + R) * w ≤ ring.length) :
    ∃ ring', QRowRing.copyRuns R w base fic first take src fuel done ring = .ok ring' ∧
      ring'.length = ring.length ∧
      (∀ d, done ≤ d → d < take → rows w ring' (base + (first + d) % R) = rows w src (fic + d)) ∧
      ∀ i, (∀ d, done ≤ d → d < take → i ≠ base + (first + d) % R) →
      rows w ring' i = rows w ring i := by
  induction fuel generalizing done ring with
  | zero =>
    refine ⟨ring, ?_, rfl, fun d h₁ h₂ => by omega, fun i _ => rfl⟩
    rw [QRowRing.copyRuns, if_neg (by omega)]
  | succ fuel ih =>
    by_cases hlt : done < take
    · have hslot := Nat.mod_lt (first + done) hR
      obtain ⟨run, hrun⟩ : ∃ run, run = min (R - (first + done) % R) (take - done) := ⟨_, rfl⟩
      have hone : 1 ≤ run := by omega
      have hslots : ∀ i < run, (first + (done + i)) % R = (first + done) % R + i := by
        intro i hi
        rw [← Nat.add_assoc]
        exact add_mod_of_lt (by omega)
      have hread : (fic + done + run) * w ≤ src.length :=
        Nat.le_trans (Nat.mul_le_mul_right w (by omega)) hsrc
      have hwrite : (base + (first + done) % R + run) * w ≤ ring.length :=
        Nat.le_trans (Nat.mul_le_mul_right w (by omega)) hring
      obtain ⟨ring₁, hcopy, hlen₁, hrows₁⟩ := copyAt_rows hread hwrite
      have hdone' : done + run ≤ take := by omega
      have hring' : (base + R) * w ≤ ring₁.length := by rwa [hlen₁]
      obtain ⟨ring', hrest, hlen, hhit, hkeep⟩ := ih hdone' (by omega) hring'
      have hindex : index (ε := String) src ((fic + done) * w) ((fic + done) * w + run * w) =
          .ok (slice src ((fic + done) * w) (run * w)) := by
        rw [Nat.add_mul (fic + done)] at hread
        rw [index_of_le ⟨by omega, hread⟩, Nat.add_sub_cancel_left]
      refine ⟨ring', ?_, hlen.trans hlen₁, fun d h₁ h₂ => ?_, fun i hi => ?_⟩
      · have hrem : rem (ε := String) (first + done) R = .ok ((first + done) % R) :=
          if_pos (by omega)
        rw [QRowRing.copyRuns, if_pos hlt, hrem, ok_seq, ← hrun]
        dsimp only
        rw [hindex, ok_seq, hcopy, ok_seq, hrest]
      · by_cases hd : d < done + run
        · obtain ⟨i, rfl⟩ := Nat.exists_eq_add_of_le h₁
          rw [hkeep, hrows₁, hslots i (by omega), place_of_mem (by omega) (by omega)]
          · congr 1
            omega
          · intro d' h₁' h₂' heq
            have hp : first ≤ first + (done + i) ∧ first + (done + i) < first + take := by omega
            have hp' : first ≤ first + d' ∧ first + d' < first + take := by omega
            have := eq_of_slot_eq htake hp hp' (Nat.add_left_cancel heq)
            omega
        · exact hhit d (by omega) h₂
      · rw [hkeep i fun d h₁ h₂ => hi d (by omega) h₂, hrows₁, place_of_notMem]
        rintro ⟨h₁, h₂⟩
        refine hi (done + (i - (base + (first + done) % R))) (by omega) (by omega) ?_
        rw [hslots _ (by omega)]
        omega
    · refine ⟨ring, ?_, rfl, fun d h₁ h₂ => by omega, fun i _ => rfl⟩
      rw [QRowRing.copyRuns, if_neg hlt]

end Copies

/-! ## Forwards -/

section Forwards

variable {F : Type} {q : ℕ → ℕ → List F} {r : QRowRing F} {first count k : ℕ}

/-- The ring `r'` is `r` with the rows of `count` positions in the first `k` layers. -/
structure Copied (q : ℕ → ℕ → List F) (r : QRowRing F) (first count k : ℕ)
    (r' : QRowRing F) : Prop where
  rows_eq : r'.rows = r.rows
  layers : r'.nLayers = r.nLayers
  width : r'.qDim = r.qDim
  size : r'.ring.length = r.ring.length
  hit : ∀ l < k, ∀ p, first ≤ p → p < first + count →
    rows r.qDim r'.ring (l * r.rows + p % r.rows) = q l p
  keep : ∀ i, (∀ l < k, ∀ p, first ≤ p → p < first + count → i ≠ l * r.rows + p % r.rows) →
    rows r.qDim r'.ring i = rows r.qDim r.ring i

theorem Copied.refl : Copied q r first count 0 r :=
  ⟨rfl, rfl, rfl, rfl, fun _ h => absurd h (Nat.not_lt_zero _), fun _ _ => rfl⟩

theorem Copied.succ {r' r'' : QRowRing F} (hR : 0 < r.rows) (h : Copied q r first count k r')
    (hrows : r''.rows = r'.rows) (hlayers : r''.nLayers = r'.nLayers) (hwidth : r''.qDim = r'.qDim)
    (hsize : r''.ring.length = r'.ring.length)
    (hhit : ∀ p, first ≤ p → p < first + count →
    rows r.qDim r''.ring (k * r.rows + p % r.rows) = q k p) (hkeep :
    ∀ i, (∀ p, first ≤ p → p < first + count → i ≠ k * r.rows + p % r.rows) →
      rows r.qDim r''.ring i = rows r.qDim r'.ring i) : Copied q r first count (k + 1) r'' where
  rows_eq := hrows.trans h.rows_eq
  layers := hlayers.trans h.layers
  width := hwidth.trans h.width
  size := hsize.trans h.size
  hit := by
    intro l hl p h₁ h₂
    by_cases hlk : l = k
    · rw [hlk]
      exact hhit p h₁ h₂
    · -- the rows of another layer lie apart
      rw [hkeep, h.hit l (by omega) p h₁ h₂]
      intro p' _ _ heq
      have hlt := Nat.mod_lt p hR
      have hlt' := Nat.mod_lt p' hR
      have hrow := row_bound (w := r.rows) (show l < k by omega)
      omega
  keep := by
    intro i hi
    rw [hkeep i fun p h₁ h₂ => hi k (Nat.lt_succ_self k) p h₁ h₂]
    exact h.keep i fun l hl p h₁ h₂ => hi l (Nat.lt_succ_of_lt hl) p h₁ h₂

theorem rows_chunk (hq : ∀ l p, (q l p).length = r.qDim) {layer start n i : ℕ} (hi : i < n) :
    rows r.qDim (QRowWorld.chunk q layer start n) i = q layer (start + i) := by
  rw [QRowWorld.chunk, List.range'_eq_map_range, List.flatMap_map, rows,
    slice_flatMap_range (g := fun i => q layer (start + i)) (fun h _ => hq layer _) hi]

theorem length_chunk (hq : ∀ l p, (q l p).length = r.qDim) (layer start n : ℕ) :
    (QRowWorld.chunk q layer start n).length = n * r.qDim := by
  rw [QRowWorld.chunk, List.range'_eq_map_range, List.flatMap_map]
  exact length_flatMap_range fun h _ => hq layer _

/-- A chunk captured for the first `k` layers. -/
theorem capture_layers (hR : 0 < r.rows) (hq : ∀ l p, (q l p).length = r.qDim)
    (hsize : r.ring.length = r.nLayers * r.rows * r.qDim) (start n : ℕ) (hk : k ≤ r.nLayers) :
    ∃ r', (List.range k).foldlM (fun r' layer =>
        r'.capture layer (QRowWorld.chunk q layer start n) start n r.qDim) r = .ok r' ∧
      Copied q r (start + (n - min r.rows n)) (min r.rows n) k r' ∧
      r'.toQRowCapture = if k = 0 then r.toQRowCapture
        else r.toQRowCapture.stamp (start + (n - min r.rows n)) (min r.rows n) := by
  induction k with
  | zero => exact ⟨r, rfl, .refl, rfl⟩
  | succ k ih =>
    obtain ⟨r', hr', hcopied, hstamp⟩ := ih (by omega)
    have hroom : (k * r.rows + r.rows) * r.qDim ≤ r'.ring.length := by
      rw [hcopied.size, hsize, ← Nat.succ_mul]
      exact Nat.mul_le_mul_right _ (Nat.mul_le_mul_right _ hk)
    have hsrc : (n - min r.rows n + min r.rows n) * r.qDim ≤
      (QRowWorld.chunk q k start n).length := by
      rw [length_chunk hq]
      exact Nat.mul_le_mul_right _ (by omega)
    obtain ⟨ring', hcopy, hlen, hhit, hkeep⟩ := copyRuns_ok (start + (n - min r.rows n)) hR
      (Nat.min_le_left _ _) hsrc (Nat.zero_le _) (Nat.le_refl _) hroom
    have hcap : ∃ r'', r'.capture k (QRowWorld.chunk q k start n) start n r.qDim = .ok r'' ∧
      r''.ring = ring' ∧
        r''.nLayers = r'.nLayers ∧ r''.qDim = r'.qDim ∧ r''.toQRowCapture = if k = 0
          then r'.toQRowCapture.stamp (start + (n - min r.rows n)) (min r.rows n)
            else r'.toQRowCapture := by
      rw [QRowRing.capture, if_neg (by rw [hcopied.layers]; omega), hcopied.width,
        ensure_of rfl, ok_seq, ensure_of (length_chunk hq k start n), ok_seq, hcopied.rows_eq]
      dsimp only
      rw [Nat.sub_zero] at hcopy
      rw [hcopy, ok_seq]
      split_ifs with hk0
      · exact ⟨_, rfl, rfl, rfl, rfl, rfl⟩
      · exact ⟨_, rfl, rfl, rfl, rfl, rfl⟩
    obtain ⟨r'', hcap, hring, hlayers, hwidth, hcapture⟩ := hcap
    refine ⟨r'', ?_, ?_, ?_⟩
    · rw [List.range_succ, List.foldlM_append, hr', ok_seq, List.foldlM_cons, hcap]
      rfl
    · refine hcopied.succ hR ?_ hlayers hwidth (by rw [hring, hlen])
        (fun p h₁ h₂ => ?_) (fun i hi => ?_)
      · rw [hcapture]
        split_ifs <;> rfl
      · obtain ⟨d, rfl⟩ := Nat.exists_eq_add_of_le h₁
        rw [hring, hhit d (Nat.zero_le _) (by omega), rows_chunk hq (by omega), Nat.add_assoc]
      · rw [hring]
        exact hkeep i fun d _ hd => hi _ (Nat.le_add_right _ d) (by omega)
    · rw [hcapture, hstamp, if_neg (Nat.succ_ne_zero k)]
      split_ifs <;> rfl

/-- A row copied by the plan for the first `k` layers. -/
theorem planCopy_layers (hR : 0 < r.rows) (hq : ∀ l p, (q l p).length = r.qDim)
    (hsize : r.ring.length = r.nLayers * r.rows * r.qDim) (pos : ℕ) (hk : k ≤ r.nLayers) :
    ∃ r', (List.range k).foldlM (fun r' layer => r'.planCopy layer (q layer pos) pos) r = .ok r' ∧
      Copied q r pos 1 k r' ∧ r'.toQRowCapture = r.toQRowCapture := by
  induction k with
  | zero => exact ⟨r, rfl, .refl, rfl⟩
  | succ k ih =>
    obtain ⟨r', hr', hcopied, hstamp⟩ := ih (by omega)
    have hslot := Nat.mod_lt pos hR
    have hroom : (k * r.rows + pos % r.rows + 1) * r.qDim ≤ r'.ring.length := by
      rw [hcopied.size, hsize]
      refine Nat.mul_le_mul_right _ ?_
      have := row_bound (w := r.rows) (show k < r.nLayers by omega)
      omega
    have hsrc : (0 + 1) * r.qDim ≤ (q k pos).length := by rw [hq, Nat.zero_add, Nat.one_mul]
    obtain ⟨ring', hcopy, hlen, hrows⟩ := copyAt_rows hsrc hroom
    have hall : slice (q k pos) (0 * r.qDim) (1 * r.qDim) = q k pos := by
      rw [Nat.zero_mul, Nat.one_mul, ← hq k pos, slice, List.drop_zero, List.take_length]
    rw [hall] at hcopy
    have hplan : r'.planCopy k (q k pos) pos = .ok { r' with ring := ring' } := by
      have hrem : rem (ε := String) pos r.rows = .ok (pos % r.rows) := if_pos (by omega)
      rw [QRowRing.planCopy, hcopied.rows_eq, hrem, ok_seq, hcopied.width, hcopy, ok_seq]
      rfl
    refine ⟨{ r' with ring := ring' }, ?_, ?_, hstamp⟩
    · rw [List.range_succ, List.foldlM_append, hr', ok_seq, List.foldlM_cons, hplan]
      rfl
    refine hcopied.succ hR rfl rfl rfl hlen (fun p h₁ h₂ => ?_) (fun i hi => ?_)
    · obtain rfl : p = pos := by omega
      change rows r.qDim ring' _ = _
      rw [hrows, place_of_mem (Nat.le_refl _) (Nat.lt_succ_self _), Nat.sub_self,
        rows, Nat.zero_mul]
      rw [← hq k p, slice, List.drop_zero, List.take_length]
    · change rows r.qDim ring' _ = _
      have hne := hi pos (Nat.le_refl _) (Nat.lt_succ_self _)
      rw [hrows, place_of_notMem (by omega)]

end Forwards

/-! ## What the ring holds -/

namespace QRowWorld

variable {F : Type} {q : ℕ → ℕ → List F} {w : QRowWorld F}

/-- Every stamp tells the truth, the newest positions that were captured have theirs, and the drift
is the gap between the two clocks. -/
structure Inv (q : ℕ → ℕ → List F) (w : QRowWorld F) : Prop where
  layers_pos : 0 < w.ring.nLayers
  rows_pos : 0 < w.ring.rows
  row : ∀ l p, (q l p).length = w.ring.qDim
  slots : w.ring.slotPos.length = w.ring.rows
  size : w.ring.ring.length = w.ring.nLayers * w.ring.rows * w.ring.qDim
  truth : ∀ s p, w.ring.slotPos[s]? = some (some p) → s = p % w.ring.rows ∧ w.seen[p]? = some true ∧
    ∀ l < w.ring.nLayers, rows w.ring.qDim w.ring.ring (l * w.ring.rows + p % w.ring.rows) = q l p
  newest : ∀ p, w.seen[p]? = some true → w.seen.length ≤ p + w.ring.rows →
    w.ring.slotPos[p % w.ring.rows]? = some (some p)
  drift : w.ring.drift = w.seen.length - w.currentPos
  cursor : w.currentPos ≤ w.seen.length

theorem inv_fresh {nLayers rows qDim : ℕ}
    {alloc : (n : ℕ) → Except (Fault String) {b : List F // b.length = n}} {r : QRowRing F}
    (h : QRowRing.new nLayers rows qDim alloc = .ok r) (hq : ∀ l p, (q l p).length = qDim) :
    Inv q (fresh r) := by
  obtain ⟨_, hgeo, h⟩ := ok_bind.mp h
  obtain ⟨buf, -, h⟩ := ok_bind.mp h
  obtain rfl := Except.ok.inj h
  have hpos := ok_ensure.mp hgeo
  refine ⟨Nat.pos_of_ne_zero fun h0 => hpos (Or.inl h0), Nat.pos_of_ne_zero fun h0 =>
    hpos (Or.inr (Or.inl h0)), hq, List.length_replicate, buf.2, ?_, ?_, rfl, Nat.le_refl _⟩
  · intro s p hs
    have hnone := List.eq_of_mem_replicate (List.mem_of_getElem? hs)
    cases hnone
  · intro p hp
    cases hp

theorem seen_append {l : List Bool} {p : ℕ} (h : w.seen[p]? = some true) :
    (w.seen ++ l)[p]? = some true := by
  rw [List.getElem?_append_left (List.getElem?_eq_some_iff.mp h).1, h]

/-- **Positions that are captured**: a ring with the rows and the stamps of the newest ones. -/
theorem Inv.captured (h : Inv q w) {n : ℕ} {r : QRowRing F}
    (hcopied : Copied q w.ring (w.seen.length + (n - min w.ring.rows n)) (min w.ring.rows n)
      w.ring.nLayers r)
    (hstamp : r.toQRowCapture =
      w.ring.toQRowCapture.stamp (w.seen.length + (n - min w.ring.rows n)) (min w.ring.rows n)) :
    Inv q ⟨r, w.seen ++ List.replicate n true, w.currentPos + n⟩ := by
  have hcount := Nat.min_le_left w.ring.rows n
  have hlen : (w.seen ++ List.replicate n true).length = w.seen.length + n := by simp
  have hslots : r.slotPos = (w.ring.toQRowCapture.stamp (w.seen.length + (n - min w.ring.rows n))
      (min w.ring.rows n)).slotPos := congrArg QRowCapture.slotPos hstamp
  have hseen : ∀ p, w.seen.length ≤ p → p < w.seen.length + n →
    (w.seen ++ List.replicate n true)[p]? = some true := by
    intro p h₁ h₂
    rw [List.getElem?_append_right h₁, List.getElem?_replicate, if_pos (by omega)]
  have hdrift : r.drift = w.ring.drift := by rw [hstamp, QRowCapture.stamp_drift]
  refine ⟨?_, ?_, ?_, ?_, ?_, ?_, ?_, ?_, ?_⟩ <;> dsimp only
  · rw [hcopied.layers]
    exact h.layers_pos
  · rw [hcopied.rows_eq]
    exact h.rows_pos
  · rw [hcopied.width]
    exact h.row
  · rw [hslots, QRowCapture.length_stamp, hcopied.rows_eq]
    exact h.slots
  · rw [hcopied.size, hcopied.layers, hcopied.rows_eq, hcopied.width]
    exact h.size
  · intro s p hs
    rw [hslots] at hs
    rw [hcopied.rows_eq, hcopied.layers, hcopied.width]
    by_cases hhit : ∃ p', (w.seen.length + (n - min w.ring.rows n) ≤ p' ∧
        p' < w.seen.length + (n - min w.ring.rows n) + min w.ring.rows n) ∧ p' % w.ring.rows = s
    · obtain ⟨p', hp', rfl⟩ := hhit
      rw [QRowCapture.stamp_hit h.rows_pos h.slots hcount hp'] at hs
      obtain rfl : p' = p := Option.some.inj (Option.some.inj hs)
      exact ⟨rfl, hseen _ (by omega) (by omega), fun l hl => hcopied.hit l hl _ hp'.1 hp'.2⟩
    · rw [QRowCapture.stamp_keep fun p' h₁ h₂ heq => hhit ⟨p', ⟨h₁, h₂⟩, heq⟩] at hs
      obtain ⟨rfl, hcap, hrow⟩ := h.truth s p hs
      refine ⟨rfl, seen_append hcap, fun l hl => ?_⟩
      rw [hcopied.keep, hrow l hl]
      -- the slot is none of the window
      intro l' _ p' h₁ h₂ heq
      refine hhit ⟨p', ⟨h₁, h₂⟩, ?_⟩
      have hmod := congrArg (· % w.ring.rows) heq
      simpa [Nat.mul_add_mod_self_right] using hmod.symm
  · intro p hp hle
    rw [hlen, hcopied.rows_eq] at hle
    rw [hslots, hcopied.rows_eq]
    have hlt := (List.getElem?_eq_some_iff.mp hp).1
    rw [hlen] at hlt
    by_cases hnew : w.seen.length ≤ p
    · exact QRowCapture.stamp_hit h.rows_pos h.slots hcount ⟨by omega, by omega⟩
    · rw [List.getElem?_append_left (by omega)] at hp
      rw [QRowCapture.stamp_keep]
      · exact h.newest p hp (by omega)
      · intro p' h₁ h₂ heq
        have := eq_of_mod_eq (show p ≤ p' by omega) (show p' < p + w.ring.rows by omega) heq.symm
        omega
  · rw [hdrift, h.drift, hlen, Nat.add_sub_add_right]
  · have := h.cursor
    rw [hlen]
    omega

/-- **Positions that are not captured.** -/
theorem Inv.skipped (h : Inv q w) (n : ℕ) :
    Inv q { w with seen := w.seen ++ List.replicate n false, currentPos := w.currentPos + n } := by
  have hlen : (w.seen ++ List.replicate n false).length = w.seen.length + n := by simp
  refine ⟨h.layers_pos, h.rows_pos, h.row, h.slots, h.size, ?_, ?_, ?_, ?_⟩ <;> dsimp only
  · intro s p hs
    obtain ⟨hslot, hcap, hrow⟩ := h.truth s p hs
    exact ⟨hslot, seen_append hcap, hrow⟩
  · intro p hp hle
    rw [hlen] at hle
    by_cases hold : p < w.seen.length
    · rw [List.getElem?_append_left hold] at hp
      exact h.newest p hp (by omega)
    · rw [List.getElem?_append_right (by omega)] at hp
      have hfalse := List.eq_of_mem_replicate (List.mem_of_getElem? hp)
      cases hfalse
  · rw [h.drift, hlen, Nat.add_sub_add_right]
  · have := h.cursor
    rw [hlen]
    omega

theorem Inv.stamp_lt (h : Inv q w) {p : ℕ} (hp : p ∈ w.ring.slotPos.filterMap id) :
    p < w.seen.length := by
  obtain ⟨o, ho, rfl⟩ := List.mem_filterMap.mp hp
  obtain ⟨s, hs⟩ := List.getElem?_of_mem ho
  exact (List.getElem?_eq_some_iff.mp (h.truth s p hs).2.1).1

/-- The gap that `renumbered_to` records at a timely compaction. -/
theorem Inv.drift_renumberedTo (h : Inv q w) {k : ℕ} (htimely : Timely w (.compacted k)) :
    (w.ring.renumberedTo (w.currentPos - k)).drift = w.seen.length - (w.currentPos - k) := by
  have hcursor := h.cursor
  rw [QRowRing.renumberedTo, QRowCapture.renumberedTo]
  cases hmax : (w.ring.slotPos.filterMap id).max? with
  | none =>
    dsimp only
    rcases htimely with hnil | hlast | hall
    · rw [hnil] at hcursor ⊢
      simp
    · -- the newest position has a stamp
      have hne : w.seen ≠ [] := fun h0 => by simp [h0] at hlast
      have hpos := List.length_pos_iff.mpr hne
      rw [List.getLast?_eq_getElem?] at hlast
      have hslot := h.newest _ hlast (by have := h.rows_pos; omega)
      have hmem : w.seen.length - 1 ∈ w.ring.slotPos.filterMap id :=
        List.mem_filterMap.mpr ⟨_, List.mem_of_getElem? hslot, rfl⟩
      rw [List.max?_eq_none_iff] at hmax
      rw [hmax] at hmem
      cases hmem
    · omega
  | some m =>
    have hmem := List.max?_mem hmax
    have hlt := h.stamp_lt hmem
    dsimp only
    rcases htimely with hnil | hlast | hall
    · rw [hnil] at hlt
      cases hlt
    · rw [List.getLast?_eq_getElem?] at hlast
      have hslot := h.newest _ hlast (by have := h.rows_pos; omega)
      have hin : w.seen.length - 1 ∈ w.ring.slotPos.filterMap id :=
        List.mem_filterMap.mpr ⟨_, List.mem_of_getElem? hslot, rfl⟩
      have hge := (List.max?_eq_some_iff.mp hmax).2 _ hin
      have hclock : m + 1 = w.seen.length := by omega
      rw [hclock]
    · have hclock : m + 1 ≤ w.currentPos - k := by omega
      rw [Nat.sub_eq_zero_of_le hclock, hall, Nat.sub_self]

/-- **A timely compaction.** -/
theorem Inv.compacted (h : Inv q w) {k : ℕ} (htimely : Timely w (.compacted k)) :
    Inv q { w with ring := w.ring.renumberedTo (w.currentPos - k),
                   currentPos := w.currentPos - k } :=
  ⟨h.layers_pos, h.rows_pos, h.row, h.slots, h.size, h.truth, h.newest,
    h.drift_renumberedTo htimely, (Nat.sub_le _ _).trans h.cursor⟩

/-- **An event** keeps what the ring holds. -/
theorem Inv.exec (h : Inv q w) {e : QRowEvent} (htimely : Timely w e) :
    ∃ w', exec q w e = .ok w' ∧ Inv q w' := by
  cases e with
  | skipped n => exact ⟨_, rfl, h.skipped n⟩
  | captured n =>
    obtain ⟨r, hr, hcopied, hstamp⟩ :=
      capture_layers h.rows_pos h.row h.size w.seen.length n (Nat.le_refl _)
    refine ⟨⟨r, w.seen ++ List.replicate n true, w.currentPos + n⟩, ?_, h.captured hcopied ?_⟩
    · rw [QRowWorld.exec, hr]
      rfl
    · rw [hstamp, if_neg (Nat.ne_of_gt h.layers_pos)]
  | planned =>
    obtain ⟨r, hr, hcopied, hstamp⟩ :=
      planCopy_layers h.rows_pos h.row h.size w.seen.length (Nat.le_refl _)
    have hmin : min w.ring.rows 1 = 1 := Nat.min_eq_right h.rows_pos
    refine ⟨⟨r.noteDecodeStep w.seen.length, w.seen ++ [true], w.currentPos + 1⟩, ?_,
      h.captured (n := 1) ?_ ?_⟩
    · rw [QRowWorld.exec, hr]
      rfl
    · rw [hmin]
      exact ⟨hcopied.rows_eq, hcopied.layers, hcopied.width, hcopied.size,
        hcopied.hit, hcopied.keep⟩
    · rw [hmin, ← hstamp]
      rfl
  | compacted k => exact ⟨_, rfl, h.compacted htimely⟩

/-! ## Snapshots -/

/-- The window that is read, where all of its stamps are right. -/
theorem Inv.trailingWindow_eq (h : Inv q w) (hcur : 0 < w.currentPos) :
    w.ring.trailingWindow w.currentPos =
      if ∀ p ∈ w.window, w.ring.slotPos[p % w.ring.rows]? = some (some p)
        then some (w.seen.length - min w.ring.rows w.currentPos, min w.ring.rows w.currentPos)
          else none := by
  have hR := h.rows_pos
  have hcursor := h.cursor
  have hfirst : w.currentPos + w.ring.drift - min w.ring.rows w.currentPos =
      w.seen.length - min w.ring.rows w.currentPos := by
    rw [h.drift]
    omega
  have hcheck : ((List.range' (w.seen.length - min w.ring.rows w.currentPos)
    (min w.ring.rows w.currentPos)).any
      fun p => w.ring.slotPos.getD (p % w.ring.rows) none != some p) =
      decide ¬ ∀ p ∈ w.window, w.ring.slotPos[p % w.ring.rows]? = some (some p) := by
    rw [Bool.eq_iff_iff, List.any_eq_true, decide_eq_true_iff]
    push Not
    refine exists_congr fun p => and_congr_right fun _ => ?_
    have hin : p % w.ring.rows < w.ring.slotPos.length := by
      rw [h.slots]
      exact Nat.mod_lt _ hR
    rw [List.getD_eq_getElem _ _ hin, List.getElem?_eq_getElem hin]
    simp
  unfold QRowCapture.trailingWindow
  dsimp only
  rw [if_neg (by omega), hfirst, hcheck]
  split_ifs <;> simp_all

/-- **What is read** when the window has all of its stamps. -/
theorem Inv.snapshot_eq (h : Inv q w)
    (hstamps : ∀ p ∈ w.window, w.ring.slotPos[p % w.ring.rows]? = some (some p))
    (hcur : 0 < w.currentPos) : w.ring.snapshot w.currentPos =
      .ok ⟨w.ring.nLayers, min w.ring.rows w.currentPos, w.ring.qDim,
        w.seen.length - min w.ring.rows w.currentPos,
        (List.range w.ring.nLayers).flatMap fun layer => w.window.flatMap (q layer)⟩ := by
  have hR := h.rows_pos
  have hread : ∀ l < w.ring.nLayers, ∀ j < min w.ring.rows w.currentPos,
      index (ε := String) w.ring.ring
        ((l * w.ring.rows + (w.seen.length - min w.ring.rows w.currentPos + j) % w.ring.rows) *
          w.ring.qDim)
        ((l * w.ring.rows + (w.seen.length - min w.ring.rows w.currentPos + j) % w.ring.rows) *
          w.ring.qDim + w.ring.qDim) =
          .ok (q l (w.seen.length - min w.ring.rows w.currentPos + j)) := by
    intro l hl j hj
    have hmem : w.seen.length - min w.ring.rows w.currentPos + j ∈ w.window := by
      rw [window, List.mem_range'_1]
      omega
    have hslot := Nat.mod_lt (w.seen.length - min w.ring.rows w.currentPos + j) hR
    have hrow := row_bound (w := w.ring.rows) hl
    have hroom := row_bound (w := w.ring.qDim) (show l * w.ring.rows +
      (w.seen.length - min w.ring.rows w.currentPos + j) % w.ring.rows < w.ring.nLayers *
        w.ring.rows by omega)
    rw [index_of_le ⟨Nat.le_add_right _ _, by rw [h.size]; exact hroom⟩, Nat.add_sub_cancel_left]
    exact congrArg Except.ok ((h.truth _ _ (hstamps _ hmem)).2.2 l hl)
  have hlayer : ∀ l ∈ List.range w.ring.nLayers,
      ((List.range (min w.ring.rows w.currentPos)).mapM fun j => do
        let s := (l * w.ring.rows + (w.seen.length - min w.ring.rows w.currentPos + j) %
          w.ring.rows) * w.ring.qDim
        index (ε := String) w.ring.ring s (s + w.ring.qDim)) = .ok (w.window.map (q l)) := by
    intro l hl
    rw [ok_mapM, window, List.range'_eq_map_range, List.map_map, List.forall₂_map_right_iff,
      List.forall₂_same]
    intro j hj
    exact hread l (List.mem_range.mp hl) j (List.mem_range.mp hj)
  have hdata : ((List.range w.ring.nLayers).mapM fun l =>
      (List.range (min w.ring.rows w.currentPos)).mapM fun j => do
        let s := (l * w.ring.rows + (w.seen.length - min w.ring.rows w.currentPos + j) %
          w.ring.rows) * w.ring.qDim
        index (ε := String) w.ring.ring s (s + w.ring.qDim)) =
      .ok ((List.range w.ring.nLayers).map fun l => w.window.map (q l)) := by
    rw [ok_mapM, List.forall₂_map_right_iff, List.forall₂_same]
    exact hlayer
  rw [QRowRing.snapshot, h.trailingWindow_eq hcur, if_pos hstamps]
  dsimp only
  rw [hdata, ok_seq, List.map_map]
  rfl

theorem Inv.serves (h : Inv q w) : Serves q w := by
  have hcursor := h.cursor
  have hwindow : ∀ p ∈ w.window, p < w.seen.length ∧ w.seen.length ≤ p + w.ring.rows := by
    intro p hp
    rw [window, List.mem_range'_1] at hp
    omega
  refine ⟨fun snap hsnap => ?_, fun hne hcap => ?_⟩
  · by_cases hcur : 0 < w.currentPos
    · by_cases hstamps : ∀ p ∈ w.window, w.ring.slotPos[p % w.ring.rows]? = some (some p)
      · rw [h.snapshot_eq hstamps hcur] at hsnap
        obtain rfl := Except.ok.inj hsnap
        exact ⟨rfl, rfl⟩
      · rw [QRowRing.snapshot, h.trailingWindow_eq hcur, if_neg hstamps] at hsnap
        cases hsnap
    · have hnone : w.ring.trailingWindow w.currentPos = none := by
        rw [QRowCapture.trailingWindow, Nat.eq_zero_of_not_pos hcur, Nat.min_zero]
        rfl
      rw [QRowRing.snapshot, hnone] at hsnap
      cases hsnap
  · have hcur : 0 < w.currentPos := Nat.pos_of_ne_zero fun h0 =>
      hne (by rw [window, h0, Nat.min_zero]; rfl)
    exact ⟨_, h.snapshot_eq (fun p hp => h.newest p (hcap p hp) (hwindow p hp).2) hcur⟩

/-- **The ring serves the newest rows** in every state of a run in which the newest position was
captured at each compaction. -/
theorem serves_of_timely {nLayers rows qDim : ℕ}
    {alloc : (n : ℕ) → Except (Fault String) {b : List F // b.length = n}} {r : QRowRing F}
    (hnew : QRowRing.new nLayers rows qDim alloc = .ok r) (hq : ∀ l p, (q l p).length = qDim)
    (es : List QRowEvent) (htimely : ∀ pre e post, es = pre ++ e :: post → ∀ w,
    run q (fresh r) pre = .ok w → Timely w e) : ∃ w, run q (fresh r) es = .ok w ∧ Serves q w := by
  have hinv : ∃ w, run q (fresh r) es = .ok w ∧ Inv q w := by
    induction es using List.reverseRecOn with
    | nil => exact ⟨_, rfl, inv_fresh hnew hq⟩
    | append_singleton es e ih =>
      obtain ⟨w, hw, hinv⟩ := ih fun pre e' post hes =>
        htimely pre e' (post ++ [e]) (by rw [hes]; simp)
      obtain ⟨w', hw', hinv'⟩ := hinv.exec (htimely es e [] rfl w hw)
      refine ⟨w', ?_, hinv'⟩
      rw [run, List.foldlM_append]
      refine (bind_of_ok hw).trans ?_
      rw [List.foldlM_cons, hw']
      rfl
  obtain ⟨w, hw, hinv⟩ := hinv
  exact ⟨w, hw, hinv.serves⟩

/-- One layer, whose query row of a position is the position. -/
def positions : ℕ → ℕ → List ℕ := fun _ p => [p]

def oneRow : QRowRing ℕ := ⟨⟨1, [none], 0⟩, 1, 1, [0]⟩

theorem oneRow_new :
    QRowRing.new 1 1 1 (fun n => .ok ⟨List.replicate n 0, List.length_replicate⟩) =
      .ok oneRow := rfl

theorem serves_captured_compacted :
    ∃ w, run positions (fresh oneRow) [.captured 4, .compacted 1] = .ok w ∧ Serves positions w :=
  serves_of_timely oneRow_new (fun _ _ => rfl) _ fun pre e post hes w hw => by
    rcases pre with _ | ⟨a, _ | ⟨b, pre⟩⟩
    · obtain ⟨rfl, -⟩ := List.cons.inj hes
      trivial
    · obtain ⟨rfl, hrest⟩ := List.cons.inj hes
      obtain ⟨rfl, -⟩ := List.cons.inj hrest
      obtain rfl := Except.ok.inj hw
      exact Or.inr (Or.inl rfl)
    · simp at hes

/-- Four positions captured, two not, and then three of the six dropped from the cache. -/
def stopped : QRowWorld ℕ :=
  ⟨⟨⟨1, [some 3], 1⟩, 1, 1, [3]⟩, [true, true, true, true, false, false], 3⟩

/-- The snapshot has the row of position 3; the newest one is 5. -/
theorem not_serves_stopped :
    run positions (fresh oneRow) [.captured 4, .skipped 2, .compacted 3] = .ok stopped ∧
    ¬ Serves positions stopped := by
  refine ⟨rfl, fun h => ?_⟩
  have hdata := (h.right ⟨1, 1, 1, 3, [3]⟩ rfl).2
  exact absurd hdata (by decide)

end QRowWorld

end ArgusEngine
