import Mathlib.Data.List.ProdSigma
import Mathlib.Tactic.Common

/-!
# Slot memories and runs of moves

A slot memory is a function `ℕ → β`. `place` writes a block of slots of one memory into another;
`move` does so inside one memory, with the semantics of a block move that reads before it writes.

* `place_congr`, `place_comm`: block writes that agree, and that lie apart;
* `foldl_place_of_mem`, `foldl_place_of_notMem`: a loop of block writes with disjoint targets;
* `foldl_move_blocks`: the same move made inside every block of a memory cut into equal blocks;
* `coalesce`: an ascending list of positions as runs of consecutive ones, and `elems_coalesce`;
* **`flush_apply`**: flushing the runs that move up last-to-first and then the others
  first-to-last reads every source slot before it is overwritten.
-/

namespace SlotMem

variable {β ι : Type*}

/-- `dst` with the `n` slots from `d` on replaced by the slots of `src` from `s` on. -/
def place (src : ℕ → β) (s : ℕ) (dst : ℕ → β) (d n : ℕ) : ℕ → β :=
  fun p => if d ≤ p ∧ p < d + n then src (s + (p - d)) else dst p

theorem place_of_mem {src dst : ℕ → β} {s d n p : ℕ} (h₁ : d ≤ p) (h₂ : p < d + n) :
    place src s dst d n p = src (s + (p - d)) := if_pos ⟨h₁, h₂⟩

theorem place_of_notMem {src dst : ℕ → β} {s d n p : ℕ} (h : ¬ (d ≤ p ∧ p < d + n)) :
    place src s dst d n p = dst p := if_neg h

theorem place_congr {src src' dst : ℕ → β} {d n : ℕ} (h : ∀ x < n, src x = src' x) :
    place src 0 dst d n = place src' 0 dst d n := by
  funext p
  by_cases hp : d ≤ p ∧ p < d + n
  · rw [place_of_mem hp.1 hp.2, place_of_mem hp.1 hp.2, h _ (by omega)]
  · rw [place_of_notMem hp, place_of_notMem hp]

theorem place_comm {src src' dst : ℕ → β} {s s' d d' n n' : ℕ} (h : d + n ≤ d' ∨ d' + n' ≤ d) :
    place src s (place src' s' dst d' n') d n = place src' s' (place src s dst d n) d' n' := by
  funext p
  unfold place
  split_ifs <;> first | rfl | omega

/-- Two slots of blocks of `n` agree only when block and offset do. -/
theorem block_inj {n a b i j : ℕ} (hi : i < n) (hj : j < n) (h : a * n + i = b * n + j) :
    a = b ∧ i = j := by
  have hab : a = b := by
    rcases Nat.lt_trichotomy a b with hlt | heq | hgt
    · have := Nat.mul_le_mul_right n hlt
      rw [Nat.succ_mul] at this
      omega
    · exact heq
    · have := Nat.mul_le_mul_right n hgt
      rw [Nat.succ_mul] at this
      omega
  subst hab
  exact ⟨rfl, by omega⟩

theorem place_interleaved (src : ℕ → β) (s : ℕ) (dst : ℕ → β) (d n : ℕ) {k h : ℕ}
    (hh : h < k) (p : ℕ) : place src (s * k) dst (d * k) (n * k) (p * k + h) =
      place (fun q => src (q * k + h)) s (fun q => dst (q * k + h)) d n p := by
  by_cases hp : d ≤ p ∧ p < d + n
  · have h₁ : d * k ≤ p * k := Nat.mul_le_mul_right _ hp.1
    have h₂ := Nat.mul_le_mul_right k (show p + 1 ≤ d + n from hp.2)
    rw [Nat.succ_mul, Nat.add_mul] at h₂
    rw [place_of_mem hp.1 hp.2, place_of_mem (by omega) (by omega), Nat.add_mul, Nat.sub_mul]
    congr 1
    omega
  · rw [place_of_notMem hp, place_of_notMem]
    rintro ⟨h₁, h₂⟩
    refine hp ⟨?_, ?_⟩
    · by_contra hlt
      have := Nat.mul_le_mul_right k (show p + 1 ≤ d by omega)
      rw [Nat.succ_mul] at this
      omega
    · by_contra hge
      have := Nat.mul_le_mul_right k (show d + n ≤ p by omega)
      rw [Nat.add_mul] at this
      omega

/-! ## Loops of block writes -/

section Loops

variable (src : ι → ℕ → β) (s d n : ι → ℕ)

theorem foldl_place_of_notMem {l : List ι} {p : ℕ}
    (h : ∀ x ∈ l, ¬ (d x ≤ p ∧ p < d x + n x)) (f : ℕ → β) :
    l.foldl (fun g x => place (src x) (s x) g (d x) (n x)) f p = f p := by
  induction l generalizing f with
  | nil => rfl
  | cons x l ih =>
    rw [List.foldl_cons, ih fun y hy => h y (List.mem_cons_of_mem _ hy)]
    exact place_of_notMem (h x List.mem_cons_self)

/-- **A slot is written by the only block that covers it.** -/
theorem foldl_place_of_mem {l : List ι} {p : ℕ} {x : ι} (hx : x ∈ l) (h₁ : d x ≤ p)
    (h₂ : p < d x + n x) (h : ∀ y ∈ l, y ≠ x → ¬ (d y ≤ p ∧ p < d y + n y)) (f : ℕ → β) :
    l.foldl (fun g x => place (src x) (s x) g (d x) (n x)) f p = src x (s x + (p - d x)) := by
  induction l generalizing f with
  | nil => simp at hx
  | cons y l ih =>
    rw [List.foldl_cons]
    by_cases hl : x ∈ l
    · exact ih hl (fun z hz => h z (List.mem_cons_of_mem _ hz)) _
    · obtain rfl : x = y := (List.mem_cons.mp hx).resolve_right hl
      rw [foldl_place_of_notMem]
      · exact place_of_mem h₁ h₂
      · intro z hz
        exact h z (List.mem_cons_of_mem _ hz) (fun e => hl (e ▸ hz))

/-- **Scatter**: single slots, at offset `b + i` of every block of `stride` slots. -/
theorem foldl_place_scatter (src : ℕ × ℕ → ℕ → β) (s : ℕ × ℕ → ℕ) {stride b n k : ℕ} (f : ℕ → β)
    (hb : b + n ≤ stride) {h p : ℕ} (hp : p < stride) (hh : h < k) :
    (List.range n ×ˢ List.range k).foldl
        (fun g x => place (src x) (s x) g (x.2 * stride + (b + x.1)) 1) f (h * stride + p) =
      if b ≤ p ∧ p < b + n then src (p - b, h) (s (p - b, h)) else f (h * stride + p) := by
  -- the block write of `x` covers the slot of `x` only
  have hslot : ∀ x ∈ List.range n ×ˢ List.range k, x.2 * stride + (b + x.1) ≤ h * stride + p ∧
      h * stride + p < x.2 * stride + (b + x.1) + 1 → x.2 = h ∧ b + x.1 = p := by
    rintro ⟨i, j⟩ hx ⟨h₁, h₂⟩
    have hi := List.mem_range.mp (List.mem_product.mp hx).1
    exact block_inj (n := stride) (by simp only; omega) hp (by simp only at h₁ h₂ ⊢; omega)
  split_ifs with hin
  · rw [foldl_place_of_mem src s (fun x => x.2 * stride + (b + x.1)) (fun _ => 1)
      (x := (p - b, h)) _ (by simp only; omega) (by simp only; omega)]
    · congr 1
      simp only
      omega
    · rintro ⟨i, j⟩ hx hne hit
      obtain ⟨h₁, h₂⟩ := hslot _ hx hit
      refine hne ?_
      simp only at h₁ h₂
      rw [h₁, show i = p - b by omega]
    · exact List.mem_product.mpr ⟨List.mem_range.mpr (by omega), List.mem_range.mpr hh⟩
  · refine foldl_place_of_notMem src s (fun x => x.2 * stride + (b + x.1)) (fun _ => 1) ?_ f
    rintro ⟨i, j⟩ hx hit
    obtain ⟨-, h₂⟩ := hslot _ hx hit
    have hi := List.mem_range.mp (List.mem_product.mp hx).1
    simp only at h₂ hi
    omega

/-- **The same block write in every block** of `stride` slots. -/
theorem foldl_place_blocks (src : ℕ → ℕ → β) {stride n k : ℕ} (f : ℕ → β)
    (hn : n ≤ stride) {h p : ℕ} (hp : p < stride) (hh : h < k) :
    (List.range k).foldl (fun g x => place (src x) 0 g (x * stride) n) f (h * stride + p) =
      if p < n then src h p else f (h * stride + p) := by
  have hslot : ∀ x, x * stride ≤ h * stride + p ∧ h * stride + p < x * stride + n →
    h = x ∧ p < n := by
    rintro x ⟨h₁, h₂⟩
    obtain ⟨h₃, h₄⟩ := block_inj (a := h) (b := x) (j := h * stride + p - x * stride)
      hp (by omega) (by omega)
    exact ⟨h₃, by omega⟩
  split_ifs with hin
  · rw [foldl_place_of_mem src (fun _ => 0) (fun x => x * stride) (fun _ => n)
      (List.mem_range.mpr hh) (by omega) (by omega)]
    · simp only [Nat.zero_add, Nat.add_sub_cancel_left]
    · exact fun y _ hne hit => hne (hslot y hit).1.symm
  · exact foldl_place_of_notMem src (fun _ => 0) (fun x => x * stride) (fun _ => n)
      (fun y _ hit => hin (hslot y hit).2) f

end Loops

/-! ## Moves inside one memory -/

/-- A run of `count` consecutive slots, taken from `src` on to `dst` on. -/
structure Run where
  src : ℕ
  dst : ℕ
  count : ℕ
  deriving Repr, DecidableEq

/-- Move one run inside a memory. -/
def move (f : ℕ → β) (r : Run) : ℕ → β := place f r.src f r.dst r.count

/-- Slot `p` is a target of the run. -/
def Run.Hits (r : Run) (p : ℕ) : Prop := r.dst ≤ p ∧ p < r.dst + r.count

theorem move_of_hits {f : ℕ → β} {r : Run} {p : ℕ} (h : r.Hits p) :
    move f r p = f (r.src + (p - r.dst)) := if_pos h

theorem move_of_not_hits {f : ℕ → β} {r : Run} {p : ℕ} (h : ¬ r.Hits p) : move f r p = f p :=
  if_neg h

theorem move_of_count_eq_zero (f : ℕ → β) (r : Run) (h : r.count = 0) : move f r = f := by
  funext p
  exact move_of_not_hits fun hit => by have := hit.1; have := hit.2; omega

theorem move_self (f : ℕ → β) (r : Run) (h : r.src = r.dst) : move f r = f := by
  funext p
  by_cases hp : r.Hits p
  · rw [move_of_hits hp, h, Nat.add_sub_cancel' hp.1]
  · exact move_of_not_hits hp

theorem foldl_move_of_not_hits {rs : List Run} {p : ℕ} (h : ∀ r ∈ rs, ¬ r.Hits p) (f : ℕ → β) :
    rs.foldl move f p = f p := by
  induction rs generalizing f with
  | nil => rfl
  | cons r rs ih =>
    rw [List.foldl_cons, ih fun q hq => h q (List.mem_cons_of_mem _ hq)]
    exact move_of_not_hits (h r List.mem_cons_self)

theorem foldl_move_map_of_not_hits {l : List ι} {r : ι → Run} {p : ℕ} (h : ∀ k ∈ l, ¬ (r k).Hits p)
    (f : ℕ → β) : l.foldl (fun g k => move g (r k)) f p = f p := by
  rw [← List.foldl_map (f := r) (g := move)]
  exact foldl_move_of_not_hits (by simpa using h) f

/-- **The same move inside every block of `stride` slots.** -/
theorem foldl_move_blocks (f : ℕ → β) {stride a b len : ℕ} (ha : a + len ≤ stride)
    (hb : b + len ≤ stride) (n : ℕ) {h p : ℕ} (hp : p < stride) :
    (List.range n).foldl (fun g k => move g ⟨k * stride + a, k * stride + b, len⟩) f
        (h * stride + p) =
      if h < n then move (fun q => f (h * stride + q)) ⟨a, b, len⟩ p else f (h * stride + p) := by
  induction n with
  | zero => simp
  | succ n ih =>
    rw [List.range_succ, List.foldl_append, List.foldl_cons, List.foldl_nil]
    set g := (List.range n).foldl (fun g k => move g ⟨k * stride + a, k * stride + b, len⟩) f
    rcases Nat.lt_trichotomy h n with hn | rfl | hn
    · -- an earlier block: the new move lies above it
      have hle : h * stride + stride ≤ n * stride := by
        rw [← Nat.succ_mul]; exact Nat.mul_le_mul_right _ hn
      rw [move_of_not_hits (by simp only [Run.Hits]; omega), ih, if_pos hn, if_pos (by omega)]
    · -- this block, still untouched by the earlier moves
      have hg : ∀ q, q < stride → g (h * stride + q) = f (h * stride + q) := by
        intro q hq
        refine foldl_move_map_of_not_hits (fun k hk => ?_) f
        have hle : k * stride + stride ≤ h * stride := by
          rw [← Nat.succ_mul]; exact Nat.mul_le_mul_right _ (List.mem_range.mp hk)
        simp only [Run.Hits]; omega
      rw [if_pos (Nat.lt_succ_self h)]
      by_cases hit : b ≤ p ∧ p < b + len
      · have hrun : (⟨a, b, len⟩ : Run).Hits p := hit
        rw [move_of_hits (by simp only [Run.Hits]; omega), move_of_hits hrun]
        simp only
        rw [show h * stride + a + (h * stride + p - (h * stride + b)) =
          h * stride + (a + (p - b)) by omega]
        exact hg _ (by omega)
      · have hrun : ¬ (⟨a, b, len⟩ : Run).Hits p := hit
        rw [move_of_not_hits hrun, move_of_not_hits (by simp only [Run.Hits]; omega)]
        exact hg p hp
    · -- a later block is not reached
      have hle : n * stride + stride ≤ h * stride := by
        rw [← Nat.succ_mul]; exact Nat.mul_le_mul_right _ hn
      rw [move_of_not_hits (by simp only [Run.Hits]; omega), ih, if_neg (by omega),
        if_neg (by omega)]

/-! ## Runs of an ascending list -/

/-- The `(source, target)` pairs of a run, in order. -/
def Run.elems (r : Run) : List (ℕ × ℕ) := (List.range r.count).map fun j => (r.src + j, r.dst + j)

theorem Run.mem_elems {r : Run} {e : ℕ × ℕ} :
    e ∈ r.elems ↔ ∃ j < r.count, e = (r.src + j, r.dst + j) := by
  simp only [Run.elems, List.mem_map, List.mem_range, eq_comm]

/-- Cut the ascending list that continues `r` into runs of consecutive positions; the next
position goes to slot `ws + i`. -/
def coalesceFrom (ws : ℕ) : ℕ → Run → List ℕ → List Run
  | _, r, [] => [r]
  | i, r, p :: ps =>
    if p = r.src + r.count then coalesceFrom ws (i + 1) { r with count := r.count + 1 } ps
    else r :: coalesceFrom ws (i + 1) ⟨p, ws + i, 1⟩ ps

/-- The runs that gather the positions `keep` onto the slots from `ws` on. -/
def coalesce (ws : ℕ) : List ℕ → List Run
  | [] => []
  | p :: ps => coalesceFrom ws 1 ⟨p, ws, 1⟩ ps

theorem Run.elems_succ (r : Run) : ({ r with count := r.count + 1 } : Run).elems =
    r.elems ++ [(r.src + r.count, r.dst + r.count)] := by
  simp [Run.elems, List.range_succ]

theorem elems_coalesceFrom (ws : ℕ) (ps : List ℕ) : ∀ (i : ℕ) (r : Run), r.dst + r.count = ws + i →
    (coalesceFrom ws i r ps).flatMap Run.elems = r.elems ++ ps.zipIdx (ws + i) := by
  induction ps with
  | nil => intro i r _; simp [coalesceFrom]
  | cons p ps ih =>
    intro i r hr
    rw [coalesceFrom]
    split_ifs with hp
    · have hd : ({ r with count := r.count + 1 } : Run).dst + (r.count + 1) = ws + (i + 1) := by
        simp only; omega
      rw [ih _ _ hd, Run.elems_succ, List.zipIdx_cons, hp, hr]
      simp [Nat.add_assoc]
    · rw [List.flatMap_cons, ih _ _ (by simp only; omega), List.zipIdx_cons]
      simp [Run.elems, Nat.add_assoc]

/-- Sources and targets of the run lie below `n`. -/
structure Run.Within (r : Run) (n : ℕ) : Prop where
  src : r.src + r.count ≤ n
  dst : r.dst + r.count ≤ n

/-- **The runs of `keep` pair position `keep[i]` with slot `ws + i`.** -/
theorem elems_coalesce (ws : ℕ) (keep : List ℕ) :
    (coalesce ws keep).flatMap Run.elems = keep.zipIdx ws := by
  cases keep with
  | nil => rfl
  | cons p ps =>
    rw [coalesce, elems_coalesceFrom ws ps 1 ⟨p, ws, 1⟩ rfl, List.zipIdx_cons]
    simp [Run.elems]

theorem count_pos_of_mem_coalesceFrom (ws : ℕ) (ps : List ℕ) : ∀ (i : ℕ) (r : Run), 0 < r.count →
    ∀ q ∈ coalesceFrom ws i r ps, 0 < q.count := by
  induction ps with
  | nil => intro i r hr q hq; rw [List.mem_singleton.mp hq]; exact hr
  | cons p ps ih =>
    intro i r hr q hq
    rw [coalesceFrom] at hq
    split_ifs at hq
    · exact ih _ _ (Nat.succ_pos _) q hq
    · rcases List.mem_cons.mp hq with rfl | hq
      · exact hr
      · exact ih _ _ Nat.one_pos q hq

theorem count_pos_of_mem_coalesce {ws : ℕ} {keep : List ℕ} {q : Run} (hq : q ∈ coalesce ws keep) :
    0 < q.count := by
  cases keep with
  | nil => simp [coalesce] at hq
  | cons p ps => exact count_pos_of_mem_coalesceFrom ws ps 1 _ Nat.one_pos q hq

theorem mem_coalesce_elem {ws : ℕ} {keep : List ℕ} {r : Run} (hr : r ∈ coalesce ws keep) {j : ℕ}
    (hj : j < r.count) : ∃ hi : r.dst + j - ws < keep.length,
      ws ≤ r.dst + j ∧ keep.get ⟨r.dst + j - ws, hi⟩ = r.src + j := by
  have hm : (r.src + j, r.dst + j) ∈ keep.zipIdx ws := by
    rw [← elems_coalesce]
    exact List.mem_flatMap.mpr ⟨r, hr, Run.mem_elems.mpr ⟨j, hj, rfl⟩⟩
  obtain ⟨h₁, h₂, h₃⟩ := List.mem_zipIdx hm
  exact ⟨by omega, h₁, h₃.symm⟩

theorem within_of_mem_coalesce {ws n : ℕ} {keep : List ℕ} (hk : ∀ p ∈ keep, p < n)
    (hw : ws + keep.length ≤ n) {r : Run} (hr : r ∈ coalesce ws keep) : r.Within n := by
  have hpos := count_pos_of_mem_coalesce hr
  obtain ⟨hi, hle, hget⟩ := mem_coalesce_elem hr (show r.count - 1 < r.count by omega)
  have hsrc := hk _ (List.get_mem keep ⟨_, hi⟩)
  rw [hget] at hsrc
  exact ⟨by omega, by omega⟩

/-- Run `r` lies before run `q`: sources and targets in order, the targets no further apart than
the sources. -/
structure Before (r q : Run) : Prop where
  src : r.src + r.count ≤ q.src
  dst : r.dst + r.count ≤ q.dst
  gap : q.dst + r.src ≤ r.dst + q.src

/-- Two `(source, target)` pairs in order, the targets no further apart than the sources. -/
def PairLt (e e' : ℕ × ℕ) : Prop := e.1 < e'.1 ∧ e.2 < e'.2 ∧ e'.2 + e.1 ≤ e.2 + e'.1

theorem add_lt_getElem {p : ℕ} {ps : List ℕ} (h : (p :: ps).Pairwise (· < ·)) :
    ∀ k (hk : k < ps.length), p + k < ps[k] := by
  rw [List.pairwise_cons] at h
  intro k
  induction k with
  | zero => intro hk; simpa using h.1 _ (List.getElem_mem hk)
  | succ k ih =>
    intro hk
    have h₁ := ih (by omega)
    have h₂ := List.pairwise_iff_getElem.mp h.2 k (k + 1) (by omega) hk (by omega)
    omega

theorem length_le_of_pairwise {keep : List ℕ} {n : ℕ} (h : keep.Pairwise (· < ·))
    (hn : ∀ p ∈ keep, p < n) : keep.length ≤ n := by
  cases keep with
  | nil => exact Nat.zero_le n
  | cons p ps =>
    have hp := hn p List.mem_cons_self
    rcases Nat.eq_zero_or_pos ps.length with h0 | h0
    · simp only [List.length_cons]; omega
    · have h₁ := add_lt_getElem h (ps.length - 1) (by omega)
      have h₂ := hn _ (List.mem_cons_of_mem _
        (List.getElem_mem (show ps.length - 1 < ps.length by omega)))
      simp only [List.length_cons]; omega

theorem pairwise_zipIdx {keep : List ℕ} (h : keep.Pairwise (· < ·)) (ws : ℕ) :
    (keep.zipIdx ws).Pairwise PairLt := by
  induction keep generalizing ws with
  | nil => simp
  | cons p ps ih =>
    rw [List.zipIdx_cons, List.pairwise_cons]
    refine ⟨?_, ih (List.pairwise_cons.mp h).2 _⟩
    rintro ⟨q, j⟩ hq
    obtain ⟨hj, hlt, hget⟩ := List.mem_zipIdx hq
    have := add_lt_getElem h (j - (ws + 1)) (by omega)
    rw [← hget] at this
    simp only [PairLt]
    omega

/-- **The runs of a strictly ascending list lie one before the other.** -/
theorem pairwise_coalesce {keep : List ℕ} (h : keep.Pairwise (· < ·)) (ws : ℕ) :
    (coalesce ws keep).Pairwise Before := by
  have he := pairwise_zipIdx h ws
  rw [← elems_coalesce, List.pairwise_flatMap] at he
  refine he.2.imp_of_mem fun {r q} hr hq hrq => ?_
  have hr0 := count_pos_of_mem_coalesce hr
  have hq0 := count_pos_of_mem_coalesce hq
  have := hrq (r.src + (r.count - 1), r.dst + (r.count - 1)) (Run.mem_elems.mpr ⟨_, by omega, rfl⟩)
    (q.src, q.dst) (Run.mem_elems.mpr ⟨0, hq0, rfl⟩)
  simp only [PairLt] at this
  exact ⟨by omega, by omega, by omega⟩

/-! ## Flushing the runs -/

theorem foldl_move_down {rs : List Run} (hb : rs.Pairwise Before) (hd : ∀ r ∈ rs, r.dst ≤ r.src)
    (f : ℕ → β) : ∀ r ∈ rs, ∀ j < r.count, rs.foldl move f (r.dst + j) = f (r.src + j) := by
  induction rs generalizing f with
  | nil => simp
  | cons q rs ih =>
    rw [List.pairwise_cons] at hb
    intro r hr j hj
    rw [List.foldl_cons]
    rcases List.mem_cons.mp hr with rfl | hr
    · rw [foldl_move_of_not_hits, move_of_hits ⟨by omega, by omega⟩, Nat.add_sub_cancel_left]
      intro q hq hit
      have := (hb.1 q hq).dst
      exact absurd hit.1 (by omega)
    · rw [ih hb.2 (fun x hx => hd x (List.mem_cons_of_mem _ hx)) _ r hr j hj, move_of_not_hits]
      intro hit
      have h1 := (hb.1 r hr).src
      have h2 := hd q List.mem_cons_self
      exact absurd hit.2 (by omega)

/-- **Rows of a wide memory moved together**: row `j` of stride `b` to stride `a`, from row 1 on. -/
theorem foldl_move_strides {a b n m : ℕ} (hn : n ≤ a) (hab : a ≤ b) (f : ℕ → β) {j : ℕ}
    (hj : j ≤ m) {i : ℕ} (hi : i < n) :
    (List.range' 1 m).foldl (fun g k => move g ⟨k * b, k * a, n⟩) f (j * a + i) =
      f (j * b + i) := by
  rcases Nat.eq_zero_or_pos j with rfl | hpos
  · rw [foldl_move_map_of_not_hits, Nat.zero_mul, Nat.zero_mul]
    intro k hk hit
    have hk1 : 1 ≤ k := (List.mem_range'_1.mp hk).1
    have hle : k * a ≤ 0 * a + i := hit.1
    have := Nat.mul_le_mul_right a hk1
    omega
  · have hbefore : ((List.range' 1 m).map fun k => (⟨k * b, k * a, n⟩ : Run)).Pairwise Before := by
      rw [List.pairwise_map]
      refine List.Pairwise.imp (fun {k k'} hlt => ?_) (List.pairwise_lt_range' (s := 1) (n := m))
      obtain ⟨e, rfl⟩ := Nat.exists_eq_add_of_lt hlt
      have he : e * a ≤ e * b := Nat.mul_le_mul_left e hab
      constructor <;> simp only [Nat.add_mul, Nat.one_mul] <;> omega
    have hmem : (⟨j * b, j * a, n⟩ : Run) ∈ (List.range' 1 m).map fun k =>
      (⟨k * b, k * a, n⟩ : Run) :=
      List.mem_map.mpr ⟨j, List.mem_range'_1.mpr (by omega), rfl⟩
    have hdown := foldl_move_down hbefore ?_ f _ hmem i hi
    · rwa [List.foldl_map] at hdown
    · intro r hr
      obtain ⟨k, -, rfl⟩ := List.mem_map.mp hr
      exact Nat.mul_le_mul_left k hab

theorem foldl_move_up {rs : List Run} (hb : rs.Pairwise Before) (hu : ∀ r ∈ rs, r.src < r.dst)
    (f : ℕ → β) : ∀ r ∈ rs, ∀ j < r.count, rs.reverse.foldl move f (r.dst + j) = f (r.src + j) := by
  induction rs with
  | nil => simp
  | cons q rs ih =>
    rw [List.pairwise_cons] at hb
    intro r hr j hj
    rw [List.reverse_cons, List.foldl_append, List.foldl_cons, List.foldl_nil]
    rcases List.mem_cons.mp hr with rfl | hr
    · rw [move_of_hits ⟨by omega, by omega⟩, Nat.add_sub_cancel_left, foldl_move_of_not_hits]
      intro x hx hit
      have hx' := List.mem_reverse.mp hx
      have h1 := (hb.1 x hx').src
      have h2 := hu x (List.mem_cons_of_mem _ hx')
      exact absurd hit.1 (by omega)
    · rw [move_of_not_hits, ih hb.2 (fun x hx => hu x (List.mem_cons_of_mem _ hx)) r hr j hj]
      intro hit
      have := (hb.1 r hr).dst
      exact absurd hit.2 (by omega)

/-- The flushing order of the runs: the prefix that moves up last-to-first, then the rest. -/
def flushOrder (rs : List Run) : List Run :=
  let split := rs.findIdx fun r => decide (r.dst ≤ r.src)
  (rs.take split).reverse ++ rs.drop split

theorem dst_le_src_of_mem_coalesce {keep : List ℕ} (h : keep.Pairwise (· < ·)) {r : Run}
    (hr : r ∈ coalesce 0 keep) : r.dst ≤ r.src := by
  obtain ⟨hi, -, hget⟩ := mem_coalesce_elem hr (count_pos_of_mem_coalesce hr)
  simp only [Nat.add_zero, Nat.sub_zero, List.get_eq_getElem] at hi hget
  cases keep with
  | nil => simp at hi
  | cons p ps =>
    rcases Nat.eq_zero_or_pos r.dst with h0 | h0
    · omega
    · have := add_lt_getElem h (r.dst - 1) (by simp only [List.length_cons] at hi; omega)
      rw [List.getElem_cons, dif_neg (by omega)] at hget
      omega

theorem flushOrder_of_down {rs : List Run} (hd : ∀ r ∈ rs, r.dst ≤ r.src) : flushOrder rs = rs := by
  have hz : rs.findIdx (fun r => decide (r.dst ≤ r.src)) = 0 := by
    cases rs with
    | nil => rfl
    | cons r rs => rw [List.findIdx_cons, decide_eq_true (hd r List.mem_cons_self)]; rfl
  simp only [flushOrder, hz, List.take_zero, List.reverse_nil, List.nil_append, List.drop_zero]

/-- **Every run is read before it is overwritten.** -/
theorem flush_apply {rs : List Run} (hb : rs.Pairwise Before) (f : ℕ → β) {e : ℕ × ℕ}
    (he : e ∈ rs.flatMap Run.elems) : (flushOrder rs).foldl move f e.2 = f e.1 := by
  obtain ⟨r, hr, her⟩ := List.mem_flatMap.mp he
  obtain ⟨j, hj, rfl⟩ := Run.mem_elems.mp her
  simp only [flushOrder]
  set k := rs.findIdx fun r => decide (r.dst ≤ r.src) with hk
  rw [List.foldl_append]
  have hsplit := List.take_append_drop k rs
  have hb' := hb
  rw [← hsplit, List.pairwise_append] at hb'
  obtain ⟨hbu, hbd, hud⟩ := hb'
  have hu : ∀ q ∈ rs.take k, q.src < q.dst := by
    intro q hq
    obtain ⟨i, hi, rfl⟩ := List.mem_take_iff_getElem.mp hq
    have := List.not_of_lt_findIdx (show i < rs.findIdx fun r => decide (r.dst ≤ r.src) by omega)
    simpa using this
  -- once one run moves down, the gap condition keeps all later ones moving down
  have hd : ∀ q ∈ rs.drop k, q.dst ≤ q.src := by
    intro q hq
    obtain ⟨i, hi, rfl⟩ := List.mem_drop_iff_getElem.mp hq
    have hkl : k < rs.length := by omega
    have hfirst : rs[k].dst ≤ rs[k].src := by
      have := List.findIdx_getElem (p := fun r : Run => decide (r.dst ≤ r.src)) (w := hkl)
      simpa using this
    rcases Nat.eq_zero_or_pos i with rfl | hi0
    · simpa using hfirst
    · have := (List.pairwise_iff_getElem.mp hb k (k + i) hkl (by omega) (by omega)).gap
      omega
  rw [← hsplit, List.mem_append] at hr
  rcases hr with hr | hr
  · rw [foldl_move_of_not_hits, foldl_move_up hbu hu f r hr j hj]
    intro q hq hit
    have := (hud r hr q hq).dst
    exact absurd hit.1 (by omega)
  · rw [foldl_move_down hbd hd _ r hr j hj, foldl_move_of_not_hits]
    intro q hq hit
    have h1 := (hud q (List.mem_reverse.mp hq) r hr).dst
    have h2 := hd r hr
    exact absurd hit.2 (by omega)

/-- **In-place gather**: flushing the runs of `keep` puts the slot `keep[i]` on slot `ws + i`. -/
theorem gather_apply {keep : List ℕ} (h : keep.Pairwise (· < ·)) (ws : ℕ) (f : ℕ → β) {i : ℕ}
    (hi : i < keep.length) : (flushOrder (coalesce ws keep)).foldl move f (ws + i) = f keep[i] := by
  have hm : (keep[i], ws + i) ∈ (coalesce ws keep).flatMap Run.elems := by
    rw [elems_coalesce, List.mk_mem_zipIdx_iff_le_and_getElem?_sub]
    simp [hi]
  exact flush_apply (pairwise_coalesce h ws) f hm

theorem gather_zero_apply {keep : List ℕ} (h : keep.Pairwise (· < ·)) (f : ℕ → β) {i : ℕ}
    (hi : i < keep.length) : (coalesce 0 keep).foldl move f i = f keep[i] := by
  have := gather_apply h 0 f hi
  rwa [flushOrder_of_down fun r hr => dst_le_src_of_mem_coalesce h hr, Nat.zero_add] at this

end SlotMem
