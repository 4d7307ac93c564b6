import Mathlib.Data.List.GetD
import ArgusEngine.Lib.Slots

/-!
# Flat memories and their rows

A flat memory is a list. `blit` copies a range of one memory over a range of another (the ranges
may overlap when both memories are the same one), `fill` overwrites a range with one value. What
would land past the end of the target is dropped, so lengths never change.

`rows w b` cuts a memory into rows of `w` entries. **`rows_blit`**: a copy whose offsets and length
are whole rows is a `SlotMem.place` on the rows.
-/

namespace FlatMem

open SlotMem

variable {α ι : Type*}

/-- The `n` entries from `off` on. -/
def slice (b : List α) (off n : ℕ) : List α := (b.drop off).take n

/-- Copy `n` entries of `src` from `s` on over those of `dst` from `d` on. -/
def blit (src : List α) (s : ℕ) (dst : List α) (d n : ℕ) : List α :=
  dst.mapIdx fun i x => if d ≤ i ∧ i < d + n then src.getD (s + (i - d)) x else x

/-- Overwrite the entries of `[lo, hi)` with `x`. -/
def fill (b : List α) (lo hi : ℕ) (x : α) : List α :=
  b.mapIdx fun i y => if lo ≤ i ∧ i < hi then x else y

@[simp] theorem length_blit (src : List α) (s : ℕ) (dst : List α) (d n : ℕ) :
    (blit src s dst d n).length = dst.length := by simp [blit]

@[simp] theorem length_fill (b : List α) (lo hi : ℕ) (x : α) :
    (fill b lo hi x).length = b.length := by
  simp [fill]

theorem getElem?_slice (b : List α) (off n i : ℕ) :
    (slice b off n)[i]? = if i < n then b[off + i]? else none := by
  simp [slice, List.getElem?_take, List.getElem?_drop]

theorem length_slice {b : List α} {off n : ℕ} (h : off + n ≤ b.length) :
    (slice b off n).length = n := by
  simp only [slice, List.length_take, List.length_drop]
  omega

theorem slice_ext {b b' : List α} {off off' n : ℕ} (h : ∀ i < n, b[off + i]? = b'[off' + i]?) :
    slice b off n = slice b' off' n := by
  refine List.ext_getElem? fun i => ?_
  rw [getElem?_slice, getElem?_slice]
  split_ifs with hi
  · exact h i hi
  · rfl

theorem getElem?_blit {src dst : List α} {s d n : ℕ} (hs : s + n ≤ src.length) (i : ℕ)
    (hd : d + n ≤ dst.length) :
    (blit src s dst d n)[i]? = if d ≤ i ∧ i < d + n then src[s + (i - d)]? else dst[i]? := by
  simp only [blit, List.getElem?_mapIdx]
  split_ifs with h
  · rw [List.getElem?_eq_getElem (show i < dst.length by omega),
      List.getElem?_eq_getElem (show s + (i - d) < src.length by omega), Option.map_some,
      List.getD_eq_getElem _ _ (show s + (i - d) < src.length by omega)]
  · cases dst[i]? <;> rfl

theorem blit_slice_self {b : List α} {off n : ℕ} (h : off + n ≤ b.length) :
    blit (slice b off n) 0 b off n = b := by
  refine List.ext_getElem? fun i => ?_
  rw [getElem?_blit (by have := length_slice h; omega) i h]
  split_ifs with hi
  · rw [getElem?_slice, if_pos (by omega)]
    congr 1
    omega
  · rfl

theorem flatten_slice {ps : List (List α)} {k s n : ℕ} (hps : ∀ p ∈ ps, p.length = k)
    (hle : s + n ≤ ps.length) : (slice ps s n).flatten = slice ps.flatten (s * k) (n * k) := by
  have hlen : ∀ l : List (List α), l ⊆ ps → l.flatten.length = l.length * k := by
    intro l hl
    rw [List.length_flatten, List.map_congr_left fun p hp => hps p (hl hp), List.map_const',
      List.sum_replicate_nat]
  have hsplit : ps.flatten = (ps.take s).flatten ++
    ((slice ps s n).flatten ++ ((ps.drop s).drop n).flatten) := by
    rw [← List.flatten_append, slice, List.take_append_drop, ← List.flatten_append,
      List.take_append_drop]
  have htake : (ps.take s).flatten.length = s * k := by
    rw [hlen _ (List.take_subset _ _), List.length_take, Nat.min_eq_left (by omega)]
  have hmid : (slice ps s n).flatten.length = n * k := by
    rw [hlen (slice ps s n) fun p hp => List.mem_of_mem_drop (List.mem_of_mem_take hp),
      length_slice hle]
  rw [hsplit]
  conv_rhs => rw [slice, ← htake, List.drop_left, ← hmid, List.take_left]

theorem getElem?_fill_of_notMem {b : List α} {lo hi i : ℕ} {x : α} (h : ¬ (lo ≤ i ∧ i < hi)) :
    (fill b lo hi x)[i]? = b[i]? := by
  simp only [fill, List.getElem?_mapIdx, if_neg h]
  cases b[i]? <;> rfl

/-! ## Rows -/

/-- The rows of `w` entries of a memory. -/
def rows (w : ℕ) (b : List α) : ℕ → List α := fun s => slice b (s * w) w

theorem row_bound {w s n : ℕ} (h : s < n) : s * w + w ≤ n * w := by
  rw [← Nat.succ_mul]; exact Nat.mul_le_mul_right _ h

/-- **A copy of whole rows places rows.** -/
theorem rows_blit {w a e n : ℕ} {src dst : List α} (hs : (a + n) * w ≤ src.length)
    (hd : (e + n) * w ≤ dst.length) :
    rows w (blit src (a * w) dst (e * w) (n * w)) = place (rows w src) a (rows w dst) e n := by
  rw [Nat.add_mul] at hs hd
  funext p
  by_cases hp : e ≤ p ∧ p < e + n
  · rw [place_of_mem hp.1 hp.2]
    have hlo : e * w ≤ p * w := Nat.mul_le_mul_right _ hp.1
    have hhi := row_bound (w := w) hp.2
    rw [Nat.add_mul] at hhi
    have ha : (a + (p - e)) * w = a * w + (p * w - e * w) := by rw [Nat.add_mul, Nat.sub_mul]
    refine slice_ext fun i hi => ?_
    rw [getElem?_blit hs _ hd, if_pos ⟨by omega, by omega⟩, ha]
    congr 1
    omega
  · rw [place_of_notMem hp]
    refine slice_ext fun i hi => ?_
    rw [getElem?_blit hs _ hd, if_neg]
    rintro ⟨h₁, h₂⟩
    refine hp ⟨?_, ?_⟩
    · by_contra hlt
      have := row_bound (w := w) (show p < e by omega)
      omega
    · by_contra hge
      have := Nat.mul_le_mul_right w (show e + n ≤ p by omega)
      rw [Nat.add_mul] at this
      omega

theorem rows_fill_of_notMem {w lo hi s : ℕ} {b : List α} {x : α}
    (h : s * w + w ≤ lo ∨ hi ≤ s * w) : rows w (fill b lo hi x) s = rows w b s := by
  refine slice_ext fun i hi' => ?_
  exact getElem?_fill_of_notMem (by omega)

theorem slice_slice (b : List α) (off : ℕ) {n i m : ℕ} (h : i + m ≤ n) :
    slice (slice b off n) i m = slice b (off + i) m := by
  refine slice_ext fun j hj => ?_
  rw [getElem?_slice, if_pos (by omega), Nat.add_assoc]

theorem slice_eq_of_rows {w k k' n : ℕ} {b b' : List α}
    (h : ∀ i < n, rows w b (k + i) = rows w b' (k' + i)) :
    slice b (k * w) (n * w) = slice b' (k' * w) (n * w) := by
  refine slice_ext fun i hi => ?_
  have hw : 0 < w := Nat.pos_of_ne_zero fun h0 => by simp [h0] at hi
  have hdiv : i / w < n := Nat.div_lt_of_lt_mul (by rwa [Nat.mul_comm])
  have hrow := congrArg (fun r => r[i % w]?) (h _ hdiv)
  simp only [rows, getElem?_slice, if_pos (Nat.mod_lt i hw)] at hrow
  have hsplit : ∀ a, (a + i / w) * w + i % w = a * w + i := by
    intro a
    rw [Nat.add_mul, Nat.add_assoc, Nat.div_add_mod']
  rwa [hsplit, hsplit] at hrow

theorem length_flatMap_range {g : ℕ → List α} {L n : ℕ} (hg : ∀ h < n, (g h).length = L) :
    ((List.range n).flatMap g).length = n * L := by
  rw [List.length_flatMap, List.map_congr_left fun h hh => hg h (List.mem_range.mp hh),
    List.map_const', List.length_range, List.sum_replicate_nat]

theorem slice_flatMap_range {g : ℕ → List α} {L n k : ℕ} (hg : ∀ h < n, (g h).length = L)
    (hk : k < n) : slice ((List.range n).flatMap g) (k * L) L = g k := by
  have hlen : ((List.range k).flatMap g).length = k * L :=
    length_flatMap_range fun h hh => hg h (Nat.lt_trans hh hk)
  have hblock := hg k hk
  obtain ⟨r, rfl⟩ := Nat.exists_eq_add_of_lt hk
  have hone : ((List.range 1).map (k + ·)).flatMap g = g k := by simp
  rw [show k + r + 1 = k + (1 + r) by omega, List.range_add, List.range_add, List.flatMap_append,
    List.map_append, List.flatMap_append, hone]
  unfold slice
  rw [← hlen, List.drop_left, ← hblock, List.take_left]

/-! ## Loops of copies -/

theorem length_foldl_blit {src : ι → List α} {s d n : ι → ℕ} (l : List ι) (b : List α) :
    (l.foldl (fun b x => blit (src x) (s x) b (d x) (n x)) b).length = b.length := by
  induction l generalizing b with
  | nil => rfl
  | cons x l ih => rw [List.foldl_cons, ih, length_blit]

/-- **A loop of row copies from fixed memories.** -/
theorem rows_foldl_blit {w : ℕ} (src : ι → List α) {a e n : ι → ℕ} {l : List ι} {b : List α}
    (hs : ∀ x ∈ l, (a x + n x) * w ≤ (src x).length) (hd : ∀ x ∈ l, (e x + n x) * w ≤ b.length) :
    rows w (l.foldl (fun b x => blit (src x) (a x * w) b (e x * w) (n x * w)) b) =
      l.foldl (fun f x => place (rows w (src x)) (a x) f (e x) (n x)) (rows w b) := by
  induction l generalizing b with
  | nil => rfl
  | cons x l ih =>
    rw [List.foldl_cons, List.foldl_cons, ih fun y hy => hs y (List.mem_cons_of_mem _ hy),
      rows_blit (hs x List.mem_cons_self) (hd x List.mem_cons_self)]
    intro y hy
    rw [length_blit]
    exact hd y (List.mem_cons_of_mem _ hy)

theorem length_foldl_blit_self {s d n : ι → ℕ} (l : List ι) (b : List α) :
    (l.foldl (fun b x => blit b (s x) b (d x) (n x)) b).length = b.length := by
  induction l generalizing b with
  | nil => rfl
  | cons x l ih => rw [List.foldl_cons, ih, length_blit]

/-- **A loop of row moves inside one memory.** -/
theorem rows_foldl_blit_self {w : ℕ} {r : ι → Run} {l : List ι} {b : List α}
    (hs : ∀ x ∈ l, ((r x).src + (r x).count) * w ≤ b.length)
    (hd : ∀ x ∈ l, ((r x).dst + (r x).count) * w ≤ b.length) :
    rows w (l.foldl (fun b x => blit b ((r x).src * w) b ((r x).dst * w) ((r x).count * w)) b) =
      l.foldl (fun f x => move f (r x)) (rows w b) := by
  induction l generalizing b with
  | nil => rfl
  | cons x l ih =>
    rw [List.foldl_cons, List.foldl_cons, ih, rows_blit (hs x List.mem_cons_self)
      (hd x List.mem_cons_self)]
    · rfl
    · intro y hy; rw [length_blit]; exact hs y (List.mem_cons_of_mem _ hy)
    · intro y hy; rw [length_blit]; exact hd y (List.mem_cons_of_mem _ hy)

end FlatMem
