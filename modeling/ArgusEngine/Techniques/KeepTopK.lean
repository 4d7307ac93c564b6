import Mathlib.Order.Lattice
import ArgusEngine.Lib.Checked
import ArgusEngine.Lib.Ranking

/-!
# Keep-lists by score

A keep-list of a head is its protected prefix, the heaviest positions of the middle, and its recent
window. `compile_keep_top_k` puts the three together; the SnapKV selection ranks the middle of each
KV head by the attention of its query heads, pooled along the positions.

* `compileKeepTopK`, and **`keeps_compileKeepTopK`**: what its list holds;
* `rank_of_heaviest`: what is left out of the middle ranks behind what is kept;
* `avgPool1d`, `maxPool1d`: the two poolings;
* `snapkvPerHeadKeepFrom`, and `snapkvPerHeadKeepFrom_ok`: every head gets such a list.

An index out of range panics (`Checked.get`).
-/

namespace ArgusEngine.Techniques

open Checked FlatMem

/-- `KeepTopK`: `start` is the first resident position of the head. -/
structure KeepTopK where
  start : ℕ
  current : ℕ
  prefixLen : ℕ
  recent : ℕ
  heavy : ℕ

section Compile

variable {F : Type} [LinearOrder F]

/-- The heaviest positions, in order: the ranking is stable and descending. -/
def heaviest (tokenScores : List (ℕ × F)) (heavy : ℕ) : List ℕ :=
  let ranked := tokenScores.mergeSort fun a b => decide (b.2 ≤ a.2)
  ((ranked.take heavy).map Prod.fst).mergeSort fun a b => decide (a ≤ b)

/-- `compile_keep_top_k`. -/
def compileKeepTopK (spec : KeepTopK) (score : ℕ → F) : List ℕ :=
  let start := min spec.start spec.current
  -- the sum saturates, above the clamp
  let prefixEnd := min (start + spec.prefixLen) spec.current
  let recentStart := max (spec.current - spec.recent) prefixEnd
  let tokenScores := (List.range' prefixEnd (recentStart - prefixEnd)).map fun pos =>
    (pos, score pos)
  List.range' start (prefixEnd - start) ++ heaviest tokenScores spec.heavy ++
    List.range' recentStart (spec.current - recentStart)

/-! ## What a list keeps -/

/-- The list keeps the first `prefixLen` and the last `recent` positions of `[start, current)`, and
no others than these positions. -/
structure Keeps (start current prefixLen recent : ℕ) (l : List ℕ) : Prop where
  ascending : l.Pairwise (· < ·)
  resident : ∀ p ∈ l, start ≤ p ∧ p < current
  first : ∀ p, start ≤ p → p < start + min prefixLen (current - start) → p ∈ l
  last : ∀ p, start ≤ p → current - recent ≤ p → p < current → p ∈ l

theorem Keeps.mono {start current prefixLen recent recent' : ℕ} {l : List ℕ}
    (h : Keeps start current prefixLen recent l) (hle : recent' ≤ recent) :
    Keeps start current prefixLen recent' l :=
  ⟨h.ascending, h.resident, h.first, fun p hs hp hc => h.last p hs (by omega) hc⟩

section Heaviest

variable {l : List (ℕ × F)}

theorem mem_heaviest {k p : ℕ} (h : p ∈ heaviest l k) : p ∈ l.map Prod.fst := by
  unfold heaviest at h
  rw [List.mem_mergeSort, List.map_take] at h
  exact ((List.mergeSort_perm l _).map Prod.fst).mem_iff.mp (List.mem_of_mem_take h)

theorem length_heaviest (l : List (ℕ × F)) (k : ℕ) : (heaviest l k).length = min k l.length := by
  unfold heaviest
  rw [List.length_mergeSort, List.length_map, List.length_take, List.length_mergeSort]

theorem ascending_heaviest (h : (l.map Prod.fst).Nodup) (k : ℕ) :
    (heaviest l k).Pairwise (· < ·) := by
  have hnodup : (((l.mergeSort fun a b => decide (b.2 ≤ a.2)).take k).map Prod.fst).Nodup := by
    rw [List.map_take]
    exact (((List.mergeSort_perm l _).map Prod.fst).nodup_iff.mpr h).sublist (List.take_sublist _ _)
  have hle : (heaviest l k).Pairwise fun a b => decide (a ≤ b) = true :=
    List.pairwise_mergeSort
      (fun a b c hab hbc => decide_eq_true ((of_decide_eq_true hab).trans (of_decide_eq_true hbc)))
      (fun a b => by simpa using Nat.le_total a b) _
  have hne : (heaviest l k).Pairwise (· ≠ ·) := (List.mergeSort_perm _ _).nodup_iff.mpr hnodup
  exact (hle.and hne).imp fun h => lt_of_le_of_ne (of_decide_eq_true h.1) h.2

/-- **The heaviest positions**: a position that is left out ranks behind every one that is not. -/
theorem rank_of_heaviest {a n k p p' : ℕ} {score : ℕ → F}
    (hp : p ∈ heaviest ((List.range' a n).map fun pos => (pos, score pos)) k)
    (hp' : p' ∈ List.range' a n)
    (hout : p' ∉ heaviest ((List.range' a n).map fun pos => (pos, score pos)) k) :
    score p' < score p ∨ score p' = score p ∧ p < p' := by
  have hranked := Ranking.pairwise_mergeSort_stable (fun x y : ℕ × F => decide (y.2 ≤ x.2))
    (fun x y z hxy hyz => decide_eq_true ((of_decide_eq_true hyz).trans (of_decide_eq_true hxy)))
    (fun x y => by simpa using le_total y.2 x.2)
    (List.pairwise_map.mpr (List.pairwise_lt_range' (s := a) (n := n)) :
      ((List.range' a n).map fun pos => (pos, score pos)).Pairwise fun x y => x.1 < y.1)
  unfold heaviest at hp hout
  rw [List.mem_mergeSort] at hp hout
  obtain ⟨x, hx, rfl⟩ := List.mem_map.mp hp
  have hx' := List.mem_mergeSort.mp (List.mem_of_mem_take hx)
  obtain ⟨pos, -, rfl⟩ := List.mem_map.mp hx'
  have hdrop : (p', score p') ∈ (((List.range' a n).map fun pos => (pos, score pos)).mergeSort
      fun x y => decide (y.2 ≤ x.2)).drop k := by
    have hall : (p', score p') ∈ ((List.range' a n).map fun pos => (pos, score pos)).mergeSort
        fun x y => decide (y.2 ≤ x.2) := List.mem_mergeSort.mpr (List.mem_map.mpr ⟨p', hp', rfl⟩)
    rw [← List.take_append_drop k (List.mergeSort _ _)] at hall
    exact (List.mem_append.mp hall).resolve_left fun htake =>
      hout (List.mem_map.mpr ⟨_, htake, rfl⟩)
  obtain ⟨hle, htie⟩ := Ranking.rel_of_take_of_drop hranked hx hdrop
  rcases (of_decide_eq_true hle).lt_or_eq with hlt | heq
  · exact Or.inl hlt
  · exact Or.inr ⟨heq, htie (decide_eq_true heq.ge)⟩

end Heaviest

omit [LinearOrder F] in
theorem fst_tokenScores (a n : ℕ) (score : ℕ → F) :
    ((List.range' a n).map fun pos => (pos, score pos)).map Prod.fst = List.range' a n := by
  rw [List.map_map]
  exact List.map_id _

variable (spec : KeepTopK)

/-- **What the list of `compile_keep_top_k` keeps.** -/
theorem keeps_compileKeepTopK (hstart : spec.start ≤ spec.current) (score : ℕ → F) :
    Keeps spec.start spec.current spec.prefixLen spec.recent (compileKeepTopK spec score) := by
  unfold compileKeepTopK
  dsimp only
  rw [min_eq_left hstart]
  generalize hpe : min (spec.start + spec.prefixLen) spec.current = pe
  generalize hrs : max (spec.current - spec.recent) pe = rs
  have hmem :
    ∀ p ∈ heaviest ((List.range' pe (rs - pe)).map fun pos => (pos, score pos)) spec.heavy,
      pe ≤ p ∧ p < rs := by
    intro p hp
    have hp' := mem_heaviest hp
    rw [fst_tokenScores, List.mem_range'_1] at hp'
    omega
  have hsorted := ascending_heaviest (l := (List.range' pe (rs - pe)).map fun pos =>
    (pos, score pos)) (by rw [fst_tokenScores]; exact List.nodup_range') spec.heavy
  refine ⟨?_, ?_, ?_, ?_⟩
  · refine List.pairwise_append.mpr
      ⟨List.pairwise_append.mpr ⟨List.pairwise_lt_range', hsorted, ?_⟩, List.pairwise_lt_range', ?_⟩
    · intro a ha b hb
      have := hmem b hb
      rw [List.mem_range'_1] at ha
      omega
    · intro a ha b hb
      rw [List.mem_range'_1] at hb
      rcases List.mem_append.mp ha with ha | ha
      · rw [List.mem_range'_1] at ha
        omega
      · have := hmem a ha
        omega
  · intro p hp
    rcases List.mem_append.mp hp with hp | hp
    · rcases List.mem_append.mp hp with hp | hp
      · rw [List.mem_range'_1] at hp
        omega
      · have := hmem p hp
        omega
    · rw [List.mem_range'_1] at hp
      omega
  · intro p hp hp'
    refine List.mem_append_left _ (List.mem_append_left _ (List.mem_range'_1.mpr ?_))
    omega
  · intro p hp hp' hc
    by_cases hfirst : p < pe
    · refine List.mem_append_left _ (List.mem_append_left _ (List.mem_range'_1.mpr ?_))
      omega
    · refine List.mem_append_right _ (List.mem_range'_1.mpr ?_)
      omega

theorem length_compileKeepTopK (score score' : ℕ → F) :
    (compileKeepTopK spec score).length = (compileKeepTopK spec score').length := by
  unfold compileKeepTopK
  simp only [List.length_append, length_heaviest, List.length_map, List.length_range']

theorem mem_compileKeepTopK (hstart : spec.start ≤ spec.current) (hheavy : spec.heavy = 0)
    (score : ℕ → F) (p : ℕ) : p ∈ compileKeepTopK spec score ↔
      spec.start ≤ p ∧ p < spec.current ∧
      (p < spec.start + spec.prefixLen ∨ spec.current - spec.recent ≤ p) := by
  have hnone : ∀ l : List (ℕ × F), heaviest l spec.heavy = [] := fun l =>
    List.length_eq_zero_iff.mp (by rw [length_heaviest, hheavy, Nat.zero_min])
  unfold compileKeepTopK
  dsimp only
  rw [min_eq_left hstart, hnone, List.append_nil, List.mem_append, List.mem_range'_1,
    List.mem_range'_1]
  omega

end Compile

/-! ## Pooling -/

/-- The arithmetic of the scores. -/
structure ScoreArith (F : Type) where
  ofNat : ℕ → F
  negInf : F
  add : F → F → F
  mul : F → F → F
  div : F → F → F

section Pool

variable {F : Type} (A : ScoreArith F)

/-- The sum over the window centred at `i`, zero outside the row. -/
def avgWindow (input : List F) (kernel i : ℕ) : Except (Fault Empty) F :=
  let pad := kernel / 2
  (List.range kernel).foldlM (fun s (j : ℕ) => do
    let idx : ℤ := (i : ℤ) - (pad : ℤ) + (j : ℤ)
    if 0 ≤ idx ∧ idx.toNat < input.length then
      let x ← get input idx.toNat
      return A.add s x
    else return s) (A.ofNat 0)

/-- `avg_pool1d`. -/
def avgPool1d (input : List F) (kernel : ℕ) : Except (Fault Empty) (List F) :=
  (List.range input.length).mapM fun i => do
    let s ← avgWindow A input kernel i
    return A.div s (A.ofNat kernel)

/-- `max_pool1d`. -/
def maxPool1d [LinearOrder F] (input : List F) (kernel : ℕ) : Except (Fault Empty) (List F) :=
  let n := input.length
  let pad := kernel / 2
  (List.range n).mapM fun i => do
    let window ← index input (i - pad) (min (i + pad + 1) n)
    return window.foldl max A.negInf

theorem avgWindow_ok (input : List F) (kernel i : ℕ) : ∃ s, avgWindow A input kernel i = .ok s := by
  refine exists_foldlM (fun s j _ => ?_) _
  dsimp only
  split_ifs with h
  · rw [get_of_lt h.2]
    exact ⟨_, rfl⟩
  · exact ⟨_, rfl⟩

theorem avgPool1d_ok (input : List F) (kernel : ℕ) :
    ∃ out, avgPool1d A input kernel = .ok out ∧ out.length = input.length := by
  obtain ⟨out, hout, hlen, -⟩ := exists_mapM_range (R := fun _ _ => True) (n := input.length)
    (f := fun i => do
      let s ← avgWindow A input kernel i
      return A.div s (A.ofNat kernel)) fun i _ => by
    obtain ⟨s, hs⟩ := avgWindow_ok A input kernel i
    exact ⟨_, by rw [hs]; rfl, trivial⟩
  exact ⟨out, hout, hlen⟩

theorem maxPool1d_ok [LinearOrder F] (input : List F) (kernel : ℕ) :
    ∃ out, maxPool1d A input kernel = .ok out ∧ out.length = input.length := by
  obtain ⟨out, hout, hlen, -⟩ := exists_mapM_range (R := fun _ _ => True) (n := input.length)
    (f := fun i => do
      let window ← index (ε := Empty) input (i - kernel / 2) (min (i + kernel / 2 + 1) input.length)
      return window.foldl max A.negInf) fun i hi => by
    rw [index_of_le ⟨by omega, Nat.min_le_right _ _⟩]
    exact ⟨_, rfl, trivial⟩
  exact ⟨out, hout, hlen⟩

end Pool

/-! ## SnapKV -/

/-- `SnapKvSelect`. -/
structure SnapKvSelect where
  nQHeads : ℕ
  nKvHeads : ℕ
  cols : ℕ
  current : ℕ
  window : ℕ
  kernel : ℕ
  heavy : ℕ
  protectedPrefix : ℕ

section SnapKv

variable {F : Type} [LinearOrder F] (A : ScoreArith F)

/-- The mean of a position over the query heads of a group. -/
def groupMean (pooled : List (List F)) (base groups pos : ℕ) : Except (Fault Empty) F := do
  let s ← (List.range groups).foldlM (fun s g => do
    let row ← get pooled (base + g)
    let x ← get row pos
    return A.add s x) (A.ofNat 0)
  return A.mul s (A.div (A.ofNat 1) (A.ofNat groups))

/-- `snapkv_per_head_keep_from`: `readQhead` is the row of a query head. -/
def snapkvPerHeadKeepFrom (spec : SnapKvSelect) (readQhead : ℕ → List F) (headStart : List ℕ) :
    Except (Fault Empty) (List (List ℕ)) := do
  let groups := max (spec.nQHeads / max spec.nKvHeads 1) 1
  let heavyLen := spec.current - spec.window
  let invWindow := A.div (A.ofNat 1) (A.ofNat spec.window)
  let pooled ← (List.range spec.nQHeads).mapM fun qh => do
    let row ← index (readQhead qh) 0 heavyLen
    avgPool1d A (row.map fun v => A.mul v invWindow) spec.kernel
  (List.range spec.nKvHeads).mapM fun kvh => do
    let base := kvh * groups
    let scores ← (List.range heavyLen).mapM fun pos => groupMean A pooled base groups pos
    return compileKeepTopK ⟨headStart.getD kvh 0, spec.current, spec.protectedPrefix,
      spec.window, spec.heavy⟩ fun pos => scores.getD pos (A.ofNat 0)

variable {A}

omit [LinearOrder F] in
theorem groupMean_ok {pooled : List (List F)} {base groups pos : ℕ}
    (hbase : base + groups ≤ pooled.length) (hpos : ∀ row ∈ pooled, pos < row.length) :
    ∃ s, groupMean A pooled base groups pos = .ok s := by
  obtain ⟨s, hs⟩ := exists_foldlM (l := List.range groups) (f := fun s g => do
    let row ← get (ε := Empty) pooled (base + g)
    let x ← get row pos
    return A.add s x) (fun s g hg => by
      have hg := List.mem_range.mp hg
      have hlt : base + g < pooled.length := by omega
      rw [get_of_lt hlt, ok_seq, get_of_lt (hpos _ (List.getElem_mem hlt))]
      exact ⟨_, rfl⟩) (A.ofNat 0)
  exact ⟨_, by rw [groupMean, hs]; rfl⟩

/-- **Every head gets the list of `compile_keep_top_k`**, by scores of its own. -/
theorem snapkvPerHeadKeepFrom_ok (spec : SnapKvSelect) {readQhead : ℕ → List F}
    (hcols : ∀ qh, (readQhead qh).length = spec.cols)
    (hlen : spec.current - spec.window ≤ spec.cols) (hkv : 1 ≤ spec.nKvHeads)
    (hle : spec.nKvHeads ≤ spec.nQHeads) (hdvd : spec.nQHeads % spec.nKvHeads = 0)
    (headStart : List ℕ) : ∃ heads, snapkvPerHeadKeepFrom A spec readQhead headStart = .ok heads ∧
    heads.length = spec.nKvHeads ∧
      ∀ kvh l, heads[kvh]? = some l → ∃ score : ℕ → F, l = compileKeepTopK
        ⟨headStart.getD kvh 0, spec.current, spec.protectedPrefix, spec.window,
        spec.heavy⟩ score := by
  -- the rows are as wide as the scored region
  obtain ⟨pooled, hpooled, hpooledLen, hrows⟩ := exists_mapM_range (n := spec.nQHeads)
    (R := fun _ row => row.length = spec.current - spec.window)
    (f := fun qh => do
      let row ← index (readQhead qh) 0 (spec.current - spec.window)
      avgPool1d A (row.map fun v => A.mul v (A.div (A.ofNat 1) (A.ofNat spec.window))) spec.kernel)
        fun qh _ => by
    rw [index_of_le ⟨Nat.zero_le _, by rw [hcols]; exact hlen⟩, ok_seq]
    obtain ⟨out, hout, houtlen⟩ :=
      avgPool1d_ok A ((slice (readQhead qh) 0 (spec.current - spec.window - 0)).map fun v =>
      A.mul v (A.div (A.ofNat 1) (A.ofNat spec.window))) spec.kernel
    refine ⟨out, hout, houtlen.trans ?_⟩
    rw [List.length_map, length_slice (by rw [hcols]; omega), Nat.sub_zero]
  have hwidth : ∀ row ∈ pooled, row.length = spec.current - spec.window := by
    intro row hrow
    obtain ⟨i, hi⟩ := List.mem_iff_getElem?.mp hrow
    exact hrows i row hi
  -- the groups of the heads lie side by side
  obtain ⟨groups, hgroups⟩ : ∃ groups, max (spec.nQHeads / max spec.nKvHeads 1) 1 =
    groups := ⟨_, rfl⟩
  have hmul : spec.nKvHeads * groups = spec.nQHeads := by
    have hpos : 1 ≤ spec.nQHeads / spec.nKvHeads := (Nat.one_le_div_iff (by omega)).mpr hle
    rw [← hgroups, max_eq_left hkv, max_eq_left hpos]
    exact Nat.mul_div_cancel' (Nat.dvd_of_mod_eq_zero hdvd)
  obtain ⟨heads, hheads, hheadsLen, hlists⟩ := exists_mapM_range (n := spec.nKvHeads)
    (R := fun kvh l => ∃ score : ℕ → F, l = compileKeepTopK
      ⟨headStart.getD kvh 0, spec.current, spec.protectedPrefix, spec.window, spec.heavy⟩ score)
    (f := fun kvh => do
      let scores ← (List.range (spec.current - spec.window)).mapM fun pos =>
        groupMean A pooled (kvh * groups) groups pos
      return compileKeepTopK ⟨headStart.getD kvh 0, spec.current, spec.protectedPrefix,
        spec.window, spec.heavy⟩ fun pos => scores.getD pos (A.ofNat 0)) fun kvh hkvh => by
    have hbase : kvh * groups + groups ≤ pooled.length := by
      rw [hpooledLen, ← hmul, ← Nat.succ_mul]
      exact Nat.mul_le_mul_right _ hkvh
    obtain ⟨scores, hscores, -⟩ := exists_mapM_range (R := fun _ _ => True)
      (n := spec.current - spec.window)
        (f := fun pos => groupMean A pooled (kvh * groups) groups pos) fun pos hpos => by
      obtain ⟨s, hs⟩ := groupMean_ok (A := A) hbase (fun row hrow => (hwidth row hrow).symm ▸ hpos)
      exact ⟨s, hs, trivial⟩
    exact ⟨_, by rw [hscores]; rfl, _, rfl⟩
  refine ⟨heads, ?_, hheadsLen, hlists⟩
  unfold snapkvPerHeadKeepFrom
  dsimp only
  rw [hpooled, ok_seq, hgroups]
  exact hheads

end SnapKv

end ArgusEngine.Techniques
