import ArgusEngine.Kv.Append
import ArgusEngine.Lib.Runs

/-!
# The cache refines a list of token rows

What a cache is for, in its own terms: for each half and head a list of token rows (`TokenRows`).
`CacheOp.spec` says what each operation is on the lists; `CacheOp.apply` is the operation on the
flat buffers. `tokenRows` reads a cache the way the consumers of its buffers do, at `offset`,
`q4BlockOffset` or the raw byte offset of an opaque store.

* `refines_step`: one successful operation follows its `spec`;
* **`tokenRows_run`**: so does every run from an empty dynamic cache.
-/

namespace ArgusEngine

open FlatMem SlotMem Runs

namespace KVCache

/-- The token rows of every half and head. -/
abbrev TokenRows := Half → ℕ → List (List UInt8)

/-- **The abstraction**: the rows read below the cursor. -/
def tokenRows (c : KVCache) : TokenRows := fun x h =>
  (List.range c.currentPos).map fun p => c.readRow (c.buffer x) p h

theorem tokenRows_eq {c : KVCache} (hc : c.WF) (x : Half) (h : ℕ) :
    c.tokenRows x h = (List.range c.currentPos).map (c.rowsOf x h) := by
  unfold tokenRows
  exact List.map_congr_left fun p hp => hc.readRow x h (List.mem_range.mp hp)

end KVCache

open KVCache

/-- The operations of a uniform cache. -/
inductive CacheOp where
  | update (newK newV : Tensor)
  | ensureCapacity (minTokens : ℕ)
  | grow (minCapacity : ℕ)
  | shrinkToFit
  | releaseUnusedPages
  | prunePrefix (count : ℕ)
  | compact (keep : List ℕ)

namespace CacheOp

/-- The operation on a cache; `compact` is `compact_keep_positions(keep, 0)` with the cursor then
set behind the kept positions. -/
def apply (P : Platform) : CacheOp → KVCache → Except Fail KVCache
  | update newK newV, c => match c.update P newK newV with
    | (.ok (), c') => .ok c'
    | (.error e, _) => .error e
  | ensureCapacity n, c => (c.ensureCapacity n).map Prod.snd
  | grow n, c => c.grow n
  | shrinkToFit, c => c.shrinkToFit.map Prod.snd
  | releaseUnusedPages, c => (c.releaseUnusedPages P).map Prod.snd
  | prunePrefix n, c => c.prunePrefix P n
  | compact keep, c => (c.compactKeepPositions keep 0).map fun c' => c'.setCurrentPos keep.length

/-- What the callers pass: tensors in the cache's type, ascending positions below the cursor. -/
def Admissible (c : KVCache) : CacheOp → Prop
  | update newK newV => c.Input newK newV (newK.shape.getD 1 0)
  | compact keep => keep.Pairwise (· < ·) ∧ ∀ p ∈ keep, p < c.currentPos
  | _ => True

/-- The operation on token rows: append, drop, gather or nothing; `row` makes a row of an input
token. -/
def spec (row : Tensor → ℕ → ℕ → List UInt8) : CacheOp → TokenRows → TokenRows
  | update newK newV, l => fun x h =>
    l x h ++ (List.range (newK.shape.getD 1 0)).map fun s => row (input newK newV x) s h
  | ensureCapacity _, l | grow _, l | shrinkToFit, l | releaseUnusedPages, l => l
  | prunePrefix n, l => fun x h => (l x h).drop n
  | compact keep, l => fun x h => keep.map fun p => (l x h).getD p []

/-- A successful operation. -/
def Step (P : Platform) (op : CacheOp) (c c' : KVCache) : Prop :=
  op.Admissible c ∧ op.apply P c = .ok c'

/-- `l` holds the rows of a uniform cache of format `f`. -/
structure Refines (f : Format) (c : KVCache) (l : TokenRows) : Prop where
  wf : c.WF
  format : c.format = f
  uniform : ∀ h < f.kvHeads, c.headStartOf h = 0
  rows : ∀ x, ∀ h < f.kvHeads, l x h = (List.range c.currentPos).map (c.rowsOf x h)

section Steps

variable {P : Platform} {f : Format} {c c' : KVCache} {l : TokenRows}

theorem Refines.of_keeps (h : Refines f c l) (hk : Keeps c c') : Refines f c' l := by
  have hpos : c'.currentPos = c.currentPos := congrArg Frame.currentPos hk.frame
  have hheads : c.kvHeads = f.kvHeads := congrArg Format.kvHeads h.format
  refine ⟨hk.wf, (congrArg Frame.format hk.frame).trans h.format, fun k hh => ?_, fun x k hh => ?_⟩
  · rw [← h.uniform k hh, headStartOf, headStartOf,
      show c'.headStart = c.headStart from congrArg Frame.headStart hk.frame]
  · rw [h.rows x k hh, hpos]
    refine List.map_congr_left fun p hp =>
      (hk.rows x k (hheads ▸ hh) p ?_ (List.mem_range.mp hp)).symm
    rw [h.uniform k hh]
    exact Nat.zero_le _

theorem Refines.getD (h : Refines f c l) (x : Half) {k p : ℕ} (hk : k < f.kvHeads)
    (hp : p < c.currentPos) : (l x k).getD p [] = c.rowsOf x k p := by
  rw [h.rows x k hk, List.getD_eq_getElem _ _ (by simpa using hp)]
  simp

theorem Refines.update {c₀ : KVCache} {newK newV : Tensor} (hf : c₀.format = f) (h : Refines f c l)
    (hin : c.Input newK newV (newK.shape.getD 1 0)) (hok : c.update P newK newV = (.ok (), c')) :
    Refines f c' ((CacheOp.update newK newV).spec (c₀.inputRow P) l) := by
  have hA := appends_update h.wf hin hok
  have hpos : c'.currentPos = c.currentPos + newK.shape.getD 1 0 :=
    congrArg Frame.currentPos hA.frame
  have hheads : c.kvHeads = f.kvHeads := congrArg Format.kvHeads h.format
  refine ⟨hA.wf, (congrArg Frame.format hA.frame).trans h.format, fun k hh => ?_, fun x k hh => ?_⟩
  · rw [← h.uniform k hh, headStartOf, headStartOf,
      show c'.headStart = c.headStart from congrArg Frame.headStart hA.frame]
  · simp only [spec]
    rw [h.rows x k hh, hpos, List.range_add, List.map_append, List.map_map]
    congr 1
    · refine List.map_congr_left fun p hp =>
        (hA.old x k (hheads ▸ hh) p ?_ (List.mem_range.mp hp)).symm
      rw [h.uniform k hh]
      exact Nat.zero_le _
    · refine List.map_congr_left fun s hs => ?_
      rw [Function.comp_apply, hA.new x k (hheads ▸ hh) s (List.mem_range.mp hs),
        inputRow_of_format P (h.format.trans hf.symm)]

theorem Refines.prunePrefix {n : ℕ} (h : Refines f c l) (hok : c.prunePrefix P n = .ok c') :
    Refines f c' fun x k => (l x k).drop n := by
  have hn : n ≤ c.currentPos := by
    by_contra hlt
    unfold KVCache.prunePrefix at hok
    simp only at hok
    rw [if_neg (by omega), if_pos (by omega)] at hok
    cases hok
  obtain ⟨c₁, hok₁, hp⟩ := prunes_prunePrefix (P := P) h.wf hn
  rw [hok] at hok₁
  cases hok₁
  have hheads : c.kvHeads = f.kvHeads := congrArg Format.kvHeads h.format
  refine ⟨hp.wf, hp.format.trans h.format, fun k hh => ?_, fun x k hh => ?_⟩
  · rw [hp.starts k (hheads ▸ hh), h.uniform k hh, Nat.zero_sub]
  · rw [h.rows x k hh, hp.pos]
    refine List.ext_getElem (by simp) fun i h₁ h₂ => ?_
    have hi : i < c'.currentPos := by rw [hp.pos]; simpa using h₂
    simp only [List.getElem_drop, List.getElem_map, List.getElem_range]
    rw [hp.rows x k (hheads ▸ hh) i _ hi, Nat.add_comm]
    rw [hp.starts k (hheads ▸ hh), h.uniform k hh, Nat.zero_sub]
    exact Nat.zero_le _

theorem Refines.compact {keep : List ℕ} (h : Refines f c l) (hasc : keep.Pairwise (· < ·))
    (hlt : ∀ p ∈ keep, p < c.currentPos) (hok : c.compactKeepPositions keep 0 = .ok c') :
    Refines f (c'.setCurrentPos keep.length) fun x k => keep.map fun p => (l x k).getD p [] := by
  have hlen := length_le_of_pairwise hasc hlt
  have hpos := h.wf.pos
  have hheads : c.kvHeads = f.kvHeads := congrArg Format.kvHeads h.format
  have hR : Rewrites c c' fun _ g => (coalesce 0 keep).foldl move g := by
    cases keep with
    | nil => cases hok; exact Rewrites.refl c
    | cons p ps =>
      obtain ⟨c₁, hok₁, hR⟩ := rewrites_compactKeepPositions h.wf
        (h.wf.opaque_headMajor (Nat.zero_lt_of_lt (hlt p List.mem_cons_self)))
        0 (fun p hp => (hlt p hp).trans_le hpos) (by omega)
      rw [hok] at hok₁
      cases hok₁
      exact hR
  have hwf := hR.wf h.wf
  have hrows := hR.rows
  obtain ⟨kb, vb, -, -, rfl⟩ := hR.frame
  obtain ⟨hp', hf', hr'⟩ := setCurrentPos_same (c.withContents kb vb) keep.length
  refine ⟨hwf.setCurrentPos (hlen.trans hpos) fun ho hl => ?_, hf'.trans h.format, fun k hh => ?_,
    fun x k hh => ?_⟩
  · have := h.wf.seqMajor ho hl
    omega
  · rw [headStartOf_setCurrentPos, show (c.withContents kb vb).headStartOf k =
      0 from h.uniform k hh, Nat.zero_min]
  · rw [hp', hr', hrows x k (hheads ▸ hh)]
    refine List.ext_getElem (by simp) fun i h₁ h₂ => ?_
    have hi : i < keep.length := by simpa using h₁
    simp only [List.getElem_map, List.getElem_range]
    rw [gather_zero_apply hasc _ hi, h.getD x hh (hlt _ (List.getElem_mem hi))]

/-- **One successful operation follows its specification.** -/
theorem refines_step {c₀ : KVCache} (hf : c₀.format = f) (op : CacheOp) (h : Refines f c l)
    (hstep : op.Step P c c') : Refines f c' (op.spec (c₀.inputRow P) l) := by
  obtain ⟨hadm, hok⟩ := hstep
  cases op with
  | update newK newV =>
    simp only [apply] at hok
    split at hok
    · cases hok; exact h.update hf hadm ‹_›
    · cases hok
  | ensureCapacity n =>
    cases hr : c.ensureCapacity n with
    | error e => simp [apply, hr, Except.map] at hok
    | ok r =>
      simp only [apply, hr, Except.map, Except.ok.injEq] at hok
      subst hok
      exact h.of_keeps (keeps_ensureCapacity h.wf hr).1
  | grow n => exact h.of_keeps (keeps_grow h.wf hok).1
  | shrinkToFit =>
    obtain ⟨n, c₁, hr, hk⟩ := keeps_shrinkToFit h.wf
    simp only [apply, hr, Except.map, Except.ok.injEq] at hok
    subst hok
    exact h.of_keeps hk
  | releaseUnusedPages =>
    obtain ⟨n, c₁, hr, hk⟩ := keeps_releaseUnusedPages P h.wf
    simp only [apply, hr, Except.map, Except.ok.injEq] at hok
    subst hok
    exact h.of_keeps hk
  | prunePrefix n => exact h.prunePrefix hok
  | compact keep =>
    obtain ⟨hasc, hlt⟩ := hadm
    cases hr : c.compactKeepPositions keep 0 with
    | error e => simp [apply, hr, Except.map] at hok
    | ok c₁ =>
      simp only [apply, hr, Except.map, Except.ok.injEq] at hok
      subst hok
      exact h.compact hasc hlt hr

end Steps

theorem refines_empty {c : KVCache} (hc : c.WF) (hpos : c.currentPos = 0)
    (hstart : c.headStart = []) : Refines c.format c fun _ _ => [] := by
  refine ⟨hc, rfl, fun h _ => by rw [headStartOf, hstart]; rfl, fun x h _ => ?_⟩
  rw [hpos]
  rfl

end CacheOp

/-- **The cache refines its token rows.** From an empty dynamic cache of any format and geometry,
every run of successful operations leaves in each half and head the rows that append, drop and
gather leave on lists. -/
theorem tokenRows_run (P : Platform) {k v : Tensor} {cap maxSeqLen kvHeads headDim : ℕ} {m : Memory}
    {layout : KVLayout} (hwf : (newDynamic k v cap maxSeqLen kvHeads headDim m layout).WF)
    {ops : List CacheOp} {c : KVCache}
    (hrun : Run (CacheOp.Step P) (newDynamic k v cap maxSeqLen kvHeads headDim m layout) ops c)
    (x : Half) {h : ℕ} (hh : h < kvHeads) :
    c.tokenRows x h = ops.foldl (fun l op => op.spec
      ((newDynamic k v cap maxSeqLen kvHeads headDim m layout).inputRow P) l)
        (fun _ _ => []) x h := by
  have hsim := hrun.simulates (R := CacheOp.Refines _)
    (fun op s s' t hR hstep => CacheOp.refines_step rfl op hR hstep)
      (CacheOp.refines_empty hwf rfl rfl)
  rw [hsim.rows x h hh, tokenRows_eq hsim.wf]

/-- An empty HeadMajor F32 cache of two heads, one position large and growing to four. -/
def emptyCache : KVCache :=
  newDynamic (.host [1, 2, 1, 1] (List.replicate 8 0))
    (.host [1, 2, 1, 1] (List.replicate 8 0)) 1 4 2 1 ⟨false, fun n => 8192 * (n + 1), 0⟩ .headMajor

/-- Two tokens for it, one value a head. -/
def twoTokens : Tensor := .host [1, 2, 2, 1] [1, 0, 0, 0, 2, 0, 0, 0, 3, 0, 0, 0, 4, 0, 0, 0]

theorem emptyCache_wf : emptyCache.WF := by
  refine ⟨by decide, rfl, rfl, ?_, by decide, by decide, by decide, fun h => ?_, by decide⟩
  · rintro (_ | _) <;> decide
  · exact Nat.le_of_eq (List.getD_nil ..)

theorem input_twoTokens : emptyCache.Input twoTokens twoTokens 2 := by
  refine ⟨rfl, fun _ => ?_, fun _ => ?_⟩
  · rintro (_ | _) <;> rfl
  · rintro (_ | _) <;> decide

/-- Two tokens appended past the capacity, the first one pruned: head `1` keeps its second row. -/
theorem tokenRows_update_prune : ∃ c, Run (CacheOp.Step .fixedPoint) emptyCache
      [.update twoTokens twoTokens, .prunePrefix 1] c ∧ c.tokenRows .key 1 = [[4, 0, 0, 0]] := by
  have hrun : ∃ c, Run (CacheOp.Step .fixedPoint) emptyCache
      [.update twoTokens twoTokens, .prunePrefix 1] c :=
    ⟨_, .cons ⟨input_twoTokens, rfl⟩ (.cons ⟨trivial, rfl⟩ (.nil _))⟩
  obtain ⟨c, hrun⟩ := hrun
  exact ⟨c, hrun, (tokenRows_run _ emptyCache_wf hrun .key (show 1 < 2 by decide)).trans
    (by decide)⟩

end ArgusEngine
