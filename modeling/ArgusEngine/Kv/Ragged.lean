import ArgusEngine.Kv.Frames
import ArgusEngine.Lib.Runs

/-!
# The per-head starts of a reachable cache

`head_start` is empty or has one entry per KV head, none past the cursor (`StartsOk`); a cache with
a hole is HeadMajor, typed and F32 or F16 (`RaggedOk`). Every operation keeps both, except a commit
that re-encodes to `Q4_0` and does not leave every head without a hole: `reencode` does not look at
the starts, and `keep_per_head` is checked against the type the cache has before the re-encode.

* `startsOk_prunePrefix`, `raggedOk_commit`: one prune, one commit;
* **`raggedOk_run`**: every run in which no commit leaves a ragged `Q4_0` cache by its intents;
* `reencode_ragged`: a commit that does.
-/

namespace ArgusEngine

open FlatMem SlotMem Runs KVCache

/-! ## The invariant -/

/-- No start per head, or one for every KV head at or below the cursor. -/
def StartsOk (c : KVCache) : Prop :=
  c.headStart = [] ∨ (c.headStart.length = c.kvHeads ∧ ∀ s ∈ c.headStart, s ≤ c.currentPos)

/-- The geometry a cache may be in. -/
structure RaggedOk (c : KVCache) : Prop where
  starts : StartsOk c
  ragged : c.isRagged = true → c.supportsRagged = true

section Invariant

variable {P : Platform} {c c' : KVCache}

theorem isRagged_congr (h : c'.headStart = c.headStart) : c'.isRagged = c.isRagged := by
  unfold isRagged
  rw [h]

theorem supportsRagged_congr (h : c'.format = c.format) : c'.supportsRagged = c.supportsRagged := by
  have ho := isOpaque_of_format h
  simp only [format, Format.mk.injEq] at h
  unfold supportsRagged
  rw [ho, h.1, h.2.2.2.2]

theorem StartsOk.mono (h : StartsOk c) (hs : c'.headStart = c.headStart)
    (hk : c'.kvHeads = c.kvHeads) (hp : c.currentPos ≤ c'.currentPos) : StartsOk c' := by
  unfold StartsOk
  rw [hs, hk]
  exact h.imp id fun h => ⟨h.1, fun s hs => (h.2 s hs).trans hp⟩

theorem RaggedOk.of_grows (h : RaggedOk c) (hg : Grows c c') : RaggedOk c' := by
  obtain ⟨n, hg⟩ := hg
  have hs : c'.headStart = c.headStart := congrArg Frame.headStart hg
  have hf : c'.format = c.format := congrArg Frame.format hg
  refine ⟨h.starts.mono hs (congrArg Format.kvHeads hf) ?_, fun hr => ?_⟩
  · rw [show c'.currentPos = c.currentPos + n from congrArg Frame.currentPos hg]
    exact Nat.le_add_right _ _
  · rw [supportsRagged_congr hf]
    exact h.ragged (isRagged_congr hs ▸ hr)

theorem RaggedOk.of_empty (h : c.headStart = []) : RaggedOk c := by
  refine ⟨.inl h, fun hr => ?_⟩
  simp [isRagged, h] at hr

theorem startsOk_setHeadStarts {starts : List ℕ} (h : starts.length = c.kvHeads) :
    StartsOk (c.setHeadStarts starts) := by
  unfold StartsOk setHeadStarts
  simp only
  split_ifs
  · exact .inl rfl
  · refine .inr ⟨(List.length_map _).trans h, fun s hs => ?_⟩
    obtain ⟨a, -, rfl⟩ := List.mem_map.mp hs
    exact Nat.min_le_right _ _

theorem isRagged_setHeadStarts {starts : List ℕ} (h : (c.setHeadStarts starts).isRagged = true) :
    ∃ s ∈ starts, 0 < s := by
  unfold isRagged setHeadStarts at h
  simp only at h
  split_ifs at h with hz
  · simp at h
  · by_contra hne
    refine hz (List.all_eq_true.mpr fun s hs => ?_)
    have : ¬ 0 < s := fun hpos => hne ⟨s, hs, hpos⟩
    simpa using this

theorem RaggedOk.setCurrentPos (h : RaggedOk c) (n : ℕ) : RaggedOk (c.setCurrentPos n) := by
  unfold KVCache.setCurrentPos
  split_ifs
  · exact .of_empty rfl
  · refine ⟨h.starts.imp (fun h => by simp [h]) fun hs =>
      ⟨(List.length_map _).trans hs.1, fun s hs => ?_⟩, fun hr => ?_⟩
    · obtain ⟨a, -, rfl⟩ := List.mem_map.mp hs
      exact Nat.min_le_right _ _
    · refine h.ragged ?_
      unfold isRagged at hr ⊢
      rw [List.any_map] at hr
      refine List.any_eq_true.mpr ?_
      obtain ⟨s, hs, hpos⟩ := List.any_eq_true.mp hr
      simp only [Function.comp_apply, decide_eq_true_eq] at hpos
      exact ⟨s, hs, by simp; omega⟩

theorem mem_headStart {k : ℕ} (h : 0 < c.headStartOf k) : c.headStartOf k ∈ c.headStart := by
  unfold headStartOf at h ⊢
  rcases Nat.lt_or_ge k c.headStart.length with hk | hk
  · rw [List.getD_eq_getElem _ _ hk]
    exact List.getElem_mem hk
  · rw [List.getD_eq_default _ _ hk] at h
    cases h

/-- **`prune_prefix` keeps the starts in order**, and leaves a hole only where one was longer than
the prefix. -/
theorem startsOk_prunePrefix (hs : StartsOk c) {n : ℕ} (h : c.prunePrefix P n = .ok c') :
    StartsOk c' ∧ c'.format = c.format ∧ (c'.isRagged = true → c.isRagged = true ∧
      ¬ (0 < n ∧ n < c.currentPos ∧ ∀ s ∈ c.headStart, s ≤ n)) := by
  rcases frame_prunePrefix h with ⟨h0, rfl⟩ | ⟨h0, hn, hf⟩ | ⟨h0, hn, hf⟩
  · exact ⟨hs, rfl, fun hr => ⟨hr, fun h => by omega⟩⟩
  · have he : c'.headStart = [] := congrArg Frame.headStart hf
    refine ⟨.inl he, congrArg Frame.format hf, fun hr => ?_⟩
    simp [isRagged, he] at hr
  · have he : c'.headStart = (c.shrinkHoles n).headStart := congrArg Frame.headStart hf
    have hfmt : c'.format = c.format := by
      refine (congrArg Frame.format hf).trans ?_
      unfold shrinkHoles
      split_ifs <;> rfl
    have hheads : c'.kvHeads = c.kvHeads := congrArg Format.kvHeads hfmt
    have hpos : c'.currentPos = c.currentPos - n := congrArg Frame.currentPos hf
    have hstart : ∀ k, c.headStartOf k ≤ c.currentPos := by
      intro k
      rcases Nat.eq_zero_or_pos (c.headStartOf k) with h0 | h0
      · omega
      · rcases hs with hs | hs
        · have := mem_headStart h0
          rw [hs] at this
          cases this
        · exact hs.2 _ (mem_headStart h0)
    unfold shrinkHoles at he
    by_cases hr : c.isRagged = true
    swap
    · rw [if_neg hr] at he
      refine ⟨?_, hfmt, fun h => absurd (isRagged_congr he ▸ h) hr⟩
      -- all starts are zero
      refine (hs.imp (fun h => he.trans h) fun h =>
        ⟨by rw [he, hheads]; exact h.1, fun s hmem => ?_⟩)
      rw [he] at hmem
      have hzero : ¬ s > 0 := fun hgt => hr (List.any_eq_true.mpr ⟨s, hmem, by simpa using hgt⟩)
      omega
    rw [if_pos hr] at he
    refine ⟨?_, hfmt, fun hr' => ⟨hr, fun hall => ?_⟩⟩
    · unfold StartsOk
      rw [he, hheads, hpos]
      simp only [KVCache.setHeadStarts]
      split_ifs
      · exact .inl rfl
      · refine .inr ⟨by simp [headStarts], fun s hmem => ?_⟩
        simp only [headStarts, List.map_map, List.mem_map, List.mem_range,
          Function.comp_apply] at hmem
        obtain ⟨k, -, rfl⟩ := hmem
        have := hstart k
        omega
    · obtain ⟨s, hmem, hgt⟩ := isRagged_setHeadStarts (c := c) (isRagged_congr he ▸ hr')
      simp only [headStarts, List.map_map, List.mem_map, List.mem_range,
        Function.comp_apply] at hmem
      obtain ⟨k, -, rfl⟩ := hmem
      have := hall.2.2 _ (mem_headStart (k := k) (by omega))
      omega

end Invariant

/-! ## Commits -/

/-- The compaction leaves no head of `c` with a hole. -/
def UniformAfter (c : KVCache) : Option Compaction → Prop
  | none | some .recallLayer => c.isRagged = false
  | some (.keep _) => True
  | some (.keepPerHead heads) => ∀ a ∈ heads, ∀ b ∈ heads, a.length = b.length
  | some (.offload n) => c.isRagged = false ∨ (0 < n ∧ n < c.currentPos ∧ ∀ s ∈ c.headStart, s ≤ n)

instance (c : KVCache) : DecidablePred (UniformAfter c)
  | none | some .recallLayer => inferInstanceAs (Decidable (_ = _))
  | some (.keep _) => inferInstanceAs (Decidable True)
  | some (.keepPerHead _) => inferInstanceAs (Decidable (∀ a ∈ _, ∀ b ∈ _, _))
  | some (.offload _) => inferInstanceAs (Decidable (_ ∨ _))

section Commit

variable {P : Platform} {c : KVCache} {h : EngineCacheHandle P}

theorem typedFloorDtype_cases {target : String} {dtype : DType}
    (h : typedFloorDtype target = some dtype) : dtype = .f32 ∨ dtype = .f16 ∨
    (dtype = .q4_0 ∧ target = "q4_0") := by
  unfold typedFloorDtype at h
  split_ifs at h with h₁ h₂ h₃ <;> cases h
  · exact .inl rfl
  · exact .inr (.inl rfl)
  · exact .inr (.inr ⟨rfl, h₃⟩)

/-- A keep for each head leaves holes only where the lists have unequal lengths. -/
theorem raggedOk_commitPerHeadKeep {heads : List (List ℕ)} {c' : KVCache}
    (hok : commitPerHeadKeep c heads = .ok c') (hlen : heads.length = c.kvHeads)
    (hsup : (¬ ∀ a ∈ heads, ∀ b ∈ heads, a.length = b.length) → c.supportsRagged = true) :
    RaggedOk c' := by
  obtain ⟨c₁, ⟨kb, vb, rfl⟩, rfl⟩ := commitPerHeadKeep_eq hok
  obtain ⟨-, hfmt, -⟩ := setCurrentPos_same (c.withContents kb vb)
    ((heads.map List.length).foldl max 0)
  refine ⟨startsOk_setHeadStarts ?_, fun hr => ?_⟩
  · rw [List.length_map, hlen]
    exact (congrArg Format.kvHeads hfmt).symm
  · obtain ⟨s, hs, hpos⟩ := isRagged_setHeadStarts hr
    obtain ⟨l, hl, rfl⟩ := List.mem_map.mp hs
    have hne : ¬ ∀ a ∈ heads, ∀ b ∈ heads, a.length = b.length := by
      intro hall
      have hle : (heads.map List.length).foldl max 0 ≤ l.length := by
        refine foldl_max_le.mpr ⟨Nat.zero_le _, fun n hn => ?_⟩
        obtain ⟨b, hb, rfl⟩ := List.mem_map.mp hn
        exact (hall b hb l hl).le
      omega
    rw [← hsup hne]
    exact supportsRagged_congr hfmt

/-- **The compaction of a commit**, on the cache that the re-encode and the merges left. -/
theorem raggedOk_commitCompaction (hst : Staged c h) (hc : RaggedOk c) {c₂ : KVCache}
    (hR : Recodes c c₂) (hfmt : c₂.format = c.format ∨ c₂.isOpaque = false)
    (hsup : (c.supportsRagged = true → c₂.supportsRagged = true) ∨ UniformAfter c h.compaction)
    (m : Bool) : RaggedOk (h.commitCompaction c₂ m).2.1 := by
  have hS : StartsOk c₂ := hc.starts.mono hR.headStart hR.kvHeads hR.currentPos.ge
  have hrag : c₂.isRagged = c.isRagged := isRagged_congr hR.headStart
  have hbase : (c.supportsRagged = true → c₂.supportsRagged = true) ∨ c.isRagged = false →
    RaggedOk c₂ := by
    refine fun hor => ⟨hS, fun hr => ?_⟩
    rw [hrag] at hr
    rcases hor with himp | hno
    · exact himp (hc.ragged hr)
    · rw [hno] at hr; cases hr
  -- an opaque store was not re-encoded
  have hopaque : c₂.isOpaque = true → RaggedOk c₂ := by
    intro ho
    refine hbase (.inl fun hs => ?_)
    rw [supportsRagged_congr (hfmt.resolve_right (by rw [ho]; nofun))]
    exact hs
  have hkeep := hst.keep
  have hswap := hst.swap
  unfold EngineCacheHandle.commitCompaction
  cases hk : h.compaction with
  | none =>
    rw [hk] at hsup
    exact hbase hsup
  | some comp =>
    rw [hk] at hsup hkeep hswap
    cases comp with
    | keep keep =>
      simp only
      cases hcomp : c₂.compactKeepPositions keep 0 with
      | ok c' => exact .of_empty rfl
      | error e =>
        refine hopaque ?_
        by_contra ho
        obtain ⟨c', hok⟩ := compactKeepPositions_ok (by simpa using ho) keep 0
        rw [hok] at hcomp
        cases hcomp
    | keepPerHead heads =>
      simp only
      obtain ⟨hl, hlen, -, hequal⟩ := hkeep (.keepPerHead heads) rfl
      obtain ⟨c', hok⟩ := commitPerHeadKeep_ok (hR.layout.trans hl) heads
      rw [hok]
      exact raggedOk_commitPerHeadKeep hok (hlen.trans hR.kvHeads.symm) fun hne =>
        hsup.resolve_right hne (hequal.resolve_left hne)
    | offload n =>
      obtain ⟨sw, hsw⟩ := Option.isSome_iff_exists.mp (hswap n rfl)
      simp only [hsw]
      rcases offloadPrefix_cache (P := P) sw h.layerIdx c₂ n with ⟨hno, he⟩ |
        ⟨h0, hn, ⟨c', hok, he⟩ | ⟨e, herr, he⟩⟩
      · rw [he]
        refine hbase (hsup.imp id fun hu => hu.resolve_right fun hu => ?_)
        rw [hR.currentPos] at hno
        omega
      · rw [he]
        obtain ⟨hS', hf', hr'⟩ := startsOk_prunePrefix hS hok
        refine ⟨hS', fun hr => ?_⟩
        obtain ⟨hr₂, hnot⟩ := hr' hr
        rw [hrag] at hr₂
        rw [hR.headStart, hR.currentPos] at hnot
        rw [supportsRagged_congr hf']
        refine (hsup.resolve_right fun hu => ?_) (hc.ragged hr₂)
        rcases hu with hu | hu
        · rw [hu] at hr₂; cases hr₂
        · exact hnot hu
      · rw [he]
        refine hopaque ?_
        by_contra ho
        obtain ⟨c', hok⟩ := prunePrefix_ok (P := P) (by simpa using ho) hn.le
        rw [hok] at herr
        cases herr
    | recallLayer =>
      cases hsw : h.swap with
      | none => exact hbase hsup
      | some sw => exact (hbase hsup).of_grows (grows_recallLayer sw h.layerIdx c₂)

/-- **A commit** keeps the invariant unless it re-encodes to `Q4_0` and leaves a hole. -/
theorem raggedOk_commit (hst : Staged c h) (hc : RaggedOk c)
    (hsafe : h.reencode = some "q4_0" → UniformAfter c h.compaction) : RaggedOk h.commit.2.1 := by
  obtain ⟨c₁, c₂, m, hM, hre, hout⟩ := commit_cases h
  rcases hout with hout | hout
  swap
  · rw [hout, hst.cache]; exact hc
  rw [hout]
  have hframe := frame_of_moved hM
  have hfmt₂ : c₂.format = c₁.format := congrArg Frame.format hframe
  -- without a re-encode
  have hsame : c₁ = c → RaggedOk (h.commitCompaction c₂ m).2.1 := by
    rintro rfl
    exact raggedOk_commitCompaction hst hc (.of_frame hframe) (.inl hfmt₂)
      (.inl fun hs => (supportsRagged_congr hfmt₂).trans hs) m
  rcases hre with ⟨-, h₁⟩ | ⟨target, htarget, h₁⟩
  · exact hsame (h₁.trans hst.cache)
  rw [hst.cache] at h₁
  rcases h₁ with h₁ | ⟨hR, hdt, ho⟩
  · exact hsame h₁
  have ho₂ : c₂.isOpaque = false := (isOpaque_of_format hfmt₂).trans ho
  refine raggedOk_commitCompaction hst hc (hR.trans (.of_frame hframe)) (.inr ho₂) ?_ m
  have hfloat : c₁.kvDtype = .f32 ∨ c₁.kvDtype = .f16 → c.supportsRagged = true →
    c₂.supportsRagged = true := by
    intro hd hs
    simp only [supportsRagged, Bool.and_eq_true, decide_eq_true_eq] at hs
    rw [supportsRagged_congr hfmt₂]
    simp only [supportsRagged, hR.layout, hs.1.1, ho]
    simpa using hd
  rcases typedFloorDtype_cases hdt with hd | hd | ⟨-, rfl⟩
  · exact .inl (hfloat (.inl hd))
  · exact .inl (hfloat (.inr hd))
  · exact .inr (hsafe htarget)

end Commit

/-! ## Runs -/

/-- A layer: its cache and the swap handler its handles get. -/
structure Layer where
  cache : KVCache
  swap : Option SwapHandler

/-- What changes the cache of a layer: direct operations and committed transactions. -/
inductive LayerOp (P : Platform) where
  | update (newK newV : Tensor)
  | ensureCapacity (minTokens : ℕ)
  | releaseUnusedPages
  | prunePrefix (count : ℕ)
  | setCurrentPos (pos : ℕ)
  | clearHeadStarts
  | commit (layerIdx nLayers : ℕ) (calls : List (HandleCall P))

namespace LayerOp

variable {P : Platform}

/-- The handle of a transaction, before its commit. -/
def handle (l : Layer) (layerIdx nLayers : ℕ) (calls : List (HandleCall P)) : EngineCacheHandle P :=
  runCalls (EngineCacheHandle.new l.cache layerIdx nLayers l.swap) calls

/-- The operation, whether it succeeds or not. -/
def apply : LayerOp P → Layer → Layer
  | update newK newV, l => { l with cache := (l.cache.update P newK newV).2 }
  | ensureCapacity minTokens, l => match l.cache.ensureCapacity minTokens with
    | .ok r => { l with cache := r.2 }
    | .error _ => l
  | releaseUnusedPages, l => match l.cache.releaseUnusedPages P with
    | .ok r => { l with cache := r.2 }
    | .error _ => l
  | prunePrefix count, l => match l.cache.prunePrefix P count with
    | .ok c => { l with cache := c }
    | .error _ => l
  | setCurrentPos pos, l => { l with cache := l.cache.setCurrentPos pos }
  | clearHeadStarts, l => { l with cache := l.cache.clearHeadStarts }
  | commit layerIdx nLayers calls, l =>
    let r := (handle l layerIdx nLayers calls).commit
    ⟨r.2.1, r.2.2⟩

/-- A transaction that re-encodes to `Q4_0` leaves no head with a hole. -/
def Safe (l : Layer) : LayerOp P → Prop
  | commit layerIdx nLayers calls =>
    let h := handle l layerIdx nLayers calls
    h.reencode = some "q4_0" → UniformAfter l.cache h.compaction
  | _ => True

/-- A safe step. -/
def Step (op : LayerOp P) (l l' : Layer) : Prop := op.Safe l ∧ op.apply l = l'

/-- **One safe operation keeps the invariant.** -/
theorem raggedOk_apply {l : Layer} (op : LayerOp P) (h : RaggedOk l.cache) (hsafe : op.Safe l) :
    RaggedOk (op.apply l).cache := by
  cases op with
  | update newK newV => exact h.of_grows (grows_update l.cache newK newV)
  | ensureCapacity minTokens =>
    simp only [apply]
    split
    · rename_i r hr
      exact h.of_grows (.of_frame (frame_ensureCapacity hr))
    · exact h
  | releaseUnusedPages =>
    simp only [apply]
    split
    · rename_i r hr
      exact h.of_grows (.of_frame (frame_releaseUnusedPages P hr))
    · exact h
  | prunePrefix count =>
    simp only [apply]
    split
    · rename_i c' hc'
      obtain ⟨hstarts, hfmt, hr⟩ := startsOk_prunePrefix h.starts hc'
      refine ⟨hstarts, fun hrag => ?_⟩
      rw [supportsRagged_congr hfmt]
      exact h.ragged (hr hrag).1
    · exact h
  | setCurrentPos pos => exact h.setCurrentPos pos
  | clearHeadStarts => exact .of_empty rfl
  | commit layerIdx nLayers calls =>
    exact raggedOk_commit (staged_runCalls l.cache layerIdx nLayers l.swap calls) h hsafe

end LayerOp

/-- **The ragged geometry of a reachable cache.** From a cache without starts, every run in which a
transaction that re-encodes to `Q4_0` leaves no hole. -/
theorem raggedOk_run (P : Platform) {c : KVCache} (hc : c.headStart = [])
    {swap : Option SwapHandler} {ops : List (LayerOp P)} {l : Layer}
    (hrun : Run LayerOp.Step ⟨c, swap⟩ ops l) : RaggedOk l.cache := by
  refine hrun.invariant (I := fun l => RaggedOk l.cache) (fun op l l' h hstep => ?_) (.of_empty hc)
  obtain ⟨hsafe, rfl⟩ := hstep
  exact LayerOp.raggedOk_apply op h hsafe

/-- An empty HeadMajor F32 cache of two heads of 32 values, and two tokens for it. -/
def blankCache : KVCache :=
  newWithGeometry (.host [1, 2, 2, 32] (List.replicate 512 0))
    (.host [1, 2, 2, 32] (List.replicate 512 0)) 2 2 32 .headMajor

def blankTokens : Tensor := .host [1, 2, 2, 32] (List.replicate 512 0)

/-- Two tokens, of which head `1` keeps one. -/
theorem raggedOk_update_keepPerHead : ∃ l, Run LayerOp.Step ⟨blankCache, none⟩
    [.update blankTokens blankTokens,
    .commit (P := .fixedPoint) 0 1 [.keepPerHead [[0, 1], [1]]]] l ∧ l.cache.headStart = [0, 1] ∧
    RaggedOk l.cache := by
  have hrun : ∃ l, l.cache.headStart = [0, 1] ∧ Run LayerOp.Step ⟨blankCache, none⟩
      [.update blankTokens blankTokens,
      .commit (P := .fixedPoint) 0 1 [.keepPerHead [[0, 1], [1]]]] l := by
    refine ⟨_, ?_, .cons ⟨trivial, rfl⟩ (.cons ⟨fun h => ?_, rfl⟩ (.nil _))⟩
    · decide
    · revert h
      decide
  obtain ⟨l, hstarts, hrun⟩ := hrun
  exact ⟨l, hrun, hstarts, raggedOk_run .fixedPoint rfl hrun⟩

/-- **A ragged `Q4_0` cache.** One transaction on two tokens: both calls are accepted, the commit
succeeds, and the cache it leaves cannot hold the geometry it has. -/
theorem reencode_ragged :
    ∃ l, Run (fun (op : LayerOp .fixedPoint) l l' => op.apply l = l') ⟨blankCache, none⟩
    [.update blankTokens blankTokens,
    .commit 0 1 [.reencode "q4_0", .keepPerHead [[0, 1], [1]]]] l ∧ l.cache.isRagged = true ∧
    l.cache.supportsRagged = false := by
  refine ⟨_, .cons rfl (.cons rfl (.nil _)), ?_⟩
  decide

end ArgusEngine
