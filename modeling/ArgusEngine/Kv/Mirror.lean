import ArgusEngine.Kv.Ragged

/-!
# The device mirror of the per-head starts

A GPU kernel reads the starts from a device buffer, uploaded by `head_start_device` when it is new
or dirty. The mirror is right as long as whoever changes a start also sets the dirty flag
(`Tracks`). `set_head_starts` and `clear_head_starts` do; `set_current_pos`, which clamps the
starts, and `prune_prefix` of the whole cache, which drops them, do not.

* `coherent_of_tracks`: a step that tracks keeps the mirror coherent;
* `tracks_apply`: an operation tracks when it drops no start behind the mirror's back;
* **`mirror_run`**: what `head_start_device` returns after every run of such operations;
* `stale_mirror`: a run after which it returns the starts of before.
-/

namespace ArgusEngine

open Runs KVCache

namespace KVCache

/-- The starts as the `i32` array that is uploaded. -/
def startsI32 (c : KVCache) : List (BitVec 32) :=
  (List.range c.kvHeads).map fun h => BitVec.ofNat 32 (c.headStartOf h)

/-- There is a mirror and it will be handed out as it is. -/
def Settled (c : KVCache) : Prop := c.headStartDev ≠ none ∧ c.headStartDirty = false

instance (c : KVCache) : Decidable c.Settled := inferInstanceAs (Decidable (_ ∧ _))

/-- A mirror that is handed out as it is holds the starts. -/
def Coherent (c : KVCache) : Prop :=
  ∀ dev, c.headStartDev = some dev → c.headStartDirty = false → dev = c.startsI32

/-- `c'` comes from `c` without an upload: the flag is set, or nothing changed under a settled
mirror. -/
structure Tracks (c c' : KVCache) : Prop where
  headStartDev : c'.headStartDev = c.headStartDev
  kvHeads : c'.kvHeads = c.kvHeads
  dirty : c'.headStartDirty = true ∨
    (c'.headStartDirty = c.headStartDirty ∧ (c.Settled → ∀ k, c'.headStartOf k = c.headStartOf k))

section Tracks

variable {c c₁ c' : KVCache}

/-- **A step that tracks keeps the mirror coherent.** -/
theorem coherent_of_tracks (h : Coherent c) (ht : Tracks c c') : Coherent c' := by
  intro dev hdev hclean
  rcases ht.dirty with hd | ⟨hd, hsame⟩
  · rw [hd] at hclean; cases hclean
  rw [ht.headStartDev] at hdev
  rw [hd] at hclean
  have hset : c.Settled := ⟨by rw [hdev]; nofun, hclean⟩
  rw [h dev hdev hclean]
  unfold startsI32
  rw [ht.kvHeads]
  exact List.map_congr_left fun k _ => by rw [hsame hset k]

theorem Tracks.of_headStart (hdev : c'.headStartDev = c.headStartDev) (hk : c'.kvHeads = c.kvHeads)
    (hd : c'.headStartDirty = c.headStartDirty) (hs : c'.headStart = c.headStart) : Tracks c c' :=
  ⟨hdev, hk, .inr ⟨hd, fun _ k => by unfold headStartOf; rw [hs]⟩⟩

theorem Tracks.refl (c : KVCache) : Tracks c c := .of_headStart rfl rfl rfl rfl

theorem Tracks.of_grows (h : Grows c c') : Tracks c c' := by
  obtain ⟨n, h⟩ := h
  exact .of_headStart (congrArg Frame.headStartDev h) (congrArg (fun f => f.format.kvHeads) h)
    (congrArg Frame.headStartDirty h) (congrArg Frame.headStart h)

theorem tracks_setHeadStarts (c : KVCache) (starts : List ℕ) : Tracks c (c.setHeadStarts starts) :=
  ⟨rfl, rfl, .inl rfl⟩

/-- **`clear_head_starts`** sets the flag when there is something to clear. -/
theorem tracks_clearHeadStarts (c : KVCache) : Tracks c c.clearHeadStarts := by
  unfold clearHeadStarts
  cases hs : c.headStart with
  | nil => exact .of_headStart rfl rfl rfl hs.symm
  | cons a l => exact ⟨rfl, rfl, .inl rfl⟩

/-- **`set_current_pos`** does not set the flag: it tracks where no start is above the new
cursor. -/
theorem tracks_setCurrentPos {n : ℕ} (h : c.Settled → ∀ s ∈ c.headStart, s ≤ n) :
    Tracks c (c.setCurrentPos n) := by
  unfold setCurrentPos
  split_ifs with h0
  · refine ⟨rfl, rfl, .inr ⟨rfl, fun hset k => ?_⟩⟩
    have hr : c.isRagged = false := by
      simp only [isRagged, List.any_eq_false, decide_eq_true_eq]
      intro s hs
      have := h hset s hs
      omega
    rw [headStartOf_eq_zero hr]
    rfl
  · refine ⟨rfl, rfl, .inr ⟨rfl, fun hset k => ?_⟩⟩
    have hmap : c.headStart.map (min · n) = c.headStart :=
      (List.map_congr_left fun s hs => Nat.min_eq_left (h hset s hs)).trans (List.map_id _)
    unfold headStartOf
    simp only [hmap]

/-- **`prune_prefix`** tracks unless it drops the whole of a ragged cache. -/
theorem tracks_prunePrefix {P : Platform} {n : ℕ} (h : c.prunePrefix P n = .ok c')
    (hw : c.Settled → n = c.currentPos → c.isRagged = false) : Tracks c c' := by
  rcases frame_prunePrefix h with ⟨-, rfl⟩ | ⟨-, hn, hf⟩ | ⟨-, -, hf⟩
  · exact .refl _
  · refine ⟨congrArg Frame.headStartDev hf, congrArg (fun f => f.format.kvHeads) hf,
      .inr ⟨congrArg Frame.headStartDirty hf, fun hset k => ?_⟩⟩
    have hs : c'.headStart = [] := congrArg Frame.headStart hf
    rw [headStartOf_eq_zero (hw hset hn)]
    unfold headStartOf
    rw [hs]
    rfl
  · have hdev : c'.headStartDev = (c.shrinkHoles n).headStartDev := congrArg Frame.headStartDev hf
    have hheads : c'.kvHeads = (c.shrinkHoles n).kvHeads := congrArg (fun f => f.format.kvHeads) hf
    have hdirty : c'.headStartDirty = (c.shrinkHoles n).headStartDirty :=
      congrArg Frame.headStartDirty hf
    have hstart : c'.headStart = (c.shrinkHoles n).headStart := congrArg Frame.headStart hf
    unfold shrinkHoles at hdev hheads hdirty hstart
    split_ifs at hdev hheads hdirty hstart
    · exact ⟨hdev, hheads, .inl hdirty⟩
    · exact .of_headStart hdev hheads hdirty hstart

theorem Tracks.of_recodes (hr : Recodes c c₁) (h : Tracks c₁ c') : Tracks c c' := by
  refine ⟨h.headStartDev.trans hr.headStartDev, h.kvHeads.trans hr.kvHeads,
    h.dirty.imp id fun hd => ?_⟩
  refine ⟨hd.1.trans hr.headStartDirty, fun hset k => ?_⟩
  have hset₁ : c₁.Settled := ⟨hr.headStartDev ▸ hset.1, hr.headStartDirty.trans hset.2⟩
  rw [hd.2 hset₁ k]
  unfold headStartOf
  rw [hr.headStart]

end Tracks

end KVCache

/-! ## Commits -/

section Commit

variable {P : Platform} {c : KVCache} {h : EngineCacheHandle P}

/-- A layer-wide keep: the cursor first, then the starts, so that an empty keep clears the starts
without setting the flag. -/
theorem tracks_keep {c' : KVCache} (hM : Moved c c') {keep : List ℕ}
    (hw : c.Settled → keep = [] → c.isRagged = false) :
    Tracks c (c'.setCurrentPos keep.length).clearHeadStarts := by
  refine .of_recodes (.of_frame (frame_of_moved hM)) ?_
  obtain ⟨kb, vb, rfl⟩ := hM
  cases keep with
  | nil =>
    refine ⟨rfl, rfl, .inr ⟨rfl, fun hset k => ?_⟩⟩
    exact (headStartOf_eq_zero (hw hset rfl) k).symm
  | cons a l =>
    have hpos : (a :: l).length ≠ 0 := by simp
    unfold KVCache.setCurrentPos
    rw [if_neg hpos]
    unfold KVCache.clearHeadStarts
    cases hs : (c.withContents kb vb).headStart with
    | nil => exact .of_headStart rfl rfl rfl hs.symm
    | cons b l => exact ⟨rfl, rfl, .inl rfl⟩

theorem tracks_keepPerHead {c' : KVCache} {heads : List (List ℕ)}
    (h : commitPerHeadKeep c heads = .ok c') : Tracks c c' := by
  obtain ⟨c₁, ⟨kb, vb, rfl⟩, rfl⟩ := commitPerHeadKeep_eq h
  unfold KVCache.setCurrentPos KVCache.setHeadStarts
  split_ifs <;> exact ⟨rfl, rfl, .inl rfl⟩

theorem tracks_commitCompaction (hw : c.Settled → h.compaction = some (.keep []) →
    c.isRagged = false) (m : Bool) : Tracks c (h.commitCompaction c m).2.1 := by
  unfold EngineCacheHandle.commitCompaction
  cases hk : h.compaction with
  | none => exact .refl c
  | some comp =>
    rw [hk] at hw
    cases comp with
    | keep keep =>
      simp only
      cases hcomp : c.compactKeepPositions keep 0 with
      | error e => exact .refl c
      | ok c' =>
        exact tracks_keep (moved_compactKeepPositions hcomp) fun hset he => hw hset (by rw [he])
    | keepPerHead heads =>
      simp only
      cases hcomp : commitPerHeadKeep c heads with
      | error e => exact .refl c
      | ok c' => exact tracks_keepPerHead hcomp
    | offload n =>
      cases hsw : h.swap with
      | none => exact .refl c
      | some sw =>
        simp only
        rcases offloadPrefix_cache (P := P) sw h.layerIdx c n with ⟨-, he⟩ |
          ⟨-, hn, ⟨c', hok, he⟩ | ⟨e, -, he⟩⟩
        · rw [he]; exact .refl c
        · rw [he]; exact tracks_prunePrefix hok fun _ hall => absurd hall hn.ne
        · rw [he]; exact .refl c
    | recallLayer =>
      cases hsw : h.swap with
      | none => exact .refl c
      | some sw => exact .of_grows (grows_recallLayer sw h.layerIdx c)

/-- **A commit** tracks unless it keeps no position of a ragged cache. -/
theorem tracks_commit (hw : h.cache.Settled → h.compaction = some (.keep []) →
    h.cache.isRagged = false) : Tracks h.cache h.commit.2.1 := by
  obtain ⟨c₁, c₂, m, hM, hre, hout⟩ := commit_cases h
  rcases hout with hout | hout
  swap
  · rw [hout]; exact .refl _
  have hR : Recodes h.cache c₂ := by
    have hM₂ : Recodes c₁ c₂ := .of_frame (frame_of_moved hM)
    rcases hre with ⟨-, rfl⟩ | ⟨target, -, rfl | ⟨hR, -⟩⟩
    · exact hM₂
    · exact hM₂
    · exact hR.trans hM₂
  rw [hout]
  refine .of_recodes hR (tracks_commitCompaction (fun hset hk => ?_) m)
  rw [isRagged_congr hR.headStart]
  exact hw ⟨hR.headStartDev ▸ hset.1, hR.headStartDirty.symm.trans hset.2⟩ hk

end Commit

/-! ## Runs -/

/-- What changes the starts or the mirror of a layer. -/
inductive MirrorOp (P : Platform) where
  | layer (op : LayerOp P)
  | setHeadStarts (starts : List ℕ)
  | headStartDevice

namespace MirrorOp

variable {P : Platform}

def apply : MirrorOp P → Layer → Layer
  | layer op, l => op.apply l
  | setHeadStarts starts, l => { l with cache := l.cache.setHeadStarts starts }
  | headStartDevice, l => { l with cache := l.cache.headStartDevice.2 }

/-- Under a settled mirror: no start above the cursor that is set, and no drop of every position of
a ragged cache, by a prune or by an empty keep. -/
def Safe (l : Layer) : MirrorOp P → Prop
  | layer (.setCurrentPos pos) => l.cache.Settled → ∀ s ∈ l.cache.headStart, s ≤ pos
  | layer (.prunePrefix count) =>
    l.cache.Settled → count = l.cache.currentPos → l.cache.isRagged = false
  | layer (.commit layerIdx nLayers calls) =>
    l.cache.Settled → (LayerOp.handle l layerIdx nLayers calls).compaction = some (.keep []) →
      l.cache.isRagged = false
  | _ => True

/-- A safe step. -/
def Step (op : MirrorOp P) (l l' : Layer) : Prop := op.Safe l ∧ op.apply l = l'

/-- **A safe operation tracks.** -/
theorem tracks_apply {l : Layer} (op : LayerOp P) (hsafe : (layer op).Safe l) :
    Tracks l.cache (op.apply l).cache := by
  cases op with
  | update newK newV => exact .of_grows (grows_update l.cache newK newV)
  | ensureCapacity minTokens =>
    simp only [LayerOp.apply]
    split
    · rename_i r hr
      exact .of_grows (.of_frame (frame_ensureCapacity hr))
    · exact .refl _
  | releaseUnusedPages =>
    simp only [LayerOp.apply]
    split
    · rename_i r hr
      exact .of_grows (.of_frame (frame_releaseUnusedPages P hr))
    · exact .refl _
  | prunePrefix count =>
    simp only [LayerOp.apply]
    split
    · rename_i c' hc'
      exact tracks_prunePrefix hc' hsafe
    · exact .refl _
  | setCurrentPos pos => exact tracks_setCurrentPos hsafe
  | clearHeadStarts => exact tracks_clearHeadStarts l.cache
  | commit layerIdx nLayers calls =>
    have hcache := (staged_runCalls l.cache layerIdx nLayers l.swap calls).cache
    have ht := tracks_commit (h := LayerOp.handle l layerIdx nLayers calls) (by
      unfold LayerOp.handle
      rw [hcache]
      exact hsafe)
    unfold LayerOp.handle at ht
    rw [hcache] at ht
    exact ht

/-- **`head_start_device` on a coherent cache**: nothing, or the starts. -/
theorem headStartDevice_eq {c : KVCache} (h : Coherent c) : c.headStartDevice = (none, c) ∨
    c.headStartDevice = (some c.startsI32, { c with headStartDev := some c.startsI32,
                                                    headStartDirty := false }) := by
  unfold KVCache.headStartDevice
  by_cases h₁ : (!c.kBuffer.isGpu) = true
  · exact .inl (if_pos h₁)
  by_cases h₂ : (c.headStartDev.isNone && !c.isRagged) = true
  · exact .inl ((if_neg h₁).trans (if_pos h₂))
  refine .inr ((if_neg h₁).trans ((if_neg h₂).trans ?_))
  cases hd : c.headStartDev with
  | none => rfl
  | some dev =>
    simp only
    split_ifs with hdirty
    · rfl
    · rw [h dev hd (by simpa using hdirty)]

theorem coherent_headStartDevice {c : KVCache} (h : Coherent c) : Coherent c.headStartDevice.2 := by
  rcases headStartDevice_eq h with he | he
  · rw [he]; exact h
  · rw [he]
    rintro dev ⟨⟩ -
    rfl

theorem coherent_apply {l : Layer} (op : MirrorOp P) (h : Coherent l.cache) (hsafe : op.Safe l) :
    Coherent (op.apply l).cache := by
  cases op with
  | layer op => exact coherent_of_tracks h (tracks_apply op hsafe)
  | setHeadStarts starts => exact coherent_of_tracks h (tracks_setHeadStarts l.cache starts)
  | headStartDevice => exact coherent_headStartDevice h

end MirrorOp

/-- **Device-mirror coherence.** From a cache that has no mirror yet, after every run of safe
operations the mirror that `head_start_device` returns holds the start of every head as an `i32`. -/
theorem mirror_run (P : Platform) {c : KVCache} (hc : c.headStartDev = none)
    {swap : Option SwapHandler} {ops : List (MirrorOp P)} {l : Layer}
    (hrun : Run MirrorOp.Step ⟨c, swap⟩ ops l) {dev : List (BitVec 32)}
    (hdev : l.cache.headStartDevice.1 = some dev) :
    dev.length = l.cache.kvHeads ∧ ∀ h < l.cache.kvHeads,
      dev.getD h 0 = BitVec.ofNat 32 (l.cache.headStartOf h) ∧
      (l.cache.headStartOf h < 2 ^ 31 → (dev.getD h 0).toInt = l.cache.headStartOf h) := by
  have hcoh : Coherent l.cache := by
    refine hrun.invariant (I := fun l => Coherent l.cache) (fun op l l' h hstep => ?_) ?_
    · obtain ⟨hsafe, rfl⟩ := hstep
      exact MirrorOp.coherent_apply op h hsafe
    · intro dev hd
      rw [hc] at hd
      cases hd
  have heq : l.cache.startsI32 = dev := by
    rcases MirrorOp.headStartDevice_eq hcoh with he | he
    · rw [he] at hdev; cases hdev
    · rw [he] at hdev; exact Option.some.inj hdev
  subst heq
  refine ⟨by simp [startsI32], fun h hh => ?_⟩
  have hget : l.cache.startsI32.getD h 0 = BitVec.ofNat 32 (l.cache.headStartOf h) := by
    rw [List.getD_eq_getElem _ _ (by simpa [startsI32] using hh)]
    simp [startsI32]
  refine ⟨hget, fun hlt => ?_⟩
  have hnat : (BitVec.ofNat 32 (l.cache.headStartOf h)).toNat = l.cache.headStartOf h := by
    rw [BitVec.toNat_ofNat]
    exact Nat.mod_eq_of_lt (by omega)
  rw [hget, BitVec.toInt_eq_toNat_of_lt (by omega), hnat]

/-- `blankCache` on a GPU backend, its buffers mapped to the host. -/
def gpuCache : KVCache :=
  { blankCache with kBuffer.isGpu := true, vBuffer.isGpu := true }

/-- Two tokens, of which head `1` keeps one, and the upload. -/
def raggedUpload : List (MirrorOp .fixedPoint) :=
  [.layer (.update blankTokens blankTokens), .layer (.commit 0 1 [.keepPerHead [[0, 1], [1]]]),
    .headStartDevice]

/-- The starts back to zero, by `clear_head_starts`. -/
theorem mirror_clearHeadStarts : ∃ l dev, Run MirrorOp.Step ⟨gpuCache, none⟩
    (raggedUpload ++ [.layer .clearHeadStarts]) l ∧ l.cache.headStartDev = some [0, 1] ∧
    l.cache.headStartDevice.1 = some dev ∧ ∀ h < 2, dev.getD h 0 = 0 := by
  have hrun : ∃ l, Run MirrorOp.Step ⟨gpuCache, none⟩
    (raggedUpload ++ [.layer .clearHeadStarts]) l ∧
      l.cache.headStartDev = some [0, 1] ∧ l.cache.headStartDevice.1 = some [0, 0] ∧
      l.cache.headStarts = [0, 0] ∧ l.cache.kvHeads = 2 := by
    refine ⟨_, .cons ⟨trivial, rfl⟩
      (.cons ⟨fun h => ?_, rfl⟩ (.cons ⟨trivial, rfl⟩ (.cons ⟨trivial, rfl⟩ (.nil _)))), ?_⟩
    · revert h; decide
    · decide
  obtain ⟨l, hrun, hold, hdev, hstarts, hheads⟩ := hrun
  refine ⟨l, _, hrun, hold, hdev, fun h hh => ?_⟩
  have hzero : l.cache.headStartOf h = 0 := by
    have hmem : l.cache.headStartOf h ∈ l.cache.headStarts :=
      List.mem_map.mpr ⟨h, by simp [hheads, hh], rfl⟩
    rw [hstarts] at hmem
    simpa using hmem
  rw [((mirror_run .fixedPoint rfl hrun hdev).2 h (hheads ▸ hh)).1, hzero]
  rfl

/-- **A stale mirror.** After the same upload the cursor is set to `0`: no head has a start any
more, and `head_start_device` returns the old start of head `1`. -/
theorem stale_mirror : ∃ l, Run (fun op l l' => op.apply l = l') ⟨gpuCache, none⟩
    (raggedUpload ++ [.layer (.setCurrentPos 0)]) l ∧ l.cache.headStartDevice.1 = some [0, 1] ∧
    l.cache.headStarts = [0, 0] := by
  refine ⟨_, .cons rfl (.cons rfl (.cons rfl (.cons rfl (.nil _)))), ?_⟩
  decide

end ArgusEngine
