import ArgusEngine.Kv.Staged

/-!
# The handle of the whole model

`EngineModelCacheHandle` is the mutation surface over all layers: a keep is checked once, against
the frame of the first layer and the latest start that any layer has for a head, and committed layer
after layer.

* `EngineModelCacheHandle`, with `keep`, `keepPerHead` and `commit`;
* `stage_ok_iff`: what it accepts is what every layer accepts;
* `commitLayers_eq`: the loop of `commit`, where each layer succeeds;
* **`model_keep`**: a keep of the whole model is the same keep of every layer.
-/

namespace ArgusEngine

open KVCache

structure EngineModelCacheHandle where
  caches : List KVCache
  entryPos : ℕ
  nKvHeads : ℕ
  headDim : ℕ
  onDevice : Bool
  compaction : Option Compaction
  mutated : Bool

namespace EngineModelCacheHandle

/-- `new`: the frame is the one of the first layer. -/
def new : List KVCache → Except Fail EngineModelCacheHandle
  | [] => .error (.panic "index out of bounds: the len is 0 but the index is 0")
  | c₀ :: cs =>
    .ok ⟨c₀ :: cs, c₀.currentPos, c₀.kvHeads, c₀.headDim, c₀.kBuffer.buffer.isGpuBuffer,
      none, false⟩

variable (h : EngineModelCacheHandle)

def validateKeep (keep : List ℕ) : Except CacheOpError Unit :=
  EngineCacheHandle.validateFrom h.entryPos none keep

/-- `resident_floor`: the first slot that every layer's head holds. -/
def residentFloor (kvHead : ℕ) : ℕ := (h.caches.map fun c => c.headStartOf kvHead).foldl max 0

def setCompaction (c : Compaction) : Except CacheOpError Unit × EngineModelCacheHandle :=
  if h.compaction.isSome then (.error .multipleCompactions, h)
    else (.ok (), { h with compaction := some c })

def keep (keep : List ℕ) : Except CacheOpError Unit × EngineModelCacheHandle :=
  match h.validateKeep keep with
  | .error e => (.error e, h)
  | .ok () =>
    let floor := ((List.range h.nKvHeads).map h.residentFloor).foldl max 0
    if keep.head?.any fun p => decide (p < floor) then (.error .notResident, h)
    else h.setCompaction (.keep keep)

/-- The check loop of `keep_per_head` over the heads from `kvHead` on. -/
def validateHeads : ℕ → List (List ℕ) → Except CacheOpError Unit
  | _, [] => .ok ()
  | kvHead, head :: rest =>
    match h.validateKeep head with
    | .error e => .error e
    | .ok () =>
      if head.head?.any fun p => decide (p < h.residentFloor kvHead) then .error .notResident
      else validateHeads (kvHead + 1) rest

def keepPerHead (keep : List (List ℕ)) : Except CacheOpError Unit × EngineModelCacheHandle :=
  if keep.length ≠ h.nKvHeads then (.error .invalidKeep, h)
  else match h.validateHeads 0 keep with
    | .error e => (.error e, h)
    | .ok () =>
      if h.caches.any fun c => decide (c.layout ≠ .headMajor) then (.error .wrongContainer, h)
      else if !EngineCacheHandle.equalLengths keep && h.caches.any fun c => !c.supportsRagged then
        (.error .wrongContainer, h)
      else h.setCompaction (.keepPerHead keep)

/-- Make a keep call. -/
def stage (k : KeepCall) : Except CacheOpError Unit × EngineModelCacheHandle :=
  match k with
  | .keep positions => h.keep positions
  | .keepPerHead positions => h.keepPerHead positions

/-- The loop of `commit`: a layer that fails ends it, and the layers before are committed. -/
def commitLayers (step : KVCache → Except Fail KVCache) :
    List KVCache → Except Fail Unit × List KVCache
  | [] => (.ok (), [])
  | c :: cs => match step c with
    | .error e => (.error e, c :: cs)
    | .ok c' =>
      let r := commitLayers step cs
      (r.1, c' :: r.2)

/-- `commit`: whether bytes changed, and the layers. -/
def commit : Except Fail Bool × List KVCache :=
  let fanOut (step : KVCache → Except Fail KVCache) : Except Fail Bool × List KVCache :=
    let r := commitLayers step h.caches
    (r.1.map fun _ => true, r.2)
  match h.compaction with
  | some (.keep keep) => fanOut fun c =>
      (c.compactKeepPositions keep 0).map fun c' => (c'.setCurrentPos keep.length).clearHeadStarts
  | some (.keepPerHead heads) => fanOut fun c => commitPerHeadKeep c heads
  | some (.offload _) => (.ok h.mutated, h.caches)
  | some .recallLayer => (.ok h.mutated, h.caches)
  | none => (.ok h.mutated, h.caches)

end EngineModelCacheHandle

/-! ## What is accepted -/

namespace EngineModelCacheHandle

variable {h : EngineModelCacheHandle}

theorem residentFloor_le {kvHead p : ℕ} : h.residentFloor kvHead ≤ p ↔ ∀ c ∈ h.caches,
    c.headStartOf kvHead ≤ p := by
  rw [residentFloor, foldl_max_le]
  simp

theorem validateKeep_ok {keep : List ℕ} :
    h.validateKeep keep = .ok () ↔ (∀ p ∈ keep, p < h.entryPos) ∧ keep.Pairwise (· < ·) := by
  rw [validateKeep, EngineCacheHandle.validateFrom_ok]
  simp

theorem head?_floor {keep : List ℕ} (hasc : keep.Pairwise (· < ·)) (floor : ℕ) :
    ¬ (keep.head?.any fun p => decide (p < floor)) = true ↔ ∀ p ∈ keep, floor ≤ p := by
  rw [Bool.not_eq_true]
  exact EngineCacheHandle.head?_lt_iff hasc floor

variable (hopen : h.compaction = none)

include hopen

theorem keep_ok {keep : List ℕ} : (h.keep keep).1 = .ok () ↔ keep.Pairwise (· < ·) ∧
    (∀ p ∈ keep, p < h.entryPos) ∧ ∀ k < h.nKvHeads, ∀ c ∈ h.caches, ∀ p ∈ keep,
    c.headStartOf k ≤ p := by
  have hv : h.validateKeep keep = .ok () ↔ _ := validateKeep_ok
  have hfloor : ∀ p, ((List.range h.nKvHeads).map h.residentFloor).foldl max 0 ≤ p ↔
      ∀ k < h.nKvHeads, ∀ c ∈ h.caches, c.headStartOf k ≤ p := by
    intro p
    rw [foldl_max_le]
    simp [residentFloor_le]
  unfold EngineModelCacheHandle.keep
  cases hk : h.validateKeep keep with
  | error e =>
    rw [hk] at hv
    refine ⟨nofun, fun hok => ?_⟩
    cases hv.mpr ⟨hok.2.1, hok.1⟩
  | ok u =>
    obtain ⟨hlt, hasc⟩ := hv.mp hk
    have hfirst := head?_floor hasc (((List.range h.nKvHeads).map h.residentFloor).foldl max 0)
    dsimp only
    split_ifs with hb
    · refine ⟨nofun, fun hok =>
        absurd hb (hfirst.mpr fun p hp => (hfloor p).mpr fun k hk c hc => ?_)⟩
      exact hok.2.2 k hk c hc p hp
    · rw [setCompaction, hopen, if_neg (by simp)]
      exact ⟨fun _ => ⟨hasc, hlt, fun k hk c hc p hp => (hfloor p).mp (hfirst.mp hb p hp)
        k hk c hc⟩, fun _ => rfl⟩

omit hopen in
theorem validateHeads_ok {heads : List (List ℕ)} (k : ℕ) : h.validateHeads k heads = .ok () ↔
    ∀ i (hi : i < heads.length), (∀ p ∈ heads[i], p < h.entryPos) ∧ heads[i].Pairwise (· < ·) ∧
      ∀ c ∈ h.caches, ∀ p ∈ heads[i], c.headStartOf (k + i) ≤ p := by
  induction heads generalizing k with
  | nil => simp [validateHeads]
  | cons head rest ih =>
    have hv : h.validateKeep head = .ok () ↔ _ := validateKeep_ok
    rw [validateHeads]
    cases hk : h.validateKeep head with
    | error e =>
      rw [hk] at hv
      refine ⟨nofun, fun hall => ?_⟩
      have h0 := hall 0 (Nat.zero_lt_succ _)
      cases hv.mpr ⟨h0.1, h0.2.1⟩
    | ok u =>
      obtain ⟨hlt, hasc⟩ := hv.mp hk
      have hfirst := head?_floor hasc (h.residentFloor k)
      dsimp only
      split_ifs with hb
      · refine ⟨nofun, fun hall =>
          absurd hb (hfirst.mpr fun p hp => residentFloor_le.mpr fun c hc => ?_)⟩
        exact (hall 0 (Nat.zero_lt_succ _)).2.2 c hc p hp
      · rw [ih]
        constructor
        · intro hall i hi
          cases i with
          | zero => exact ⟨hlt, hasc, fun c hc p hp => residentFloor_le.mp (hfirst.mp hb p hp) c hc⟩
          | succ i =>
            have hi' := hall i (Nat.lt_of_succ_lt_succ hi)
            rw [Nat.add_assoc, Nat.add_comm 1 i] at hi'
            exact hi'
        · intro hall i hi
          rw [Nat.add_assoc, Nat.add_comm 1 i]
          exact hall (i + 1) (Nat.succ_lt_succ hi)

theorem keepPerHead_ok {heads : List (List ℕ)} :
    (h.keepPerHead heads).1 = .ok () ↔ heads.length = h.nKvHeads ∧
    (∀ i (hi : i < heads.length), (∀ p ∈ heads[i], p < h.entryPos) ∧ heads[i].Pairwise (· < ·) ∧
      ∀ c ∈ h.caches, ∀ p ∈ heads[i], c.headStartOf i ≤ p) ∧
    (∀ c ∈ h.caches, c.layout = .headMajor) ∧
    ((∀ a ∈ heads, ∀ b ∈ heads, a.length = b.length) ∨ ∀ c ∈ h.caches,
      c.supportsRagged = true) := by
  have hv : h.validateHeads 0 heads = .ok () ↔ _ := validateHeads_ok 0
  simp only [Nat.zero_add] at hv
  rw [← EngineCacheHandle.equalLengths_iff]
  unfold keepPerHead
  by_cases hlen : heads.length ≠ h.nKvHeads
  · rw [if_pos hlen]
    exact ⟨nofun, fun hok => absurd hok.1 hlen⟩
  rw [if_neg hlen]
  cases hk : h.validateHeads 0 heads with
  | error e =>
    rw [hk] at hv
    refine ⟨nofun, fun hok => ?_⟩
    cases hv.mpr hok.2.1
  | ok u =>
    dsimp only
    have hlayout : (h.caches.any fun c => decide (c.layout ≠ .headMajor)) = true ↔
        ¬ ∀ c ∈ h.caches, c.layout = .headMajor := by
      simp
    have hragged : (!EngineCacheHandle.equalLengths heads && h.caches.any fun c =>
      !c.supportsRagged) = true ↔
        ¬ (EngineCacheHandle.equalLengths heads = true ∨ ∀ c ∈ h.caches,
          c.supportsRagged = true) := by
      simp
    split_ifs with h₁ h₂
    · exact ⟨nofun, fun hok => absurd hok.2.2.1 (hlayout.mp h₁)⟩
    · exact ⟨nofun, fun hok => absurd hok.2.2.2 (hragged.mp h₂)⟩
    · rw [setCompaction, hopen, if_neg (by simp)]
      exact ⟨fun _ => ⟨not_not.mp hlen, hv.mp hk, not_not.mp fun hno => h₁ (hlayout.mpr hno),
        not_not.mp fun hno => h₂ (hragged.mpr hno)⟩, fun _ => rfl⟩

omit hopen in
theorem stage_cases (h : EngineModelCacheHandle) (k : KeepCall) :
    (∃ e, h.stage k = (.error e, h)) ∨ h.stage k = h.setCompaction k.compaction := by
  cases k with
  | keep positions =>
    unfold stage EngineModelCacheHandle.keep
    dsimp only
    cases h.validateKeep positions with
    | error e => exact .inl ⟨e, rfl⟩
    | ok u =>
      dsimp only
      split_ifs
      · exact .inl ⟨_, rfl⟩
      · exact .inr rfl
  | keepPerHead positions =>
    unfold stage keepPerHead
    dsimp only
    cases h.validateHeads 0 positions with
    | error e =>
      dsimp only
      split_ifs
      · exact .inl ⟨_, rfl⟩
      · exact .inl ⟨_, rfl⟩
    | ok u =>
      dsimp only
      split_ifs
      · exact .inl ⟨_, rfl⟩
      · exact .inl ⟨_, rfl⟩
      · exact .inl ⟨_, rfl⟩
      · exact .inr rfl

theorem stage_of_ok {k : KeepCall} (hok : (h.stage k).1 = .ok ()) :
    (h.stage k).2 = { h with compaction := some k.compaction } := by
  rcases stage_cases h k with ⟨e, he⟩ | hset
  · rw [he] at hok
    cases hok
  · rw [hset, setCompaction, hopen]
    rfl

theorem stage_of_error {k : KeepCall} (hno : (h.stage k).1 ≠ .ok ()) : (h.stage k).2 = h := by
  rcases stage_cases h k with ⟨e, he⟩ | hset
  · rw [he]
  · rw [hset, setCompaction, hopen] at hno
    exact absurd rfl hno

omit hopen in
theorem commitLayers_eq {step : KVCache → Except Fail KVCache} {caches layers : List KVCache}
    (hlen : layers.length = caches.length)
    (hstep : ∀ (i : ℕ) c c', caches[i]? = some c → layers[i]? = some c' → step c = .ok c') :
    commitLayers step caches = (.ok (), layers) := by
  induction caches generalizing layers with
  | nil => rw [List.length_eq_zero_iff.mp hlen, commitLayers]
  | cons c cs ih =>
    obtain ⟨c', cs', rfl⟩ := List.exists_cons_of_length_eq_add_one hlen
    rw [commitLayers, hstep 0 c c' rfl rfl]
    dsimp only
    rw [ih (Nat.succ.inj hlen) fun i d d' hd hd' => hstep (i + 1) d d' hd hd']

end EngineModelCacheHandle

/-! ## A keep of the whole model -/

/-- The layers share their frame. -/
def SharedFrame (caches : List KVCache) : Prop :=
  ∀ c ∈ caches, ∀ c' ∈ caches, c.currentPos = c'.currentPos ∧ c.kvHeads = c'.kvHeads ∧
    c.headDim = c'.headDim

namespace EngineModelCacheHandle

variable {caches : List KVCache} {h : EngineModelCacheHandle}

theorem new_eq (hnew : new caches = .ok h) (hshared : SharedFrame caches) :
    h.caches = caches ∧ h.compaction = none ∧ h.mutated = false ∧ caches ≠ [] ∧
      ∀ c ∈ caches, c.currentPos = h.entryPos ∧ c.kvHeads = h.nKvHeads := by
  cases caches with
  | nil => cases hnew
  | cons c₀ cs =>
    obtain rfl := Except.ok.inj hnew
    refine ⟨rfl, rfl, rfl, List.cons_ne_nil _ _, fun c hc => ?_⟩
    exact ⟨(hshared c hc c₀ List.mem_cons_self).1, (hshared c hc c₀ List.mem_cons_self).2.1⟩

/-- **What the model accepts is what every layer accepts.** -/
theorem stage_ok_iff (hnew : new caches = .ok h) (hshared : SharedFrame caches) (k : KeepCall) :
    (h.stage k).1 = .ok () ↔ ∀ c ∈ caches, k.Accepted c := by
  obtain ⟨hcaches, hopen, -, hne, hframe⟩ := new_eq hnew hshared
  obtain ⟨c₀, hc₀⟩ := List.exists_mem_of_ne_nil _ hne
  cases k with
  | keep positions =>
    refine (keep_ok hopen).trans ?_
    rw [hcaches]
    constructor
    · rintro ⟨hasc, hlt, hstart⟩ c hc
      obtain ⟨hpos, hheads⟩ := hframe c hc
      exact ⟨hasc, fun p hp => hpos ▸ hlt p hp, fun i hi p hp => hstart i (hheads ▸ hi) c hc p hp⟩
    · intro hall
      obtain ⟨hpos, -⟩ := hframe c₀ hc₀
      refine ⟨(hall c₀ hc₀).1, fun p hp => hpos ▸ (hall c₀ hc₀).2.1 p hp, fun i hi c hc p hp => ?_⟩
      exact (hall c hc).2.2 i ((hframe c hc).2.symm ▸ hi) p hp
  | keepPerHead positions =>
    refine (keepPerHead_ok hopen).trans ?_
    rw [hcaches]
    constructor
    · rintro ⟨hlen, hlists, hlayout, hragged⟩ c hc
      obtain ⟨hpos, hheads⟩ := hframe c hc
      refine ⟨hlayout c hc, hlen.trans hheads.symm, fun i hi => ?_,
        hragged.imp_right fun hr => hr c hc⟩
      exact ⟨fun p hp => hpos ▸ (hlists i hi).1 p hp, (hlists i hi).2.1, (hlists i hi).2.2 c hc⟩
    · intro hall
      obtain ⟨hpos, hheads⟩ := hframe c₀ hc₀
      obtain ⟨-, hlen, hlists, heven⟩ := hall c₀ hc₀
      refine ⟨hlen.trans hheads, fun i hi =>
        ⟨fun p hp => hpos ▸ (hlists i hi).1 p hp, (hlists i hi).2.1, fun c hc =>
        ((hall c hc).2.2.1 i hi).2.2⟩, fun c hc => (hall c hc).1, ?_⟩
      by_cases hequal : ∀ a ∈ positions, ∀ b ∈ positions, a.length = b.length
      · exact .inl hequal
      · exact .inr fun c hc => (hall c hc).2.2.2.resolve_left hequal

end EngineModelCacheHandle

/-- What the commit of a keep does to a layer. -/
def KeepCall.step : KeepCall → KVCache → Except Fail KVCache
  | .keep positions, c =>
    (c.compactKeepPositions positions 0).map fun c' =>
      (c'.setCurrentPos positions.length).clearHeadStarts
  | .keepPerHead positions, c => commitPerHeadKeep c positions

theorem KeepCall.step_of_commit {P : Platform} {c c' : KVCache} {layerIdx nLayers : ℕ}
    {swap : Option SwapHandler} {k : KeepCall} (hk : k.Accepted c)
    (hcommit : (k.stage (EngineCacheHandle.new c layerIdx nLayers
      swap : EngineCacheHandle P)).2.commit = (.ok true, c', swap)) : k.step c = .ok c' := by
  have hstaged :
    (k.stage (EngineCacheHandle.new c layerIdx nLayers swap : EngineCacheHandle P)).2 = _ :=
    (HandleCall.apply_of_ok ((KeepCall.stage_ok c layerIdx nLayers swap k).mpr hk)).1
  rw [hstaged] at hcommit
  cases k with
  | keep positions =>
    simp only [KeepCall.call, HandleCall.staged, EngineCacheHandle.commit,
      EngineCacheHandle.commitValues, EngineCacheHandle.commitReencode,
      EngineCacheHandle.commitMerges, EngineCacheHandle.new,
      EngineCacheHandle.commitCompaction] at hcommit
    unfold step
    dsimp only
    cases hcompact : c.compactKeepPositions positions 0 with
    | error e =>
      rw [hcompact] at hcommit
      cases hcommit
    | ok c₁ =>
      rw [hcompact] at hcommit
      exact congrArg Except.ok (congrArg (fun x => x.2.1) hcommit)
  | keepPerHead positions =>
    simp only [KeepCall.call, HandleCall.staged, EngineCacheHandle.commit,
      EngineCacheHandle.commitValues, EngineCacheHandle.commitReencode,
      EngineCacheHandle.commitMerges, EngineCacheHandle.new,
      EngineCacheHandle.commitCompaction] at hcommit
    unfold step
    dsimp only
    cases hcompact : commitPerHeadKeep c positions with
    | error e =>
      rw [hcompact] at hcommit
      cases hcommit
    | ok c₁ =>
      rw [hcompact] at hcommit
      exact congrArg Except.ok (congrArg (fun x => x.2.1) hcommit)

theorem EngineModelCacheHandle.commit_staged (h : EngineModelCacheHandle) (k : KeepCall) :
    { h with compaction := some k.compaction }.commit =
      ((commitLayers k.step h.caches).1.map fun _ => true, (commitLayers k.step h.caches).2) := by
  cases k with
  | keep positions => rfl
  | keepPerHead positions => rfl

open EngineModelCacheHandle in
/-- **A keep of the whole model is the same keep of every layer**: it is accepted where every layer
accepts it; where it is rejected no layer changes; and where the commits of the layers succeed, its
commit leaves each layer as they leave it. -/
theorem model_keep (P : Platform) {caches : List KVCache} {h : EngineModelCacheHandle}
    (hnew : new caches = .ok h) (hshared : SharedFrame caches) (swap : Option SwapHandler)
    (k : KeepCall) : ((h.stage k).1 = .ok () ↔ ∀ i c, caches[i]? = some c →
      (k.stage (EngineCacheHandle.new c i caches.length swap : EngineCacheHandle P)).1 = .ok ()) ∧
    ((h.stage k).1 ≠ .ok () → (h.stage k).2.commit = (.ok false, caches)) ∧
    ∀ layers, layers.length = caches.length → (h.stage k).1 = .ok () →
      (∀ (i : ℕ) c c', caches[i]? = some c → layers[i]? = some c' →
        (k.stage (EngineCacheHandle.new c i caches.length swap : EngineCacheHandle P)).2.commit =
          (.ok true, c', swap)) →
      (h.stage k).2.commit = (.ok true, layers) := by
  obtain ⟨hcaches, hopen, hmutated, -, -⟩ := new_eq hnew hshared
  refine ⟨?_, fun hno => ?_, fun layers hlen hok hcommit => ?_⟩
  · rw [stage_ok_iff hnew hshared]
    simp only [KeepCall.stage_ok]
    exact ⟨fun hall i c hc => hall c (List.mem_of_getElem? hc), fun hall c hc => by
      obtain ⟨i, hi⟩ := List.mem_iff_getElem?.mp hc
      exact hall i c hi⟩
  · rw [stage_of_error hopen hno, commit, hopen, hcaches, hmutated]
  · have haccepted := (stage_ok_iff hnew hshared k).mp hok
    have hloop : commitLayers k.step caches = (.ok (), layers) :=
      commitLayers_eq hlen fun i c c' hc hc' =>
        KeepCall.step_of_commit (haccepted c (List.mem_of_getElem? hc)) (hcommit i c c' hc hc')
    rw [stage_of_ok hopen hok, commit_staged, hcaches, hloop]
    rfl

/-- The same cache without holes. -/
def filledCache : KVCache := { raggedCache with headStart := [] }

theorem filledCache_wf : filledCache.WF := by
  refine ⟨by decide, rfl, rfl, ?_, by decide, by decide, by
    decide, fun h => Nat.zero_le _, by decide⟩
  rintro (_ | _) <;> decide

theorem accepted_two_layers : ∀ c ∈ [raggedCache, filledCache],
    (KeepCall.keepPerHead [[0, 2], [2]]).Accepted c := by
  intro c hc
  refine (KeepCall.stage_ok (P := .fixedPoint) c 0 2 none _).mp ?_
  rcases List.mem_cons.mp hc with rfl | hc
  · decide
  · rw [List.mem_singleton.mp hc]
    decide

/-- Two layers, one of them ragged: both are committed as by themselves. -/
theorem model_keep_two_layers : ∃ h layers,
    EngineModelCacheHandle.new [raggedCache, filledCache] = .ok h ∧
      (h.stage (.keepPerHead [[0, 2], [2]])).1 = .ok () ∧
      (h.stage (.keepPerHead [[0, 2], [2]])).2.commit = (.ok true, layers) ∧
      layers.map KVCache.currentPos = [2, 2] := by
  have hshared : SharedFrame [raggedCache, filledCache] := by
    intro c hc c' hc'
    simp only [List.mem_cons, List.not_mem_nil, or_false] at hc hc'
    rcases hc with rfl | rfl <;> rcases hc' with rfl | rfl <;> exact ⟨rfl, rfl, rfl⟩
  obtain ⟨h, hnew⟩ : ∃ h, EngineModelCacheHandle.new [raggedCache, filledCache] = .ok h := ⟨_, rfl⟩
  obtain ⟨haccept, -, hcommit⟩ :=
    model_keep .fixedPoint hnew hshared none (.keepPerHead [[0, 2], [2]])
  obtain ⟨c₀, hc₀, hG₀⟩ := KeepCall.gathers_commit (P := .fixedPoint) raggedCache_wf 0 2 none
    (accepted_two_layers _ (by simp))
  obtain ⟨c₁, hc₁, hG₁⟩ := KeepCall.gathers_commit (P := .fixedPoint) filledCache_wf 1 2 none
    (accepted_two_layers _ (by simp))
  have hok : (h.stage (.keepPerHead [[0, 2], [2]])).1 = .ok () := by
    refine haccept.mpr fun i c hc => (KeepCall.stage_ok c i 2 none _).mpr ?_
    exact accepted_two_layers c (List.mem_of_getElem? hc)
  refine ⟨h, [c₀, c₁], hnew, hok, hcommit [c₀, c₁] rfl hok fun i c c' hc hc' => ?_, ?_⟩
  · match i with
    | 0 =>
      obtain rfl := Option.some.inj hc
      obtain rfl := Option.some.inj hc'
      exact hc₀
    | 1 =>
      obtain rfl := Option.some.inj hc
      obtain rfl := Option.some.inj hc'
      exact hc₁
    | i + 2 => cases hc
  · rw [List.map_cons, List.map_cons, hG₀.pos, hG₁.pos]
    rfl

end ArgusEngine
