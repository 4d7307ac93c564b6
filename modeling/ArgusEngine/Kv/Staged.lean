import ArgusEngine.Kv.Gather
import ArgusEngine.Kv.Geometry

/-!
# What is staged is valid

The checks of the calls look at the cache and at the entry cursor only, so whatever a sequence of
calls leaves in the slots of a handle passed its check against the cache it is committed on.

* `Staged c h`: the slots of `h` hold checked intents for `c`;
* **`staged_runCalls`**: so it is after every sequence of calls on a new handle;
* `runCalls_withCache`: the calls look at the geometry of the cache only;
* `commitPerHeadKeep_eq`: the starts that a committed per-head keep installs.
-/

namespace ArgusEngine

open KVCache EngineCacheHandle

/-- A keep call as the compaction it stages. -/
def KeepCall.compaction : KeepCall → Compaction
  | keep positions => .keep positions
  | keepPerHead positions => .keepPerHead positions

/-- The slots of `h` hold checked intents for `c`. -/
structure Staged {P : Platform} (c : KVCache) (h : EngineCacheHandle P) : Prop where
  cache : h.cache = c
  entryPos : h.entryPos = c.currentPos
  merges : ∀ ms, h.merges = some ms →
    ∀ m ∈ ms, m.into < c.currentPos ∧ ∀ pw ∈ m.source, pw.1 < c.currentPos
  keep : ∀ k : KeepCall, h.compaction = some k.compaction → k.Accepted c
  reencode : ∀ target, h.reencode = some target → c.kBuffer.buffer.isGpuBuffer = false ∧
    isTypedFloor c.kvDtype = true ∧ target ≠ currentFormatName c ∧
    ((target = "f32" ∨ target = "f16") ∨ (target = "q4_0" ∧ c.headDim % QK4_0 = 0))
  swap : ∀ n, h.compaction = some (.offload n) → h.swap.isSome = true

section Staging

variable {P : Platform} {c : KVCache} {h : EngineCacheHandle P}

theorem staged_new (c : KVCache) (layerIdx nLayers : ℕ) (swap : Option SwapHandler) :
    Staged c (EngineCacheHandle.new c layerIdx nLayers swap : EngineCacheHandle P) :=
  ⟨rfl, rfl, fun _ h => (by cases h), fun _ h => (by cases h), fun _ h => (by cases h),
    fun _ h => (by cases h)⟩

/-- A keep call accepted on a handle with an open slot is accepted on a new handle. -/
theorem Staged.accepted (hs : Staged c h) {k : KeepCall} (hok : (k.stage h).1 = .ok ()) :
    k.Accepted c := by
  refine (KeepCall.stage_ok (P := P) c h.layerIdx h.nLayers h.swap k).mp ?_
  obtain ⟨hc, he, -, -, -, -⟩ := hs
  cases k with
  | keep positions =>
    have hval : (EngineCacheHandle.new c h.layerIdx h.nLayers
      h.swap : EngineCacheHandle P).validateKeep
        positions = h.validateKeep positions := by rw [validateKeep, validateKeep, he]; rfl
    simp only [KeepCall.stage, KeepCall.call, HandleCall.apply, EngineCacheHandle.keep] at hok ⊢
    rw [hval]
    cases hv : h.validateKeep positions with
    | error e => rw [hv] at hok; cases hok
    | ok u =>
      rw [hv, hc] at hok
      simp only at hok
      split_ifs at hok with hrag
      exact congrArg Prod.fst (if_neg hrag)
  | keepPerHead positions =>
    have hval : ∀ k (l : List (List ℕ)), validateHeads
        (EngineCacheHandle.new c h.layerIdx h.nLayers h.swap : EngineCacheHandle P) k l =
          validateHeads h k l := by
      intro k l
      induction l generalizing k with
      | nil => rfl
      | cons a l ih =>
        have ha : (EngineCacheHandle.new c h.layerIdx h.nLayers h.swap : EngineCacheHandle
          P).validateKeep a =
            h.validateKeep a := by rw [validateKeep, validateKeep, he]; rfl
        rw [validateHeads, validateHeads, ha, ih, hc]
        rfl
    simp only [KeepCall.stage, KeepCall.call, HandleCall.apply,
      EngineCacheHandle.keepPerHead] at hok ⊢
    rw [hval]
    cases hv : validateHeads h 0 positions with
    | error e =>
      rw [hv] at hok
      simp only at hok
      split_ifs at hok
    | ok u =>
      rw [hv, hc] at hok
      simp only at hok
      split_ifs at hok with h₁ h₂ h₃
      exact congrArg Prod.fst ((if_neg h₁).trans ((if_neg h₂).trans (if_neg h₃)))

/-- **A call keeps the slots checked.** -/
theorem Staged.apply (hs : Staged c h) (call : HandleCall P) : Staged c (call.apply h).2 := by
  rcases call.apply_cases h with ⟨e, he⟩ | ⟨he, -⟩
  · rw [he]; exact hs
  have hok : (call.apply h).1 = .ok () := by rw [he]
  rw [he]
  obtain ⟨hc, hpos, hm, hk, hr, hsw⟩ := hs
  cases call with
  | keep positions =>
    refine ⟨hc, hpos, hm, fun k hcomp => ?_, hr, fun n hn => (by cases hn)⟩
    have hacc := Staged.accepted ⟨hc, hpos, hm, hk, hr, hsw⟩ (k := .keep positions) hok
    cases k <;> cases hcomp
    exact hacc
  | keepPerHead positions =>
    refine ⟨hc, hpos, hm, fun k hcomp => ?_, hr, fun n hn => (by cases hn)⟩
    have hacc := Staged.accepted ⟨hc, hpos, hm, hk, hr, hsw⟩ (k := .keepPerHead positions) hok
    cases k <;> cases hcomp
    exact hacc
  | merge merges =>
    refine ⟨hc, hpos, fun ms hms m hmem => ?_, hk, hr, hsw⟩
    cases hms
    simp only [HandleCall.apply, EngineCacheHandle.merge] at hok
    split_ifs at hok with h₁ h₂ h₃
    simp only [List.any_eq_true, Bool.or_eq_true, decide_eq_true_eq, not_exists, not_and,
      not_or, hpos] at h₃
    obtain ⟨hinto, hsrc⟩ := h₃ m hmem
    exact ⟨by omega, fun pw hpw => by have := hsrc pw hpw; omega⟩
  | reencode target =>
    refine ⟨hc, hpos, hm, hk, fun t ht => ?_, hsw⟩
    simp only [HandleCall.staged, hc] at ht
    split_ifs at ht with hname
    cases ht
    simp only [HandleCall.apply, EngineCacheHandle.reencodeTo, hc, kvOnDevice] at hok
    split_ifs at hok with h₁ h₂ h₃ h₄
    refine ⟨by simpa using h₁, by simpa using h₂, hname, ?_⟩
    by_cases hq : target = "q4_0"
    · exact .inr ⟨hq, by simpa [hq] using h₄⟩
    · refine .inl ?_
      by_contra hne
      rw [not_or] at hne
      exact h₃ ⟨hne.1, hne.2, hq⟩
  | transitionQuantBits bits => exact ⟨hc, hpos, hm, hk, hr, hsw⟩
  | offload prefixLen =>
    refine ⟨hc, hpos, hm, fun k hcomp => ?_, hr, fun _ _ => ?_⟩
    · cases k <;> cases hcomp
    · simp only [HandleCall.apply, EngineCacheHandle.offload] at hok
      split_ifs at hok with hnone
      have hsome : h.swap.isSome = true := by simpa [Option.isSome_iff_ne_none] using hnone
      exact hsome
  | recallLayer =>
    refine ⟨hc, hpos, hm, fun k hcomp => ?_, hr, fun n hn => (by cases hn)⟩
    cases k <;> cases hcomp

/-- **Whatever is staged passed its check.** -/
theorem staged_runCalls (c : KVCache) (layerIdx nLayers : ℕ) (swap : Option SwapHandler)
    (calls : List (HandleCall P)) :
    Staged c (runCalls (EngineCacheHandle.new c layerIdx nLayers swap) calls) := by
  have hall : ∀ (calls : List (HandleCall P)) h, Staged c h → Staged c (runCalls h calls) := by
    intro calls
    induction calls with
    | nil => exact fun h hs => hs
    | cons call calls ih => exact fun h hs => ih _ (hs.apply call)
  exact hall calls _ (staged_new c layerIdx nLayers swap)

theorem merges_runCalls (calls : List (HandleCall P)) : ∀ (h : EngineCacheHandle P) {ms},
    (runCalls h calls).merges = some ms → h.merges = some ms ∨ .merge ms ∈ accepted h calls := by
  induction calls with
  | nil => exact fun h ms hms => .inl hms
  | cons call calls ih =>
    intro h ms hms
    have hih := ih (call.apply h).2 hms
    rw [accepted]
    split
    · rename_i hok
      rcases hih with hih | hih
      · rw [(HandleCall.apply_of_ok hok).1] at hih
        cases call <;> first | exact .inl hih | (cases hih; exact .inr List.mem_cons_self)
      · exact .inr (List.mem_cons_of_mem _ hih)
    · rename_i e he
      rw [HandleCall.apply_of_error he] at hih ⊢
      exact hih

/-- The calls look at the geometry of the cache only. -/
theorem HandleCall.apply_withCache {d : KVCache} (hg : h.cache.geometry = d.geometry)
    (call : HandleCall P) :
    call.apply { h with cache := d } =
      ((call.apply h).1, { (call.apply h).2 with cache := d }) := by
  obtain ⟨hf, hpos, -, hstart, -, -⟩ := frame_eq hg
  have hdev : h.cache.kBuffer.buffer.isGpuBuffer = d.kBuffer.buffer.isGpuBuffer :=
    congrArg Geometry.onDevice hg
  have hrag : h.cache.isRagged = d.isRagged := by unfold isRagged; rw [hstart]
  have hsup : h.cache.supportsRagged = d.supportsRagged := by
    have ho := isOpaque_of_format hf
    simp only [format, Format.mk.injEq] at hf
    unfold supportsRagged
    rw [ho, hf.1, hf.2.2.2.2]
  simp only [format, Format.mk.injEq] at hf
  obtain ⟨hdt, -, hheads, hdim, hlay⟩ := hf
  have hfun : h.cache.headStartOf = d.headStartOf := funext (headStartOf_of_geometry hg)
  have hstarts : h.cache.headStarts = d.headStarts := by rw [headStarts, headStarts, hheads, hfun]
  have hval : ∀ l, ({ h with cache := d } : EngineCacheHandle P).validateKeep l =
    h.validateKeep l := fun _ => rfl
  have hset : ∀ comp, ({ h with cache := d } : EngineCacheHandle P).setCompaction comp =
      ((h.setCompaction comp).1, { (h.setCompaction comp).2 with cache := d }) := by
    intro comp
    unfold setCompaction
    split_ifs <;> rfl
  cases call with
  | keep positions =>
    simp only [HandleCall.apply, EngineCacheHandle.keep, hval]
    cases h.validateKeep positions with
    | error e => rfl
    | ok u =>
      simp only [hrag, hstarts]
      split_ifs
      · rfl
      · exact hset _
  | keepPerHead positions =>
    have hheads' : ∀ k l, validateHeads ({ h with cache := d } : EngineCacheHandle P) k l =
      validateHeads h k l := by
      intro k l
      induction l generalizing k with
      | nil => rfl
      | cons a l ih => simp only [validateHeads, hval, ih, hfun]
    simp only [HandleCall.apply, EngineCacheHandle.keepPerHead, hheads', hlay, hheads, hsup]
    split_ifs
    · rfl
    · rfl
    all_goals cases validateHeads h 0 positions
    · rfl
    · rfl
    · rfl
    · exact hset _
  | merge merges =>
    simp only [HandleCall.apply, EngineCacheHandle.merge, kvOnDevice, hdev]
    split_ifs <;> rfl
  | reencode target =>
    have hname : currentFormatName h.cache = currentFormatName d := by
      unfold currentFormatName; rw [hdt]
    simp only [HandleCall.apply, EngineCacheHandle.reencodeTo, kvOnDevice, hdev, hdt, hname, hdim]
    split_ifs <;> rfl
  | transitionQuantBits bits => rfl
  | offload prefixLen =>
    simp only [HandleCall.apply, EngineCacheHandle.offload]
    split_ifs
    · rfl
    · exact hset _
  | recallLayer =>
    simp only [HandleCall.apply, EngineCacheHandle.recallLayer]
    split_ifs
    · rfl
    · exact hset _

theorem runCalls_withCache {d : KVCache} (calls : List (HandleCall P)) : ∀ h : EngineCacheHandle P,
    h.cache.geometry = d.geometry →
      runCalls { h with cache := d } calls = { runCalls h calls with cache := d } := by
  induction calls with
  | nil => exact fun h _ => rfl
  | cons call calls ih =>
    intro h hg
    have hcache := (runCalls_cache [call] h).1
    rw [runCalls, List.foldl_cons, List.foldl_nil] at hcache
    rw [runCalls, runCalls, List.foldl_cons, List.foldl_cons, HandleCall.apply_withCache hg]
    exact ih _ (by rw [hcache]; exact hg)

end Staging

/-! ## What the compactions leave of the geometry -/

theorem moved_foldlM {ι : Type} {f : KVCache → ι → Except Fail KVCache}
    (hf : ∀ c i c', f c i = .ok c' → Moved c c') (l : List ι) :
    ∀ {c c' : KVCache}, l.foldlM f c = .ok c' → Moved c c' := by
  induction l with
  | nil => intro c c' h; cases h; exact .refl _
  | cons i l ih =>
    intro c c' h
    rw [List.foldlM_cons] at h
    cases hi : f c i with
    | error e => rw [hi] at h; cases h
    | ok c₁ =>
      rw [hi] at h
      exact (hf c i c₁ hi).trans (ih h)

theorem commitPerHeadKeep_eq {c c' : KVCache} {heads : List (List ℕ)}
    (h : commitPerHeadKeep c heads = .ok c') :
    ∃ c₁, Moved c c₁ ∧ c' = (c₁.setCurrentPos ((heads.map List.length).foldl max 0)).setHeadStarts
      (heads.map fun l => (heads.map List.length).foldl max 0 - l.length) := by
  unfold commitPerHeadKeep commitPerHeadKeepAt at h
  simp only at h
  split at h
  · cases h
  · cases h
    exact ⟨_, moved_foldlM (fun c i c' h => moved_compactKeepPositionsForHead h) _ ‹_›, rfl⟩

end ArgusEngine
