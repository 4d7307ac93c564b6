import ArgusEngine.Kv.OffloadHistory

/-!
# Sequences of operations on an offloaded cache

`OffloadOp.Safe` says when an operation keeps the store and the attention buffers in step:

* tokens arrive behind deferred ones only one by one and on a preloaded cache;
* a view that trusts the buffers (preloaded, or with deferred tokens) finds every token in them;
* rows without bytes are never flushed.

**`views_history`**: along a run of safe operations every view is the list of the tokens updated so
far.
-/

namespace ArgusEngine

inductive OffloadOp (w : ℕ) where
  | update (r : KvRows w)
  | getView
  | preload
  | releaseBuffers
  | retainPreload
  | resetPreload

namespace OffloadOp

variable {S : Type} [OffloadStore S] {w : ℕ}

/-- An operation with the views it returns. -/
def exec : OffloadOp w → OffloadKVCache S → Except Fail (OffloadKVCache S × List View)
  | update r, c => do
    let c ← c.update r.tokens r.k r.v
    .ok (c, [])
  | getView, c => do
    let (c, view) ← c.getView
    .ok (c, [view])
  | preload, c => do
    let c ← c.preload
    .ok (c, [])
  | releaseBuffers, c => do
    let c ← c.releaseBuffers
    .ok (c, [])
  | retainPreload, c => .ok (c.retainPreload, [])
  | resetPreload, c => .ok (c.resetPreload, [])

/-- All views of a sequence of operations. -/
def run : List (OffloadOp w) → OffloadKVCache S → Except Fail (OffloadKVCache S × List View)
  | [], c => .ok (c, [])
  | op :: ops, c => do
    let (c, views) ← op.exec c
    let (c, views') ← run ops c
    .ok (c, views ++ views')

/-- The tokens an operation adds. -/
def tokens : OffloadOp w → ℕ
  | update r => r.tokens
  | _ => 0

/-- The views of a plain list of tokens. -/
def listViews : KvRows w → List (OffloadOp w) → List View
  | _, [] => []
  | h, update r :: ops => listViews (h.append r) ops
  | h, getView :: ops => h.view :: listViews h ops
  | h, _ :: ops => listViews h ops

/-- The bytes from the start of the attention buffers that are up to date after an operation, when
the first `valid` were before. -/
def validAfter (c : OffloadKVCache S) (valid : ℕ) : OffloadOp w → ℕ
  | update r =>
    if r.tokens = 1 ∧ c.preloaded ∧ c.attnKBuf.isSome ∧ valid = c.totalBytes
      then valid + c.tokenBytes else valid
  | getView => if c.currentPos = 0 then valid else c.totalBytes
  | preload => if c.preloaded ∨ c.totalBytes = 0 then valid else c.totalBytes
  | releaseBuffers => 0
  | retainPreload | resetPreload => valid

/-- An operation that keeps store and buffers in step, `valid` bytes of the buffers being up to
date. -/
def Safe (c : OffloadKVCache S) (valid : ℕ) : OffloadOp w → Prop
  | update r => 0 < r.tokens → 0 < c.storeBehind → c.preloaded = true ∧ r.tokens = 1
  | getView =>
    (0 < c.currentPos → c.preloaded = true ∨ 0 < c.storeBehind → valid = c.totalBytes) ∧
      (c.preloaded = false → 0 < c.storeBehind → 0 < c.tokenBytes)
  | preload => c.preloaded = false → 0 < c.storeBehind → 0 < c.tokenBytes
  | releaseBuffers => 0 < c.storeBehind → 0 < c.tokenBytes
  | retainPreload | resetPreload => True

instance (c : OffloadKVCache S) (valid : ℕ) (op : OffloadOp w) : Decidable (op.Safe c valid) :=
  match op with
  | update r =>
    inferInstanceAs (Decidable (0 < r.tokens → 0 < c.storeBehind →
      c.preloaded = true ∧ r.tokens = 1))
  | getView => inferInstanceAs (Decidable (_ ∧ _))
  | preload =>
    inferInstanceAs (Decidable (c.preloaded = false → 0 < c.storeBehind → 0 < c.tokenBytes))
  | releaseBuffers => inferInstanceAs (Decidable (0 < c.storeBehind → 0 < c.tokenBytes))
  | retainPreload => isTrue trivial
  | resetPreload => isTrue trivial

/-- Every operation of the sequence is safe in the state it meets. -/
def SafeRun : OffloadKVCache S → ℕ → List (OffloadOp w) → Prop
  | _, _, [] => True
  | c, valid, op :: ops =>
    op.Safe c valid ∧ ∀ r ∈ (op.exec c).toOption, SafeRun r.1 (op.validAfter c valid) ops

instance decidableSafeRun (c : OffloadKVCache S) (valid : ℕ) :
    (ops : List (OffloadOp w)) → Decidable (SafeRun c valid ops)
  | [] => isTrue trivial
  | op :: ops =>
    have : ∀ r : OffloadKVCache S × List View,
      Decidable (SafeRun r.1 (op.validAfter c valid) ops) :=
      fun r => decidableSafeRun r.1 _ ops
    inferInstanceAs (Decidable (op.Safe c valid ∧ ∀ r ∈ (op.exec c).toOption, _))

end OffloadOp

section

variable {S : Type} [OffloadStore S] [LawfulStore S] {w : ℕ}

open OffloadOp

/-- The tokens after an operation. -/
def KvRows.after (h : KvRows w) : OffloadOp w → KvRows w
  | update r => h.append r
  | _ => h

/-- The views a list of tokens gives for an operation. -/
def KvRows.views (h : KvRows w) : OffloadOp w → List View
  | getView => [h.view]
  | _ => []

theorem listViews_cons (h : KvRows w) (op : OffloadOp w) (ops : List (OffloadOp w)) :
    listViews h (op :: ops) = h.views op ++ listViews (h.after op) ops := by
  cases op <;> rfl

theorem Holding.update {c : OffloadKVCache S} {h : KvRows w} {valid : ℕ}
    (hc : Holding c h valid) (r : KvRows w) (hsafe : (OffloadOp.update r).Safe c valid)
    (hroom : h.tokens + r.tokens ≤ c.maxSeqLen) : ∃ c', c.update r.tokens r.k r.v = .ok c' ∧
    Holding c' (h.append r) ((OffloadOp.update r).validAfter c valid) ∧
      c'.maxSeqLen = c.maxSeqLen := by
  have htotal : c.totalBytes = h.tokens * w := by rw [OffloadKVCache.totalBytes, hc.pos, hc.width]
  by_cases hdef : r.tokens = 1 ∧ c.preloaded = true ∧ c.attnKBuf ≠ none
  · obtain ⟨h1, hp, hbuf⟩ := hdef
    obtain ⟨kb, vb, hupd, hc'⟩ := hc.update_deferred hp hbuf h1 hroom
    have hvalid : (OffloadOp.update r).validAfter c valid =
        if valid = h.tokens * w then (h.tokens + r.tokens) * w else valid := by
      simp only [validAfter, h1, hp, Option.isSome_iff_ne_none.mpr hbuf, htotal, true_and, hc.width]
      split_ifs with heq
      · rw [heq, Nat.succ_mul]
      · rfl
    exact ⟨_, hupd, hvalid ▸ hc', rfl⟩
  have hvalid : (OffloadOp.update r).validAfter c valid = valid := by
    refine if_neg fun h => hdef ⟨h.1, h.2.1, Option.isSome_iff_ne_none.mp h.2.2.1⟩
  rw [hvalid]
  rcases Nat.eq_zero_or_pos c.storeBehind with h0 | hpos
  · obtain ⟨st, hupd, hst⟩ := hc.update_store (r := r) h0
      (fun h1 hp => by_contra fun hbuf => hdef ⟨h1, hp, hbuf⟩) hroom
    exact ⟨_, hupd, hc.append h0 hroom hst, rfl⟩
  · rcases Nat.eq_zero_or_pos r.tokens with hr | hr
    · obtain ⟨hupd, hc'⟩ := hc.update_nothing hpos hr
      exact ⟨_, hupd, hc', rfl⟩
    · obtain ⟨hp, h1⟩ := hsafe hr hpos
      exact absurd ⟨h1, hp, hc.deferred hpos⟩ hdef

/-- **The step**: a safe operation on a cache that holds `h` returns what the list of tokens
gives. -/
theorem Holding.exec {c : OffloadKVCache S} {h : KvRows w} {valid : ℕ} (hc : Holding c h valid)
    (op : OffloadOp w) (hsafe : op.Safe c valid) (hroom : h.tokens + op.tokens ≤ c.maxSeqLen) :
    ∃ c', op.exec c = .ok (c', h.views op) ∧ Holding c' (h.after op) (op.validAfter c valid) ∧
      c'.maxSeqLen = c.maxSeqLen := by
  have htotal : c.totalBytes = h.tokens * w := by rw [OffloadKVCache.totalBytes, hc.pos, hc.width]
  cases op with
  | update r =>
    obtain ⟨c', hupd, hc', hmax⟩ := hc.update r hsafe hroom
    exact ⟨c', by rw [OffloadOp.exec, hupd]; rfl, hc', hmax⟩
  | getView =>
    obtain ⟨htrust, hw⟩ := hsafe
    rw [hc.pos, htotal] at htrust
    obtain ⟨c', hview, hmax, hc', -⟩ := hc.getView htrust hw
    refine ⟨c', by rw [OffloadOp.exec, hview]; rfl, ?_, hmax⟩
    rwa [OffloadOp.validAfter, htotal]
  | preload =>
    cases hp : c.preloaded with
    | true =>
      refine ⟨c, ?_, ?_, rfl⟩
      · rw [OffloadOp.exec, OffloadKVCache.preload, if_pos hp]
        rfl
      · rwa [OffloadOp.validAfter, if_pos (.inl hp)]
    | false =>
      obtain ⟨st, kb, vb, hpre, hc'⟩ := hc.preload hp (hsafe hp)
      have hvalid : OffloadOp.preload.validAfter (w := w) c valid =
          if c.totalBytes = 0 then valid else h.tokens * w := by
        simp [OffloadOp.validAfter, hp, htotal]
      rw [← hvalid] at hc'
      exact ⟨_, by rw [OffloadOp.exec, hpre]; rfl, hc', rfl⟩
  | releaseBuffers =>
    obtain ⟨st, hrel, hc'⟩ := hc.releaseBuffers hsafe
    exact ⟨_, by rw [OffloadOp.exec, hrel]; rfl, hc', rfl⟩
  | retainPreload =>
    refine ⟨_, rfl, hc.retainPreload, ?_⟩
    unfold OffloadKVCache.retainPreload
    split_ifs <;> rfl
  | resetPreload => exact ⟨_, rfl, hc.setPreloaded false, rfl⟩

/-- **A safe run shows every token it was given.** -/
theorem Holding.run {c : OffloadKVCache S} {h : KvRows w} {valid : ℕ} (hc : Holding c h valid)
    (ops : List (OffloadOp w)) (hroom : h.tokens + (ops.map tokens).sum ≤ c.maxSeqLen)
    (hsafe : SafeRun c valid ops) : ∃ c', OffloadOp.run ops c = .ok (c', listViews h ops) := by
  induction ops generalizing c h valid with
  | nil => exact ⟨c, rfl⟩
  | cons op ops ih =>
    obtain ⟨hop, hrest⟩ := hsafe
    rw [List.map_cons, List.sum_cons] at hroom
    obtain ⟨c₁, hexec, hc₁, hmax⟩ := hc.exec op hop (by omega)
    have htok : (h.after op).tokens = h.tokens + op.tokens := by cases op <;> rfl
    obtain ⟨c', hrun⟩ := ih hc₁ (by omega) (hrest (c₁, h.views op) (by rw [hexec]; rfl))
    refine ⟨c', ?_⟩
    rw [OffloadOp.run, hexec, listViews_cons]
    simp only [bind, Except.bind, hrun]

theorem holds_rawStore_new (w : ℕ) : LawfulStore.Holds w (RawStore.new w) 0 [] [] :=
  ⟨rfl, by simp, by simp⟩

theorem holding_new (layerId kvHeads headDim maxSeqLen : ℕ) (dtype : DType) (gpu : Bool) {st : S}
    (hst : LawfulStore.Holds (kvHeads * headDim * dtype.size) st 0 [] []) :
    Holding { OffloadKVCache.new layerId kvHeads headDim dtype maxSeqLen st with gpu := gpu }
      (KvRows.empty : KvRows (kvHeads * headDim * dtype.size)) 0 where
  width := rfl
  pos := rfl
  room := Nat.zero_le _
  behind := le_rfl
  stored := by simpa [KvRows.empty, OffloadKVCache.new] using hst
  deferred := fun h => absurd h (Nat.lt_irrefl 0)
  attn := .inl ⟨rfl, rfl, rfl⟩
  gpuBufs := by rintro b (h | h) <;> cases h

/-- **Every view of a safe run is the list of the tokens updated before it**, on any geometry, store
and backend. -/
theorem views_history (layerId kvHeads headDim maxSeqLen : ℕ) (dtype : DType) (gpu : Bool) {st : S}
    (hst : LawfulStore.Holds (kvHeads * headDim * dtype.size) st 0 [] [])
    (ops : List (OffloadOp (kvHeads * headDim * dtype.size)))
    (hroom : (ops.map tokens).sum ≤ maxSeqLen)
    (hsafe : SafeRun
      { OffloadKVCache.new layerId kvHeads headDim dtype maxSeqLen st with gpu := gpu } 0 ops) :
    ∃ c', OffloadOp.run ops
      { OffloadKVCache.new layerId kvHeads headDim dtype maxSeqLen st with gpu := gpu } =
          .ok (c', listViews KvRows.empty ops) :=
  (holding_new layerId kvHeads headDim maxSeqLen dtype gpu hst).run ops
    (by rw [KvRows.empty, Nat.zero_add]; exact hroom) hsafe

end

section

open OffloadOp

/-- A token of one F32 value per head, on one head: four bytes of K and of V. -/
def oneToken (b : UInt8) : KvRows (1 * 1 * DType.f32.size) :=
  ⟨1, [b, b, b, b], [b, b, b, b], rfl, rfl⟩

/-- Two such tokens. -/
def tokenPair (a b : UInt8) : KvRows (1 * 1 * DType.f32.size) := (oneToken a).append (oneToken b)

/-- An empty in-memory cache for these tokens. -/
def oneHead : OffloadKVCache RawStore :=
  { OffloadKVCache.new 0 1 1 .f32 8 (RawStore.new (1 * 1 * DType.f32.size)) with gpu := false }

/-- A cache that is preloaded with its first token and gets a second one. -/
theorem views_history_preloaded :
    ∃ c', run [update (oneToken 1), preload, update (oneToken 2), getView, retainPreload,
    update (oneToken 3),
        getView, releaseBuffers, getView] oneHead =
      .ok (c', [(tokenPair 1 2).view, ((tokenPair 1 2).append (oneToken 3)).view,
        ((tokenPair 1 2).append (oneToken 3)).view]) :=
  views_history 0 1 1 8 .f32 false (holds_rawStore_new _)
    [update (oneToken 1), preload, update (oneToken 2), getView, retainPreload,
    update (oneToken 3), getView,
      releaseBuffers, getView] (by decide) (by decide)

/-- A preload of the empty cache makes the first view a view of zeros. -/
theorem preload_of_empty_shows_zeros :
    ¬ ∃ c', run [preload, update (oneToken 1), getView] oneHead =
      .ok (c', listViews KvRows.empty [preload, update (oneToken 1), getView]) := by
  rintro ⟨c', h⟩
  have hviews : (run [preload, update (oneToken 1), getView] oneHead).toOption.map Prod.snd =
      some (listViews KvRows.empty [preload, update (oneToken 1), getView]) := by
    rw [h]
    rfl
  exact absurd hviews (by decide)

end

end ArgusEngine
