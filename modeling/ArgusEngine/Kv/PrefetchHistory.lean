import ArgusEngine.Kv.Schedule
import ArgusEngine.Lib.Runs

/-!
# Every layer sees its own history

What a layer is in each stage of a pass: `Rest` (retained with every token in the buffers, or
released), `Ready`, `Written`, `Viewed`. One lemma for each operation moves a layer to its next
stage, provided that what the pass adds `Fits`.

* **`layers_see_history`**: along every sequence of passes that fit, whatever the order in which the
  preloads complete, each layer's view is the rows written to it so far.
* **`first_pass_sees_zeros`**: the first pass over empty caches never fits unless its rows are zero:
  each layer's view is all zeros.
-/

namespace ArgusEngine

open FlatMem

section

variable {S : Type} [OffloadStore S] [LawfulStore S] {w : ℕ}

/-! ## The stages of a layer -/

/-- Rows of zero bytes. -/
def KvRows.Zero (r : KvRows w) : Prop := (∀ b ∈ r.k, b = 0) ∧ ∀ b ∈ r.v, b = 0

/-- Between two passes: retained with every token in the buffers, or released. -/
def Rest (c : OffloadKVCache S) (h : KvRows w) : Prop :=
  (Holding c h (h.tokens * w) ∧ c.preloaded = true ∧ c.attnKBuf ≠ none) ∨
    (Holding c h 0 ∧ c.preloaded = false ∧ c.attnKBuf = none)

/-- After the preload; a cache without bytes has no buffers yet. -/
def Ready (c : OffloadKVCache S) (h : KvRows w) : Prop :=
  Holding c h (h.tokens * w) ∧ c.preloaded = true ∧ (c.attnKBuf = none → c.totalBytes = 0)

/-- The cache with buffers where it had none. -/
def OffloadKVCache.filled (c : OffloadKVCache S) : OffloadKVCache S :=
  { c with
    attnKBuf := some (c.attnKBuf.getD (zeroed c.maxBytes))
    attnVBuf := some (c.attnVBuf.getD (zeroed c.maxBytes)) }

/-- Deferred rows that a release is to flush have bytes. -/
def Flushable (c : OffloadKVCache S) (released : Prop) : Prop :=
  released → 0 < c.storeBehind → 0 < c.tokenBytes

/-- After the write: the buffers that the view will trust have every token. -/
def Written (c : OffloadKVCache S) (h : KvRows w) (released : Prop) : Prop :=
  Holding c.filled h (h.tokens * w) ∧ c.preloaded = true ∧ Flushable c released

/-- After attention. -/
def Viewed (c : OffloadKVCache S) (h : KvRows w) (released : Prop) : Prop :=
  Holding c h (h.tokens * w) ∧ c.attnKBuf ≠ none ∧ Flushable c released

/-- What a pass may add to a layer: one token behind others, or zero bytes, several tokens of them
only with nothing deferred. Rows without bytes are not added to a retained layer that is to be
released. -/
def Fits (c : OffloadKVCache S) (r : KvRows w) (released : Prop) : Prop :=
  ((c.totalBytes ≠ 0 ∧ r.tokens = 1) ∨ (r.Zero ∧ (r.tokens = 1 ∨ c.storeBehind = 0))) ∧
    (c.tokenBytes = 0 → released → c.attnKBuf = none)

theorem Holding.storeBehind_eq_zero {c : OffloadKVCache S} {h : KvRows w} {valid : ℕ}
    (hc : Holding c h valid) (hnone : c.attnKBuf = none) : c.storeBehind = 0 := by
  by_contra hne
  exact hc.deferred (Nat.pos_of_ne_zero hne) hnone

theorem Holding.totalBytes {c : OffloadKVCache S} {h : KvRows w} {valid : ℕ}
    (hc : Holding c h valid) : c.totalBytes = h.tokens * w := by
  rw [OffloadKVCache.totalBytes, hc.pos, hc.width]

/-- **The preload of a resting layer**, on the main thread or on a worker. -/
theorem Rest.preload {c : OffloadKVCache S} {h r : KvRows w} {released : Prop} (hc : Rest c h)
    (hfits : Fits c r released) :
    ∃ c', c.preload = .ok c' ∧ (Ready c' h ∧ Fits c' r released) ∧ c'.maxSeqLen = c.maxSeqLen := by
  obtain ⟨hc, hp, hbuf⟩ | ⟨hc, hp, hbuf⟩ := hc
  · refine ⟨c, ?_, ⟨⟨hc, hp, fun h => absurd h hbuf⟩, hfits⟩, rfl⟩
    rw [OffloadKVCache.preload, if_pos hp]
  · have hb := hc.storeBehind_eq_zero hbuf
    by_cases htotal : c.totalBytes = 0
    · refine ⟨{ c with preloaded := true }, ?_, ⟨⟨?_, rfl, fun _ => htotal⟩, hfits⟩, rfl⟩
      · rw [OffloadKVCache.preload, if_neg (by simp [hp]), OffloadKVCache.flushDeferred, if_pos hb]
        exact if_pos htotal
      · rw [← hc.totalBytes, htotal]
        exact hc.setPreloaded true
    · obtain ⟨kb, vb, hload, hc'⟩ := hc.loadAttn hb
      refine ⟨_, ?_, ⟨⟨hc'.setPreloaded true, rfl, fun h => absurd h (by simp)⟩, hfits.1, ?_⟩, rfl⟩
      · rw [OffloadKVCache.preload, if_neg (by simp [hp]), OffloadKVCache.flushDeferred, if_pos hb]
        refine (if_neg htotal).trans ?_
        rw [hload]
        rfl
      · intro (hw : c.tokenBytes = 0)
        exact absurd (by rw [OffloadKVCache.totalBytes, hw, Nat.mul_zero]) htotal

theorem Buffered.append_zero {b x t : Bytes} {cap stored : ℕ}
    (hs : Buffered b x cap stored x.length) (ht : ∀ y ∈ t, y = 0)
    (hroom : x.length + t.length ≤ cap) :
    Buffered b (x ++ t) cap (x ++ t).length (x ++ t).length := by
  refine ⟨hs.length, le_rfl, fun i hi hi' => by omega, ?_, hs.append.blank⟩
  intro i hi
  rw [List.length_append] at hi
  rcases Nat.lt_or_ge i x.length with hlt | hge
  · rw [hs.head i hlt, List.getElem?_append_left hlt]
  · rw [hs.blank i hge (by omega), List.getElem?_append_right hge,
      List.getElem?_eq_getElem (show i - x.length < t.length by omega), ht _ (List.getElem_mem _)]

/-- Zero rows that only the store gets are in the zero-filled buffers as well. -/
theorem Holding.append_zero {c : OffloadKVCache S} {h r : KvRows w} {st : S}
    (hc : Holding c h (h.tokens * w)) (h0 : c.storeBehind = 0)
    (hroom : h.tokens + r.tokens ≤ c.maxSeqLen) (hr : r.Zero)
    (hst : LawfulStore.Holds w st (h.tokens + r.tokens) (h.k ++ r.k) (h.v ++ r.v)) :
    Holding ({ c with store := st,
                      currentPos := c.currentPos + r.tokens } :
                      OffloadKVCache S).filled (h.append r)
      ((h.append r).tokens * w) := by
  have hcap := Nat.mul_le_mul_right w hroom
  rw [Nat.add_mul] at hcap
  have hmax : c.maxBytes = c.maxSeqLen * w := by rw [OffloadKVCache.maxBytes, hc.width]
  obtain ⟨hk, hv⟩ := hc.attn_getD
  refine { hc.append h0 hroom hst with deferred := fun _ =>
                                         by simp [OffloadKVCache.filled], attn := ?_ }
  rw [OffloadKVCache.filled]
  simp only [OffloadKVCache.maxBytes, hc.width, h0, Nat.sub_zero]
  refine .inr ⟨_, _, rfl, rfl, ?_, ?_⟩
  · rw [← h.length_k] at hk
    rw [← (h.append r).length_k]
    exact hk.append_zero hr.1 (by rw [h.length_k, r.length_k]; exact hcap)
  · rw [← h.length_v] at hv
    rw [← (h.append r).length_v]
    exact hv.append_zero hr.2 (by rw [h.length_v, r.length_v]; exact hcap)

/-- **The write of a layer that fits.** -/
theorem Ready.write {c : OffloadKVCache S} {h r : KvRows w} {released : Prop} (hc : Ready c h)
    (hfits : Fits c r released) (hroom : h.tokens + r.tokens ≤ c.maxSeqLen) :
    ∃ c', (OffloadOp.update r).exec c = .ok (c', []) ∧ Written c' (h.append r) released ∧
      c'.maxSeqLen = c.maxSeqLen := by
  obtain ⟨hc, hp, hnone⟩ := hc
  obtain ⟨hfit, hrel⟩ := hfits
  by_cases hdef : r.tokens = 1 ∧ c.attnKBuf ≠ none
  · -- the token is deferred to buffers that have all the others
    obtain ⟨h1, hbuf⟩ := hdef
    obtain ⟨kb, vb, hupd, hc'⟩ := hc.update_deferred hp hbuf h1 hroom
    rw [if_pos rfl] at hc'
    refine ⟨_, by rw [OffloadOp.exec, hupd]; rfl, ⟨hc'.fillBuffers, hp, fun hr _ => ?_⟩, rfl⟩
    by_contra hw
    exact hbuf (hrel (Nat.eq_zero_of_not_pos hw) hr)
  -- the rows go to the store, and the buffers have them because they are zero
  have hzero : r.Zero ∧ c.storeBehind = 0 := by
    by_cases hbuf : c.attnKBuf = none
    · obtain ⟨hne, -⟩ | ⟨hz, -⟩ := hfit
      · exact absurd (hnone hbuf) hne
      · exact ⟨hz, hc.storeBehind_eq_zero hbuf⟩
    · have h1 : r.tokens ≠ 1 := fun h1 => hdef ⟨h1, hbuf⟩
      obtain ⟨-, h1'⟩ | ⟨hz, h1' | hb⟩ := hfit
      · exact absurd h1' h1
      · exact absurd h1' h1
      · exact ⟨hz, hb⟩
  obtain ⟨hz, hb⟩ := hzero
  obtain ⟨st, hupd, hst⟩ := hc.update_store (r := r) hb
    (fun h1 _ => by_contra fun hbuf => hdef ⟨h1, hbuf⟩) hroom
  refine ⟨_, by rw [OffloadOp.exec, hupd]; rfl,
    ⟨hc.append_zero hb hroom hz hst, hp, fun _ hpos => ?_⟩, rfl⟩
  exact absurd hb (Nat.ne_of_gt hpos)

omit [LawfulStore S] in
theorem getView_preloaded {c : OffloadKVCache S} (hp : c.preloaded = true)
    (hpos : c.currentPos ≠ 0) :
    c.getView = .ok (({ c.filled with preloaded := false } : OffloadKVCache S).stageOut
      (c.attnKBuf.getD (zeroed c.maxBytes)) (c.attnVBuf.getD (zeroed c.maxBytes))) := by
  have hready : c.attnReady = .ok c := by simp [OffloadKVCache.attnReady, hp]
  rw [OffloadKVCache.getView, if_neg hpos, hready]
  rfl

omit [LawfulStore S] in
theorem getView_filled {c : OffloadKVCache S} (hp : c.preloaded = true) (hpos : c.currentPos ≠ 0) :
    c.getView = c.filled.getView := by
  rw [getView_preloaded hp hpos, getView_preloaded (c := c.filled) hp hpos]
  rfl

/-- **The view of a written layer.** -/
theorem Written.attend {c : OffloadKVCache S} {h : KvRows w} {released : Prop}
    (hc : Written c h released) (hpos : 0 < h.tokens) :
    ∃ c', c.getView = .ok (c', h.view) ∧ Viewed c' h released ∧ c'.maxSeqLen = c.maxSeqLen := by
  obtain ⟨hc, hp, hflush⟩ := hc
  have hcur : c.currentPos ≠ 0 := by
    rw [show c.currentPos = h.tokens from hc.pos]
    omega
  obtain ⟨c', hview, hmax, hc', hattn⟩ := hc.getView (fun _ _ => rfl)
    (fun hp' => absurd hp' (by simp [OffloadKVCache.filled, hp]))
  obtain ⟨-, hbuf, hbehind⟩ := hattn hpos
  refine ⟨c', by rw [getView_filled hp hcur, hview], ⟨?_, hbuf, ?_⟩, hmax⟩
  · rwa [if_neg (show c.filled.currentPos ≠ 0 from hcur)] at hc'
  · intro hr hb
    rw [hc'.width, ← hc.width]
    refine hflush hr ?_
    simpa [hbehind, OffloadKVCache.filled, hp] using hb

/-- **A retained layer** rests with its buffers. -/
theorem Viewed.retain {c : OffloadKVCache S} {h : KvRows w} {released : Prop}
    (hc : Viewed c h released) :
    Rest c.retainPreload h ∧ c.retainPreload.maxSeqLen = c.maxSeqLen := by
  obtain ⟨hc, hbuf, -⟩ := hc
  have hboth : c.attnKBuf.isSome ∧ c.attnVBuf.isSome := by
    obtain ⟨hnone, -⟩ | ⟨kb, vb, hk, hv, -⟩ := hc.attn
    · exact absurd hnone hbuf
    · simp [hk, hv]
  rw [OffloadKVCache.retainPreload, if_pos hboth]
  exact ⟨.inl ⟨hc.setPreloaded true, rfl, hbuf⟩, rfl⟩

/-- **A released layer** rests without them. -/
theorem Viewed.release {c : OffloadKVCache S} {h : KvRows w} {released : Prop}
    (hc : Viewed c h released) (hr : released) : ∃ c', c.releaseBuffers = .ok c' ∧ Rest c' h ∧
    c'.maxSeqLen = c.maxSeqLen := by
  obtain ⟨hc, -, hflush⟩ := hc
  obtain ⟨st, hrel, hc'⟩ := hc.releaseBuffers (hflush hr)
  exact ⟨_, hrel, .inr ⟨hc', rfl, rfl⟩, rfl⟩

/-! ## Passes -/

/-- What a layer that holds `h j` and has room for `cap j` tokens is in a stage. -/
def AtStage (p : Pass w) (h : ℕ → KvRows w) (cap : ℕ → ℕ) (j : ℕ) : Stage → OffloadKVCache S → Prop
  | .resting, c => (Rest c (h j) ∧ Fits c (p.rows j) (p.depth ≤ j)) ∧ c.maxSeqLen = cap j
  | .ready, c => (Ready c (h j) ∧ Fits c (p.rows j) (p.depth ≤ j)) ∧ c.maxSeqLen = cap j
  | .written, c => Written c ((h j).append (p.rows j)) (p.depth ≤ j) ∧ c.maxSeqLen = cap j
  | .attended, c => Viewed c ((h j).append (p.rows j)) (p.depth ≤ j) ∧ c.maxSeqLen = cap j
  | .done, c => Rest c ((h j).append (p.rows j)) ∧ c.maxSeqLen = cap j

variable {n : ℕ} {p : Pass w} {h : ℕ → KvRows w} {cap : ℕ → ℕ}

theorem append_rows_pos (p : Pass w) (h : KvRows w) (j : ℕ) : 0 < (h.append (p.rows j)).tokens := by
  rw [KvRows.append_tokens, p.rows_tokens]
  exact Nat.lt_of_lt_of_le p.tokens_pos (Nat.le_add_left _ _)

theorem protocol_atStage (hroom : ∀ j < n, (h j).tokens + p.tokens ≤ cap j) :
    Protocol n p (AtStage (S := S) p h cap) where
  preload := by
    rintro j - c ⟨⟨hrest, hfits⟩, hcap⟩
    obtain ⟨c', hpre, hc, hmax⟩ := hrest.preload hfits
    exact ⟨c', hpre, hc, hmax.trans hcap⟩
  write := by
    rintro j hj c ⟨⟨hready, hfits⟩, hcap⟩
    obtain ⟨c', hupd, hc, hmax⟩ :=
      hready.write hfits (by rw [p.rows_tokens, hcap]; exact hroom j hj)
    exact ⟨c', hupd, hc, hmax.trans hcap⟩
  attend := by
    rintro j - c ⟨hwritten, hcap⟩
    obtain ⟨c', hview, hc, hmax⟩ := hwritten.attend (append_rows_pos p (h j) j)
    exact ⟨c', _, hview, hc, hmax.trans hcap⟩
  retain := by
    rintro j - - c ⟨hatt, hcap⟩
    obtain ⟨hc, hmax⟩ := hatt.retain
    exact ⟨hc, hmax.trans hcap⟩
  release := by
    rintro j - hd c ⟨hatt, hcap⟩
    obtain ⟨c', hrel, hc, hmax⟩ := hatt.release hd
    exact ⟨c', hrel, hc, hmax.trans hcap⟩

/-- A pass that fits every layer of `caches`. -/
def Pass.Fitting (p : Pass w) (n : ℕ) (caches : ℕ → OffloadKVCache S) : Prop :=
  ∀ j < n, Fits (caches j) (p.rows j) (p.depth ≤ j)

/-- The rows written to layer `j` by a sequence of passes, behind those it had. -/
def rowsAfter (h : ℕ → KvRows w) (ps : List (Pass w)) (j : ℕ) : KvRows w :=
  ps.foldl (fun r p => r.append (p.rows j)) (h j)

theorem rowsAfter_tokens (h : ℕ → KvRows w) (ps : List (Pass w)) (j : ℕ) :
    (rowsAfter h ps j).tokens = (h j).tokens + (ps.map Pass.tokens).sum := by
  induction ps generalizing h with
  | nil => rfl
  | cons p ps ih =>
    have := ih fun j => (h j).append (p.rows j)
    rw [List.map_cons, List.sum_cons, ← Nat.add_assoc, ← p.rows_tokens j, ← KvRows.append_tokens]
    exact this

/-- All layers rest, holding `h`, with room for `cap` tokens. -/
def Resting (n : ℕ) (h : ℕ → KvRows w) (cap : ℕ → ℕ) (caches : ℕ → OffloadKVCache S) : Prop :=
  ∀ j < n, Rest (caches j) (h j) ∧ (caches j).maxSeqLen = cap j

/-- **One pass that fits.** -/
theorem Resting.pass {caches : ℕ → OffloadKVCache S} (hrest : Resting n h cap caches)
    (hfit : p.Fitting n caches) (hroom : ∀ j < n, (h j).tokens + p.tokens ≤ cap j) {σ : PassState S}
    (hσ : PassState.Reaches n p caches σ) : PassInv n p (AtStage p h cap) σ :=
  passInv_reaches (protocol_atStage hroom)
    (fun j hj => ⟨⟨(hrest j hj).1, hfit j hj⟩, (hrest j hj).2⟩) hσ

/-- **A sequence of passes that fit.** -/
theorem Resting.passes {caches caches' : ℕ → OffloadKVCache S} {ps : List (Pass w)}
    (hrest : Resting n h cap caches)
    (hroom : ∀ j < n, (h j).tokens + (ps.map Pass.tokens).sum ≤ cap j)
    (hrun : Runs.Run (fun p caches caches' => p.Fitting n caches ∧
    PassState.Completes n p caches caches')
      caches ps caches') : Resting n (rowsAfter h ps) cap caches' := by
  induction hrun generalizing h with
  | nil => exact hrest
  | @cons p ps caches _ _ hstep _ ih =>
    obtain ⟨hfit, σ, hσ, hpc, rfl⟩ := hstep
    simp only [List.map_cons, List.sum_cons] at hroom
    have hinv := hrest.pass hfit (fun j hj => by have := hroom j hj; omega) hσ
    refine ih (h := fun j => (h j).append (p.rows j)) (fun j hj => hinv.done hpc hj) fun j hj => ?_
    rw [KvRows.append_tokens, p.rows_tokens]
    have := hroom j hj
    omega

/-- **Every layer sees its own history**: after any passes that fit, in any state of the next one
that does. -/
theorem layers_see_history {caches₀ caches : ℕ → OffloadKVCache S} {ps : List (Pass w)}
    (hrest : Resting n h cap caches₀)
    (hrun : Runs.Run (fun p caches caches' => p.Fitting n caches ∧
    PassState.Completes n p caches caches')
      caches₀ ps caches) (hfit : p.Fitting n caches)
    (hroom : ∀ j < n, (h j).tokens + ((ps ++ [p]).map Pass.tokens).sum ≤ cap j)
    {σ : PassState S} (hσ : PassState.Reaches n p caches σ) :
    (∀ i, σ.pc = .attend i → ∃ c, (σ.caches i).getView =
      .ok (c, (rowsAfter h (ps ++ [p]) i).view)) ∧
      (∀ i, σ.pc = .write i ∨ σ.pc = .attend i → σ.pending i = .idle) ∧
      (σ.pc = .returned → σ.failure = none ∧ ∀ j, σ.pending j = .idle) ∧
      (σ.pc ≠ .returned → ∃ σ', PassState.Step n p σ σ') := by
  simp only [List.map_append, List.sum_append, List.map_cons, List.map_nil,
    List.sum_cons, List.sum_nil, Nat.add_zero] at hroom
  have hrest' := hrest.passes (fun j hj => by have := hroom j hj; omega) hrun
  have hinv := hrest'.pass hfit (fun j hj => by
    rw [rowsAfter_tokens]
    have := hroom j hj
    omega) hσ
  refine ⟨fun i hpc => ?_, fun i => hinv.idle, fun hpc => ⟨hinv.intact.1, hinv.collected hpc⟩,
    PassState.progress⟩
  obtain ⟨-, hwritten, -⟩ := hinv.written hpc
  obtain ⟨c, hview, -⟩ := hwritten.attend (append_rows_pos p _ i)
  refine ⟨c, ?_⟩
  rw [hview, rowsAfter, rowsAfter, List.foldl_append]
  rfl

/-! ## The first pass -/

/-- A cache without tokens and buffers. -/
def Fresh (w : ℕ) (c : OffloadKVCache S) : Prop :=
  Holding c (KvRows.empty : KvRows w) 0 ∧ c.preloaded = false ∧ c.attnKBuf = none

theorem fresh_new (layerId kvHeads headDim maxSeqLen : ℕ) (dtype : DType) (gpu : Bool) {st : S}
    (hst : LawfulStore.Holds (kvHeads * headDim * dtype.size) st 0 [] []) :
    Fresh (kvHeads * headDim * dtype.size)
      { OffloadKVCache.new layerId kvHeads headDim dtype maxSeqLen st with gpu := gpu } :=
  ⟨holding_new layerId kvHeads headDim maxSeqLen dtype gpu hst, rfl, rfl⟩

theorem Fresh.rest {c : OffloadKVCache S} (hc : Fresh w c) :
    Rest c (KvRows.empty : KvRows w) := .inr hc

theorem Fresh.migrate {c : OffloadKVCache S} (hc : Fresh w c) (r : KvRows w)
    (hroom : r.tokens ≤ c.maxSeqLen) : ∃ c', c.migrateFromRaw r.k r.v r.tokens = .ok c' ∧
    Rest c' r ∧ c'.maxSeqLen = c.maxSeqLen := by
  obtain ⟨hc, hp, hbuf⟩ := hc
  have hb := hc.storeBehind_eq_zero hbuf
  obtain ⟨st, hstore, hst⟩ := LawfulStore.store_ok hc.stored r.length_k r.length_v
  have hst' : LawfulStore.Holds w st (0 + r.tokens) ([] ++ r.k) ([] ++ r.v) := by simpa using hst
  have happ := hc.append hb (by simpa [KvRows.empty] using hroom) hst'
  have hr : KvRows.empty.append r = r := by simp [KvRows.append, KvRows.empty]
  have hpos : c.currentPos = 0 := hc.pos
  rw [hr, hpos, Nat.zero_add] at happ
  exact ⟨_, by rw [OffloadKVCache.migrateFromRaw, hstore]; rfl, .inr ⟨happ, hp, hbuf⟩, rfl⟩

/-- What an empty layer is in the stages of its first pass: preloaded without buffers, then written
past them. -/
def AtFirstStage (p : Pass w) (cap : ℕ → ℕ) (j : ℕ) : Stage → OffloadKVCache S → Prop
  | .resting, c => Fresh w c ∧ c.maxSeqLen = cap j
  | .ready, c =>
    Holding c (KvRows.empty : KvRows w) 0 ∧ c.preloaded = true ∧ c.attnKBuf = none ∧
      c.maxSeqLen = cap j
  | .written, c =>
    Holding c (p.rows j) 0 ∧ c.preloaded = true ∧ c.attnKBuf = none ∧ c.attnVBuf = none
  | .attended, c => c.storeBehind = 0
  | .done, _ => True

theorem getView_zeros {c : OffloadKVCache S} {r : KvRows w} (hc : Holding c r 0)
    (hp : c.preloaded = true) (hk : c.attnKBuf = none) (hv : c.attnVBuf = none)
    (hpos : 0 < r.tokens) :
    ∃ c', c.getView = .ok (c', ⟨r.tokens, zeroed (r.tokens * w), zeroed (r.tokens * w)⟩) ∧
    c'.storeBehind = 0 := by
  have hcur : c.currentPos ≠ 0 := by
    rw [hc.pos]
    omega
  have hle : r.tokens * w ≤ c.maxBytes := by
    rw [OffloadKVCache.maxBytes, hc.width]
    exact Nat.mul_le_mul_right w hc.room
  have hfill := hc.fillBuffers.setPreloaded false
  obtain ⟨hview, -⟩ := hfill.stageOut (k := zeroed c.maxBytes) (v := zeroed c.maxBytes)
    (by simpa [zeroed] using hle) (by simpa [zeroed] using hle)
  have hget := getView_preloaded hp hcur
  rw [hk, hv] at hget
  refine ⟨_, hget.trans (congrArg Except.ok (Prod.ext rfl (hview.trans ?_))), ?_⟩
  · simp [zeroed, List.take_replicate, Nat.min_eq_left hle]
  · rw [stageOut_storeBehind]
    exact hc.storeBehind_eq_zero hk

theorem protocol_atFirstStage (hroom : ∀ j < n, p.tokens ≤ cap j) :
    Protocol n p (AtFirstStage (S := S) p cap) where
  preload := by
    rintro j - c ⟨⟨hc, hp, hbuf⟩, hcap⟩
    have htotal : c.totalBytes = 0 := by rw [hc.totalBytes, KvRows.empty, Nat.zero_mul]
    refine ⟨{ c with preloaded := true }, ?_, hc.setPreloaded true, rfl, hbuf, hcap⟩
    rw [OffloadKVCache.preload, if_neg (by simp [hp]), OffloadKVCache.flushDeferred,
      if_pos (hc.storeBehind_eq_zero hbuf)]
    exact if_pos htotal
  write := by
    rintro j hj c ⟨hc, hp, hbuf, hcap⟩
    have hb := hc.storeBehind_eq_zero hbuf
    have hfits : (KvRows.empty : KvRows w).tokens + (p.rows j).tokens ≤ c.maxSeqLen := by
      rw [KvRows.empty, Nat.zero_add, p.rows_tokens, hcap]
      exact hroom j hj
    obtain ⟨st, hupd, hst⟩ := hc.update_store hb (fun _ _ => hbuf) hfits
    have happ := hc.append hb hfits hst
    have hr : KvRows.empty.append (p.rows j) = p.rows j := by simp [KvRows.append, KvRows.empty]
    rw [hr] at happ
    have hv : c.attnVBuf = none := by
      obtain ⟨-, hv, -⟩ | ⟨kb, -, hk, -⟩ := hc.attn
      · exact hv
      · exact absurd hk (by simp [hbuf])
    exact ⟨_, by rw [OffloadOp.exec, hupd]; rfl, happ, hp, hbuf, hv⟩
  attend := by
    rintro j - c ⟨hc, hp, hk, hv⟩
    obtain ⟨c', hview, hb⟩ := getView_zeros hc hp hk hv (by rw [p.rows_tokens]; exact p.tokens_pos)
    exact ⟨c', _, hview, hb⟩
  retain := fun _ _ _ _ _ => trivial
  release := by
    intro j _ _ c (hb : c.storeBehind = 0)
    have hrel : c.releaseBuffers = .ok { c with attnKBuf := none, attnVBuf := none,
                                                preloaded := false } := by
      rw [OffloadKVCache.releaseBuffers, OffloadKVCache.flushLogged,
        OffloadKVCache.flushDeferred, if_pos hb]
      rfl
    exact ⟨_, hrel, trivial⟩

/-- **The first pass sees zeros**: on empty caches every layer's view is all zeros, whatever is
written. -/
theorem first_pass_sees_zeros {caches : ℕ → OffloadKVCache S}
    (hfresh : ∀ j < n, Fresh w (caches j) ∧ (caches j).maxSeqLen = cap j)
    (hroom : ∀ j < n, p.tokens ≤ cap j) {σ : PassState S} (hσ : PassState.Reaches n p caches σ)
    {i : ℕ} (hpc : σ.pc = .attend i) :
    ∃ c, (σ.caches i).getView =
      .ok (c, ⟨p.tokens, zeroed (p.tokens * w), zeroed (p.tokens * w)⟩) := by
  have hinv := passInv_reaches (protocol_atFirstStage hroom) hfresh hσ
  obtain ⟨-, hc, hp, hk, hv⟩ := hinv.written hpc
  obtain ⟨c, hview, -⟩ := getView_zeros hc hp hk hv (by rw [p.rows_tokens]; exact p.tokens_pos)
  rw [p.rows_tokens] at hview
  exact ⟨c, hview⟩

/-- The states of the main thread while no worker moves. -/
def mainRun (n : ℕ) (p : Pass w) (caches : ℕ → OffloadKVCache S) : ℕ → Option (PassState S)
  | 0 => some (PassState.start caches)
  | k + 1 => (mainRun n p caches k).bind (PassState.mainStep n p)

omit [LawfulStore S] in
theorem reaches_mainRun {caches : ℕ → OffloadKVCache S} {k : ℕ} {σ : PassState S}
    (hσ : mainRun n p caches k = some σ) : PassState.Reaches n p caches σ := by
  induction k generalizing σ with
  | zero =>
    obtain rfl := Option.some.inj hσ
    exact .refl
  | succ k ih =>
    obtain ⟨σ₀, h₀, hstep⟩ := Option.bind_eq_some_iff.mp hσ
    exact (ih h₀).tail (.main hstep)

end

section

open OffloadOp

/-- A decode pass at depth 1 that adds the token `oneToken b` to every layer. -/
def decodePass (b : UInt8) : Pass (1 * 1 * DType.f32.size) :=
  ⟨1, le_rfl, 1, Nat.one_pos, fun _ => oneToken b, fun _ => rfl⟩

/-- A layer that the token `oneToken 1` was migrated into. -/
def migratedHead : OffloadKVCache RawStore :=
  (oneHead.migrateFromRaw (oneToken 1).k (oneToken 1).v (oneToken 1).tokens).toOption.getD oneHead

theorem fresh_oneHead : Fresh (1 * 1 * DType.f32.size) oneHead :=
  fresh_new 0 1 1 8 .f32 false (holds_rawStore_new (1 * 1 * DType.f32.size))

theorem rest_migratedHead : Rest migratedHead (oneToken 1) ∧ migratedHead.maxSeqLen = 8 := by
  obtain ⟨c, hmig, hrest, hmax⟩ := fresh_oneHead.migrate (oneToken 1) (by decide)
  have hc : migratedHead = c := congrArg (fun r => r.toOption.getD oneHead) hmig
  rw [hc]
  exact ⟨hrest, hmax⟩

/-- Two migrated layers, the second in flight: the first one sees both its tokens. -/
theorem layers_see_history_decode :
    ∃ σ, PassState.Reaches 2 (decodePass 2) (fun _ => migratedHead) σ ∧ σ.pc = .attend 0 ∧
      σ.pending 1 = .submitted ∧ ∃ c, (σ.caches 0).getView = .ok (c, (tokenPair 1 2).view) := by
  have hrun : (mainRun 2 (decodePass 2) (fun _ => migratedHead) 7).map (fun σ =>
    (σ.pc, σ.pending 1)) =
      some (.attend 0, .submitted) := by decide
  obtain ⟨σ, hσ, hpc⟩ := Option.map_eq_some_iff.mp hrun
  have hreach := reaches_mainRun hσ
  have hpc₀ : σ.pc = .attend 0 := congrArg Prod.fst hpc
  refine ⟨σ, hreach, hpc₀, congrArg Prod.snd hpc, ?_⟩
  have hrest : Resting 2 (fun _ => oneToken 1) (fun _ => 8) (fun _ => migratedHead) :=
    fun _ _ => rest_migratedHead
  have htotal : migratedHead.totalBytes ≠ 0 := by decide
  have hwidth : migratedHead.tokenBytes ≠ 0 := by decide
  have hfit : (decodePass 2).Fitting 2 (fun _ => migratedHead) :=
    fun _ _ => ⟨.inl ⟨htotal, rfl⟩, fun hw => absurd hw hwidth⟩
  exact (layers_see_history hrest (.nil _) hfit (fun _ _ => by decide) hreach).1 0 hpc₀

/-- The first token of an empty cache is not seen. -/
theorem first_token_unseen :
    ∃ σ, PassState.Reaches 1 (decodePass 1) (fun _ => oneHead) σ ∧ σ.pc = .attend 0 ∧
      ¬ ∃ c, (σ.caches 0).getView =
        .ok (c, (rowsAfter (fun _ => KvRows.empty) [decodePass 1] 0).view) := by
  have hrun : (mainRun 1 (decodePass 1) (fun _ => oneHead) 6).map PassState.pc =
    some (.attend 0) := by decide
  obtain ⟨σ, hσ, hpc⟩ := Option.map_eq_some_iff.mp hrun
  have hreach := reaches_mainRun hσ
  refine ⟨σ, hreach, hpc, ?_⟩
  have hfresh : ∀ j < 1, Fresh (1 * 1 * DType.f32.size) oneHead ∧
    oneHead.maxSeqLen = (fun _ => 8) j :=
    fun _ _ => ⟨fresh_oneHead, rfl⟩
  obtain ⟨c, hview⟩ := first_pass_sees_zeros hfresh (fun _ _ => by decide) hreach hpc
  rintro ⟨c', hview'⟩
  rw [hview] at hview'
  have hk : zeroed 4 = (oneToken 1).k := congrArg View.k (Prod.ext_iff.mp (Except.ok.inj hview')).2
  exact absurd hk (by decide)

end

end ArgusEngine
