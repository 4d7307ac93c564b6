import ArgusEngine.Kv.Offload

/-!
# What an offloaded cache holds

* `LawfulStore`: what a store promises about the bytes it was given; `RawStore` and `DiskStore` keep
  it.
* `Holding c h valid`: the cache `c` stands for the tokens `h`. The store has all but the deferred
  ones, the attention buffers have the deferred ones and, besides, the first `valid` bytes.
* One lemma for each operation says what it does to `Holding`.
* **`Holding.getView`**: a view is all of `h` when the buffers it trusts have all of `h`.
-/

namespace ArgusEngine

open FlatMem

/-! ## The tokens of a cache -/

/-- The K and V bytes of consecutive tokens of `w` bytes each, as a SeqMajor tensor lays them
out. -/
structure KvRows (w : ℕ) where
  tokens : ℕ
  k : Bytes
  v : Bytes
  length_k : k.length = tokens * w
  length_v : v.length = tokens * w

namespace KvRows

variable {w : ℕ}

def empty : KvRows w := ⟨0, [], [], by simp, by simp⟩

def append (h r : KvRows w) : KvRows w where
  tokens := h.tokens + r.tokens
  k := h.k ++ r.k
  v := h.v ++ r.v
  length_k := by simp [h.length_k, r.length_k, Nat.add_mul]
  length_v := by simp [h.length_v, r.length_v, Nat.add_mul]

@[simp] theorem append_tokens (h r : KvRows w) : (h.append r).tokens = h.tokens + r.tokens := rfl

/-- The view attention should see. -/
def view (h : KvRows w) : View := ⟨h.tokens, h.k, h.v⟩

end KvRows

/-! ## Lawful stores -/

/-- A store that gives back the bytes of its tokens: `Holds w s n k v` says that `s` has `n` tokens
of `w` bytes, `k` and `v` in all. -/
class LawfulStore (S : Type) [OffloadStore S] where
  Holds : ℕ → S → ℕ → Bytes → Bytes → Prop
  store_ok {w : ℕ} {s : S} {m n : ℕ} {k₀ v₀ k v : Bytes} (hs : Holds w s m k₀ v₀)
    (hk : k.length = n * w) (hv : v.length = n * w) : ∃ s', OffloadStore.store s k v n = .ok s' ∧
    Holds w s' n k v
  append_ok {w : ℕ} {s : S} {n : ℕ} {k v x y : Bytes} (hs : Holds w s n k v) (hx : x.length = w)
    (hy : y.length = w) :
    ∃ s', OffloadStore.appendToken s x y = .ok s' ∧ Holds w s' (n + 1) (k ++ x) (v ++ y)
  load_ok {w : ℕ} {s : S} {n : ℕ} {k v x y : Bytes} (hs : Holds w s n k v) (hx : x.length = n * w)
    (hy : y.length = n * w) : OffloadStore.loadInto s x y = .ok (k, v)

theorem sliced_ok {b : Bytes} {lo n : ℕ} (h : lo + n ≤ b.length) :
    sliced b lo n = .ok (slice b lo n) :=
  if_pos h

theorem copiedInto_ok {b src : Bytes} {lo : ℕ} (h : lo + src.length ≤ b.length) :
    copiedInto b lo src = .ok (blit src 0 b lo src.length) := if_pos h

theorem slice_all {b : Bytes} {n : ℕ} (h : b.length = n) : slice b 0 n = b := by
  simp [slice, ← h]

theorem slice_append_slice (b : Bytes) (lo m n : ℕ) :
    slice b lo m ++ slice b (lo + m) n = slice b lo (m + n) := by
  simp only [slice, List.take_add, List.drop_drop]

theorem blit_all {src dst : Bytes} {n : ℕ} (hs : src.length = n) (hd : dst.length = n) :
    blit src 0 dst 0 n = src := by
  refine List.ext_getElem? fun i => ?_
  rw [getElem?_blit (by omega) i (by omega)]
  split_ifs with hi
  · congr 1
    omega
  · rw [List.getElem?_eq_none (by omega), List.getElem?_eq_none (by omega)]

instance : LawfulStore RawStore where
  Holds w s n k v := s = ⟨k, v, n, w⟩ ∧ k.length = n * w ∧ v.length = n * w
  store_ok := by
    rintro w s m n k₀ v₀ k v ⟨rfl, -, -⟩ hk hv
    exact ⟨_, by simp [OffloadStore.store, hk, hv], rfl, hk, hv⟩
  append_ok := by
    rintro w s n k v kt vt ⟨rfl, hk, hv⟩ hkt hvt
    refine ⟨_, by simp [OffloadStore.appendToken, hkt, hvt], rfl, ?_, ?_⟩
    · simp [hk, hkt, Nat.add_mul]
    · simp [hv, hvt, Nat.add_mul]
  load_ok := by
    rintro w s n k v kb vb ⟨rfl, hk, hv⟩ hkb hvb
    rcases Nat.eq_zero_or_pos n with rfl | hn
    · have hkb₀ : kb = k := by simp_all
      have hvb₀ : vb = v := by simp_all
      simp [OffloadStore.loadInto, hkb₀, hvb₀]
    · simp only [OffloadStore.loadInto, if_neg hn.ne']
      rw [sliced_ok (by omega), sliced_ok (by omega), slice_all hk, slice_all hv]
      simp only [bind, Except.bind]
      rw [copiedInto_ok (by omega), copiedInto_ok (by omega), blit_all rfl (by omega),
        blit_all rfl (by omega)]

instance : LawfulStore DiskStore where
  Holds w s n k v := s = ⟨k, v, n, w⟩ ∧ k.length = n * w ∧ v.length = n * w
  store_ok := by
    rintro w s m n k₀ v₀ k v ⟨rfl, -, -⟩ hk hv
    exact ⟨_, rfl, rfl, hk, hv⟩
  append_ok := by
    rintro w s n k v kt vt ⟨rfl, hk, hv⟩ hkt hvt
    refine ⟨_, rfl, rfl, ?_, ?_⟩
    · simp [hk, hkt, Nat.add_mul]
    · simp [hv, hvt, Nat.add_mul]
  load_ok := by
    rintro w s n k v kb vb ⟨rfl, hk, hv⟩ hkb hvb
    simp only [OffloadStore.loadInto, readExactInto]
    rw [if_neg (by omega), if_pos (by omega), if_pos (by omega), blit_all hk hkb, blit_all hv hvb]
    rfl

/-! ## The state of a cache that stands for `h` -/

/-- The buffer `b` of `cap` bytes has, of the bytes `x`, those from `stored` on and the first
`valid`; it is still zero behind them. -/
structure Buffered (b x : Bytes) (cap stored valid : ℕ) : Prop where
  length : b.length = cap
  valid_le : valid ≤ x.length
  tail : ∀ i, stored ≤ i → i < x.length → b[i]? = x[i]?
  head : ∀ i < valid, b[i]? = x[i]?
  blank : ∀ i, x.length ≤ i → i < cap → b[i]? = some 0

/-- The attention buffers of a cache: both absent with nothing in them, or both there. -/
def Attn (cap stored valid : ℕ) (k v : Bytes) (attnK attnV : Option Bytes) : Prop :=
  (attnK = none ∧ attnV = none ∧ valid = 0) ∨
    ∃ kb vb, attnK = some kb ∧ attnV = some vb ∧ Buffered kb k cap stored valid ∧
    Buffered vb v cap stored valid

section

variable {S : Type} [OffloadStore S] [LawfulStore S] {w : ℕ}

structure Holding (c : OffloadKVCache S) (h : KvRows w) (valid : ℕ) : Prop where
  width : c.tokenBytes = w
  pos : c.currentPos = h.tokens
  room : h.tokens ≤ c.maxSeqLen
  behind : c.storeBehind ≤ h.tokens
  stored : LawfulStore.Holds w c.store (h.tokens - c.storeBehind)
    (h.k.take ((h.tokens - c.storeBehind) * w)) (h.v.take ((h.tokens - c.storeBehind) * w))
  deferred : 0 < c.storeBehind → c.attnKBuf ≠ none
  attn : Attn (c.maxSeqLen * w) ((h.tokens - c.storeBehind) * w) valid h.k h.v c.attnKBuf c.attnVBuf
  gpuBufs : ∀ b, c.gpuKBuf = some b ∨ c.gpuVBuf = some b → b.length = c.maxSeqLen * w

omit [LawfulStore S] in
theorem OffloadKVCache.updateOne_store {c : OffloadKVCache S}
    (h : c.preloaded = true → c.attnKBuf = none) (k v : Bytes) :
    c.updateOne k v = (do
      let st ← OffloadStore.appendToken c.store k v
      .ok { c with store := st }) := by
  unfold OffloadKVCache.updateOne
  split
  · next hp hk hv => exact absurd (h hp) (by simp [hk])
  · rfl

theorem holds_flushTokens {c : OffloadKVCache S} (hw : c.tokenBytes = w) {x y : Bytes}
    {st : S} {s n m : ℕ} {k v : Bytes} (hk : (s + m) * w ≤ x.length) (hv : (s + m) * w ≤ y.length)
    (hst : LawfulStore.Holds w st n k v) :
    ∃ st', (List.range' s m).foldlM (c.flushToken x y) st = .ok st' ∧
      LawfulStore.Holds w st' (n + m) (k ++ slice x (s * w) (m * w))
        (v ++ slice y (s * w) (m * w)) := by
  induction m generalizing s st n k v with
  | zero => exact ⟨st, rfl, by simpa [slice] using hst⟩
  | succ m ih =>
    have hend : (s + (m + 1)) * w = s * w + w + m * w := by ring
    have hnext : (s + 1 + m) * w = s * w + w + m * w := by ring
    obtain ⟨st₁, happ, hst₁⟩ := LawfulStore.append_ok hst (x := slice x (s * w) w)
      (y := slice y (s * w) w) (length_slice (by omega)) (length_slice (by omega))
    obtain ⟨st', hfold, hst'⟩ := ih (s := s + 1) (by omega) (by omega) hst₁
    refine ⟨st', ?_, ?_⟩
    · have htok : c.flushToken x y st s = .ok st₁ := by
        simp only [OffloadKVCache.flushToken, hw]
        rw [sliced_ok (by omega), sliced_ok (by omega)]
        exact happ
      rw [List.range'_succ, List.foldlM_cons, htok]
      exact hfold
    · have hsplit : ∀ b : Bytes, slice b (s * w) w ++ slice b ((s + 1) * w) (m * w) =
          slice b (s * w) ((m + 1) * w) := by
        intro b
        rw [Nat.succ_mul s, slice_append_slice, Nat.succ_mul m, Nat.add_comm]
      rw [List.append_assoc, List.append_assoc, hsplit, hsplit] at hst'
      rwa [Nat.add_right_comm, Nat.add_assoc] at hst'

theorem Buffered.mono_stored {b x : Bytes} {cap stored stored' valid : ℕ}
    (hs : Buffered b x cap stored valid) (h : stored ≤ stored') : Buffered b x cap stored' valid :=
  ⟨hs.length, hs.valid_le, fun i hi => hs.tail i (Nat.le_trans h hi), hs.head, hs.blank⟩

theorem Buffered.take_append_slice {b x : Bytes} {cap stored valid n : ℕ}
    (hs : Buffered b x cap stored valid) (hn : stored + n = x.length) :
    x.take stored ++ slice b stored n = x := by
  have htail : slice b stored n = slice x stored n :=
    slice_ext fun i hi => hs.tail _ (by omega) (by omega)
  have hall : slice x stored n = x.drop stored :=
    List.take_of_length_le (by rw [List.length_drop]; omega)
  rw [htail, hall, List.take_append_drop]

/-- **A flush** of a cache whose rows have bytes gives the store every token. -/
theorem Holding.flushDeferred {c : OffloadKVCache S} {h : KvRows w} {valid : ℕ}
    (hc : Holding c h valid) (hw : 0 < c.storeBehind → 0 < c.tokenBytes) :
    ∃ st, c.flushDeferred = .ok { c with store := st, storeBehind := 0 } ∧
      Holding { c with store := st, storeBehind := 0 } h valid := by
  by_cases h0 : c.storeBehind = 0
  · have heq : c = { c with store := c.store, storeBehind := 0 } := by rw [← h0]
    refine ⟨c.store, ?_, heq ▸ hc⟩
    rw [OffloadKVCache.flushDeferred, if_pos h0, ← heq]
  have hpos := Nat.pos_of_ne_zero h0
  have hwpos := hw hpos
  have hcap := Nat.mul_le_mul_right w hc.room
  have hbehind := hc.behind
  have hsum : (h.tokens - c.storeBehind) * w + c.storeBehind * w = h.tokens * w := by
    rw [← Nat.add_mul, Nat.sub_add_cancel hbehind]
  obtain ⟨hk, -, -⟩ | ⟨kb, vb, hk, hv, hks, hvs⟩ := hc.attn
  · exact absurd hk (hc.deferred hpos)
  have hkb := hks.length
  have hvb := hvs.length
  obtain ⟨st, hfold, hst⟩ := holds_flushTokens hc.width (x := kb) (y := vb)
    (s := h.tokens - c.storeBehind) (m := c.storeBehind) (by rw [Nat.sub_add_cancel hbehind]; omega)
    (by rw [Nat.sub_add_cancel hbehind]; omega) hc.stored
  rw [Nat.sub_add_cancel hbehind, hks.take_append_slice (by rw [hsum, h.length_k]),
    hvs.take_append_slice (by rw [hsum, h.length_v])] at hst
  refine ⟨st, ?_, ?_⟩
  · rw [OffloadKVCache.flushDeferred, if_neg h0, hk, hv]
    simp only [if_neg hwpos.ne', hc.pos, hfold]
    rfl
  · refine ⟨hc.width, hc.pos, hc.room, Nat.zero_le _, ?_, fun h =>
      absurd h (Nat.lt_irrefl 0), ?_, hc.gpuBufs⟩
    · rwa [Nat.sub_zero, List.take_of_length_le h.length_k.le, List.take_of_length_le h.length_v.le]
    · have hle : (h.tokens - c.storeBehind) * w ≤ (h.tokens - 0) * w := by
        rw [Nat.sub_zero]
        omega
      exact .inr ⟨kb, vb, hk, hv, hks.mono_stored hle, hvs.mono_stored hle⟩

theorem buffered_zeroed {x : Bytes} {cap stored : ℕ} (hst : x.length ≤ stored) :
    Buffered (zeroed cap) x cap stored 0 := by
  refine ⟨by simp [zeroed], Nat.zero_le _, fun i hi hi' => by omega, fun i hi => by
    omega, fun i _ hi => ?_⟩
  rw [zeroed, List.getElem?_replicate, if_pos hi]

theorem Attn.getD {cap stored valid : ℕ} {k v : Bytes} {attnK attnV : Option Bytes}
    (ha : Attn cap stored valid k v attnK attnV)
    (habs : attnK = none → k.length ≤ stored ∧ v.length ≤ stored) :
    Buffered (attnK.getD (zeroed cap)) k cap stored valid ∧ Buffered (attnV.getD (zeroed cap))
      v cap stored valid := by
  obtain ⟨rfl, rfl, rfl⟩ | ⟨kb, vb, rfl, rfl, hk, hv⟩ := ha
  · exact ⟨buffered_zeroed (habs rfl).1, buffered_zeroed (habs rfl).2⟩
  · exact ⟨hk, hv⟩

theorem Buffered.load {b x : Bytes} {cap stored valid : ℕ} (hs : Buffered b x cap stored valid)
    (hx : x.length ≤ cap) : Buffered (blit x 0 b 0 x.length) x cap stored x.length := by
  have hlen := hs.length
  have hread : ∀ i < x.length, (blit x 0 b 0 x.length)[i]? = x[i]? := by
    intro i hi
    rw [getElem?_blit (by omega) i (by omega), if_pos ⟨Nat.zero_le _, by omega⟩]
    simp
  refine ⟨by simpa using hlen, le_rfl, fun i _ hi => hread i hi, hread, fun i hi hi' => ?_⟩
  rw [getElem?_blit (by omega) i (by omega), if_neg (by omega)]
  exact hs.blank i hi hi'

theorem Holding.attn_getD {c : OffloadKVCache S} {h : KvRows w} {valid : ℕ}
    (hc : Holding c h valid) :
    Buffered (c.attnKBuf.getD (zeroed (c.maxSeqLen * w))) h.k (c.maxSeqLen * w)
      ((h.tokens - c.storeBehind) * w) valid ∧
      Buffered (c.attnVBuf.getD (zeroed (c.maxSeqLen * w))) h.v (c.maxSeqLen * w)
        ((h.tokens - c.storeBehind) * w)
        valid := by
  refine hc.attn.getD fun hnone => ?_
  have hb : c.storeBehind = 0 := by
    by_contra hne
    exact hc.deferred (Nat.pos_of_ne_zero hne) hnone
  rw [hb, Nat.sub_zero, h.length_k, h.length_v]
  exact ⟨le_rfl, le_rfl⟩

/-- **A load** of a cache with nothing deferred puts every token into the buffers. -/
theorem Holding.loadAttn {c : OffloadKVCache S} {h : KvRows w} {valid : ℕ} (hc : Holding c h valid)
    (h0 : c.storeBehind = 0) :
    ∃ kb vb, c.loadAttn = .ok { c with attnKBuf := some kb, attnVBuf := some vb } ∧
      Holding { c with attnKBuf := some kb, attnVBuf := some vb } h (h.tokens * w) := by
  have hcap := Nat.mul_le_mul_right w hc.room
  have htotal : c.totalBytes = h.tokens * w := by rw [OffloadKVCache.totalBytes, hc.pos, hc.width]
  have hmax : c.maxBytes = c.maxSeqLen * w := by rw [OffloadKVCache.maxBytes, hc.width]
  obtain ⟨hkb, hvb⟩ := hc.attn_getD
  have hkl := hkb.length
  have hvl := hvb.length
  have hst := hc.stored
  rw [h0, Nat.sub_zero, List.take_of_length_le h.length_k.le,
    List.take_of_length_le h.length_v.le] at hst
  have hload := LawfulStore.load_ok hst (x := slice (c.attnKBuf.getD (zeroed (c.maxSeqLen * w)))
    0 (h.tokens * w)) (y := slice (c.attnVBuf.getD (zeroed (c.maxSeqLen * w))) 0 (h.tokens * w))
    (length_slice (by omega)) (length_slice (by omega))
  refine ⟨blit h.k 0 (c.attnKBuf.getD (zeroed (c.maxSeqLen * w))) 0 (h.tokens * w),
    blit h.v 0 (c.attnVBuf.getD (zeroed (c.maxSeqLen * w))) 0 (h.tokens * w), ?_, ?_⟩
  · simp only [OffloadKVCache.loadAttn, htotal, hmax]
    rw [sliced_ok (by omega), sliced_ok (by omega)]
    simp only [bind, Except.bind, hload]
  · refine { hc with deferred := fun _ => by simp, attn := .inr ⟨_, _, rfl, rfl, ?_, ?_⟩ }
    · rw [← h.length_k]
      exact hkb.load (h.length_k.trans_le hcap)
    · rw [← h.length_v]
      exact hvb.load (h.length_v.trans_le hcap)

theorem Holding.setPreloaded {c : OffloadKVCache S} {h : KvRows w} {valid : ℕ}
    (hc : Holding c h valid) (b : Bool) : Holding { c with preloaded := b } h valid := { hc with }

theorem Holding.valid_le {c : OffloadKVCache S} {h : KvRows w} {valid : ℕ}
    (hc : Holding c h valid) : valid ≤ h.tokens * w := by
  obtain ⟨-, -, rfl⟩ | ⟨kb, vb, -, -, hk, -⟩ := hc.attn
  · exact Nat.zero_le _
  · exact h.length_k ▸ hk.valid_le

/-- **`preload`** of a cache that is not preloaded: the store catches up and, when there are bytes,
the buffers get all of them. -/
theorem Holding.preload {c : OffloadKVCache S} {h : KvRows w} {valid : ℕ} (hc : Holding c h valid)
    (hp : c.preloaded = false) (hw : 0 < c.storeBehind → 0 < c.tokenBytes) :
    ∃ st kb vb, c.preload = .ok { c with
        store := st, storeBehind := 0, attnKBuf := kb, attnVBuf := vb, preloaded := true } ∧
      Holding { c with store := st, storeBehind := 0, attnKBuf := kb, attnVBuf := vb,
                       preloaded := true } h
        (if c.totalBytes = 0 then valid else h.tokens * w) := by
  obtain ⟨st, hflush, hc₁⟩ := hc.flushDeferred hw
  by_cases htotal : c.totalBytes = 0
  · refine ⟨st, c.attnKBuf, c.attnVBuf, ?_, ?_⟩
    · rw [OffloadKVCache.preload, if_neg (by simp [hp]), hflush]
      exact if_pos htotal
    · rw [if_pos htotal]
      exact hc₁.setPreloaded true
  · obtain ⟨kb, vb, hload, hc₂⟩ := hc₁.loadAttn rfl
    refine ⟨st, kb, vb, ?_, ?_⟩
    · rw [OffloadKVCache.preload, if_neg (by simp [hp]), hflush]
      refine (if_neg htotal).trans ?_
      rw [hload]
      rfl
    · rw [if_neg htotal]
      exact hc₂.setPreloaded true

theorem Holding.flushLogged {c : OffloadKVCache S} {h : KvRows w} {valid : ℕ}
    (hc : Holding c h valid) (hw : 0 < c.storeBehind → 0 < c.tokenBytes) :
    ∃ st, c.flushLogged = .ok { c with store := st, storeBehind := 0 } ∧
      Holding { c with store := st, storeBehind := 0 } h valid := by
  obtain ⟨st, hflush, hc'⟩ := hc.flushDeferred hw
  exact ⟨st, by rw [OffloadKVCache.flushLogged, hflush], hc'⟩

/-- **`release_buffers`** leaves every token in the store. -/
theorem Holding.releaseBuffers {c : OffloadKVCache S} {h : KvRows w} {valid : ℕ}
    (hc : Holding c h valid) (hw : 0 < c.storeBehind → 0 < c.tokenBytes) :
    ∃ st, c.releaseBuffers = .ok { c with
        store := st, storeBehind := 0, attnKBuf := none, attnVBuf := none, preloaded := false } ∧
      Holding { c with store := st, storeBehind := 0, attnKBuf := none, attnVBuf := none,
                       preloaded := false } h 0 := by
  obtain ⟨st, hflush, hc'⟩ := hc.flushLogged hw
  refine ⟨st, ?_, ?_⟩
  · rw [OffloadKVCache.releaseBuffers, hflush]
    rfl
  · exact { hc' with deferred := fun h => absurd h (Nat.lt_irrefl 0), attn := .inl ⟨rfl, rfl, rfl⟩ }

theorem Holding.retainPreload {c : OffloadKVCache S} {h : KvRows w} {valid : ℕ}
    (hc : Holding c h valid) : Holding c.retainPreload h valid := by
  unfold OffloadKVCache.retainPreload
  split_ifs with hsome
  · exact hc.setPreloaded true
  · exact hc

/-! ## Updates -/

/-- One more token for a buffer: it lies behind the bytes the buffer has. -/
theorem Buffered.push {b x t : Bytes} {cap stored valid : ℕ} (hs : Buffered b x cap stored valid)
    (hroom : x.length + t.length ≤ cap) :
    Buffered (blit t 0 b x.length t.length) (x ++ t) cap stored
      (if valid = x.length then x.length + t.length else valid) := by
  have hlen := hs.length
  have hread : ∀ i, (blit t 0 b x.length t.length)[i]? =
      if x.length ≤ i ∧ i < x.length + t.length then t[i - x.length]? else b[i]? := by
    intro i
    rw [getElem?_blit (by omega) i (by omega), Nat.zero_add]
  have hnew : ∀ i, x.length ≤ i → i < x.length + t.length →
      (blit t 0 b x.length t.length)[i]? = (x ++ t)[i]? := by
    intro i hi hi'
    rw [hread, if_pos ⟨hi, hi'⟩, List.getElem?_append_right hi]
  have hold : ∀ i < x.length, b[i]? = x[i]? →
    (blit t 0 b x.length t.length)[i]? = (x ++ t)[i]? := by
    intro i hi heq
    rw [hread, if_neg (by omega), List.getElem?_append_left hi, heq]
  have hvalid := hs.valid_le
  refine ⟨by simpa using hlen, ?_, ?_, ?_, ?_⟩
  · rw [List.length_append]
    split_ifs <;> omega
  · intro i hi hi'
    rw [List.length_append] at hi'
    rcases Nat.lt_or_ge i x.length with hlt | hge
    · exact hold i hlt (hs.tail i hi hlt)
    · exact hnew i hge hi'
  · intro i hi
    rcases Nat.lt_or_ge i x.length with hlt | hge
    · refine hold i hlt (hs.head i ?_)
      split_ifs at hi with heq <;> omega
    · refine hnew i hge ?_
      split_ifs at hi with heq <;> omega
  · intro i hi hi'
    rw [List.length_append] at hi
    rw [hread, if_neg (by omega)]
    exact hs.blank i (by omega) hi'

theorem Buffered.append {b x t : Bytes} {cap stored valid : ℕ}
    (hs : Buffered b x cap stored valid) : Buffered b (x ++ t) cap (x ++ t).length valid := by
  have hvalid := hs.valid_le
  refine ⟨hs.length, ?_, fun i hi hi' => by omega, ?_, ?_⟩
  · rw [List.length_append]
    omega
  · intro i hi
    rw [hs.head i hi, List.getElem?_append_left (by omega)]
  · intro i hi hi'
    rw [List.length_append] at hi
    exact hs.blank i (by omega) hi'

/-- **A deferred update**: a single token for a preloaded cache with buffers goes to the buffers. -/
theorem Holding.update_deferred {c : OffloadKVCache S} {h r : KvRows w} {valid : ℕ}
    (hc : Holding c h valid) (hp : c.preloaded = true) (hbuf : c.attnKBuf ≠ none)
    (h1 : r.tokens = 1) (hroom : h.tokens + r.tokens ≤ c.maxSeqLen) :
    ∃ kb vb, c.update r.tokens r.k r.v = .ok { c with
        attnKBuf := some kb, attnVBuf := some vb, storeBehind := c.storeBehind + 1
        currentPos := c.currentPos + r.tokens } ∧
      Holding { c with
          attnKBuf := some kb, attnVBuf := some vb, storeBehind := c.storeBehind + 1
          currentPos := c.currentPos + r.tokens } (h.append r)
        (if valid = h.tokens * w then (h.tokens + r.tokens) * w else valid) := by
  obtain ⟨hk, -, -⟩ | ⟨kb, vb, hk, hv, hks, hvs⟩ := hc.attn
  · exact absurd hk hbuf
  have hcap := Nat.mul_le_mul_right w hroom
  rw [Nat.add_mul] at hcap
  have htotal : c.totalBytes = h.tokens * w := by rw [OffloadKVCache.totalBytes, hc.pos, hc.width]
  have hkl := h.length_k
  have hvl := h.length_v
  have hrk := r.length_k
  have hrv := r.length_v
  have hkb := hks.length
  have hvb := hvs.length
  have hpk := hks.push (t := r.k) (by omega)
  have hpv := hvs.push (t := r.v) (by omega)
  refine ⟨blit r.k 0 kb h.k.length r.k.length, blit r.v 0 vb h.v.length r.v.length, ?_, ?_⟩
  · rw [OffloadKVCache.update, if_neg (by rw [hc.pos]; omega), if_pos h1,
      OffloadKVCache.updateOne, hp, hk, hv]
    simp only [htotal, hkl, hvl]
    rw [copiedInto_ok (by omega), copiedInto_ok (by omega)]
    rfl
  · have hsub : h.tokens + r.tokens - (c.storeBehind + 1) = h.tokens - c.storeBehind := by
      have := hc.behind
      omega
    have hle := Nat.mul_le_mul_right w (Nat.sub_le h.tokens c.storeBehind)
    refine ⟨hc.width,
      by simp [KvRows.append, hc.pos], hroom, ?_, ?_, by simp, .inr ⟨_, _, rfl, rfl, ?_, ?_⟩,
      hc.gpuBufs⟩
    · have := hc.behind
      simp only [KvRows.append]
      omega
    · simp only [KvRows.append, hsub]
      rw [List.take_append_of_le_length (by omega), List.take_append_of_le_length (by omega)]
      exact hc.stored
    · simp only [KvRows.append, hsub]
      rwa [Nat.add_mul, ← hrk, ← hkl]
    · simp only [KvRows.append, hsub]
      rwa [Nat.add_mul, ← hrv, ← hvl]

theorem Holding.append {c : OffloadKVCache S} {h r : KvRows w} {valid : ℕ} {st : S}
    (hc : Holding c h valid) (h0 : c.storeBehind = 0) (hroom : h.tokens + r.tokens ≤ c.maxSeqLen)
    (hst : LawfulStore.Holds w st (h.tokens + r.tokens) (h.k ++ r.k) (h.v ++ r.v)) :
    Holding { c with store := st, currentPos := c.currentPos + r.tokens } (h.append r) valid := by
  refine ⟨hc.width,
    by simp [KvRows.append, hc.pos], hroom, by simp [h0], ?_, hc.deferred, ?_, hc.gpuBufs⟩
  · simp only [h0, Nat.sub_zero]
    rwa [List.take_of_length_le (h.append r).length_k.le,
      List.take_of_length_le (h.append r).length_v.le]
  · simp only [h0, Nat.sub_zero]
    obtain ⟨hk, hv, hvalid⟩ | ⟨kb, vb, hk, hv, hks, hvs⟩ := hc.attn
    · exact .inl ⟨hk, hv, hvalid⟩
    · refine .inr ⟨kb, vb, hk, hv, ?_, ?_⟩
      · rw [← (h.append r).length_k]
        exact hks.append
      · rw [← (h.append r).length_v]
        exact hvs.append

/-- With nothing deferred, several tokens, or one that the cache does not keep in buffers, go to the
store. -/
theorem Holding.update_store {c : OffloadKVCache S} {h r : KvRows w} {valid : ℕ}
    (hc : Holding c h valid) (h0 : c.storeBehind = 0)
    (h1 : r.tokens = 1 → c.preloaded = true → c.attnKBuf = none)
    (hroom : h.tokens + r.tokens ≤ c.maxSeqLen) :
    ∃ st, c.update r.tokens r.k r.v = .ok { c with store := st,
                                                   currentPos := c.currentPos + r.tokens } ∧
      LawfulStore.Holds w st (h.tokens + r.tokens) (h.k ++ r.k) (h.v ++ r.v) := by
  have hst := hc.stored
  rw [h0, Nat.sub_zero, List.take_of_length_le h.length_k.le,
    List.take_of_length_le h.length_v.le] at hst
  have hover : ¬ c.maxSeqLen < c.currentPos + r.tokens := by rw [hc.pos]; omega
  by_cases hone : r.tokens = 1
  · obtain ⟨st, happ, hst'⟩ := LawfulStore.append_ok hst (x := r.k) (y := r.v)
      (by rw [r.length_k, hone, Nat.one_mul]) (by rw [r.length_v, hone, Nat.one_mul])
    refine ⟨st, ?_, hone ▸ hst'⟩
    rw [OffloadKVCache.update, if_neg hover, if_pos hone,
      OffloadKVCache.updateOne_store (h1 hone), happ]
    rfl
  by_cases hpos : c.currentPos = 0
  · obtain ⟨st, hstore, hst'⟩ := LawfulStore.store_ok hst r.length_k r.length_v
    have hnil : h.tokens = 0 := hc.pos ▸ hpos
    have hk : h.k = [] := List.length_eq_zero_iff.mp (by rw [h.length_k, hnil, Nat.zero_mul])
    have hv : h.v = [] := List.length_eq_zero_iff.mp (by rw [h.length_v, hnil, Nat.zero_mul])
    refine ⟨st, ?_, by rwa [hnil, hk, hv, Nat.zero_add]⟩
    rw [OffloadKVCache.update, if_neg hover, if_neg hone, OffloadKVCache.updateMany,
      if_pos hpos, hstore]
    rfl
  · obtain ⟨st, hfold, hst'⟩ := holds_flushTokens hc.width (x := r.k) (y := r.v)
      (s := 0) (m := r.tokens) (by rw [Nat.zero_add, r.length_k])
        (by rw [Nat.zero_add, r.length_v]) hst
    rw [Nat.zero_mul, slice_all r.length_k, slice_all r.length_v] at hst'
    refine ⟨st, ?_, hst'⟩
    rw [OffloadKVCache.update, if_neg hover, if_neg hone, OffloadKVCache.updateMany,
      if_neg hpos, hfold]
    rfl

theorem Holding.update_nothing {c : OffloadKVCache S} {h r : KvRows w} {valid : ℕ}
    (hc : Holding c h valid) (h0 : 0 < c.storeBehind) (hr : r.tokens = 0) :
    c.update r.tokens r.k r.v = .ok { c with currentPos := c.currentPos + r.tokens } ∧
      Holding { c with currentPos := c.currentPos + r.tokens } (h.append r) valid := by
  have hroom := hc.room
  have hbehind := hc.behind
  have hpos := hc.pos
  have hk : r.k = [] := List.length_eq_zero_iff.mp (by rw [r.length_k, hr, Nat.zero_mul])
  have hv : r.v = [] := List.length_eq_zero_iff.mp (by rw [r.length_v, hr, Nat.zero_mul])
  have happ : h.append r = h := by
    cases h
    simp [KvRows.append, hr, hk, hv]
  constructor
  · rw [OffloadKVCache.update, if_neg (by omega), if_neg (by omega), OffloadKVCache.updateMany,
      if_neg (by omega), hr]
    rfl
  · rw [happ, hr]
    exact hc

/-! ## Views -/

theorem Buffered.take_eq {b x : Bytes} {cap stored : ℕ} (hs : Buffered b x cap stored x.length) :
    b.take x.length = x := by
  refine List.ext_getElem? fun i => ?_
  rw [List.getElem?_take]
  split_ifs with hi
  · exact hs.head i hi
  · rw [List.getElem?_eq_none (by omega)]

theorem take_blit_zero {k out : Bytes} {n : ℕ} (hk : n ≤ k.length) (hout : n ≤ out.length) :
    (blit k 0 out 0 n).take n = k.take n := by
  refine List.ext_getElem? fun i => ?_
  rw [List.getElem?_take, List.getElem?_take]
  split_ifs with hi
  · rw [getElem?_blit (by omega) i (by omega), if_pos ⟨Nat.zero_le _, by omega⟩]
    simp
  · rfl

theorem le_length_reuse (slot : Option Bytes) (n : ℕ) :
    n ≤ (OffloadKVCache.reuseOrAllocOutBuf slot n).length := by
  unfold OffloadKVCache.reuseOrAllocOutBuf
  split
  · split_ifs with h
    · exact h
    · simp [zeroed]
  · simp [zeroed]

theorem Holding.fillBuffers {c : OffloadKVCache S} {h : KvRows w} {valid : ℕ}
    (hc : Holding c h valid) : Holding { c with
      attnKBuf := some (c.attnKBuf.getD (zeroed c.maxBytes))
      attnVBuf := some (c.attnVBuf.getD (zeroed c.maxBytes)) } h valid := by
  have hmax : c.maxBytes = c.maxSeqLen * w := by rw [OffloadKVCache.maxBytes, hc.width]
  refine { hc with deferred := fun _ => by simp, attn := .inr ⟨_, _, rfl, rfl, ?_⟩ }
  rw [hmax]
  exact hc.attn_getD

section

variable (c : OffloadKVCache S) (k v : Bytes)

omit [OffloadStore S] [LawfulStore S]

@[simp] theorem stageOut_preloaded : (c.stageOut k v).1.preloaded = c.preloaded := by
  unfold OffloadKVCache.stageOut
  split_ifs <;> rfl

@[simp] theorem stageOut_storeBehind : (c.stageOut k v).1.storeBehind = c.storeBehind := by
  unfold OffloadKVCache.stageOut
  split_ifs <;> rfl

@[simp] theorem stageOut_attnKBuf : (c.stageOut k v).1.attnKBuf = c.attnKBuf := by
  unfold OffloadKVCache.stageOut
  split_ifs <;> rfl

@[simp] theorem stageOut_maxSeqLen : (c.stageOut k v).1.maxSeqLen = c.maxSeqLen := by
  unfold OffloadKVCache.stageOut
  split_ifs <;> rfl

end

theorem Holding.gpuBuffers {c : OffloadKVCache S} {h : KvRows w} {valid : ℕ}
    (hc : Holding c h valid) : c.gpuBuffers.1.length = c.maxSeqLen * w ∧
    c.gpuBuffers.2.length = c.maxSeqLen * w := by
  have hmax : c.maxBytes = c.maxSeqLen * w := by rw [OffloadKVCache.maxBytes, hc.width]
  unfold OffloadKVCache.gpuBuffers
  rw [hmax]
  split
  · next gk gv hk hv =>
    have hgk := hc.gpuBufs gk (.inl hk)
    rw [if_neg (by omega)]
    exact ⟨hgk, hc.gpuBufs gv (.inr hv)⟩
  · simp [zeroed]

/-- **The staging**: what leaves the attention buffers is their first `total_bytes`. -/
theorem Holding.stageOut {c : OffloadKVCache S} {h : KvRows w} {valid : ℕ}
    (hc : Holding c h valid) {k v : Bytes} (hk : h.tokens * w ≤ k.length)
    (hv : h.tokens * w ≤ v.length) :
    (c.stageOut k v).2 = ⟨h.tokens, k.take (h.tokens * w), v.take (h.tokens * w)⟩ ∧
      Holding (c.stageOut k v).1 h valid := by
  have hcap := Nat.mul_le_mul_right w hc.room
  have htotal : c.totalBytes = h.tokens * w := by rw [OffloadKVCache.totalBytes, hc.pos, hc.width]
  have hmax : c.maxBytes = c.maxSeqLen * w := by rw [OffloadKVCache.maxBytes, hc.width]
  cases hgpu : c.gpu with
  | false =>
    have hok := le_length_reuse c.outKBuf (h.tokens * w)
    have hov := le_length_reuse c.outVBuf (h.tokens * w)
    simp only [OffloadKVCache.stageOut, hgpu, htotal, hc.pos, Bool.false_eq_true, if_false]
    exact ⟨by rw [take_blit_zero hk hok, take_blit_zero hv hov], { hc with pos := rfl }⟩
  | true =>
    obtain ⟨hgk, hgv⟩ := hc.gpuBuffers
    simp only [OffloadKVCache.stageOut, hgpu, htotal, hc.pos, if_true]
    refine ⟨by rw [take_blit_zero hk (by omega), take_blit_zero hv (by omega)],
      { hc with pos := rfl, gpuBufs := ?_ }⟩
    rintro b (hb | hb)
    · rw [← Option.some.inj hb]
      simpa using hgk
    · rw [← Option.some.inj hb]
      simpa using hgv

theorem Holding.attnReady {c : OffloadKVCache S} {h : KvRows w} {valid : ℕ} (hc : Holding c h valid)
    (htrust : c.preloaded = true ∨ 0 < c.storeBehind → valid = h.tokens * w)
    (hw : c.preloaded = false → 0 < c.storeBehind → 0 < c.tokenBytes) :
    ∃ c', c.attnReady = .ok c' ∧ Holding c' h (h.tokens * w) ∧ c'.maxSeqLen = c.maxSeqLen ∧
      c'.storeBehind = if c.preloaded then c.storeBehind else 0 := by
  cases hp : c.preloaded with
  | true =>
    have hvalid := htrust (.inl hp)
    exact ⟨c, by simp [OffloadKVCache.attnReady, hp], hvalid ▸ hc, rfl, by simp⟩
  | false =>
    rcases Nat.eq_zero_or_pos c.storeBehind with h0 | hpos
    · obtain ⟨kb, vb, hload, hc'⟩ := hc.loadAttn h0
      exact ⟨_, by simp [OffloadKVCache.attnReady, hp, h0, hload], hc', rfl, by simp [h0]⟩
    · have hvalid := htrust (.inr hpos)
      obtain ⟨st, hflush, hc'⟩ := hc.flushLogged (hw hp)
      subst hvalid
      refine ⟨_, ?_, hc', rfl, by simp⟩
      rw [OffloadKVCache.attnReady, if_pos ⟨by simp [hp], hpos⟩, hflush]

/-- **`get_view`** returns every token when the buffers it trusts have them. -/
theorem Holding.getView {c : OffloadKVCache S} {h : KvRows w} {valid : ℕ} (hc : Holding c h valid)
    (htrust : 0 < h.tokens → c.preloaded = true ∨ 0 < c.storeBehind → valid = h.tokens * w)
    (hw : c.preloaded = false → 0 < c.storeBehind → 0 < c.tokenBytes) :
    ∃ c', c.getView = .ok (c', h.view) ∧ c'.maxSeqLen = c.maxSeqLen ∧
      Holding c' h (if c.currentPos = 0 then valid else h.tokens * w) ∧
      (0 < h.tokens → c'.preloaded = false ∧ c'.attnKBuf ≠ none ∧
        c'.storeBehind = if c.preloaded then c.storeBehind else 0) := by
  by_cases hpos : c.currentPos = 0
  · have hnil : h.tokens = 0 := hc.pos ▸ hpos
    have hk : h.k = [] := List.length_eq_zero_iff.mp (by rw [h.length_k, hnil, Nat.zero_mul])
    have hv : h.v = [] := List.length_eq_zero_iff.mp (by rw [h.length_v, hnil, Nat.zero_mul])
    refine ⟨c, ?_, rfl, by rwa [if_pos hpos], fun hlt => by omega⟩
    rw [OffloadKVCache.getView, if_pos hpos, KvRows.view, hnil, hk, hv]
  have htok : 0 < h.tokens := by
    rw [← hc.pos]
    exact Nat.pos_of_ne_zero hpos
  obtain ⟨c₁, hready, hc₁, hmax, hbehind⟩ := hc.attnReady (htrust htok) hw
  have hc₂ := hc₁.fillBuffers.setPreloaded false
  obtain ⟨habs, -⟩ | ⟨kb, vb, hk, hv, hks, hvs⟩ := hc₂.attn
  · exact absurd habs (by simp)
  obtain rfl := Option.some.inj hk
  obtain rfl := Option.some.inj hv
  have hroom := Nat.mul_le_mul_right w hc₂.room
  obtain ⟨hview, hc₃⟩ := hc₂.stageOut (hroom.trans hks.length.ge) (hroom.trans hvs.length.ge)
  rw [← h.length_k] at hks
  rw [← h.length_v] at hvs
  refine ⟨_, ?_, ?_, by rw [if_neg hpos]; exact hc₃, fun _ => ⟨?_, ?_, ?_⟩⟩
  · rw [OffloadKVCache.getView, if_neg hpos, hready]
    refine congrArg Except.ok (Prod.ext rfl (hview.trans ?_))
    rw [KvRows.view]
    congr 1
    · rw [← h.length_k, hks.take_eq]
    · rw [← h.length_v, hvs.take_eq]
  · rw [stageOut_maxSeqLen]
    exact hmax
  · rw [stageOut_preloaded]
  · rw [stageOut_attnKBuf]
    simp
  · rw [stageOut_storeBehind]
    exact hbehind

end

end ArgusEngine
