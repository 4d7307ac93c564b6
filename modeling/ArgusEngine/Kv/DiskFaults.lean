import ArgusEngine.Kv.OffloadRuns
import ArgusEngine.Lib.Checked
import ArgusEngine.Lib.Effects

/-!
# Failed writes of an offloaded cache

An `OffloadKVCache` over a `DiskStore` whose disk takes a number of further bytes, after which one
write stops and reports an error; then writes succeed again. An operation that stops keeps what it
did to the files, the buffers and the counters.

* `FailingDisk`: the store and the bytes until the failure, `appendToken` and `store` on it;
* `DiskOp.exec`: `update`, `flush_deferred` and `release_buffers` over it. `exec_update`,
  `exec_flushDeferred` and `exec_releaseBuffers`: without a failure they do what they do on a
  `DiskStore`;
* `Recovers`: after the failure the tokens recorded before are there, and the operation made once
  more leaves every token once in the files;
* **`recovers_iff`**: the failures for which that is so.
-/

namespace ArgusEngine

open FlatMem Effects

/-! ## The disk -/

/-- A store and the bytes that the disk takes before one write fails, with `none` all writes
succeed. -/
structure FailingDisk where
  disk : DiskStore
  room : Option ℕ

namespace FailingDisk

/-- `write_all` at the end of a file; `put` places the bytes. -/
def writeAll (put : DiskStore → Bytes → DiskStore) (data : Bytes) :
    EStateM Fail FailingDisk Unit := fun d =>
  match d.room with
  | none => .ok () ⟨put d.disk data, none⟩
  | some n =>
    if data.length ≤ n then .ok () ⟨put d.disk data, some (n - data.length)⟩
    else .error (.err "No space left on device") ⟨put d.disk (data.take n), none⟩

def writeK : Bytes → EStateM Fail FailingDisk Unit :=
  writeAll fun s b => { s with kFile := s.kFile ++ b }

def writeV : Bytes → EStateM Fail FailingDisk Unit :=
  writeAll fun s b => { s with vFile := s.vFile ++ b }

/-- `append_token`. -/
def appendToken (k v : Bytes) : EStateM Fail FailingDisk Unit := do
  writeK k
  writeV v
  modify fun d => { d with disk := { d.disk with storedTokens := d.disk.storedTokens + 1 } }

/-- `store`: each file is cut to nothing before it is written. -/
def store (k v : Bytes) (numTokens : ℕ) : EStateM Fail FailingDisk Unit := do
  modify fun d => { d with disk := { d.disk with kFile := [] } }
  writeK k
  modify fun d => { d with disk := { d.disk with vFile := [] } }
  writeV v
  modify fun d => { d with disk := { d.disk with storedTokens := numTokens } }

/-- A value, or the failure of a computation without effects. -/
def lift {σ α : Type} : Except Fail α → EStateM Fail σ α
  | .ok a => pure a
  | .error e => throw e

/-- `append_token` of token `t` of two buffers. -/
def appendFrom (tokenBytes : ℕ) (k v : Bytes) (t : ℕ) : EStateM Fail FailingDisk Unit := do
  let kTok ← lift (sliced k (t * tokenBytes) tokenBytes)
  let vTok ← lift (sliced v (t * tokenBytes) tokenBytes)
  appendToken kTok vTok

end FailingDisk

/-! ## The cache -/

namespace OffloadKVCache

open FailingDisk

/-- A computation on the store of a cache. -/
def onStore {S : Type} (x : EStateM Fail S Unit) : EStateM Fail (OffloadKVCache S) Unit := fun c =>
  match x c.store with
  | .ok _ st => .ok () { c with store := st }
  | .error e st => .error e { c with store := st }

/-- `flush_deferred`. -/
def flushDeferredIo : EStateM Fail (OffloadKVCache FailingDisk) Unit := do
  let c ← get
  if c.storeBehind = 0 then pure ()
  else
    match c.attnKBuf, c.attnVBuf with
    | some k, some v =>
      if c.tokenBytes = 0 then throw (.panic "assertion failed: step != 0")
      else do
        onStore ((List.range' (c.currentPos - c.storeBehind) c.storeBehind).forM
          (appendFrom c.tokenBytes k v))
        modify fun c => { c with storeBehind := 0 }
    | _, _ =>
      throw (.err s!"OffloadKVCache[{c.layerId}] flush_deferred: attn_buf is None but store_behind={c.storeBehind}")

/-- The errors that are logged; a panic goes on. -/
def logged : Fail → Bool
  | .err _ => true
  | .panic _ => false

/-- `release_buffers`. -/
def releaseBuffersIo : EStateM Fail (OffloadKVCache FailingDisk) Unit := do
  ignored logged flushDeferredIo
  modify fun c => { c with attnKBuf := none, attnVBuf := none, preloaded := false }

/-- The single-token branch of `update`. -/
def updateOneIo (c : OffloadKVCache FailingDisk) (k v : Bytes) :
    EStateM Fail (OffloadKVCache FailingDisk) Unit :=
  match c.preloaded, c.attnKBuf, c.attnVBuf with
  | true, some kBuf, some vBuf => do
    let kBuf ← lift (copiedInto kBuf c.totalBytes k)
    let vBuf ← lift (copiedInto vBuf c.totalBytes v)
    modify fun c => { c with attnKBuf := some kBuf, attnVBuf := some vBuf,
                             storeBehind := c.storeBehind + 1 }
  | _, _, _ => onStore (FailingDisk.appendToken k v)

/-- The batch branch of `update`. -/
def updateManyIo (c : OffloadKVCache FailingDisk) (seqLen : ℕ) (k v : Bytes) :
    EStateM Fail (OffloadKVCache FailingDisk) Unit :=
  if c.currentPos = 0 then onStore (FailingDisk.store k v seqLen)
  else onStore ((List.range' 0 seqLen).forM (appendFrom c.tokenBytes k v))

/-- `update` with the host bytes of two tensors of `seqLen` tokens. -/
def updateIo (seqLen : ℕ) (k v : Bytes) : EStateM Fail (OffloadKVCache FailingDisk) Unit := do
  let c ← get
  if c.maxSeqLen < c.currentPos + seqLen then
    throw (.err s!"OffloadKVCache[{c.layerId}] overflow: {c.currentPos} + {seqLen} > {c.maxSeqLen}")
  else do
    (if seqLen = 1 then c.updateOneIo k v else c.updateManyIo seqLen k v)
    modify fun c' => { c' with currentPos := c.currentPos + seqLen }

/-- A cache over another store. -/
def withDisk (c : OffloadKVCache DiskStore) (d : FailingDisk) : OffloadKVCache FailingDisk :=
  { c with store := d }

/-- A cache over a disk that takes `room` more bytes. -/
def on (c : OffloadKVCache DiskStore) (room : Option ℕ) : OffloadKVCache FailingDisk :=
  c.withDisk ⟨c.store, room⟩

end OffloadKVCache

/-- The operations that write to the files. -/
inductive DiskOp (w : ℕ) where
  | update (r : KvRows w)
  | flushDeferred
  | releaseBuffers

namespace DiskOp

variable {w : ℕ}

def exec : DiskOp w → EStateM Fail (OffloadKVCache FailingDisk) Unit
  | update r => OffloadKVCache.updateIo r.tokens r.k r.v
  | flushDeferred => OffloadKVCache.flushDeferredIo
  | releaseBuffers => OffloadKVCache.releaseBuffersIo

/-- The state that an operation leaves, whether it succeeds or not. -/
def leaves (op : DiskOp w) (c : OffloadKVCache FailingDisk) : OffloadKVCache FailingDisk :=
  match op.exec c with
  | .ok _ c' => c'
  | .error _ c' => c'

/-- The tokens an operation adds. -/
def tokens : DiskOp w → ℕ
  | update r => r.tokens
  | _ => 0

end DiskOp

/-! ## What the writes do -/

/-- A store with more bytes in its files. -/
def DiskStore.appended (s : DiskStore) (k v : Bytes) (m : ℕ) : DiskStore :=
  { s with kFile := s.kFile ++ k, vFile := s.vFile ++ v, storedTokens := s.storedTokens + m }

theorem DiskStore.appended_appended (s : DiskStore) (k v k' v' : Bytes) (m m' : ℕ) :
    (s.appended k v m).appended k' v' m' = s.appended (k ++ k') (v ++ v') (m + m') := by
  simp [DiskStore.appended, Nat.add_assoc]

@[simp] theorem DiskStore.appended_nil (s : DiskStore) : s.appended [] [] 0 = s := by
  simp [DiskStore.appended]

namespace FailingDisk

variable {s : DiskStore} {room : Option ℕ} {x y : Bytes} {n m w : ℕ}

/-- The disk takes `b` more bytes. -/
def Takes (room : Option ℕ) (b : ℕ) : Prop := ∀ n, room = some n → b ≤ n

/-- **A token that fits.** -/
theorem appendToken_ok (h : Takes room (x.length + y.length)) :
    appendToken x y ⟨s, room⟩ =
      .ok () ⟨s.appended x y 1, room.map (· - (x.length + y.length))⟩ := by
  cases room with
  | none => rfl
  | some n =>
    have hle := h n rfl
    have hx : writeK x ⟨s, some n⟩ =
      .ok () ⟨{ s with kFile := s.kFile ++ x }, some (n - x.length)⟩ := if_pos (by omega)
    have hy : writeV y ⟨{ s with kFile := s.kFile ++ x }, some (n - x.length)⟩ =
        .ok () ⟨{ s with kFile := s.kFile ++ x, vFile := s.vFile ++ y },
        some (n - x.length - y.length)⟩ :=
      if_pos (by omega)
    rw [appendToken, run_bind_ok hx, run_bind_ok hy, Nat.sub_sub]
    rfl

/-- **A token that does not fit**: the bytes that the disk took stay in the files. -/
theorem appendToken_fails (h : n < x.length + y.length) : ∃ text, appendToken x y ⟨s, some n⟩ =
    .error (.err text) ⟨s.appended (x.take n) (y.take (n - x.length)) 0, none⟩ := by
  refine ⟨"No space left on device", ?_⟩
  by_cases hk : x.length ≤ n
  · have hx : writeK x ⟨s, some n⟩ =
      .ok () ⟨{ s with kFile := s.kFile ++ x }, some (n - x.length)⟩ := if_pos hk
    have hy : writeV y ⟨{ s with kFile := s.kFile ++ x }, some (n - x.length)⟩ =
        .error (.err "No space left on device")
          ⟨{ s with kFile := s.kFile ++ x, vFile := s.vFile ++ y.take (n - x.length) }, none⟩ :=
          if_neg (by omega)
    rw [appendToken, run_bind_ok hx, run_bind_error hy, List.take_of_length_le hk]
    rfl
  · have hx : writeK x ⟨s, some n⟩ =
        .error (.err "No space left on device")
          ⟨{ s with kFile := s.kFile ++ x.take n }, none⟩ := if_neg hk
    rw [appendToken, run_bind_error hx, Nat.sub_eq_zero_of_le (by omega), List.take_zero,
      DiskStore.appended, List.append_nil]
    rfl

theorem appendFrom_eq {t : ℕ} (hx : (t + 1) * w ≤ x.length) (hy : (t + 1) * w ≤ y.length) :
    appendFrom w x y t = appendToken (slice x (t * w) w) (slice y (t * w) w) := by
  rw [Nat.succ_mul] at hx hy
  unfold appendFrom
  rw [sliced_ok hx, sliced_ok hy]
  rfl

theorem forM_appendFrom_succ (t m : ℕ) (d : FailingDisk) :
    (List.range' t (m + 1)).forM (appendFrom w x y) d =
      (appendFrom w x y t >>= fun _ => (List.range' (t + 1) m).forM (appendFrom w x y)) d := by
  rw [List.range'_succ]
  rfl

theorem slice_succ (b : Bytes) (t m : ℕ) :
    slice b (t * w) w ++ slice b ((t + 1) * w) (m * w) = slice b (t * w) ((m + 1) * w) := by
  rw [Nat.succ_mul t, slice_append_slice, Nat.succ_mul m, Nat.add_comm w]

/-- **Tokens that fit.** -/
theorem forM_appendFrom_ok {t : ℕ} (hx : (t + m) * w ≤ x.length) (hy : (t + m) * w ≤ y.length)
    (h : Takes room (2 * (m * w))) : (List.range' t m).forM (appendFrom w x y) ⟨s, room⟩ =
      .ok () ⟨s.appended (slice x (t * w) (m * w)) (slice y (t * w) (m * w)) m,
      room.map (· - 2 * (m * w))⟩ := by
  induction m generalizing t s room with
  | zero =>
    rw [Nat.zero_mul, Nat.mul_zero, slice, slice, List.take_zero, List.take_zero,
      DiskStore.appended_nil]
    cases room <;> rfl
  | succ m ih =>
    have hend : (t + (m + 1)) * w = t * w + w + m * w := by ring
    have htok : (t + 1) * w = t * w + w := Nat.succ_mul t w
    have hnext : (t + 1 + m) * w = t * w + w + m * w := by ring
    have hlx : (slice x (t * w) w).length = w := length_slice (by omega)
    have hly : (slice y (t * w) w).length = w := length_slice (by omega)
    have hm : (m + 1) * w = m * w + w := Nat.succ_mul m w
    have htakes : Takes room ((slice x (t * w) w).length + (slice y (t * w) w).length) :=
      fun n hn => by
      have := h n hn
      omega
    have hleft : Takes (room.map (· - ((slice x (t * w) w).length + (slice y (t * w) w).length)))
      (2 * (m * w)) := by
      rintro n hn
      obtain ⟨n', hn', rfl⟩ := Option.map_eq_some_iff.mp hn
      have := h n' hn'
      omega
    have hfirst := appendToken_ok (s := s) htakes
    have hrest := ih (t := t + 1) (s := s.appended (slice x (t * w) w) (slice y (t * w) w) 1)
      (by omega) (by omega) hleft
    rw [forM_appendFrom_succ, appendFrom_eq (by omega) (by omega), run_bind_ok hfirst, hrest,
      DiskStore.appended_appended, slice_succ, slice_succ, Nat.add_comm 1 m,
      Option.map_map, hlx, hly, hm]
    congr 2
    refine Option.map_congr fun n _ => ?_
    simp only [Function.comp_apply]
    omega

/-- **Tokens that do not fit**: with no room at all nothing is written, else K bytes are. -/
theorem forM_appendFrom_fails {t : ℕ} (hx : (t + m) * w ≤ x.length) (hy : (t + m) * w ≤ y.length)
    (h : n < 2 * (m * w)) : ∃ text p q i, (List.range' t m).forM (appendFrom w x y) ⟨s, some n⟩ =
      .error (.err text) ⟨s.appended p q i, none⟩ ∧ (n = 0 → p = [] ∧ q = [] ∧ i = 0) ∧
      (0 < n → p ≠ []) := by
  induction m generalizing t s n with
  | zero => omega
  | succ m ih =>
    have hend : (t + (m + 1)) * w = t * w + w + m * w := by ring
    have htok : (t + 1) * w = t * w + w := Nat.succ_mul t w
    have hnext : (t + 1 + m) * w = t * w + w + m * w := by ring
    have hlx : (slice x (t * w) w).length = w := length_slice (by omega)
    have hly : (slice y (t * w) w).length = w := length_slice (by omega)
    have hm : (m + 1) * w = m * w + w := Nat.succ_mul m w
    have hw : 0 < w := Nat.pos_of_ne_zero fun h0 => by simp [h0] at h
    rw [forM_appendFrom_succ, appendFrom_eq (by omega) (by omega)]
    by_cases hfits : (slice x (t * w) w).length + (slice y (t * w) w).length ≤ n
    · have htakes : Takes (some n) ((slice x (t * w) w).length + (slice y (t * w) w).length) :=
        fun n' hn' => Option.some.inj hn' ▸ hfits
      have hfirst := appendToken_ok (s := s) htakes
      obtain ⟨text, p, q, i, hrest, -, -⟩ := ih (t := t + 1)
        (s := s.appended (slice x (t * w) w) (slice y (t * w) w) 1)
        (n := n - ((slice x (t * w) w).length + (slice y (t * w) w).length)) (by omega)
          (by omega) (by omega)
      refine ⟨text, slice x (t * w) w ++ p, slice y (t * w) w ++ q, 1 + i, ?_, fun hn => ?_,
        fun _ hnil => ?_⟩
      · rw [run_bind_ok hfirst, Option.map_some, hrest, DiskStore.appended_appended]
      · omega
      · have hempty := congrArg List.length (List.append_eq_nil_iff.mp hnil).1
        rw [hlx, List.length_nil] at hempty
        omega
    · obtain ⟨text, hfirst⟩ := appendToken_fails (s := s) (n := n) (x := slice x (t * w) w)
        (y := slice y (t * w) w) (by omega)
      refine ⟨text, (slice x (t * w) w).take n,
        (slice y (t * w) w).take (n - (slice x (t * w) w).length), 0, ?_, fun hn => ?_,
        fun hn hnil => ?_⟩
      · exact run_bind_error hfirst
      · rw [hn, List.take_zero, Nat.zero_sub, List.take_zero]
        exact ⟨rfl, rfl, rfl⟩
      · have hempty := congrArg List.length hnil
        rw [List.length_take, hlx, List.length_nil] at hempty
        omega

theorem store_none (k v : Bytes) : store k v m ⟨s, none⟩ =
    .ok () ⟨{ s with kFile := k, vFile := v, storedTokens := m }, none⟩ := rfl

/-- A first batch that does not fit leaves the count of tokens. -/
theorem store_cases (k v : Bytes) : (∃ s' n', store k v m ⟨s, some n⟩ = .ok () ⟨s', some n'⟩) ∨
    ∃ e k' v', store k v m ⟨s, some n⟩ = .error e ⟨{ s with kFile := k', vFile := v' }, none⟩ := by
  have hcut : (modify fun d =>
    { d with disk := { d.disk with kFile := [] } } : EStateM Fail FailingDisk Unit)
      ⟨s, some n⟩ = .ok () ⟨{ s with kFile := [] }, some n⟩ := rfl
  have hcut' : (modify fun d =>
    { d with disk := { d.disk with vFile := [] } } : EStateM Fail FailingDisk Unit)
      ⟨{ s with kFile := k }, some (n - k.length)⟩ =
        .ok () ⟨{ s with kFile := k, vFile := [] }, some (n - k.length)⟩ :=
    rfl
  unfold store
  rw [run_bind_ok hcut]
  by_cases hk : k.length ≤ n
  · have hx : writeK k ⟨{ s with kFile := [] }, some n⟩ =
      .ok () ⟨{ s with kFile := k }, some (n - k.length)⟩ :=
      if_pos hk
    rw [run_bind_ok hx, run_bind_ok hcut']
    by_cases hv : v.length ≤ n - k.length
    · have hy : writeV v ⟨{ s with kFile := k, vFile := [] }, some (n - k.length)⟩ =
          .ok () ⟨{ s with kFile := k, vFile := v }, some (n - k.length - v.length)⟩ := if_pos hv
      rw [run_bind_ok hy]
      exact .inl ⟨_, _, rfl⟩
    · have hy : writeV v ⟨{ s with kFile := k, vFile := [] }, some (n - k.length)⟩ =
          .error (.err "No space left on device")
            ⟨{ s with kFile := k, vFile := v.take (n - k.length) }, none⟩ :=
        if_neg hv
      rw [run_bind_error hy]
      exact .inr ⟨_, _, _, rfl⟩
  · have hx : writeK k ⟨{ s with kFile := [] }, some n⟩ =
        .error (.err "No space left on device") ⟨{ s with kFile := k.take n }, none⟩ := if_neg hk
    rw [run_bind_error hx]
    exact .inr ⟨_, k.take n, s.vFile, rfl⟩

end FailingDisk

/-! ## Without a failure -/

section NoFailure

open FailingDisk OffloadKVCache

variable {c c' : OffloadKVCache DiskStore} {w : ℕ}

theorem onStore_ok {S : Type} {x : EStateM Fail S Unit} {c : OffloadKVCache S} {st : S} {u : Unit}
    (h : x c.store = .ok u st) : onStore x c = .ok () { c with store := st } := by
  unfold onStore
  rw [h]

theorem onStore_error {S : Type} {x : EStateM Fail S Unit} {c : OffloadKVCache S}
    {st : S} {e : Fail} (h : x c.store = .error e st) :
    onStore x c = .error e { c with store := st } := by
  unfold onStore
  rw [h]

theorem forM_appendFrom_of_foldlM {k v : Bytes} {l : List ℕ} {st st' : DiskStore}
    (h : l.foldlM (c.flushToken k v) st = .ok st') :
    l.forM (appendFrom c.tokenBytes k v) ⟨st, none⟩ = .ok () ⟨st', none⟩ := by
  induction l generalizing st with
  | nil =>
    cases h
    rfl
  | cons t l ih =>
    rw [List.foldlM_cons] at h
    obtain ⟨st₁, htok, hrest⟩ := Checked.ok_bind.mp h
    obtain ⟨kTok, hk, htok⟩ := Checked.ok_bind.mp htok
    obtain ⟨vTok, hv, htok⟩ := Checked.ok_bind.mp htok
    have hone : appendFrom c.tokenBytes k v t ⟨st, none⟩ = .ok () ⟨st₁, none⟩ := by
      unfold appendFrom
      rw [hk, hv]
      cases htok
      rfl
    change (appendFrom c.tokenBytes k v t >>= fun _ => l.forM (appendFrom c.tokenBytes k v)) _ = _
    rw [run_bind_ok hone]
    exact ih hrest

section Flush

variable {c : OffloadKVCache FailingDisk}

theorem flushDeferredIo_zero (hb : c.storeBehind = 0) : flushDeferredIo c = .ok () c := by
  unfold flushDeferredIo
  rw [run_get_bind, if_pos hb]
  rfl

theorem flushDeferredIo_panic {k v : Bytes} (hb : c.storeBehind ≠ 0) (hk : c.attnKBuf = some k)
    (hv : c.attnVBuf = some v) (hw : c.tokenBytes = 0) :
    flushDeferredIo c = .error (.panic "assertion failed: step != 0") c := by
  unfold flushDeferredIo
  rw [run_get_bind, if_neg hb, hk, hv]
  dsimp only
  rw [if_pos hw]
  rfl

theorem flushDeferredIo_run {k v : Bytes} (hb : c.storeBehind ≠ 0) (hk : c.attnKBuf = some k)
    (hv : c.attnVBuf = some v) (hw : c.tokenBytes ≠ 0) : flushDeferredIo c =
      (onStore ((List.range' (c.currentPos - c.storeBehind) c.storeBehind).forM
        (appendFrom c.tokenBytes k v)) >>= fun _ => modify fun c =>
        { c with storeBehind := 0 }) c := by
  unfold flushDeferredIo
  rw [run_get_bind, if_neg hb, hk, hv]
  dsimp only
  rw [if_neg hw]

theorem flushDeferredIo_ok {k v : Bytes} {st : FailingDisk} (hb : c.storeBehind ≠ 0)
    (hk : c.attnKBuf = some k) (hv : c.attnVBuf = some v) (hw : c.tokenBytes ≠ 0)
    (hloop : (List.range' (c.currentPos - c.storeBehind) c.storeBehind).forM
      (appendFrom c.tokenBytes k v) c.store = .ok () st) :
      flushDeferredIo c = .ok () { c with store := st, storeBehind := 0 } := by
  rw [flushDeferredIo_run hb hk hv hw, run_bind_ok (onStore_ok hloop)]
  rfl

theorem flushDeferredIo_error {k v : Bytes} {st : FailingDisk} {e : Fail} (hb : c.storeBehind ≠ 0)
    (hk : c.attnKBuf = some k) (hv : c.attnVBuf = some v) (hw : c.tokenBytes ≠ 0)
    (hloop : (List.range' (c.currentPos - c.storeBehind) c.storeBehind).forM
      (appendFrom c.tokenBytes k v) c.store = .error e st) :
      flushDeferredIo c = .error e { c with store := st } := by
  rw [flushDeferredIo_run hb hk hv hw]
  exact run_bind_error (onStore_error hloop)

end Flush

section Update

variable {c : OffloadKVCache FailingDisk} {seqLen : ℕ} {k v : Bytes}

theorem updateIo_full (hroom : c.maxSeqLen < c.currentPos + seqLen) :
    ∃ e, updateIo seqLen k v c = .error e c := by
  unfold updateIo
  rw [run_get_bind, if_pos hroom]
  exact ⟨_, rfl⟩

theorem updateIo_run (hroom : ¬ c.maxSeqLen < c.currentPos + seqLen) : updateIo seqLen k v c =
    ((if seqLen = 1 then c.updateOneIo k v else c.updateManyIo seqLen k v) >>= fun _ =>
      modify fun c' => { c' with currentPos := c.currentPos + seqLen }) c := by
  unfold updateIo
  rw [run_get_bind, if_neg hroom]

theorem updateIo_ok {d : OffloadKVCache FailingDisk} (hroom : ¬ c.maxSeqLen < c.currentPos + seqLen)
    (h : (if seqLen = 1 then c.updateOneIo k v else c.updateManyIo seqLen k v) c = .ok () d) :
    updateIo seqLen k v c = .ok () { d with currentPos := c.currentPos + seqLen } := by
  rw [updateIo_run hroom, run_bind_ok h]
  rfl

theorem updateIo_error {c' : OffloadKVCache FailingDisk} {e : Fail}
    (hroom : ¬ c.maxSeqLen < c.currentPos + seqLen)
    (h : (if seqLen = 1 then c.updateOneIo k v else c.updateManyIo seqLen k v) c = .error e c') :
    updateIo seqLen k v c = .error e c' := by
  rw [updateIo_run hroom]
  exact run_bind_error h

theorem updateOneIo_deferred {kBuf vBuf : Bytes} (hp : c.preloaded = true)
    (hk : c.attnKBuf = some kBuf) (hv : c.attnVBuf = some vBuf) : c.updateOneIo k v =
      (lift (copiedInto kBuf c.totalBytes k) >>= fun kBuf =>
        lift (copiedInto vBuf c.totalBytes v) >>= fun vBuf =>
        modify fun c => { c with attnKBuf := some kBuf, attnVBuf := some vBuf,
                                 storeBehind := c.storeBehind + 1 }) := by
  unfold updateOneIo
  rw [hp, hk, hv]

theorem updateOneIo_store (hnot : c.preloaded = true → c.attnKBuf.isSome = true →
    c.attnVBuf.isSome = false) : c.updateOneIo k v = onStore (FailingDisk.appendToken k v) := by
  unfold updateOneIo
  split
  · rename_i hp hk hv
    have hnone := hnot hp (by rw [hk]; rfl)
    rw [hv] at hnone
    cases hnone
  · rfl

end Update

/-- **`flush_deferred`** on a disk that takes everything. -/
theorem exec_flushDeferred (h : c.flushDeferred = .ok c') :
    flushDeferredIo (c.on none) = .ok () (c'.on none) := by
  unfold OffloadKVCache.flushDeferred at h
  by_cases hb : c.storeBehind = 0
  · rw [if_pos hb] at h
    cases h
    exact flushDeferredIo_zero hb
  · rw [if_neg hb] at h
    split at h
    · rename_i k v hk hv
      split_ifs at h with hw
      obtain ⟨st, hfold, h⟩ := Checked.ok_bind.mp h
      cases h
      exact flushDeferredIo_ok (c := c.on none) hb hk hv hw (forM_appendFrom_of_foldlM hfold)
    · cases h

/-- **`release_buffers`** on a disk that takes everything. -/
theorem exec_releaseBuffers (h : c.flushDeferred = .ok c') :
    c.releaseBuffers = .ok { c' with attnKBuf := none, attnVBuf := none, preloaded := false } ∧
    releaseBuffersIo (c.on none) = .ok ()
      (on { c' with attnKBuf := none, attnVBuf := none, preloaded := false } none) := by
  have hlogged : ignored logged flushDeferredIo (c.on none) = .ok () (c'.on none) := by
    unfold ignored
    rw [exec_flushDeferred h]
  refine ⟨?_, ?_⟩
  · rw [OffloadKVCache.releaseBuffers, OffloadKVCache.flushLogged, h]
    rfl
  · rw [releaseBuffersIo, run_bind_ok hlogged]
    rfl

theorem exec_updateOne {k v : Bytes} (h : c.updateOne k v = .ok c') :
    (c.on none).updateOneIo k v (c.on none) = .ok () (c'.on none) := by
  unfold OffloadKVCache.updateOne at h
  split at h
  · rename_i kBuf vBuf hp hk hv
    obtain ⟨kBuf', hkBuf, h⟩ := Checked.ok_bind.mp h
    obtain ⟨vBuf', hvBuf, h⟩ := Checked.ok_bind.mp h
    cases h
    rw [updateOneIo_deferred (c := c.on none) hp hk hv]
    change (lift (copiedInto kBuf c.totalBytes k) >>= fun _ =>
      lift (copiedInto vBuf c.totalBytes v) >>= _) _ = _
    rw [hkBuf, hvBuf]
    rfl
  · rename_i hnot
    obtain ⟨st, hst, h⟩ := Checked.ok_bind.mp h
    cases h
    cases hst
    rw [updateOneIo_store (c := c.on none) fun hp hk => ?_]
    · rfl
    · obtain ⟨kBuf, hk⟩ := Option.isSome_iff_exists.mp hk
      refine Bool.eq_false_iff.mpr fun hv => ?_
      obtain ⟨vBuf, hv⟩ := Option.isSome_iff_exists.mp hv
      exact hnot kBuf vBuf hp hk hv

theorem exec_updateMany {seqLen : ℕ} {k v : Bytes} (h : c.updateMany seqLen k v = .ok c') :
    (c.on none).updateManyIo seqLen k v (c.on none) = .ok () (c'.on none) := by
  unfold OffloadKVCache.updateMany at h
  unfold updateManyIo
  change (if c.currentPos = 0 then _ else _ : EStateM Fail (OffloadKVCache FailingDisk) Unit) _ = _
  split_ifs at h ⊢
  · obtain ⟨st, hst, h⟩ := Checked.ok_bind.mp h
    cases h
    cases hst
    rfl
  · obtain ⟨st, hst, h⟩ := Checked.ok_bind.mp h
    cases h
    exact onStore_ok (c := c.on none) (forM_appendFrom_of_foldlM hst)

/-- **`update`** on a disk that takes everything. -/
theorem exec_update {seqLen : ℕ} {k v : Bytes} (h : c.update seqLen k v = .ok c') :
    updateIo seqLen k v (c.on none) = .ok () (c'.on none) := by
  unfold OffloadKVCache.update at h
  by_cases hroom : c.maxSeqLen < c.currentPos + seqLen
  · rw [if_pos hroom] at h
    cases h
  rw [if_neg hroom] at h
  obtain ⟨c₁, hupd, h⟩ := Checked.ok_bind.mp h
  cases h
  refine updateIo_ok (c := c.on none) (d := c₁.on none) hroom ?_
  split_ifs at hupd ⊢
  · exact exec_updateOne hupd
  · exact exec_updateMany hupd

end NoFailure

/-! ## Recovery -/

section Recovery

variable {w : ℕ}

/-- The cache has recorded the tokens `h`: all but the deferred ones are in the files, and these in
the buffers. -/
structure Records (c : OffloadKVCache DiskStore) (h : KvRows w) : Prop where
  width : c.tokenBytes = w
  pos : c.currentPos = h.tokens
  behind : c.storeBehind ≤ h.tokens
  files : c.store = ⟨h.k.take ((h.tokens - c.storeBehind) * w),
    h.v.take ((h.tokens - c.storeBehind) * w), h.tokens - c.storeBehind, w⟩
  deferred : 0 < c.storeBehind → ∃ kb vb, c.attnKBuf = some kb ∧ c.attnVBuf = some vb ∧
    h.tokens * w ≤ kb.length ∧ h.tokens * w ≤ vb.length ∧
    h.k.take ((h.tokens - c.storeBehind) * w) ++
      slice kb ((h.tokens - c.storeBehind) * w) (c.storeBehind * w) = h.k ∧
    h.v.take ((h.tokens - c.storeBehind) * w) ++
      slice vb ((h.tokens - c.storeBehind) * w) (c.storeBehind * w) = h.v

theorem Holding.records {c : OffloadKVCache DiskStore} {h : KvRows w} {valid : ℕ}
    (hc : Holding c h valid) : Records c h := by
  have hsum : (h.tokens - c.storeBehind) * w + c.storeBehind * w = h.tokens * w := by
    rw [← Nat.add_mul, Nat.sub_add_cancel hc.behind]
  refine ⟨hc.width, hc.pos, hc.behind, hc.stored.1, fun hpos => ?_⟩
  obtain ⟨hk, -, -⟩ | ⟨kb, vb, hk, hv, hks, hvs⟩ := hc.attn
  · exact absurd hk (hc.deferred hpos)
  have hcap := Nat.mul_le_mul_right w hc.room
  exact ⟨kb, vb, hk, hv, hcap.trans_eq hks.length.symm, hcap.trans_eq hvs.length.symm,
    hks.take_append_slice (by rw [hsum, h.length_k]),
    hvs.take_append_slice (by rw [hsum, h.length_v])⟩

/-- The tokens `h` can be read: from the files, the deferred ones from the buffers. -/
structure Readable (c : OffloadKVCache FailingDisk) (h : KvRows w) : Prop where
  pos : c.currentPos = h.tokens
  count : h.tokens - c.storeBehind ≤ c.store.disk.storedTokens
  k : c.store.disk.kFile.take ((h.tokens - c.storeBehind) * w) =
    h.k.take ((h.tokens - c.storeBehind) * w)
  v : c.store.disk.vFile.take ((h.tokens - c.storeBehind) * w) =
    h.v.take ((h.tokens - c.storeBehind) * w)
  deferred : 0 < c.storeBehind → ∃ kb vb, c.attnKBuf = some kb ∧ c.attnVBuf = some vb ∧
    h.k.take ((h.tokens - c.storeBehind) * w) ++
      slice kb ((h.tokens - c.storeBehind) * w) (c.storeBehind * w) = h.k ∧
    h.v.take ((h.tokens - c.storeBehind) * w) ++
      slice vb ((h.tokens - c.storeBehind) * w) (c.storeBehind * w) = h.v

namespace DiskOp

/-- The files after an operation on a cache that has recorded `h`: every token once. -/
def storeAfter (c : OffloadKVCache DiskStore) (h : KvRows w) : DiskOp w → DiskStore
  | update r => c.store.appended r.k r.v r.tokens
  | flushDeferred | releaseBuffers => ⟨h.k, h.v, h.tokens, w⟩

/-- **The operation recovers** from a write that fails once the disk took `n` bytes: the tokens `h`
recorded before can be read, and made once more it leaves every token once in the files, with the
counters in step. -/
def Recovers (c : OffloadKVCache DiskStore) (h : KvRows w) (op : DiskOp w) (n : ℕ) : Prop :=
  (op.leaves (c.on (some n))).store.room = none →
    Readable (op.leaves (c.on (some n))) h ∧
    ∃ c', op.exec (op.leaves (c.on (some n))) = .ok () c' ∧ c'.store.disk = op.storeAfter c h ∧
      c'.currentPos = h.tokens + op.tokens ∧
      c'.store.disk.storedTokens + c'.storeBehind = c'.currentPos

/-- The token goes to the buffers only. -/
def Defers (c : OffloadKVCache DiskStore) (r : KvRows w) : Prop :=
  r.tokens = 1 ∧ c.preloaded = true ∧ c.attnKBuf.isSome = true ∧ c.attnVBuf.isSome = true

instance (c : OffloadKVCache DiskStore) (r : KvRows w) : Decidable (Defers c r) :=
  inferInstanceAs (Decidable (_ ∧ _))

/-- The bytes that an operation writes to the files. -/
def written (c : OffloadKVCache DiskStore) : DiskOp w → ℕ
  | update r => if c.maxSeqLen < c.currentPos + r.tokens ∨ Defers c r then 0 else 2 * (r.tokens * w)
  | flushDeferred | releaseBuffers => 2 * (c.storeBehind * w)

/-- A first batch into an empty cache. -/
def FillsEmpty (c : OffloadKVCache DiskStore) : DiskOp w → Prop
  | update r => r.tokens ≠ 1 ∧ c.currentPos = 0
  | flushDeferred | releaseBuffers => False

theorem leaves_ok (op : DiskOp w) {c d : OffloadKVCache FailingDisk} (h : op.exec c = .ok () d) :
    op.leaves c = d := by
  unfold leaves
  rw [h]

theorem leaves_error (op : DiskOp w) {c d : OffloadKVCache FailingDisk} {e : Fail}
    (h : op.exec c = .error e d) : op.leaves c = d := by
  unfold leaves
  rw [h]

end DiskOp

open DiskOp FailingDisk OffloadKVCache

variable {c : OffloadKVCache DiskStore} {h : KvRows w} {n : ℕ}

theorem Records.readable (hc : Records c h) (room : Option ℕ) : Readable (c.on room) h := by
  have hfiles := hc.files
  refine ⟨hc.pos, ?_, ?_, ?_, fun hb => ?_⟩
  · change h.tokens - c.storeBehind ≤ c.store.storedTokens
    rw [hfiles]
  · change c.store.kFile.take ((h.tokens - c.storeBehind) * w) = _
    rw [hfiles, List.take_take, Nat.min_self]
    rfl
  · change c.store.vFile.take ((h.tokens - c.storeBehind) * w) = _
    rw [hfiles, List.take_take, Nat.min_self]
    rfl
  · obtain ⟨kb, vb, hk, hv, -, -, hkcat, hvcat⟩ := hc.deferred hb
    exact ⟨kb, vb, hk, hv, hkcat, hvcat⟩

/-! ### Flushes -/

theorem Records.loop_bound (hc : Records c h) {b : Bytes} (hlen : h.tokens * w ≤ b.length) :
    (c.currentPos - c.storeBehind + c.storeBehind) * w ≤ b.length := by
  have hbehind := hc.behind
  rwa [hc.pos, Nat.sub_add_cancel hbehind]

theorem Records.flush_keeps (hc : Records c h) (hn : 2 * (c.storeBehind * w) ≤ n) :
    (∃ c', flushDeferredIo (c.on (some n)) = .ok () c' ∧ c'.store.room ≠ none) ∨
      ∃ text, flushDeferredIo (c.on (some n)) = .error (.panic text) (c.on (some n)) := by
  by_cases hb : c.storeBehind = 0
  · exact .inl ⟨_, flushDeferredIo_zero (c := c.on (some n)) hb, Option.some_ne_none n⟩
  obtain ⟨kb, vb, hk, hv, hkl, hvl, -, -⟩ := hc.deferred (Nat.pos_of_ne_zero hb)
  by_cases hw : c.tokenBytes = 0
  · exact .inr ⟨_, flushDeferredIo_panic (c := c.on (some n)) hb hk hv hw⟩
  · have htakes : Takes (some n) (2 * (c.storeBehind * c.tokenBytes)) := fun n' hn' => by
      rw [hc.width, ← Option.some.inj hn']
      exact hn
    have hloop := forM_appendFrom_ok (s := c.store) (t := c.currentPos - c.storeBehind)
      (m := c.storeBehind) (hc.width.symm ▸ hc.loop_bound hkl)
        (hc.width.symm ▸ hc.loop_bound hvl) htakes
    exact .inl ⟨_, flushDeferredIo_ok (c := c.on (some n)) hb hk hv hw hloop, Option.some_ne_none _⟩

theorem Records.flush_fails (hc : Records c h) (hn : n < 2 * (c.storeBehind * w)) :
    ∃ text p q i, flushDeferredIo (c.on (some n)) = .error (.err text)
      (c.withDisk ⟨c.store.appended p q i, none⟩) ∧
      (n = 0 → p = [] ∧ q = [] ∧ i = 0) ∧ (0 < n → p ≠ []) := by
  have hb : c.storeBehind ≠ 0 := fun h0 => by simp [h0] at hn
  have hw : c.tokenBytes ≠ 0 := fun h0 => by
    rw [← hc.width, h0] at hn
    simp at hn
  obtain ⟨kb, vb, hk, hv, hkl, hvl, -, -⟩ := hc.deferred (Nat.pos_of_ne_zero hb)
  obtain ⟨text, p, q, i, hloop, hzero, hpos⟩ := forM_appendFrom_fails (s := c.store)
    (n := n) (w := c.tokenBytes) (t := c.currentPos - c.storeBehind) (m := c.storeBehind)
    (hc.width.symm ▸ hc.loop_bound hkl) (hc.width.symm ▸ hc.loop_bound hvl)
      (by rw [hc.width]; exact hn)
  exact ⟨text, p, q, i, flushDeferredIo_error (c := c.on (some n)) hb hk hv hw hloop, hzero, hpos⟩

theorem Records.flush_again (hc : Records c h) (hw : 0 < c.storeBehind * w) (p q : Bytes) (i : ℕ) :
    ∃ x y, flushDeferredIo (c.withDisk ⟨c.store.appended p q i, none⟩) =
      .ok () { c.withDisk ⟨(c.store.appended p q i).appended x y c.storeBehind, none⟩
                 with storeBehind := 0 } ∧
      c.store.kFile ++ x = h.k ∧ c.store.vFile ++ y = h.v := by
  have hb : c.storeBehind ≠ 0 := fun h0 => by simp [h0] at hw
  have hw' : c.tokenBytes ≠ 0 := fun h0 => by
    rw [← hc.width, h0] at hw
    simp at hw
  obtain ⟨kb, vb, hk, hv, hkl, hvl, hkcat, hvcat⟩ := hc.deferred (Nat.pos_of_ne_zero hb)
  have htakes : Takes none (2 * (c.storeBehind * c.tokenBytes)) := fun n' hn' => by cases hn'
  have hloop := forM_appendFrom_ok (s := c.store.appended p q i) (t := c.currentPos - c.storeBehind)
    (m := c.storeBehind) (hc.width.symm ▸ hc.loop_bound hkl)
      (hc.width.symm ▸ hc.loop_bound hvl) htakes
  refine ⟨_, _, flushDeferredIo_ok (c := c.withDisk ⟨c.store.appended p q i, none⟩)
    hb hk hv hw' hloop, ?_, ?_⟩
  · rw [hc.files, hc.width, hc.pos]
    exact hkcat
  · rw [hc.files, hc.width, hc.pos]
    exact hvcat

/-- **`flush_deferred`** recovers where nothing of it was written. -/
theorem Records.recovers_flushDeferred (hc : Records c h) (n : ℕ) :
    Recovers c h .flushDeferred n ↔ 2 * (c.storeBehind * w) ≤ n ∨ n = 0 := by
  by_cases hn : 2 * (c.storeBehind * w) ≤ n
  · refine ⟨fun _ => .inl hn, fun _ hroom => ?_⟩
    rcases hc.flush_keeps hn with ⟨c', hok, hne⟩ | ⟨text, herr⟩
    · rw [leaves_ok .flushDeferred hok] at hroom
      exact absurd hroom hne
    · rw [leaves_error .flushDeferred herr] at hroom
      cases hroom
  · obtain ⟨text, p, q, i, herr, hzero, hpos⟩ := hc.flush_fails (Nat.lt_of_not_le hn)
    obtain ⟨x, y, hagain, hx, hy⟩ := hc.flush_again (by omega) p q i
    rw [Recovers, leaves_error .flushDeferred herr]
    constructor
    · intro hrec
      obtain ⟨-, c', hok, hstore, -⟩ := hrec rfl
      obtain rfl : _ = c' := (EStateM.Result.ok.inj (hagain.symm.trans hok)).2
      refine .inr (Nat.eq_zero_of_not_pos fun hn0 => hpos hn0 ?_)
      -- the K file has the bytes of the failed attempt besides the tokens
      have hlen := congrArg (fun s => s.kFile.length) hstore
      simp only [OffloadKVCache.withDisk, DiskStore.appended, storeAfter, ← hx,
        List.length_append] at hlen
      exact List.eq_nil_of_length_eq_zero (by omega)
    · intro h0 _
      obtain ⟨rfl, rfl, rfl⟩ := hzero (h0.resolve_left hn)
      rw [DiskStore.appended_nil] at hagain ⊢
      refine ⟨hc.readable none, _, hagain, ?_, hc.pos, ?_⟩
      · simp only [OffloadKVCache.withDisk, DiskStore.appended, storeAfter, hx, hy]
        rw [hc.files]
        simp [Nat.sub_add_cancel hc.behind]
      · simp only [OffloadKVCache.withDisk, DiskStore.appended]
        rw [hc.files, hc.pos]
        simp [Nat.sub_add_cancel hc.behind]

/-- **`release_buffers`** does not recover: the deferred tokens are gone with the buffers. -/
theorem Records.recovers_releaseBuffers (hc : Records c h) (n : ℕ) :
    Recovers c h .releaseBuffers n ↔ 2 * (c.storeBehind * w) ≤ n := by
  by_cases hn : 2 * (c.storeBehind * w) ≤ n
  · refine ⟨fun _ => hn, fun _ hroom => ?_⟩
    rcases hc.flush_keeps hn with ⟨c', hok, hne⟩ | ⟨text, herr⟩
    · have hlogged : ignored logged flushDeferredIo (c.on (some n)) = .ok () c' := by
        unfold ignored
        rw [hok]
      rw [leaves_ok .releaseBuffers (d := { c' with attnKBuf := none, attnVBuf := none,
                                                    preloaded := false })
        (run_bind_ok hlogged)] at hroom
      exact absurd hroom hne
    · have hlogged : ignored logged flushDeferredIo (c.on (some n)) = .error (.panic text)
        (c.on (some n)) := by
        unfold ignored
        rw [herr]
        rfl
      rw [leaves_error .releaseBuffers (run_bind_error hlogged)] at hroom
      cases hroom
  · refine ⟨fun hrec => absurd hrec ?_, fun h0 => absurd h0 hn⟩
    obtain ⟨text, p, q, i, herr, -, -⟩ := hc.flush_fails (Nat.lt_of_not_le hn)
    have hlogged : ignored logged flushDeferredIo (c.on (some n)) =
        .ok () (c.withDisk ⟨c.store.appended p q i, none⟩) := by
      unfold ignored
      rw [herr]
      rfl
    rw [Recovers, leaves_ok .releaseBuffers
      (d := { c.withDisk ⟨c.store.appended p q i, none⟩ with
                attnKBuf := none, attnVBuf := none, preloaded := false })
      (run_bind_ok hlogged)]
    intro hrec
    obtain ⟨hread, -⟩ := hrec rfl
    have hb : 0 < c.storeBehind := Nat.pos_of_ne_zero fun h0 => by simp [h0] at hn
    obtain ⟨kb, vb, hk, -⟩ := hread.deferred hb
    cases hk

/-! ### Updates -/

variable {r : KvRows w}

theorem leaves_of_defers (hroom : ¬ c.maxSeqLen < c.currentPos + r.tokens) (hdef : Defers c r)
    (d : FailingDisk) : ((DiskOp.update r).leaves (c.withDisk d)).store = d := by
  obtain ⟨h1, hp, hk, hv⟩ := hdef
  obtain ⟨kBuf, hk⟩ := Option.isSome_iff_exists.mp hk
  obtain ⟨vBuf, hv⟩ := Option.isSome_iff_exists.mp hv
  have hrun : (if r.tokens = 1 then (c.withDisk d).updateOneIo r.k r.v
    else (c.withDisk d).updateManyIo r.tokens r.k r.v) =
      (lift (copiedInto kBuf (c.withDisk d).totalBytes r.k) >>= fun kBuf =>
        lift (copiedInto vBuf (c.withDisk d).totalBytes r.v) >>= fun vBuf =>
          modify fun c => { c with attnKBuf := some kBuf, attnVBuf := some vBuf,
                                   storeBehind := c.storeBehind + 1 }) := by
    rw [if_pos h1]
    exact updateOneIo_deferred (c := c.withDisk d) hp hk hv
  cases hkBuf : copiedInto kBuf (c.withDisk d).totalBytes r.k with
  | error e =>
    rw [hkBuf] at hrun
    rw [leaves_error (.update r) (updateIo_error (c := c.withDisk d) hroom (by rw [hrun]; rfl))]
    rfl
  | ok kBuf' =>
    cases hvBuf : copiedInto vBuf (c.withDisk d).totalBytes r.v with
    | error e =>
      rw [hkBuf, hvBuf] at hrun
      rw [leaves_error (.update r) (updateIo_error (c := c.withDisk d) hroom (by rw [hrun]; rfl))]
      rfl
    | ok vBuf' =>
      rw [hkBuf, hvBuf] at hrun
      rw [leaves_ok (.update r) (updateIo_ok (c := c.withDisk d) hroom (by rw [hrun]; rfl))]
      rfl

theorem update_write (hc : Records c h) (hdef : ¬ Defers c r) (hfill : ¬ FillsEmpty c (.update r))
    (d : FailingDisk) : (if r.tokens = 1 then (c.withDisk d).updateOneIo r.k r.v
      else (c.withDisk d).updateManyIo r.tokens r.k r.v) (c.withDisk d) =
        onStore ((List.range' 0 r.tokens).forM (appendFrom w r.k r.v)) (c.withDisk d) := by
  by_cases h1 : r.tokens = 1
  · have hk : r.k.length = w := by rw [r.length_k, h1, Nat.one_mul]
    have hv : r.v.length = w := by rw [r.length_v, h1, Nat.one_mul]
    have hone : (List.range' 0 1).forM (appendFrom w r.k r.v) =
      FailingDisk.appendToken r.k r.v := by
      funext d
      rw [forM_appendFrom_succ, appendFrom_eq (by omega) (by omega), Nat.zero_mul,
        slice_all hk, slice_all hv]
      exact congrFun (bind_pure_unit (x := FailingDisk.appendToken r.k r.v)) d
    rw [if_pos h1, h1, hone, updateOneIo_store (c := c.withDisk d) fun hp hk => ?_]
    exact Bool.eq_false_iff.mpr fun hv => hdef ⟨h1, hp, hk, hv⟩
  · have hpos : ¬ (c.withDisk d).currentPos = 0 := fun h0 => hfill ⟨h1, h0⟩
    rw [if_neg h1, updateManyIo, if_neg hpos, show (c.withDisk d).tokenBytes = w from hc.width]

/-- **A first batch** recovers: made once more it cuts the files. -/
theorem Records.recovers_fillsEmpty (hc : Records c h)
    (hroom : ¬ c.maxSeqLen < c.currentPos + r.tokens) (hfill : FillsEmpty c (.update r)) (n : ℕ) :
    Recovers c h (.update r) n := by
  obtain ⟨h1, hpos⟩ := hfill
  have h0 : h.tokens = 0 := hc.pos.symm.trans hpos
  have hb : c.storeBehind = 0 := Nat.le_zero.mp (h0 ▸ hc.behind)
  have hwrite : ∀ d, (if r.tokens = 1 then (c.withDisk d).updateOneIo r.k r.v
      else (c.withDisk d).updateManyIo r.tokens r.k r.v) (c.withDisk d) =
      onStore (FailingDisk.store r.k r.v r.tokens) (c.withDisk d) := by
    intro d
    rw [if_neg h1, updateManyIo, if_pos (show (c.withDisk d).currentPos = 0 from hpos)]
  intro hnone
  rcases store_cases (s := c.store) (n := n) (m := r.tokens) r.k r.v with ⟨s', n', hok⟩ |
    ⟨e, k', v', herr⟩
  · rw [leaves_ok (.update r) (updateIo_ok (c := c.on (some n)) hroom
      ((hwrite _).trans (onStore_ok (c := c.on (some n)) hok)))] at hnone
    cases hnone
  · rw [leaves_error (.update r) (updateIo_error (c := c.on (some n)) hroom
      ((hwrite _).trans (onStore_error (c := c.on (some n)) herr)))]
    have hfiles := hc.files
    rw [hb, h0] at hfiles
    refine ⟨⟨hc.pos, ?_, ?_, ?_, fun hb' =>
      absurd hb' (by simp [OffloadKVCache.on, OffloadKVCache.withDisk, hb])⟩,
      _, updateIo_ok (c := c.withDisk ⟨{ c.store with kFile := k', vFile := v' }, none⟩) hroom
        ((hwrite _).trans (onStore_ok (c := c.withDisk _) (store_none r.k r.v))), ?_, ?_, ?_⟩
    · rw [h0, Nat.zero_sub]
      exact Nat.zero_le _
    · rw [h0, Nat.zero_sub, Nat.zero_mul, List.take_zero, List.take_zero]
    · rw [h0, Nat.zero_sub, Nat.zero_mul, List.take_zero, List.take_zero]
    · simp [storeAfter, DiskStore.appended, hfiles]
    · simp [OffloadKVCache.withDisk, hpos, h0, DiskOp.tokens]
    · simp [OffloadKVCache.withDisk, hpos, hb]

/-- **`update`** recovers where nothing of it was written, and of a first batch. -/
theorem Records.recovers_update (hc : Records c h) (r : KvRows w) (n : ℕ) :
    Recovers c h (.update r) n ↔ (DiskOp.update r).written c ≤ n ∨ n = 0 ∨
    FillsEmpty c (.update r) := by
  by_cases hroom : c.maxSeqLen < c.currentPos + r.tokens
  · refine ⟨fun _ => .inl ?_, fun _ hnone => ?_⟩
    · rw [written, if_pos (.inl hroom)]
      exact Nat.zero_le n
    · obtain ⟨e, herr⟩ := updateIo_full (c := c.on (some n)) (k := r.k) (v := r.v) hroom
      rw [leaves_error (.update r) herr] at hnone
      cases hnone
  by_cases hdef : Defers c r
  · refine ⟨fun _ => .inl ?_, fun _ hnone => ?_⟩
    · rw [written, if_pos (.inr hdef)]
      exact Nat.zero_le n
    · rw [OffloadKVCache.on, leaves_of_defers hroom hdef] at hnone
      cases hnone
  by_cases hfill : FillsEmpty c (.update r)
  · exact ⟨fun _ => .inr (.inr hfill), fun _ => hc.recovers_fillsEmpty hroom hfill n⟩
  have hwrite := update_write hc hdef hfill
  have hk : (0 + r.tokens) * w ≤ r.k.length := by rw [r.length_k, Nat.zero_add]
  have hv : (0 + r.tokens) * w ≤ r.v.length := by rw [r.length_v, Nat.zero_add]
  have hagain : ∀ s : DiskStore, updateIo r.tokens r.k r.v (c.withDisk ⟨s, none⟩) =
      .ok () { c.withDisk ⟨s.appended r.k r.v r.tokens, none⟩ with currentPos := c.currentPos +
                 r.tokens } := by
    intro s
    have htakes : Takes none (2 * (r.tokens * w)) := fun n' hn' => by cases hn'
    have hloop := forM_appendFrom_ok (s := s) hk hv htakes
    rw [Nat.zero_mul, slice_all r.length_k, slice_all r.length_v] at hloop
    exact updateIo_ok (c := c.withDisk ⟨s, none⟩)
      hroom ((hwrite _).trans (onStore_ok (c := c.withDisk ⟨s, none⟩) hloop))
  rw [show (DiskOp.update r).written c = 2 * (r.tokens * w)
    from if_neg (fun hor => hor.elim hroom hdef)]
  by_cases hn : 2 * (r.tokens * w) ≤ n
  · refine ⟨fun _ => .inl hn, fun _ hnone => ?_⟩
    have htakes : Takes (some n) (2 * (r.tokens * w)) := fun n' hn' => Option.some.inj hn' ▸ hn
    have hloop := forM_appendFrom_ok (s := c.store) hk hv htakes
    rw [leaves_ok (.update r) (updateIo_ok (c := c.on (some n)) hroom
      ((hwrite _).trans (onStore_ok (c := c.on (some n)) hloop)))] at hnone
    cases hnone
  · obtain ⟨text, p, q, i, hloop, hzero, hpos⟩ := forM_appendFrom_fails (s := c.store)
      hk hv (Nat.lt_of_not_le hn)
    rw [Recovers, leaves_error (.update r) (updateIo_error (c := c.on (some n)) hroom
      ((hwrite _).trans (onStore_error (c := c.on (some n)) hloop)))]
    constructor
    · intro hrec
      obtain ⟨-, c', hok, hstore, -⟩ := hrec rfl
      obtain rfl : _ = c' := (EStateM.Result.ok.inj ((hagain _).symm.trans hok)).2
      refine .inr (.inl (Nat.eq_zero_of_not_pos fun hn0 => hpos hn0 ?_))
      have hlen := congrArg (fun s => s.kFile.length) hstore
      simp only [OffloadKVCache.withDisk, DiskStore.appended, storeAfter,
        List.length_append] at hlen
      exact List.eq_nil_of_length_eq_zero (by omega)
    · intro hor _
      obtain ⟨rfl, rfl, rfl⟩ := hzero ((hor.resolve_left hn).resolve_right hfill)
      rw [DiskStore.appended_nil]
      refine ⟨hc.readable none, _, hagain c.store, rfl, ?_, ?_⟩
      · simp [hc.pos, DiskOp.tokens]
      · have hbehind := hc.behind
        simp only [OffloadKVCache.withDisk, DiskStore.appended]
        rw [hc.files, hc.pos]
        dsimp only
        omega

/-- **The failures that an operation recovers from**: none of its bytes was written, and it is not a
release of buffers; or the batch was the first of an empty cache. -/
theorem recovers_iff (hc : Records c h) (op : DiskOp w) (n : ℕ) :
    Recovers c h op n ↔ op.written c ≤ n ∨ (n = 0 ∧ op ≠ .releaseBuffers) ∨ FillsEmpty c op := by
  cases op with
  | update r => simpa using hc.recovers_update r n
  | flushDeferred => simpa [FillsEmpty, written] using hc.recovers_flushDeferred n
  | releaseBuffers => simpa [FillsEmpty, written] using hc.recovers_releaseBuffers n

end Recovery

/-! ## A cache with a deferred token -/

section

open OffloadOp

/-- A cache of two tokens, the second one deferred. -/
def deferringCache : OffloadKVCache DiskStore :=
  { OffloadKVCache.new 0 1 1 .f32 4 ⟨[1, 1, 1, 1], [1, 1, 1, 1], 1, 1 * 1 * DType.f32.size⟩ with
    currentPos := 2
    attnKBuf := some [1, 1, 1, 1, 2, 2, 2, 2, 0, 0, 0, 0, 0, 0, 0, 0]
    attnVBuf := some [1, 1, 1, 1, 2, 2, 2, 2, 0, 0, 0, 0, 0, 0, 0, 0]
    preloaded := true
    storeBehind := 1 }

theorem records_deferringCache : Records deferringCache (tokenPair 1 2) :=
  ⟨rfl, rfl, by decide, rfl, fun _ => ⟨_, _, rfl, rfl, by decide, by decide, rfl, rfl⟩⟩

/-- A flush that the disk takes nothing of. -/
theorem recovers_flush_untouched : Records deferringCache (tokenPair 1 2) ∧
    DiskOp.Recovers deferringCache (tokenPair 1 2) .flushDeferred 0 :=
  ⟨records_deferringCache, (recovers_iff records_deferringCache .flushDeferred 0).mpr
    (.inr (.inl ⟨rfl, by simp⟩))⟩

/-- **Tokens are lost and doubled**: a release whose flush fails drops the deferred token, and a
flush whose V write fails leaves K of the token in the file and writes it once more. -/
theorem not_recovers_deferringCache :
    OffloadOp.run [update (oneToken 1), preload, update (oneToken 2)]
      (OffloadKVCache.new 0 1 1 .f32 4 (DiskStore.new (1 * 1 * DType.f32.size))) =
        .ok (deferringCache, []) ∧
    Records deferringCache (tokenPair 1 2) ∧
    ¬ DiskOp.Recovers deferringCache (tokenPair 1 2) .releaseBuffers 0 ∧
    ¬ DiskOp.Recovers deferringCache (tokenPair 1 2) .flushDeferred 4 := by
  refine ⟨rfl, records_deferringCache, fun h => ?_, fun h => ?_⟩
  · exact absurd ((records_deferringCache.recovers_releaseBuffers 0).mp h) (by decide)
  · exact absurd ((records_deferringCache.recovers_flushDeferred 4).mp h) (by decide)

end

end ArgusEngine
