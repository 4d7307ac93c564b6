import Mathlib.Data.List.Forall2
import ArgusEngine.Kv.Dump
import ArgusEngine.Session.PrefixCache

/-!
# A saved prefix, restored

`save_prefix` writes the token ids, the logits and the packed rows of every layer;
`try_restore_prefix` reads them back into empty layers of any capacity.

* `extractPackedBytes`, `snapshotPrefix`, `savePrefix`: the writer;
* `readSnapshot_saveBuffer`: the header, the token ids and the logits are read back;
* `scatter_rows`, `restores_snapshot`: one layer, from one stride to another;
* **`prefix_roundTrip`**: every layer is restored, exactly when the counts fit their `u32` fields.
-/

namespace ArgusEngine

open FlatMem SlotMem KVCache

namespace PrefixCache

/-! ## The writer -/

/-- Why `read_buffer` refuses a tensor, if it does. -/
abbrev ReadError := Tensor → Option String

def readBuffer (rd : ReadError) (t : Tensor) : Except Fail (List UInt8) :=
  match rd t with
  | some text => .error (.err text)
  | none => .ok t.bytes

/-- The rows of one head; the range is checked. -/
def extractHead (raw : List UInt8) (rowBytes headStrideBytes h : ℕ) : Except Fail (List UInt8) :=
  let srcEnd := h * headStrideBytes + rowBytes
  let len := raw.length
  if srcEnd > len then .error
    (.panic s!"range end index {srcEnd} out of range for slice of length {len}")
  else .ok (slice raw (h * headStrideBytes) rowBytes)

/-- `extract_packed_bytes`: the first rows of every head, without the padding of the capacity. -/
def extractPackedBytes (rd : ReadError) (t : Tensor) (kvHeads tokenCount headDim capacity : ℕ)
    (dtype : DType) : Except Fail (List UInt8) :=
  let dt := dtype.debug
  match readBuffer rd t with
  | .error e => .error e
  | .ok raw => match posBytes headDim dtype with
    | none => .error (.err s!"SnapshotRestore: unsupported dtype {dt} (Tier 1 지원: F32/F16/Q4_0)")
    | some pos =>
      match (List.range kvHeads).mapM (extractHead raw (tokenCount * pos) (capacity * pos)) with
      | .error e => .error e
      | .ok blocks => .ok blocks.flatten

/-- `snapshot_prefix`: the key bytes, then the value bytes. -/
def snapshotPrefix (rd : ReadError) (c : KVCache) (tokenCount : ℕ) : Except Fail (List UInt8) :=
  let pos := c.currentPos
  if c.currentPos ≠ tokenCount then .error (.err
    s!"SnapshotRestore::snapshot_prefix: current_pos({pos}) != token_count({tokenCount})")
  else
    let extract := fun t =>
      extractPackedBytes rd t c.kvHeads tokenCount c.headDim c.capacity c.kvDtype
    match extract c.kBuffer with
    | .error e => .error e
    | .ok kBytes => match extract c.vBuffer with
      | .error e => .error e
      | .ok vBytes => .ok (kBytes ++ vBytes)

/-- `save_prefix`: the bytes of the file. The prompt of `target` is the token list. -/
def savePrefix (P : Platform) (rd : ReadError) (target : Target) (lastLogits : List P.F)
    (formats : List KVCache) : Except Fail (List UInt8) :=
  match formats.mapM fun c => snapshotPrefix rd c target.prompt.length with
  | .error e => .error e
  | .ok layers =>
    .ok (saveBuffer P { target with nLayers := formats.length } lastLogits layers.flatten)

/-! ## The header -/

/-- What the types of the source say: hashes of 32 bytes, a `u32` format id and `u32` token ids. -/
structure Target.Typed (target : Target) : Prop where
  modelHash : target.modelHash.length = 32
  tokenizerHash : target.tokenizerHash.length = 32
  formatId : target.formatId < 2 ^ 32
  prompt : ∀ id ∈ target.prompt, id < 2 ^ 32

/-- **The header, the token ids and the logits are read back**, for every prompt that extends the
token list. -/
theorem readSnapshot_saveBuffer (P : Platform) (target : Target) {lastLogits : List P.F}
    (payload : List UInt8) (ht : target.Typed) (hcount : target.prompt.length < 2 ^ 32)
    (hlogits : lastLogits.length < 2 ^ 32) {prompt : List ℕ} (hprompt : target.prompt <+: prompt) :
    readSnapshot P { target with prompt := prompt } (saveBuffer P target lastLogits payload) =
      some ⟨target.prompt.length, lastLogits.map fun v => P.ofF32 (P.toF32 v), payload⟩ := by
  have h256 : (256 : ℕ) ^ 4 = 2 ^ 32 := by decide
  -- one fact for each field: what is left to read from its offset on
  have a₀ := at_zero (saveBuffer P target lastLogits payload)
  nth_rewrite 2 [saveBuffer] at a₀
  simp only [List.append_assoc] at a₀
  generalize saveBuffer P target lastLogits payload = raw at a₀ ⊢
  have a₁ := a₀.skip (n := 8) rfl
  have a₂ := a₁.skip (length_toLe 4 _)
  have a₃ := a₂.skip (length_toLe 4 _)
  have a₄ := a₃.skip ht.modelHash
  have a₅ := a₄.skip (length_toLe 4 _)
  have a₆ := a₅.skip ht.tokenizerHash
  have a₇ := a₆.skip (length_toLe 4 _)
  have a₈ := a₇.skip (length_toLe 4 _)
  have a₉ := a₈.skip (length_toLe 4 _)
  have a₁₀ := a₉.skip (length_toLe 4 _)
  have hids : (target.prompt.flatMap (toLe 4)).length = target.prompt.length * 4 :=
    length_flatMap_const (length_toLe 4)
  have a₁₁ := a₁₀.skip hids
  have a₁₂ := a₁₁.skip (length_toLe 4 _)
  have hbytes : (lastLogits.flatMap P.toF32).length = lastLogits.length * 4 :=
    length_flatMap_const P.length_toF32
  have a₁₃ := a₁₂.skip hbytes
  have hheader : readHeader raw = some (⟨target.modelHash, target.formatId, target.tokenizerHash,
      target.kvHeads % 2 ^ 32, target.headDim % 2 ^ 32, target.nLayers % 2 ^ 32,
      target.prompt.length⟩, 100) := by
    unfold readHeader
    simp only [Option.bind_eq_bind, readBytes_at a₀ (n := 8) rfl, readLe_at a₁, readLe_at a₂,
      readBytes_at a₃ ht.modelHash, readLe_at a₄, readBytes_at a₅ ht.tokenizerHash,
      readLe_at a₆, readLe_at a₇, readLe_at a₈, readLe_at a₉, Option.bind_some, h256,
      Nat.mod_eq_of_lt ht.formatId, Nat.mod_eq_of_lt hcount]
    rfl
  have hroom₁ := a₁₀.length
  have hroom₂ := a₁₂.length
  rw [List.length_append, hids] at hroom₁
  rw [List.length_append, hbytes] at hroom₂
  have hread := readLes_at a₁₀ (by rw [h256]; exact ht.prompt)
  have hlen := hprompt.length_le
  unfold readSnapshot
  have htake : target.prompt = prompt.take target.prompt.length :=
    List.prefix_iff_eq_take.mp hprompt
  simp only [Option.bind_eq_bind, hheader, Option.bind_some, and_self, guard_pos trivial]
  rw [guard_pos (by omega), Option.bind_some, hread]
  simp only [Option.bind_some]
  rw [guard_pos hlen, guard_pos htake]
  simp only [Option.bind_some, readLe_at a₁₁, h256, Nat.mod_eq_of_lt hlogits]
  rw [guard_pos (by omega), map_slice_at P.length_toF32 P.ofF32 a₁₂, a₁₃.drop]
  rfl

/-! ## One layer -/

/-- The stored type and the heads of a HeadMajor layer with typed buffers. -/
structure Shaped (dtype : DType) (kvHeads headDim : ℕ) (c : KVCache) : Prop where
  wf : c.WF
  headMajor : c.layout = .headMajor
  typed : c.kBuffer.buffer.desc = none
  dtype_eq : c.kvDtype = dtype
  kvHeads_eq : c.kvHeads = kvHeads
  headDim_eq : c.headDim = headDim

section Layer

variable {dtype : DType} {kvHeads headDim : ℕ} {c d : KVCache} {rd : ReadError} {w : WriteError}

theorem Shaped.rowBytes_eq (hc : Shaped dtype kvHeads headDim c)
    (hd : Shaped dtype kvHeads headDim d) : c.rowBytes = d.rowBytes := by
  have h₁ := posBytes_eq hc.wf.stored hc.typed
  have h₂ := posBytes_eq hd.wf.stored hd.typed
  rw [hc.headDim_eq, hc.dtype_eq] at h₁
  rw [hd.headDim_eq, hd.dtype_eq, h₁] at h₂
  exact Option.some.inj h₂

theorem mapM_extractHead {raw : List UInt8} {row stride n : ℕ}
    (h : ∀ k < n, k * stride + row ≤ raw.length) :
    (List.range n).mapM (extractHead raw row stride) =
      .ok ((List.range n).map fun k => slice raw (k * stride) row) := by
  have hall : ∀ l : List ℕ, (∀ k ∈ l, k < n) →
      l.mapM (extractHead raw row stride) = .ok (l.map fun k => slice raw (k * stride) row) := by
    intro l
    induction l with
    | nil => exact fun _ => rfl
    | cons k l ih =>
      intro hl
      have hk := h k (hl k List.mem_cons_self)
      have hone : extractHead raw row stride k = .ok (slice raw (k * stride) row) := by
        unfold extractHead
        exact if_neg (by omega)
      rw [List.mapM_cons, hone, ih fun x hx => hl x (List.mem_cons_of_mem _ hx)]
      rfl
  exact hall _ fun k hk => List.mem_range.mp hk

/-- **A snapshot holds the first rows of every head**, the keys before the values. -/
theorem snapshotPrefix_eq (hc : Shaped dtype kvHeads headDim c)
    (hrd : ∀ x, rd (c.buffer x) = none) : snapshotPrefix rd c c.currentPos =
      .ok (c.headBlocks c.kBuffer c.currentPos ++ c.headBlocks c.vBuffer c.currentPos) := by
  have hextract : ∀ x, extractPackedBytes rd (c.buffer x) c.kvHeads c.currentPos c.headDim
    c.capacity c.kvDtype =
      .ok (c.headBlocks (c.buffer x) c.currentPos) := by
    intro x
    have hbound : ∀ k < c.kvHeads, k * (c.capacity * c.rowBytes) + c.currentPos * c.rowBytes ≤
      (c.buffer x).bytes.length := by
      intro k hk
      rw [← Nat.mul_assoc]
      exact SwapHandler.slice_bound (hc.wf.size x) hc.wf.pos hk
    unfold extractPackedBytes readBuffer
    simp only [hrd x, posBytes_eq hc.wf.stored hc.typed, mapM_extractHead hbound]
    rw [headBlocks, List.flatMap_def]
    simp only [Nat.mul_assoc]
  unfold snapshotPrefix
  rw [if_neg (not_not.mpr rfl)]
  simp only [show c.kBuffer = c.buffer .key from rfl,
    show c.vBuffer = c.buffer .value from rfl, hextract]

theorem foldlM_scatterHead_eq (packed raw : List UInt8) (row stride n : ℕ)
    (hdst : ∀ k < n, k * stride + row ≤ raw.length)
    (hsrc : ∀ k < n, k * row + row ≤ packed.length) :
    (List.range n).foldlM (scatterHead packed row stride) raw =
      .ok ((List.range n).foldl (fun raw k => blit packed (k * row) raw (k * stride) row) raw) := by
  have hall : ∀ (l : List ℕ) (raw : List UInt8), (∀ k ∈ l, k * stride + row ≤ raw.length ∧ k < n) →
      l.foldlM (scatterHead packed row stride) raw =
        .ok (l.foldl (fun raw k => blit packed (k * row) raw (k * stride) row) raw) := by
    intro l
    induction l with
    | nil => exact fun raw _ => rfl
    | cons k l ih =>
      intro raw hl
      obtain ⟨hk, hn⟩ := hl k List.mem_cons_self
      have hs := hsrc k hn
      have hone : scatterHead packed row stride raw k =
        .ok (blit packed (k * row) raw (k * stride) row) := by
        unfold scatterHead
        rw [if_neg (by omega), if_neg (by omega)]
      rw [List.foldlM_cons, hone]
      exact ih _ fun x hx => by rw [length_blit]; exact hl x (List.mem_cons_of_mem _ hx)
  exact hall _ raw fun k hk => ⟨hdst k (List.mem_range.mp hk), List.mem_range.mp hk⟩

/-- **Scattered rows**: row `p` of head `h` comes from row `h * n + p` of the packed bytes. -/
theorem scatter_rows {t : Tensor} {packed : List UInt8} {n cap pos : ℕ}
    (hpos : posBytes headDim dtype = some pos) (hn : n ≤ cap) (hsize : cap * kvHeads * pos ≤ t.size)
    (hlen : packed.length = kvHeads * (n * pos)) (hw : w t = none) :
    ∃ raw, raw.length = t.size ∧ scatterPackedBytes w t kvHeads n headDim cap dtype packed =
      .ok (t.withBytes raw) ∧
      ∀ h < kvHeads, ∀ p < n, rows pos raw (h * cap + p) = rows pos packed (h * n + p) := by
  have hdst : ∀ k < kvHeads, (k * cap + n) * pos ≤ t.size := by
    intro k hk
    refine (Nat.mul_le_mul_right _ ?_).trans hsize
    have := row_bound (w := cap) hk
    rw [Nat.mul_comm cap]
    omega
  have hsrc : ∀ k < kvHeads, (k * n + n) * pos ≤ packed.length := by
    intro k hk
    rw [hlen, ← Nat.mul_assoc]
    exact Nat.mul_le_mul_right _ (row_bound hk)
  have hloop := foldlM_scatterHead_eq packed (List.replicate t.size 0) (n * pos) (cap * pos) kvHeads
    (fun k hk => by rw [List.length_replicate, ← Nat.mul_assoc, ← Nat.add_mul]; exact hdst k hk)
    (fun k hk => by rw [← Nat.mul_assoc, ← Nat.add_mul]; exact hsrc k hk)
  have hsame : ((List.range kvHeads).foldl (fun raw k =>
    blit packed (k * (n * pos)) raw (k * (cap * pos)) (n * pos))
      (List.replicate t.size 0)).length = t.size := by rw [length_foldl_blit, List.length_replicate]
  refine ⟨_, hsame, ?_, fun h hh p hp => ?_⟩
  · unfold scatterPackedBytes
    simp only [hpos, hloop]
    rw [writeBuffer_cases hsame, hw]
  · have hrows := rows_foldl_blit (w := pos) (fun _ : ℕ => packed) (a := fun k => k * n)
      (e := fun k => k * cap) (n := fun _ => n) (l := List.range kvHeads)
        (b := List.replicate t.size 0)
      (fun k hk => hsrc k (List.mem_range.mp hk))
      (fun k hk => by rw [List.length_replicate]; exact hdst k (List.mem_range.mp hk))
    simp only [Nat.mul_assoc] at hrows
    rw [hrows]
    have hplace : ∀ (k : ℕ) (f : ℕ → List UInt8), place (rows pos packed) (k * n) f (k * cap) n =
        place (fun p => rows pos packed (k * n + p)) 0 f (k * cap) n := by
      intro k f
      funext i
      simp only [place, Nat.zero_add]
    simp only [hplace]
    rw [foldl_place_blocks (fun k p => rows pos packed (k * n + p)) _ hn (hp.trans_le hn)
      hh, if_pos hp]

/-- `d` holds the tokens of `c`, row by row. -/
structure HoldsTokens (c d : KVCache) : Prop where
  currentPos : d.currentPos = c.currentPos
  rows : ∀ x, ∀ h < c.kvHeads, ∀ p < c.currentPos, d.rowsOf x h p = c.rowsOf x h p

theorem rowsOf_setCurrentPos (c : KVCache) (n : ℕ) : (c.setCurrentPos n).rowsOf = c.rowsOf := by
  unfold setCurrentPos
  split_ifs <;> rfl

/-- **An empty layer takes the snapshot of a layer of its shape**, whatever the two capacities. -/
theorem restores_snapshot (hc : Shaped dtype kvHeads headDim c)
    (hd : Shaped dtype kvHeads headDim d) (h0 : d.currentPos = 0) (hroom : HasRoom d c.currentPos)
    (hw : Writable w d c.currentPos) :
    ∃ d', restorePrefix w d
      (c.headBlocks c.kBuffer c.currentPos ++ c.headBlocks c.vBuffer c.currentPos) c.currentPos =
      (.ok (), d') ∧ HoldsTokens c d' := by
  obtain ⟨b, d₁, he⟩ := ensureCapacity_of_hasRoom hd.wf hroom
  obtain ⟨hk, hcap⟩ := keeps_ensureCapacity hd.wf he
  have hfmt : d₁.format = d.format := congrArg Frame.format (frame_ensureCapacity he)
  have hheads : d₁.kvHeads = c.kvHeads :=
    (congrArg Format.kvHeads hfmt).trans (hd.kvHeads_eq.trans hc.kvHeads_eq.symm)
  have hl₁ : d₁.layout = .headMajor := (congrArg Format.layout hfmt).trans hd.headMajor
  have hrow : d₁.rowBytes = c.rowBytes := (rowBytes_of_format hfmt).trans (hd.rowBytes_eq hc)
  have hunit : posBytes d₁.headDim d₁.kvDtype = some d₁.rowBytes :=
    posBytes_eq hk.wf.stored ((congrArg Format.desc hfmt).trans hd.typed)
  have hlen : ∀ x, (c.headBlocks (c.buffer x) c.currentPos).length = d₁.kvHeads *
    (c.currentPos * d₁.rowBytes) := by
    intro x
    rw [hheads, hrow]
    exact SwapHandler.length_headBlocks (hc.wf.size x) hc.wf.pos
  have hscatter := fun x => scatter_rows (w := w) hunit hcap (hk.wf.size x) (hlen x) (hw _ _ he x)
  obtain ⟨kraw, -, hkok, hkrows⟩ := hscatter .key
  obtain ⟨vraw, -, hvok, hvrows⟩ := hscatter .value
  simp only [buffer] at hkok hvok hkrows hvrows hlen
  have hhalf : (c.headBlocks c.kBuffer c.currentPos ++
    c.headBlocks c.vBuffer c.currentPos).length / 2 =
      (c.headBlocks c.kBuffer c.currentPos).length := by
    have h₁ := hlen .key
    have h₂ := hlen .value
    simp only at h₁ h₂
    rw [List.length_append, h₁, h₂]
    omega
  unfold restorePrefix
  rw [if_neg (not_not.mpr h0), he]
  simp only [hhalf, List.take_left, List.drop_left, hkok, hvok]
  refine ⟨_, rfl, currentPos_setCurrentPos _ _, fun x h hh p hp => ?_⟩
  have hp₁ : p < d₁.capacity := hp.trans_le hcap
  have hsource : FlatMem.rows d₁.rowBytes (c.headBlocks (c.buffer x) c.currentPos)
    (h * c.currentPos + p) =
      c.rowsOf x h p := by
    rw [hrow]
    exact SwapHandler.rows_headBlocks hc.headMajor (hc.wf.size x) hc.wf.pos hh hp
  refine Eq.trans ?_ hsource
  refine (congrFun (congrFun (congrFun (rowsOf_setCurrentPos _ c.currentPos) x) h) p).trans ?_
  refine (if_pos hp₁).trans ?_
  cases x
  · exact (congrArg (FlatMem.rows d₁.rowBytes kraw) (slot_headMajor hl₁ p h)).trans
      (hkrows h (hheads ▸ hh) p hp)
  · exact (congrArg (FlatMem.rows d₁.rowBytes vraw) (slot_headMajor hl₁ p h)).trans
      (hvrows h (hheads ▸ hh) p hp)

end Layer

/-! ## All layers -/

/-- An empty layer that can hold `n` tokens: of its full length, or one that grows to it. -/
structure Ready (w : WriteError) (n : ℕ) (d : KVCache) : Prop where
  empty : d.currentPos = 0
  fits : n ≤ d.maxSeqLen
  room : d.memory.isSome = true ∨ d.maxSeqLen ≤ d.capacity
  writable : Writable w d n

theorem Ready.hasRoom {w : WriteError} {n : ℕ} {d : KVCache} (h : Ready w n d) : HasRoom d n :=
  h.room.elim (fun hm => .inr ⟨hm, h.fits⟩) fun hcap => .inl (h.fits.trans hcap)

section Layers

variable {dtype : DType} {kvHeads headDim n : ℕ} {rd : ReadError} {w : WriteError}

/-- The bytes of a layer in the payload. -/
def layerBytes (c : KVCache) : List UInt8 :=
  c.headBlocks c.kBuffer c.currentPos ++ c.headBlocks c.vBuffer c.currentPos

theorem mapM_snapshotPrefix {saved : List KVCache}
    (hs : ∀ c ∈ saved, Shaped dtype kvHeads headDim c ∧ c.currentPos = n)
    (hrd : ∀ c ∈ saved, ∀ x, rd (c.buffer x) = none) :
    (saved.mapM fun c => snapshotPrefix rd c n) = .ok (saved.map layerBytes) := by
  induction saved with
  | nil => rfl
  | cons c cs ih =>
    obtain ⟨hc, hpos⟩ := hs c List.mem_cons_self
    have hone := snapshotPrefix_eq hc (hrd c List.mem_cons_self)
    rw [hpos] at hone
    rw [List.mapM_cons, hone, ih (fun x hx => hs x (List.mem_cons_of_mem _ hx)) fun x hx =>
      hrd x (List.mem_cons_of_mem _ hx), List.map_cons, layerBytes, hpos]
    rfl

theorem length_layerBytes {c : KVCache} (hc : Shaped dtype kvHeads headDim c) {pos : ℕ}
    (hpos : posBytes headDim dtype = some pos) :
    (layerBytes c).length = 2 * (kvHeads * (c.currentPos * pos)) := by
  have hrow := posBytes_eq hc.wf.stored hc.typed
  rw [hc.headDim_eq, hc.dtype_eq, hpos] at hrow
  have h₁ := SwapHandler.length_headBlocks (hc.wf.size .key) hc.wf.pos
  have h₂ := SwapHandler.length_headBlocks (hc.wf.size .value) hc.wf.pos
  simp only [buffer, hc.kvHeads_eq, ← Option.some.inj hrow] at h₁ h₂
  rw [layerBytes, List.length_append, h₁, h₂]
  omega

/-- **The loop over the layers restores every one**, by induction on the layers still to restore. -/
theorem restoreLayers_snapshot (payload : List UInt8) {L : ℕ} : ∀ {saved blank : List KVCache},
    List.Forall₂ (fun c d =>
      (Shaped dtype kvHeads headDim c ∧ c.currentPos = n ∧ (layerBytes c).length = L) ∧
      Shaped dtype kvHeads headDim d ∧ Ready w n d) saved blank →
    ∀ i, payload.drop (i * L) = (saved.map layerBytes).flatten →
      ∃ cs, restoreLayers w payload L n i blank = (.ok (), cs) ∧
      List.Forall₂ HoldsTokens saved cs := by
  intro saved blank h
  induction h with
  | nil => exact fun i _ => ⟨[], rfl, .nil⟩
  | @cons c d saved blank hcd hrest ih =>
    intro i hpay
    obtain ⟨⟨hc, hpos, hL⟩, hd, hr⟩ := hcd
    rw [List.map_cons, List.flatten_cons] at hpay
    have hshare : slice payload (i * L) L = layerBytes c := by
      rw [slice, hpay, ← hL]
      exact List.take_left ..
    have hnext : payload.drop ((i + 1) * L) = (saved.map layerBytes).flatten := by
      rw [Nat.add_mul, Nat.one_mul, ← List.drop_drop, hpay, ← hL]
      exact List.drop_left ..
    obtain ⟨d', hone, hd'⟩ := restores_snapshot (w := w) hc hd hr.empty (hpos ▸ hr.hasRoom)
      (hpos ▸ hr.writable)
    obtain ⟨cs, hall, hcs⟩ := ih (i + 1) hnext
    refine ⟨d' :: cs, ?_, .cons hd' hcs⟩
    rw [hpos] at hone
    unfold restoreLayers
    rw [hshare, layerBytes, hpos, hone]
    simp only [hall]

end Layers

/-! ## The round trip -/

section RoundTrip

variable {P : Platform} {w : WriteError}

theorem readSnapshot_lt {target : Target} {raw : List UInt8} {s : Snapshot P.F}
    (h : readSnapshot P target raw = some s) :
    s.tokenCount < 2 ^ 32 ∧ s.lastLogits.length < 2 ^ 32 := by
  refine ⟨?_, ?_⟩
  · rw [(readSnapshot_eq_some h).1]
    exact ofLe_slice_lt raw 96 4
  · simp only [readSnapshot, Option.bind_eq_bind, Option.bind_eq_some_iff, Option.pure_def,
      Option.some.injEq, Option.guard_eq_some'] at h
    obtain ⟨r, -, -, -, -, -, -, -, -, -, -, -, ids, -, -, -, -, -, n, hn, -, -, rfl⟩ := h
    rw [List.length_map, List.length_range, readLe_eq_some hn]
    exact ofLe_slice_lt raw ids.2 4

theorem tryRestorePrefix_some {target : Target} {raw : List UInt8} {formats cs : List KVCache}
    {r : RestoredPrefix P.F}
    (h : tryRestorePrefix P w (.contents raw) target formats = (.ok (some r), cs)) :
    ∃ s, readSnapshot P target raw = some s ∧ r.tokenCount = s.tokenCount ∧
      r.lastLogits = if s.tokenCount < target.prompt.length then [] else s.lastLogits := by
  unfold tryRestorePrefix at h
  cases hs : readSnapshot P target raw with
  | none => simp only [hs] at h; cases h
  | some s =>
    simp only [hs] at h
    refine ⟨s, rfl, ?_⟩
    generalize (if s.tokenCount < target.prompt.length then [] else s.lastLogits) = logits at h ⊢
    split_ifs at h
    · cases h; exact ⟨rfl, rfl⟩
    · cases h
    · split at h
      · cases h
      · cases h; exact ⟨rfl, rfl⟩

/-- What `save_prefix` writes for `saved` is restored into `blank`: the token count, every row of
every layer, and the logits for a prompt that is the token list. -/
def RoundTrips (P : Platform) (rd : ReadError) (w : WriteError) (target : Target)
    (lastLogits : List P.F) (saved blank : List KVCache) (prompt : List ℕ) : Prop :=
  ∃ raw cs, savePrefix P rd target lastLogits saved = .ok raw ∧
    tryRestorePrefix P w (.contents raw) { target with nLayers := blank.length,
                                                       prompt := prompt } blank =
      (.ok (some ⟨target.prompt.length, if prompt = target.prompt then lastLogits else []⟩), cs) ∧
    List.Forall₂ HoldsTokens saved cs

/-- **Every layer of the payload is restored** from a share of one length. -/
theorem restored_layers {dtype : DType} {kvHeads headDim n : ℕ} {saved blank : List KVCache}
    (hsaved : ∀ c ∈ saved, Shaped dtype kvHeads headDim c ∧ c.currentPos = n)
    (hblank : ∀ d ∈ blank, Shaped dtype kvHeads headDim d ∧ Ready w n d)
    (hlen : blank.length = saved.length) :
    ∃ L cs, (saved.map layerBytes).flatten.length = L * saved.length ∧
      restoreLayers w (saved.map layerBytes).flatten L n 0 blank = (.ok (), cs) ∧
      List.Forall₂ HoldsTokens saved cs := by
  cases saved with
  | nil =>
    rw [List.length_eq_zero_iff.mp hlen]
    exact ⟨0, [], rfl, rfl, .nil⟩
  | cons c rest =>
    obtain ⟨hc, -⟩ := hsaved c List.mem_cons_self
    have hpos := posBytes_eq hc.wf.stored hc.typed
    rw [hc.headDim_eq, hc.dtype_eq] at hpos
    have hL : ∀ c' ∈ c :: rest, (layerBytes c').length = 2 * (kvHeads * (n * c.rowBytes)) := by
      intro c' hc'
      rw [length_layerBytes (hsaved c' hc').1 hpos, (hsaved c' hc').2]
    generalize 2 * (kvHeads * (n * c.rowBytes)) = L at hL
    have hboth : List.Forall₂ (fun c d => (Shaped dtype kvHeads headDim c ∧ c.currentPos = n ∧
        (layerBytes c).length = L) ∧ Shaped dtype kvHeads headDim d ∧ Ready w n d)
          (c :: rest) blank := by
      refine List.forall₂_iff_zip.mpr ⟨hlen.symm, fun {a b} hab =>
        ⟨?_, hblank b (List.of_mem_zip hab).2⟩⟩
      have hmem := (List.of_mem_zip hab).1
      exact ⟨(hsaved a hmem).1, (hsaved a hmem).2, hL a hmem⟩
    obtain ⟨cs, hloop, hcs⟩ := restoreLayers_snapshot ((c :: rest).map layerBytes).flatten hboth 0
      (by rw [Nat.zero_mul, List.drop_zero])
    refine ⟨L, cs, ?_, hloop, hcs⟩
    have hconst : ((c :: rest).map layerBytes).map List.length =
      List.replicate (c :: rest).length L := by
      rw [List.map_map, ← List.map_const']
      exact List.map_congr_left hL
    rw [List.length_flatten, hconst, List.sum_replicate_nat, Nat.mul_comm]

end RoundTrip

/-- **A saved prefix comes back.** Layers of one shape with as many tokens as the list, and empty
layers of that shape and of any capacity that can hold them: for every prompt that extends the token
list the restore gives the token count and every row of every layer back, and the logits when the
prompt is the token list. The file keeps both counts as `u32`: this is so exactly when there are
fewer than `2 ^ 32` tokens and logits. -/
theorem prefix_roundTrip (P : Platform) (rd : ReadError) (w : WriteError) {dtype : DType}
    {kvHeads headDim : ℕ} {target : Target} (ht : target.Typed) {lastLogits : List P.F}
    (hbits : ∀ v ∈ lastLogits, P.ofF32 (P.toF32 v) = v) {saved blank : List KVCache}
    (hsaved : ∀ c ∈ saved, Shaped dtype kvHeads headDim c ∧ c.currentPos = target.prompt.length)
    (hread : ∀ c ∈ saved, ∀ x, rd (c.buffer x) = none)
    (hblank : ∀ d ∈ blank, Shaped dtype kvHeads headDim d ∧ Ready w target.prompt.length d)
    (hlen : blank.length = saved.length) :
    (∀ prompt, target.prompt <+: prompt → RoundTrips P rd w target lastLogits saved blank prompt) ↔
      target.prompt.length < 2 ^ 32 ∧ lastLogits.length < 2 ^ 32 := by
  constructor
  · intro h
    obtain ⟨raw, cs, -, hr, -⟩ := h target.prompt (List.prefix_refl _)
    obtain ⟨s, hs, hcount, hlogits⟩ := tryRestorePrefix_some hr
    obtain ⟨h₁, h₂⟩ := readSnapshot_lt hs
    simp only at hcount hlogits
    rw [if_pos trivial, ← hcount, if_neg (Nat.lt_irrefl _)] at hlogits
    rw [hcount, hlogits]
    exact ⟨h₁, h₂⟩
  · rintro ⟨htokens, hlogits⟩ prompt hprompt
    have hback : (lastLogits.map fun v => P.ofF32 (P.toF32 v)) = lastLogits :=
      (List.map_congr_left hbits).trans (List.map_id' _)
    have hsave : savePrefix P rd target lastLogits saved =
        .ok (saveBuffer P { target with nLayers := saved.length }
          lastLogits (saved.map layerBytes).flatten) := by
      unfold savePrefix
      rw [mapM_snapshotPrefix hsaved hread]
    have hsnap := readSnapshot_saveBuffer P { target with nLayers := saved.length }
      (saved.map layerBytes).flatten ⟨ht.modelHash, ht.tokenizerHash, ht.formatId, ht.prompt⟩
        htokens hlogits hprompt
    rw [hback] at hsnap
    have hpick : (if target.prompt.length < prompt.length then [] else lastLogits) =
        if prompt = target.prompt then lastLogits else [] := by
      by_cases he : prompt = target.prompt
      · rw [if_pos he, he, if_neg (Nat.lt_irrefl _)]
      · rw [if_neg he, if_pos]
        exact Nat.lt_of_not_le fun hle => he (hprompt.eq_of_length_le hle).symm
    obtain ⟨L, cs, hpay, hlayers, hall⟩ := restored_layers hsaved hblank hlen
    refine ⟨_, cs, hsave, ?_, hall⟩
    unfold tryRestorePrefix
    simp only [hlen, hsnap, hpick]
    cases blank with
    | nil =>
      have hcs : cs = [] := List.length_eq_zero_iff.mp (hall.length_eq.symm.trans hlen.symm)
      rw [hcs]
      rfl
    | cons d rest =>
      have hshare : (saved.map layerBytes).flatten.length / saved.length = L := by
        rw [hpay, ← hlen]
        exact Nat.mul_div_cancel _ (Nat.succ_pos _)
      rw [hshare, if_neg (show ¬ (d :: rest).isEmpty = true from Bool.false_ne_true),
        if_neg (not_not.mpr hpay.symm), hlayers]

/-- `blankLayer` with the rows `1` and `2` of one token. -/
def oneTokenLayer : KVCache :=
  { newWithGeometry (.host [1, 1, 2, 1] [1, 0, 0, 0, 9, 9, 9, 9])
      (.host [1, 1, 2, 1] [2, 0, 0, 0, 9, 9, 9, 9]) 2 1 1 .headMajor with
    currentPos := 1
    highWaterPos := 1 }

theorem oneTokenLayer_wf : oneTokenLayer.WF := by
  refine ⟨by decide, rfl, rfl, ?_, by decide, by decide, by decide, fun h => ?_, by decide⟩
  · rintro (_ | _) <;> decide
  · exact (List.getD_nil ..).trans_le (Nat.zero_le _)

/-- A model and a tokenizer of hash zero, and the prompt `[7]`. -/
def oneTokenTarget : Target := ⟨List.replicate 32 0, List.replicate 32 0, 1, 1, 1, 1, [7]⟩

theorem oneTokenTarget_typed : oneTokenTarget.Typed := ⟨rfl, rfl, by decide, by decide⟩

theorem oneTokenLayer_saved : ∀ c ∈ [oneTokenLayer], Shaped .f32 1 1 c ∧
    c.currentPos = oneTokenTarget.prompt.length :=
  List.forall_mem_singleton.mpr ⟨⟨oneTokenLayer_wf, rfl, rfl, rfl, rfl, rfl⟩, rfl⟩

theorem blankLayer_ready :
    ∀ d ∈ [blankLayer], Shaped .f32 1 1 d ∧
    Ready hostWriteError oneTokenTarget.prompt.length d := by
  refine List.forall_mem_singleton.mpr ⟨⟨blankLayer_wf, rfl, rfl, rfl, rfl, rfl⟩, rfl,
    by decide, .inr (by decide),
    fun b c' he x => ?_⟩
  cases he
  cases x <;> rfl

/-- The logits of three words. -/
def threeLogits : List Platform.fixedPoint.F := [(3 : Int), (0 : Int), (300 : Int)]

/-- One token in a layer of two positions, restored into a layer of four: with the logits for the
same prompt, and without them for a longer one. -/
theorem prefix_roundTrip_oneToken :
    RoundTrips .fixedPoint (fun _ => none) hostWriteError oneTokenTarget threeLogits [oneTokenLayer]
      [blankLayer] [7] ∧
      RoundTrips .fixedPoint (fun _ => none) hostWriteError oneTokenTarget threeLogits
        [oneTokenLayer] [blankLayer] [7, 8] := by
  have hbits : ∀ v ∈ ([3, 0, 300] : List Int),
    FixedPoint.decode 23 31 (FixedPoint.encode 23 31 4 v) = v := by decide
  have hall := (prefix_roundTrip .fixedPoint (fun _ => none)
    hostWriteError oneTokenTarget_typed hbits oneTokenLayer_saved (fun _ _ _ => rfl)
      blankLayer_ready rfl).mpr ⟨by decide, by decide⟩
  exact ⟨hall [7] (List.prefix_refl _), hall [7, 8] ⟨[8], rfl⟩⟩

/-- **A count that does not fit its field**: of `2 ^ 32` logits none is restored with the prompt. -/
theorem logits_lost : oneTokenTarget.Typed ∧
    (∀ c ∈ [oneTokenLayer], Shaped .f32 1 1 c ∧ c.currentPos = oneTokenTarget.prompt.length) ∧
    (∀ d ∈ [blankLayer], Shaped .f32 1 1 d ∧ Ready hostWriteError oneTokenTarget.prompt.length d) ∧
    ¬ RoundTrips .fixedPoint (fun _ => none) hostWriteError oneTokenTarget
      (List.replicate (2 ^ 32) (0 : Int)) [oneTokenLayer] [blankLayer] oneTokenTarget.prompt := by
  refine ⟨oneTokenTarget_typed, oneTokenLayer_saved, blankLayer_ready, ?_⟩
  rintro ⟨raw, cs, -, hr, -⟩
  obtain ⟨s, hs, hcount, hlogits⟩ := tryRestorePrefix_some hr
  have hlt := (readSnapshot_lt hs).2
  simp only at hcount hlogits
  rw [if_pos trivial, ← hcount, if_neg (Nat.lt_irrefl _)] at hlogits
  have hall : s.lastLogits.length = 2 ^ 32 := hlogits ▸ List.length_replicate
  omega

end PrefixCache

end ArgusEngine
