import ArgusEngine.Kv.Dump
import ArgusEngine.Lib.Cuts

/-!
# Tokens out to disk and back

A uniform HeadMajor F32 or F16 cache is a list of tokens (`tokens`). `offload_prefix` cuts a block
of tokens off its front and `update` appends to its end (`Cut`); the ledger of the swap handler
holds the blocks of a layer in the order they were cut (`Held`). A recall takes the first record of
the layer, so the blocks come back in reverse order.

* `tokens_update`, `tokens_prunePrefix`, `tokens_recallOne`: one operation on the tokens;
* `held_apply`: every operation keeps `Held`;
* `held_recall`, `becomes_recallRecords`: the two ways to recall;
* **`tokens_recall`**: when the tokens are all back in order.
-/

namespace ArgusEngine

open FlatMem SlotMem Cuts KVCache

/-! ## The tokens of a uniform cache -/

/-- The rows of one token, by half and head. -/
abbrev Token := Half → ℕ → List UInt8

namespace KVCache

/-- The resident tokens, as the readers of the buffers find them. -/
def tokens (c : KVCache) : List Token :=
  (List.range c.currentPos).map fun p x h => if h < c.kvHeads
    then c.readRow (c.buffer x) p h else []

/-- The tokens that `update` appends. -/
def inputTokens (P : Platform) (c : KVCache) (newK newV : Tensor) : List Token :=
  (List.range (newK.shape.getD 1 0)).map fun s x h => if h < c.kvHeads
    then c.inputRow P (input newK newV x) s h else []

/-- A uniform HeadMajor F32 or F16 cache that can hold `max_seq_len` tokens. -/
structure Plain (c : KVCache) : Prop where
  wf : c.WF
  headMajor : c.layout = .headMajor
  float : c.kvDtype = .f16 ∨ c.kvDtype = .f32
  uniform : c.isRagged = false
  room : c.memory.isSome = true ∨ c.maxSeqLen ≤ c.capacity

/-- `c'` is a cache of the shape of `c` that holds the tokens `l`. -/
structure Becomes (c c' : KVCache) (l : List Token) : Prop where
  plain : c'.Plain
  format : c'.format = c.format
  maxSeqLen : c'.maxSeqLen = c.maxSeqLen
  tokens : c'.tokens = l

section Tokens

variable {P : Platform} {c c' : KVCache}

theorem length_tokens (c : KVCache) : c.tokens.length = c.currentPos := by simp [tokens]

theorem tokens_eq (hc : c.WF) :
    c.tokens = (List.range c.currentPos).map fun p x h => if h < c.kvHeads
      then c.rowsOf x h p else [] := by
  refine List.map_congr_left fun p hp => ?_
  funext x h
  rw [hc.readRow x h (List.mem_range.mp hp)]

theorem tokens_eq_of_rows (hc : c.WF) {l : List Token} (hlen : l.length = c.currentPos)
    (hrows : ∀ x, ∀ h < c.kvHeads, ∀ p (hp : p < l.length), c.rowsOf x h p = l[p] x h)
    (hout : ∀ t ∈ l, ∀ x h, ¬ h < c.kvHeads → t x h = []) : c.tokens = l := by
  rw [tokens_eq hc]
  refine List.ext_getElem (by simp [hlen]) fun p h₁ h₂ => ?_
  funext x h
  simp only [List.getElem_map, List.getElem_range]
  split_ifs with hh
  · exact hrows x h hh p h₂
  · exact (hout _ (List.getElem_mem h₂) x h hh).symm

theorem getElem_tokens (hc : c.WF) {p : ℕ} (hp : p < c.tokens.length) (x : Half) {h : ℕ}
    (hh : h < c.kvHeads) : c.tokens[p] x h = c.rowsOf x h p := by
  have hget : c.tokens[p] = fun x h => if h < c.kvHeads
    then c.readRow (c.buffer x) p h else [] := by
    simp [tokens]
  rw [hget, ← hc.readRow x h (c.length_tokens ▸ hp)]
  exact if_pos hh

theorem tokens_out {t : Token} (ht : t ∈ c.tokens) (x : Half) {h : ℕ} (hh : ¬ h < c.kvHeads) :
    t x h = [] := by
  obtain ⟨p, -, rfl⟩ := List.mem_map.mp ht
  exact if_neg hh

theorem Plain.isOpaque (hc : c.Plain) : c.isOpaque = false := by
  have hs := hc.wf.stored
  unfold IsStored at hs
  cases hd : c.kBuffer.buffer.desc with
  | none => simp [KVCache.isOpaque, hd]
  | some d =>
    rw [hd] at hs
    rcases hc.float with hf | hf <;> · rw [hf] at hs; cases hs.1

theorem Plain.of_format (hc : c.Plain) (hwf : c'.WF) (hf : c'.format = c.format)
    (hs : c'.headStart = c.headStart)
    (hroom : c'.memory.isSome = true ∨ c'.maxSeqLen ≤ c'.capacity) : c'.Plain := by
  refine ⟨hwf, (congrArg Format.layout hf).trans hc.headMajor, ?_, ?_, hroom⟩
  · rw [show c'.kvDtype = c.kvDtype from congrArg Format.dtype hf]
    exact hc.float
  · unfold isRagged
    rw [hs]
    exact hc.uniform

theorem Plain.ensureCapacity (hc : c.Plain) {n : ℕ} (hn : n ≤ c.maxSeqLen) :
    ∃ b c', c.ensureCapacity n = .ok (b, c') ∧
    (c'.memory.isSome = true ∨ c'.maxSeqLen ≤ c'.capacity) := by
  rcases hc.room with hm | hcap
  · obtain ⟨b, c', h⟩ := ensureCapacity_ok hc.wf hm hn
    exact ⟨b, c', h, .inl ((congrArg Frame.dynamic (frame_ensureCapacity h)).trans hm)⟩
  · refine ⟨false, c, ?_, .inr hcap⟩
    unfold KVCache.ensureCapacity
    exact if_pos (hn.trans hcap)

theorem Plain.makeRoom (hc : c.Plain) {n : ℕ} (hn : c.currentPos + n ≤ c.maxSeqLen) :
    ∃ c', c.makeRoom n = .ok c' ∧ (c'.memory.isSome = true ∨ c'.maxSeqLen ≤ c'.capacity) := by
  unfold KVCache.makeRoom
  split_ifs with h₁ h₂
  · omega
  · rcases hc.room with hm | hcap
    · obtain ⟨c', h⟩ := grow_ok hc.wf hm (c.currentPos + n)
      exact ⟨c', h, .inl ((congrArg Frame.dynamic (frame_grow h)).trans hm)⟩
    · omega
  · exact ⟨c, rfl, hc.room⟩

/-- **`update` appends its tokens.** -/
theorem tokens_update (hc : c.Plain) {newK newV : Tensor}
    (hin : c.Input newK newV (newK.shape.getD 1 0))
    (hn : c.currentPos + newK.shape.getD 1 0 ≤ c.maxSeqLen) :
    Becomes c (c.update P newK newV).2 (c.tokens ++ inputTokens P c newK newV) := by
  obtain ⟨c₁, hroom, hcap⟩ := hc.makeRoom hn
  have hk := (keeps_makeRoom hc.wf hroom).1
  have ho : c₁.isOpaque = false :=
    (isOpaque_of_format (congrArg Frame.format hk.frame)).trans hc.isOpaque
  obtain ⟨c', hok, hsame⟩ : ∃ c', c.update P newK newV = (.ok (), c') ∧
      (c'.memory.isSome = true ∨ c'.maxSeqLen ≤ c'.capacity) := by
    unfold KVCache.update
    simp only [hroom, ho, Bool.false_eq_true, if_false]
    exact ⟨_, rfl, hcap⟩
  have hA := appends_update hc.wf hin hok
  have hfmt : c'.format = c.format := congrArg Frame.format hA.frame
  have hpos : c'.currentPos = c.currentPos + newK.shape.getD 1 0 :=
    congrArg Frame.currentPos hA.frame
  have hheads : c'.kvHeads = c.kvHeads := congrArg Format.kvHeads hfmt
  rw [hok]
  refine ⟨hc.of_format hA.wf hfmt (congrArg Frame.headStart hA.frame) hsame, hfmt,
    congrArg Frame.maxSeqLen hA.frame, ?_⟩
  rw [tokens_eq hA.wf, tokens_eq hc.wf, inputTokens, hpos, hheads, List.range_add,
    List.map_append, List.map_map]
  congr 1
  · refine List.map_congr_left fun p hp => ?_
    funext x h
    refine if_ctx_congr Iff.rfl (fun hh => ?_) fun _ => rfl
    refine hA.old x h hh p ?_ (List.mem_range.mp hp)
    rw [headStartOf_eq_zero hc.uniform]
    exact Nat.zero_le _
  · refine List.map_congr_left fun s hs => ?_
    funext x h
    exact if_ctx_congr Iff.rfl (fun hh => hA.new x h hh s (List.mem_range.mp hs)) fun _ => rfl

theorem Geometry.headStart_released (g : Geometry) : g.released.headStart = g.headStart := by
  unfold released
  split_ifs <;> rfl

theorem Geometry.released_of_fixed {g : Geometry} (h : g.allocator = none) : g.released = g := by
  unfold released
  exact if_neg fun hc => by simp [h] at hc

/-- A prune of a uniform cache leaves it uniform, and of the same capacity where it cannot grow. -/
theorem uniform_prunePrefix (hc : c.Plain) {n : ℕ} (h : c.prunePrefix P n = .ok c') :
    c'.isRagged = false ∧ (c.memory = none → c'.capacity = c.capacity) := by
  have hg := geometry_prunePrefix hc.wf.stored h
  have huni := hc.uniform
  have hfixed : c.memory = none → c.geometry.allocator = none := fun hm => by simp [geometry, hm]
  simp only [hc.uniform, Bool.false_eq_true, if_false] at hg
  split_ifs at hg
  · refine ⟨?_, fun _ => congrArg Geometry.capacity hg⟩
    unfold isRagged at huni ⊢
    rw [show c'.headStart = c.headStart from congrArg Geometry.headStart hg, huni]
  · refine ⟨?_, fun _ => congrArg Geometry.capacity hg⟩
    unfold isRagged
    rw [show c'.headStart = [] from congrArg Geometry.headStart hg]
    rfl
  · refine ⟨?_, fun hm => ?_⟩
    · unfold isRagged at huni ⊢
      rw [show c'.headStart = c.headStart from
        (congrArg Geometry.headStart hg).trans (Geometry.headStart_released _), huni]
    · exact congrArg Geometry.capacity (hg.trans (Geometry.released_of_fixed (hfixed hm)))

/-- **`prune_prefix` drops tokens.** -/
theorem tokens_prunePrefix (hc : c.Plain) {n : ℕ} (hn : n ≤ c.currentPos) :
    ∃ c', c.prunePrefix P n = .ok c' ∧ Becomes c c' (c.tokens.drop n) := by
  obtain ⟨c', hok, hp⟩ := prunes_prunePrefix (P := P) hc.wf hn
  have hheads : c'.kvHeads = c.kvHeads := congrArg Format.kvHeads hp.format
  have hzero : ∀ h, h < c.kvHeads → c'.headStartOf h = 0 := by
    intro h hh
    rw [hp.starts h hh, headStartOf_eq_zero hc.uniform, Nat.zero_sub]
  refine ⟨c', hok, ⟨⟨hp.wf, (congrArg Format.layout hp.format).trans hc.headMajor, ?_, ?_, ?_⟩,
    hp.format, hp.maxSeqLen, ?_⟩⟩
  · rw [show c'.kvDtype = c.kvDtype from congrArg Format.dtype hp.format]
    exact hc.float
  · exact (uniform_prunePrefix hc hok).1
  · rw [hp.memory, hp.maxSeqLen]
    cases hm : c.memory with
    | some m => exact .inl rfl
    | none =>
      rw [(uniform_prunePrefix hc hok).2 hm]
      exact .inr (hc.room.resolve_left (by simp [hm]))
  · refine tokens_eq_of_rows hp.wf (by simp [length_tokens, hp.pos]) (fun x h hh p hlt => ?_)
      fun t ht x h hh => ?_
    · have hlt' : p < c'.currentPos := by
        rw [hp.pos]
        simpa [length_tokens] using hlt
      rw [List.getElem_drop, getElem_tokens hc.wf _ x (hheads ▸ hh),
        hp.rows x h (hheads ▸ hh) p (by rw [hzero h (hheads ▸ hh)]; exact Nat.zero_le _) hlt',
        Nat.add_comm]
    · exact tokens_out (List.mem_of_mem_drop ht) x (hheads ▸ hh)

end Tokens

end KVCache

/-! ## Recalled blocks -/

namespace SwapHandler

/-- The files of `rec` hold the tokens `b` of a cache shaped like `c`. -/
structure Backs (disk : Disk) (c : KVCache) (rec : SwapRecord) (b : List Token) : Prop where
  count : rec.tokenCount = b.length
  fits : Fits c rec
  out : ∀ t ∈ b, ∀ x h, ¬ h < c.kvHeads → t x h = []
  dump : ∃ dump, Readable disk rec dump ∧ ∀ x, ∀ h < c.kvHeads, ∀ p (hp : p < b.length),
    rows c.rowBytes (dump x) (h * b.length + p) = b[p] x h

section Backs

variable {c c' : KVCache} {rec : SwapRecord} {b : List Token} {disk disk' : Disk}

theorem Backs.of_format (h : Backs disk c rec b) (hf : c'.format = c.format) :
    Backs disk c' rec b := by
  have hrow := rowBytes_of_format hf
  simp only [format, Format.mk.injEq] at hf
  obtain ⟨hdt, -, hheads, hdim, -⟩ := hf
  refine ⟨h.count, ⟨hdim.trans h.fits.1, hheads.trans h.fits.2.1, hdt.trans h.fits.2.2⟩, ?_, ?_⟩
  · rw [hheads]; exact h.out
  · rw [hheads, hrow]; exact h.dump

theorem Backs.of_files (h : Backs disk c rec b) (hk : disk'.files rec.kPath = disk.files rec.kPath)
    (hv : disk'.files rec.vPath = disk.files rec.vPath) : Backs disk' c rec b := by
  obtain ⟨dump, ⟨h₁, h₂, h₃⟩, hrows⟩ := h.dump
  exact ⟨h.count, h.fits, h.out, dump, ⟨hk.trans h₁, hv.trans h₂, h₃⟩, hrows⟩

/-- **A recall puts the block in front.** -/
theorem tokens_recallOne (hc : c.Plain) (hb : Backs disk c rec b)
    (hn : c.currentPos + b.length ≤ c.maxSeqLen) :
    Becomes c (recallOne disk c rec).2 (b ++ c.tokens) := by
  obtain ⟨hcount, hfit, hout, dump, hread, hrows⟩ := hb
  have hcap := hc.wf.cap
  obtain ⟨r, c₁, hroom, hroom₁⟩ : ∃ r c₁, recallRoom c rec.tokenCount = .ok (r, c₁) ∧
      (c₁.memory.isSome = true ∨ c₁.maxSeqLen ≤ c₁.capacity) := by
    unfold recallRoom
    split_ifs
    · exact hc.ensureCapacity (hcount ▸ hn)
    · exact ⟨false, c, rfl, hc.room⟩
  obtain ⟨hk, hle⟩ := keeps_recallRoom hc.wf hroom
  obtain ⟨c₂, hshift, hS, hg₂⟩ := shifted_recallShift hc.headMajor hk hle
  have hfmt₂ : c₂.format = c.format := congrArg Frame.format hS.frame
  have hpos₂ : c₂.currentPos = c.currentPos := congrArg Frame.currentPos hS.frame
  have hdt₂ : c₂.kvDtype = c.kvDtype := congrArg Format.dtype hfmt₂
  have hheads₂ : c₂.kvHeads = c.kvHeads := congrArg Format.kvHeads hfmt₂
  have hfit₂ : Fits c₂ rec := ⟨(congrArg Format.headDim hfmt₂).trans hfit.1, hheads₂.trans hfit.2.1,
    hdt₂.trans hfit.2.2⟩
  have hfl₂ : c₂.kvDtype = .f16 ∨ c₂.kvDtype = .f32 := hdt₂ ▸ hc.float
  obtain ⟨c', hload, hL⟩ :=
    loads_loadRecord hS.wf ((congrArg Format.layout hfmt₂).trans hc.headMajor)
      hfit₂ hfl₂ (by rw [hpos₂]; exact hS.room)
        hread.1 hread.2.1 (hread.length_eq hS.wf.stored hfit₂ hfl₂)
  have hfmt : c'.format = c.format := (congrArg Frame.format hL.frame).trans hfmt₂
  have hheads : c'.kvHeads = c.kvHeads := congrArg Format.kvHeads hfmt
  have hpos : c'.currentPos = c.currentPos + b.length := by
    rw [show c'.currentPos = c₂.currentPos + rec.tokenCount from congrArg Frame.currentPos hL.frame,
      hpos₂, hcount]
  have hroom' : c'.memory.isSome = true ∨ c'.maxSeqLen ≤ c'.capacity := by
    obtain ⟨-, -, hmax, -, hcap₂, hmem⟩ := frame_eq hg₂
    have hmax' : c'.maxSeqLen = c₂.maxSeqLen := congrArg Geometry.maxSeqLen hL.geometry
    have hcap' : c'.capacity = c₂.capacity := congrArg Geometry.capacity hL.geometry
    have hmem' : c'.memory.isSome = c₂.memory.isSome := congrArg Frame.dynamic hL.frame
    rw [hmax', hcap', hmem', hmax, hcap₂, hmem]
    exact hroom₁
  rw [recallOne_of_fits hc.headMajor hfit, hroom]
  simp only [hshift, hload]
  refine ⟨hc.of_format hL.wf hfmt
    ((congrArg Frame.headStart hL.frame).trans (congrArg Frame.headStart hS.frame)) hroom', hfmt,
    (congrArg Frame.maxSeqLen hL.frame).trans (congrArg Frame.maxSeqLen hS.frame), ?_⟩
  refine tokens_eq_of_rows hL.wf (by simp [length_tokens, hpos, Nat.add_comm])
    (fun x h hh p hp => ?_) fun t ht x h hh => ?_
  · rw [hheads] at hh
    have hlen : p < c.currentPos + b.length := by simpa [length_tokens, Nat.add_comm] using hp
    have hroom₂ := hS.room
    rw [hL.rows x h (hheads₂ ▸ hh) p (by omega), hcount]
    split_ifs with hlt
    · rw [rowBytes_of_format hfmt₂, hrows x h hh p hlt, List.getElem_append_left hlt]
    · obtain ⟨q, rfl⟩ := Nat.exists_eq_add_of_le (Nat.not_lt.mp hlt)
      have hstart : c.headStartOf h ≤ q := by
        rw [headStartOf_eq_zero hc.uniform]
        exact Nat.zero_le _
      have hhigh := hS.high x h hh q hstart (by omega)
      rw [hcount, Nat.add_comm] at hhigh
      rw [hhigh, List.getElem_append_right (Nat.le_add_right _ _), getElem_tokens hc.wf _ x hh]
      congr 1
      omega
  · rw [hheads] at hh
    rcases List.mem_append.mp ht with ht | ht
    · exact hout t ht x h hh
    · exact tokens_out ht x hh

end Backs

/-! ## The ledger -/

/-- A swap directory that takes every write. -/
def Ready (s : SwapHandler) : Prop :=
  s.swapDir.isSome = true ∧ s.disk.dirOk = true ∧ ∀ path, s.disk.writeOk path = true

/-- Both files of a record carry its own sequence number, drawn before now. -/
structure Numbered (s : SwapHandler) : Prop where
  vPath : ∀ rec ∈ s.records, rec.vPath.seq = rec.kPath.seq
  lt : ∀ rec ∈ s.records, rec.kPath.seq < s.nextSeq
  nodup : (s.records.map fun rec => rec.kPath.seq).Nodup

/-- The record of a dump of the first `n` tokens of `c`. -/
def dumpRecord (s : SwapHandler) (layerIdx : ℕ) (c : KVCache) (n : ℕ) : SwapRecord :=
  ⟨layerIdx, n, ⟨layerIdx, s.nextSeq, n, .key⟩, ⟨layerIdx, s.nextSeq, n, .value⟩, c.kvDtype,
    n * c.headDim * c.kvDtype.size, c.kvHeads, c.headDim⟩

/-- The handler after the dump, before the prune. -/
def dumped (s : SwapHandler) (layerIdx : ℕ) (c : KVCache) (n : ℕ) : SwapHandler :=
  let r := s.dumpRecord layerIdx c n
  { s with
    nextSeq := s.nextSeq + 1
    disk := (s.disk.write r.kPath (dumpPrefix c c.kBuffer n)).write r.vPath
      (dumpPrefix c c.vBuffer n)
    records := s.records ++ [r] }

section Ledger

variable {P : Platform} {s : SwapHandler} {c : KVCache} {layerIdx n : ℕ}

theorem pruneOnly_swap (s : SwapHandler) (c : KVCache) (n : ℕ) : (s.pruneOnly P c n).2.1 = s := by
  unfold pruneOnly
  split <;> rfl

/-- **An offload with a ready disk** either leaves the handler alone or registers its dump. -/
theorem offloadPrefix_swap (hs : Ready s) (layerIdx : ℕ) (c : KVCache) (n : ℕ) :
    (s.offloadPrefix P layerIdx c n).2.1 = s ∨
    (s.offloadPrefix P layerIdx c n).2.1 = s.dumped layerIdx c n := by
  obtain ⟨hdir, hok, hw⟩ := hs
  unfold offloadPrefix
  simp only [hok, hw, Bool.not_true, Bool.false_eq_true, if_false]
  split_ifs
  · exact .inl rfl
  · exact .inl (pruneOnly_swap ..)
  · exact .inl (pruneOnly_swap ..)
  · exact .inl (pruneOnly_swap ..)
  · exact .inr (pruneOnly_swap ..)

theorem offloadPrefix_eq (hs : Ready s) (hl : c.layout = .headMajor)
    (hf : c.kvDtype = .f16 ∨ c.kvDtype = .f32) (h0 : 0 < n) (hn : n < c.currentPos) :
    s.offloadPrefix P layerIdx c n = (s.dumped layerIdx c n).pruneOnly P c n := by
  obtain ⟨hdir, hok, hw⟩ := hs
  have hfl : ¬ (c.kvDtype ≠ .f32 ∧ c.kvDtype ≠ .f16) := fun h => hf.elim h.2 h.1
  unfold offloadPrefix
  simp only [hok, hw, Bool.not_true, Bool.false_eq_true, if_false]
  rw [if_neg (by omega), if_neg (by simpa using Option.isSome_iff_ne_none.mp hdir), if_neg hfl,
    if_neg (not_not.mpr hl)]
  rfl

theorem Ready.dumped (hs : Ready s) (layerIdx : ℕ) (c : KVCache) (n : ℕ) :
    Ready (s.dumped layerIdx c n) := hs

theorem Numbered.dumped (hs : Numbered s) (layerIdx : ℕ) (c : KVCache) (n : ℕ) :
    Numbered (s.dumped layerIdx c n) := by
  refine ⟨fun rec hrec => ?_, fun rec hrec => ?_, ?_⟩
  · rcases List.mem_append.mp hrec with h | h
    · exact hs.vPath rec h
    · rw [List.mem_singleton.mp h]; rfl
  · rcases List.mem_append.mp hrec with h | h
    · exact (hs.lt rec h).trans (Nat.lt_succ_self _)
    · rw [List.mem_singleton.mp h]; exact Nat.lt_succ_self _
  · simp only [SwapHandler.dumped, List.map_append, List.map_cons, List.map_nil]
    refine List.nodup_append.mpr ⟨hs.nodup, List.nodup_singleton _, fun a ha b hb => ?_⟩
    obtain ⟨rec, hrec, rfl⟩ := List.mem_map.mp ha
    rw [List.mem_singleton.mp hb]
    exact (hs.lt rec hrec).ne

theorem files_dumped {path : SwapPath} (h : path.seq < s.nextSeq) :
    (s.dumped layerIdx c n).disk.files path = s.disk.files path := by
  have hne : ∀ half, path ≠ ⟨layerIdx, s.nextSeq, n, half⟩ := by
    rintro half rfl
    exact absurd h (Nat.lt_irrefl _)
  simp only [SwapHandler.dumped, dumpRecord, Disk.write]
  rw [Function.update_of_ne (hne _), Function.update_of_ne (hne _)]

theorem readable_dumped (s : SwapHandler) (layerIdx : ℕ) (hc : c.WF)
    (hf : c.kvDtype = .f16 ∨ c.kvDtype = .f32) (hn : n ≤ c.capacity) :
    Readable (s.dumped layerIdx c n).disk (s.dumpRecord layerIdx c n) fun x =>
      dumpPrefix c (c.buffer x) n := by
  refine ⟨?_, ?_, fun x => ?_⟩
  · simp only [SwapHandler.dumped, dumpRecord, Disk.write]
    rw [Function.update_of_ne (by simp), Function.update_self]
    rfl
  · simp only [SwapHandler.dumped, dumpRecord, Disk.write]
    rw [Function.update_self]
    rfl
  · rw [length_dumpPrefix hc.stored hf (hc.size x) hn, rowBytes_of_float hc.stored hf]
    simp only [dumpRecord]
    ring

theorem backs_dumped (hc : c.Plain) (hn : n < c.currentPos) :
    Backs (s.dumped layerIdx c n).disk c (s.dumpRecord layerIdx c n) (c.tokens.take n) := by
  have hle : n ≤ c.capacity := hn.le.trans hc.wf.pos
  have hlen : (c.tokens.take n).length = n := by simp [length_tokens]; omega
  refine ⟨hlen.symm, ⟨rfl, rfl, rfl⟩, fun t ht x h hh => tokens_out (List.mem_of_mem_take ht) x hh,
    fun x => dumpPrefix c (c.buffer x) n, readable_dumped s layerIdx hc.wf hc.float hle,
    fun x h hh p hp => ?_⟩
  have hp' : p < n := hlen ▸ hp
  rw [hlen, rows_dumpPrefix hc.wf.stored hc.headMajor hc.float (hc.wf.size x) hle hh hp',
    List.getElem_take, getElem_tokens hc.wf _ x hh]
  rfl

end Ledger

end SwapHandler

/-! ## Runs -/

/-- The cache of one layer and the swap handler that all layers share. -/
structure Swapping where
  cache : KVCache
  swap : SwapHandler

/-- What happens between two recalls: appends, offloads of the layer, offloads of other layers. -/
inductive SwapOp where
  | update (newK newV : Tensor)
  | offload (count : ℕ)
  | elsewhere (layerIdx : ℕ) (cache : KVCache) (count : ℕ)

namespace SwapOp

variable (P : Platform) (layerIdx : ℕ)

def apply : SwapOp → Swapping → Swapping
  | update newK newV, w => { w with cache := (w.cache.update P newK newV).2 }
  | offload count, w =>
    let r := w.swap.offloadPrefix P layerIdx w.cache count
    ⟨r.2.2, r.2.1⟩
  | elsewhere other cache count, w =>
    { w with swap := (w.swap.offloadPrefix P other cache count).2.1 }

/-- The operation on the tokens of the layer; `c` says how an input row is stored. -/
def spec (c : KVCache) : SwapOp → Cut Token → Cut Token
  | update newK newV, t => t.append (inputTokens P c newK newV)
  | offload count, t => t.take count
  | elsewhere _ _ _, t => t

/-- The tokens the operation appends. -/
def added (c : KVCache) : SwapOp → List Token
  | update newK newV => inputTokens P c newK newV
  | _ => []

/-- What the callers pass: tensors in the cache's type; `elsewhere` is another layer. -/
def Admissible (c : KVCache) : SwapOp → Prop
  | update newK newV => c.Input newK newV (newK.shape.getD 1 0)
  | offload _ => True
  | elsewhere other _ _ => other ≠ layerIdx

end SwapOp

/-- The outstanding records of a layer, oldest first. -/
def SwapHandler.outstanding (s : SwapHandler) (layerIdx : ℕ) : List SwapRecord :=
  s.records.filter fun r => r.layerIdx = layerIdx

/-- The layer holds `t`: what is left is resident, and each block has its record, in order. -/
structure Held (c₀ : KVCache) (layerIdx : ℕ) (w : Swapping) (t : Cut Token) : Prop where
  plain : w.cache.Plain
  format : w.cache.format = c₀.format
  maxSeqLen : w.cache.maxSeqLen = c₀.maxSeqLen
  tokens : w.cache.tokens = t.rest
  ready : w.swap.Ready
  numbered : w.swap.Numbered
  backed : List.Forall₂ (SwapHandler.Backs w.swap.disk w.cache) (w.swap.outstanding layerIdx) t.off

section Runs

variable {P : Platform} {c₀ : KVCache} {layerIdx : ℕ} {w : Swapping} {t : Cut Token}

theorem Held.becomes (h : Held c₀ layerIdx w t) {c : KVCache} {l : List Token}
    (hb : Becomes w.cache c l) : Held c₀ layerIdx { w with cache := c } ⟨t.off, l⟩ :=
  ⟨hb.plain, hb.format.trans h.format, hb.maxSeqLen.trans h.maxSeqLen, hb.tokens,
    h.ready, h.numbered, h.backed.imp fun _ _ hbk => hbk.of_format hb.format⟩

theorem Held.dumped (h : Held c₀ layerIdx w t) (other : ℕ) (c : KVCache) (n : ℕ) :
    (w.swap.dumped other c n).Ready ∧ (w.swap.dumped other c n).Numbered ∧
    List.Forall₂ (SwapHandler.Backs (w.swap.dumped other c n).disk w.cache)
      (w.swap.outstanding layerIdx) t.off := by
  refine ⟨h.ready.dumped other c n, h.numbered.dumped other c n, ?_⟩
  refine ((List.forall₂_and_left _ _).mpr ⟨fun rec hrec => hrec, h.backed⟩).imp fun rec b hb => ?_
  have hmem : rec ∈ w.swap.records := List.mem_of_mem_filter hb.1
  have hlt := h.numbered.lt rec hmem
  exact hb.2.of_files (SwapHandler.files_dumped hlt)
    (SwapHandler.files_dumped (h.numbered.vPath rec hmem ▸ hlt))

/-- **One operation** follows its specification on the tokens. -/
theorem held_apply (op : SwapOp) (h : Held c₀ layerIdx w t) (hadm : op.Admissible layerIdx c₀)
    (hfit : t.rest.length + (op.added P c₀).length ≤ c₀.maxSeqLen) :
    Held c₀ layerIdx (op.apply P layerIdx w) (op.spec P c₀ t) := by
  have hlen : w.cache.currentPos = t.rest.length := by rw [← h.tokens, length_tokens]
  have hheads : w.cache.kvHeads = c₀.kvHeads := congrArg Format.kvHeads h.format
  cases op with
  | update newK newV =>
    have hin : inputTokens P w.cache newK newV = inputTokens P c₀ newK newV := by
      unfold inputTokens
      rw [hheads]
      simp only [inputRow_of_format P h.format]
    have hb := tokens_update (P := P) h.plain (hadm.of_format h.format) (by
      rw [hlen, h.maxSeqLen]
      simpa [SwapOp.added, inputTokens] using hfit)
    rw [h.tokens, hin] at hb
    exact h.becomes hb
  | offload count =>
    simp only [SwapOp.apply, SwapOp.spec, Cut.take]
    by_cases hn : 0 < count ∧ count < t.rest.length
    · rw [if_pos hn]
      have hlt : count < w.cache.currentPos := hlen ▸ hn.2
      obtain ⟨c', hok, hb⟩ := tokens_prunePrefix (P := P) h.plain hlt.le
      obtain ⟨hr, hnum, hbk⟩ := h.dumped layerIdx w.cache count
      rw [SwapHandler.offloadPrefix_eq h.ready h.plain.headMajor h.plain.float hn.1 hlt,
        SwapHandler.pruneOnly, hok]
      rw [h.tokens] at hb
      have hout : (w.swap.dumped layerIdx w.cache count).outstanding layerIdx =
          w.swap.outstanding layerIdx ++ [w.swap.dumpRecord layerIdx w.cache count] := by
        simp [SwapHandler.outstanding, SwapHandler.dumped, SwapHandler.dumpRecord]
      refine ⟨hb.plain, hb.format.trans h.format, hb.maxSeqLen.trans h.maxSeqLen,
        hb.tokens, hr, hnum, ?_⟩
      simp only
      rw [hout]
      refine List.rel_append ?_ (.cons ?_ .nil)
      · exact hbk.imp fun _ _ hbk => hbk.of_format hb.format
      · have hdump : SwapHandler.Backs (w.swap.dumped layerIdx w.cache count).disk w.cache
            (w.swap.dumpRecord layerIdx w.cache count) (w.cache.tokens.take count) :=
          SwapHandler.backs_dumped h.plain hlt
        rw [h.tokens] at hdump
        exact hdump.of_format hb.format
    · rw [if_neg hn, SwapHandler.offloadPrefix, if_pos (by omega)]
      exact h
  | elsewhere other c n =>
    simp only [SwapOp.apply, SwapOp.spec]
    rcases SwapHandler.offloadPrefix_swap (P := P) h.ready other c n with he | he
    · rw [he]; exact h
    · obtain ⟨hr, hnum, hbk⟩ := h.dumped other c n
      rw [he]
      refine ⟨h.plain, h.format, h.maxSeqLen, h.tokens, hr, hnum, ?_⟩
      have hother : other ≠ layerIdx := hadm
      have hout : (w.swap.dumped other c n).outstanding layerIdx = w.swap.outstanding layerIdx := by
        simp [SwapHandler.outstanding, SwapHandler.dumped, SwapHandler.dumpRecord, hother]
      simp only
      rw [hout]
      exact hbk

/-! ## Recalls -/

theorem filter_eraseP {α : Type*} (p : α → Bool) (l : List α) :
    (l.eraseP p).filter p = (l.filter p).tail := by
  induction l with
  | nil => rfl
  | cons a l ih =>
    by_cases h : p a = true
    · rw [List.eraseP_cons_of_pos h, List.filter_cons_of_pos h, List.tail_cons]
    · rw [List.eraseP_cons_of_neg h, List.filter_cons_of_neg h, List.filter_cons_of_neg h, ih]

theorem SwapHandler.Backs.remove {disk : Disk} {c : KVCache} {r rec : SwapRecord} {b : List Token}
    (h : SwapHandler.Backs disk c r b) (hr : r.vPath.seq = r.kPath.seq)
    (hrec : rec.vPath.seq = rec.kPath.seq) (hne : r.kPath.seq ≠ rec.kPath.seq) :
    SwapHandler.Backs ((disk.remove rec.kPath).remove rec.vPath) c r b := by
  have hfiles : ∀ path : SwapPath, path.seq = r.kPath.seq →
      ((disk.remove rec.kPath).remove rec.vPath).files path = disk.files path := by
    intro path hp
    have hk : path ≠ rec.kPath := fun he => hne (hp.symm.trans (congrArg SwapPath.seq he))
    have hv : path ≠ rec.vPath := fun he =>
      hne (hp.symm.trans ((congrArg SwapPath.seq he).trans hrec))
    simp only [Disk.remove]
    rw [Function.update_of_ne hv, Function.update_of_ne hk]
  exact h.of_files (hfiles _ rfl) (hfiles _ hr)

/-- One `recall_layer`. -/
def Swapping.recallLayer (layerIdx : ℕ) (w : Swapping) : Swapping :=
  let r := w.swap.recallLayer layerIdx w.cache
  ⟨r.2.2, r.2.1⟩

/-- `recall_layer` once for every outstanding record of the layer. -/
def Swapping.recallAll (layerIdx : ℕ) (w : Swapping) : Swapping :=
  (Swapping.recallLayer layerIdx)^[(w.swap.outstanding layerIdx).length] w

/-- **`recall_layer` puts the oldest block back in front.** -/
theorem held_recall (h : Held c₀ layerIdx w t) (hfit : t.whole.length ≤ c₀.maxSeqLen) :
    Held c₀ layerIdx (w.recallLayer layerIdx) t.putBack := by
  have hfind : w.swap.records.find? (fun r => r.layerIdx = layerIdx) =
    (w.swap.outstanding layerIdx).head? :=
    (List.head?_filter ..).symm
  have herase : (w.swap.records.eraseP fun r => r.layerIdx = layerIdx).filter (fun r =>
    r.layerIdx = layerIdx) =
      (w.swap.outstanding layerIdx).tail := filter_eraseP _ _
  have hbacked := h.backed
  have hrest := h.tokens
  unfold Swapping.recallLayer SwapHandler.recallLayer
  rw [hfind]
  obtain ⟨off, rest⟩ := t
  cases hout : w.swap.outstanding layerIdx with
  | nil =>
    rw [hout] at hbacked
    cases hbacked
    exact h
  | cons rec recs =>
    rw [hout] at hbacked herase
    cases hbacked with
    | @cons _ b _ bs hb hbs =>
    have hsub : (rec :: recs).Sublist w.swap.records := hout ▸ List.filter_sublist
    have hnd : ((rec :: recs).map fun r => r.kPath.seq).Nodup := (hsub.map _).nodup h.numbered.nodup
    have hmem : ∀ r ∈ rec :: recs, r.vPath.seq = r.kPath.seq := fun r hr =>
      h.numbered.vPath r (hsub.subset hr)
    have hpos : w.cache.currentPos = rest.length := by rw [← length_tokens, hrest]
    have hB := SwapHandler.tokens_recallOne h.plain hb (by
      rw [hpos, h.maxSeqLen]
      simp only [Cut.whole, List.flatten_cons, List.length_append] at hfit
      omega)
    rw [hrest] at hB
    have hse : (w.swap.records.eraseP fun r => r.layerIdx = layerIdx).Sublist w.swap.records :=
      List.eraseP_sublist
    refine ⟨hB.plain, hB.format.trans h.format, hB.maxSeqLen.trans h.maxSeqLen, hB.tokens, h.ready,
      ⟨fun r hr => h.numbered.vPath r (hse.subset hr), fun r hr => h.numbered.lt r (hse.subset hr),
        (hse.map _).nodup h.numbered.nodup⟩, ?_⟩
    simp only [SwapHandler.outstanding, Cut.putBack, List.head?_cons]
    rw [herase]
    refine ((List.forall₂_and_left _ _).mpr ⟨fun r hr => hr, hbs⟩).imp fun r b' hr => ?_
    refine (hr.2.remove (hmem r (List.mem_cons_of_mem _ hr.1)) (hmem rec List.mem_cons_self)
      fun he => ?_).of_format hB.format
    exact (List.nodup_cons.mp hnd).1 (List.mem_map.mpr ⟨r, hr.1, he⟩)

theorem held_recallAll (h : Held c₀ layerIdx w t) (hfit : t.whole.length ≤ c₀.maxSeqLen) :
    Held c₀ layerIdx (w.recallAll layerIdx) ⟨[], t.off.reverse.flatten ++ t.rest⟩ := by
  have hn : ∀ n, Held c₀ layerIdx ((Swapping.recallLayer layerIdx)^[n] w) (Cut.putBack^[n] t) ∧
      (Cut.putBack^[n] t).whole.length = t.whole.length := by
    intro n
    induction n with
    | zero => exact ⟨h, rfl⟩
    | succ n ih =>
      rw [Function.iterate_succ_apply', Function.iterate_succ_apply']
      exact ⟨held_recall ih.1 (ih.2.trans_le hfit), (Cut.length_whole_putBack _).trans ih.2⟩
  unfold Swapping.recallAll
  rw [h.backed.length_eq, ← Cut.putBack_off]
  exact (hn _).1

/-- **`recall_caches` puts the blocks of every layer back, oldest first.** -/
theorem becomes_recallRecords (recs : List SwapRecord) :
    ∀ (disk : Disk) (caches : List KVCache) (c : KVCache) (off : List (List Token)),
    caches[layerIdx]? = some c → c.Plain → (∀ r ∈ recs, r.vPath.seq = r.kPath.seq) →
    (recs.map fun r => r.kPath.seq).Nodup → List.Forall₂ (SwapHandler.Backs disk c)
    (recs.filter fun r => r.layerIdx = layerIdx) off →
    off.flatten.length + c.currentPos ≤ c.maxSeqLen → ∃ c',
    (SwapHandler.recallRecords recs disk caches).2.2[layerIdx]? = some c' ∧
      Becomes c c' (off.reverse.flatten ++ c.tokens) := by
  induction recs with
  | nil =>
    intro disk caches c off hc hp hv hnd hbk hfit
    cases hbk
    exact ⟨c, hc, hp, rfl, rfl, rfl⟩
  | cons rec recs ih =>
    intro disk caches c off hc hp hv hnd hbk hfit
    have hv' : ∀ r ∈ recs, r.vPath.seq = r.kPath.seq := fun r hr => hv r (List.mem_cons_of_mem _ hr)
    obtain ⟨hnotin, hnd'⟩ := List.nodup_cons.mp hnd
    have hremove : ∀ {c : KVCache} {off : List (List Token)},
        List.Forall₂ (SwapHandler.Backs disk c) (recs.filter fun r => r.layerIdx = layerIdx) off →
        List.Forall₂ (SwapHandler.Backs ((disk.remove rec.kPath).remove rec.vPath) c)
          (recs.filter fun r => r.layerIdx = layerIdx) off := by
      intro c off hbk
      refine ((List.forall₂_and_left _ _).mpr ⟨fun r hr => hr, hbk⟩).imp fun r b hr => ?_
      have hmem : r ∈ recs := List.mem_of_mem_filter hr.1
      exact hr.2.remove (hv' r hmem) (hv rec List.mem_cons_self) fun he =>
        hnotin (List.mem_map.mpr ⟨r, hmem, he⟩)
    unfold SwapHandler.recallRecords
    by_cases hl : rec.layerIdx = layerIdx
    · rw [List.filter_cons_of_pos (by simpa using hl)] at hbk
      cases hbk with
      | @cons _ b _ bs hb hbs =>
      simp only [List.flatten_cons, List.length_append] at hfit
      have hB := SwapHandler.tokens_recallOne hp hb (by omega)
      have hpos : (SwapHandler.recallOne disk c rec).2.currentPos = b.length + c.currentPos := by
        rw [← length_tokens, hB.tokens, List.length_append, length_tokens]
      have hlt : layerIdx < caches.length := (List.getElem?_eq_some_iff.mp hc).1
      obtain ⟨c', hc', hB'⟩ := ih ((disk.remove rec.kPath).remove rec.vPath)
        (caches.set layerIdx (SwapHandler.recallOne disk c rec).2) _ bs (List.getElem?_set_self hlt)
          hB.plain hv' hnd'
        ((hremove hbs).imp fun _ _ h => h.of_format hB.format) (by rw [hpos, hB.maxSeqLen]; omega)
      rw [hl]
      simp only [hc]
      refine ⟨c', hc', hB'.plain, hB'.format.trans hB.format, hB'.maxSeqLen.trans hB.maxSeqLen, ?_⟩
      rw [hB'.tokens, hB.tokens]
      simp [List.append_assoc]
    · rw [List.filter_cons_of_neg (by simpa using hl)] at hbk
      cases hother : caches[rec.layerIdx]? with
      | none => exact ih disk caches c off hc hp hv' hnd' hbk hfit
      | some d =>
        refine ih _ _ c off ?_ hp hv' hnd' (hremove hbk) hfit
        rw [List.getElem?_set_ne hl]
        exact hc

end Runs

/-! ## When the tokens are back in order -/

namespace SwapOp

variable (P : Platform)

def run (layerIdx : ℕ) (ops : List SwapOp) (w : Swapping) : Swapping :=
  ops.foldl (fun w op => op.apply P layerIdx w) w

/-- The blocks the offloads cut off and what they leave, on the tokens of `c` and of the appends. -/
def cut (c : KVCache) (ops : List SwapOp) : Cut Token :=
  ops.foldl (fun t op => op.spec P c t) ⟨[], c.tokens⟩

/-- The original tokens followed by the appended ones. -/
def history (c : KVCache) (ops : List SwapOp) : List Token := c.tokens ++ ops.flatMap (added P c)

variable {P}

theorem whole_spec (c : KVCache) (op : SwapOp) (t : Cut Token) :
    (op.spec P c t).whole = t.whole ++ op.added P c := by
  cases op with
  | update newK newV => exact t.whole_append _
  | offload count => exact (t.whole_take count).trans (List.append_nil _).symm
  | elsewhere other cache count => exact (List.append_nil _).symm

theorem proper_spec {c : KVCache} (op : SwapOp) {t : Cut Token} (h : t.Proper) :
    (op.spec P c t).Proper := by
  cases op with
  | update newK newV => exact h
  | offload count => exact h.take count
  | elsewhere other cache count => exact h

/-- **A run keeps the layer held**, by induction on the operations. -/
theorem held_run {c₀ : KVCache} {layerIdx : ℕ} (ops : List SwapOp) :
    ∀ {w : Swapping} {t : Cut Token}, Held c₀ layerIdx w t →
    (∀ op ∈ ops, op.Admissible layerIdx c₀) →
    (t.whole ++ ops.flatMap (added P c₀)).length ≤ c₀.maxSeqLen →
    Held c₀ layerIdx (run P layerIdx ops w) (ops.foldl (fun t op => op.spec P c₀ t) t) := by
  induction ops with
  | nil => exact fun h _ _ => h
  | cons op ops ih =>
    intro w t h hadm hfit
    rw [List.flatMap_cons, ← List.append_assoc] at hfit
    have hle : t.rest.length + (op.added P c₀).length ≤ c₀.maxSeqLen := by
      simp only [Cut.whole, List.length_append] at hfit
      omega
    refine ih (held_apply op h (hadm op List.mem_cons_self) hle)
      (fun o ho => hadm o (List.mem_cons_of_mem _ ho)) ?_
    rw [whole_spec]
    exact hfit

theorem whole_cut (c : KVCache) (ops : List SwapOp) : (cut P c ops).whole = history P c ops := by
  have hall : ∀ (ops : List SwapOp) (t : Cut Token),
      (ops.foldl (fun t op => op.spec P c t) t).whole = t.whole ++ ops.flatMap (added P c) := by
    intro ops
    induction ops with
    | nil => exact fun t => (List.append_nil _).symm
    | cons op ops ih =>
      intro t
      rw [List.foldl_cons, ih, whole_spec, List.flatMap_cons, List.append_assoc]
  exact hall ops _

theorem proper_cut (c : KVCache) (ops : List SwapOp) : (cut P c ops).Proper :=
  List.foldlRecOn ops _ (motive := fun t => Cut.Proper t) (fun _ h => absurd h List.not_mem_nil)
    fun _ h op _ => proper_spec op h

end SwapOp

open SwapOp

/-- **Disk swap.** From a uniform float cache and a handler without records, after any appends and
offloads and the recall of every record of the layer, by `recall_layer` or by `recall_caches`: the
tokens are the original ones and the appended ones in order if and only if the blocks cut off read
the same in reverse. So they do when at most one offload cut a block off, and with tokens that all
differ only then. -/
theorem tokens_recall (P : Platform) {c : KVCache} (hc : c.Plain) {s : SwapHandler} (hs : s.Ready)
    (hempty : s.records = []) (layerIdx : ℕ) {ops : List SwapOp}
    (hadm : ∀ op ∈ ops, op.Admissible layerIdx c) (hfit : (history P c ops).length ≤ c.maxSeqLen) :
    let w := run P layerIdx ops ⟨c, s⟩
    let off := (cut P c ops).off
    ((w.recallAll layerIdx).swap.outstanding layerIdx = [] ∧
      ((w.recallAll layerIdx).cache.tokens = history P c ops ↔ off.reverse.flatten = off.flatten)) ∧
    (∀ caches, caches[layerIdx]? = some w.cache → (w.swap.recallCaches caches).2.1.records = [] ∧
      ∃ c', (w.swap.recallCaches caches).2.2[layerIdx]? = some c' ∧
        (c'.tokens = history P c ops ↔ off.reverse.flatten = off.flatten)) ∧
    (off.length ≤ 1 → off.reverse.flatten = off.flatten) ∧
    ((history P c ops).Nodup → off.reverse.flatten = off.flatten → off.length ≤ 1) := by
  intro w off
  have hnum : s.Numbered := by
    refine ⟨fun rec h => ?_, fun rec h => ?_, ?_⟩
    · rw [hempty] at h; cases h
    · rw [hempty] at h; cases h
    · rw [hempty]; exact List.nodup_nil
  have h₀ : Held c layerIdx ⟨c, s⟩ ⟨[], c.tokens⟩ := by
    refine ⟨hc, rfl, rfl, rfl, hs, hnum, ?_⟩
    simp only [SwapHandler.outstanding, hempty, List.filter_nil]
    exact .nil
  have hw : Held c layerIdx w (cut P c ops) := held_run ops h₀ hadm hfit
  have hwhole : (cut P c ops).whole = history P c ops := whole_cut c ops
  have hback : ∀ l, l = off.reverse.flatten ++ (cut P c ops).rest →
      (l = history P c ops ↔ off.reverse.flatten = off.flatten) := by
    rintro l rfl
    rw [← hwhole]
    exact Cut.putBack_eq_whole _
  refine ⟨⟨?_, hback _ (held_recallAll hw (hwhole ▸ hfit)).tokens⟩, fun caches hcaches => ⟨rfl, ?_⟩,
    Cut.reverse_flatten_of_length, fun hnd => Cut.length_le_one_of_nodup (proper_cut c ops) ?_⟩
  · exact List.length_eq_zero_iff.mp (held_recallAll hw (hwhole ▸ hfit)).backed.length_eq
  · obtain ⟨c', hc', hB⟩ := becomes_recallRecords w.swap.records w.swap.disk caches w.cache
      off hcaches hw.plain hw.numbered.vPath hw.numbered.nodup hw.backed (by
        rw [hw.maxSeqLen, ← length_tokens, hw.tokens, ← List.length_append]
        exact (congrArg List.length hwhole).trans_le hfit)
    refine ⟨c', hc', hback _ ?_⟩
    rw [hB.tokens, hw.tokens]
  · rw [← hwhole] at hnd
    exact (List.nodup_append.mp hnd).1

/-- A HeadMajor F32 cache of one head that holds three of at most four tokens. -/
def threeTokens : KVCache :=
  { newWithGeometry (.host [1, 1, 4, 1] [1, 0, 0, 0, 2, 0, 0, 0, 3, 0, 0, 0, 0, 0, 0, 0])
      (.host [1, 1, 4, 1] (List.replicate 16 0)) 4 1 1 .headMajor with
    currentPos := 3
    highWaterPos := 3 }

theorem threeTokens_plain : threeTokens.Plain := by
  refine ⟨⟨by decide, rfl, rfl, ?_, by decide, by decide, by decide, fun h => ?_, by decide⟩,
    rfl, .inr rfl, rfl, .inr (by decide)⟩
  · rintro (_ | _) <;> decide
  · exact (List.getD_nil ..).trans_le (Nat.zero_le _)

/-- A handler with an empty swap directory. -/
def diskSwap : SwapHandler := ⟨fun n => n, some "swap", [], 0, ⟨fun _ => none, true, fun _ => true⟩⟩

/-- One offload, one append: all four tokens are back in order. -/
theorem tokens_recall_once :
    ((run .fixedPoint 0 [.offload 2, .update (.host [1, 1, 1, 1] [4, 0, 0, 0])
      (.host [1, 1, 1, 1] [4, 0, 0, 0])] ⟨threeTokens, diskSwap⟩).recallAll 0).cache.tokens.map
        (fun t => t .key 0) =
    [[1, 0, 0, 0], [2, 0, 0, 0], [3, 0, 0, 0], [4, 0, 0, 0]] := by
  have hadm : ∀ op ∈ [SwapOp.offload 2, .update (.host [1, 1, 1, 1] [4, 0, 0, 0])
      (.host [1, 1, 1, 1] [4, 0, 0, 0])], op.Admissible 0 threeTokens := by
    intro op hop
    rcases List.mem_cons.mp hop with rfl | hop
    · trivial
    · rw [List.mem_singleton.mp hop]
      refine ⟨rfl, fun _ => ?_, fun _ => ?_⟩
      · rintro (_ | _) <;> rfl
      · rintro (_ | _) <;> decide
  have h := tokens_recall .fixedPoint threeTokens_plain (s := diskSwap) ⟨rfl, rfl, fun _ => rfl⟩
    rfl 0 hadm (by decide)
  rw [h.1.2.mpr (h.2.2.1 (by decide))]
  decide

/-- **Two offloads of one token each come back swapped.** -/
theorem recall_reverses : threeTokens.Plain ∧ diskSwap.Ready ∧ ¬
    ((run .fixedPoint 0 [.offload 1, .offload 1] ⟨threeTokens, diskSwap⟩).recallAll
      0).cache.tokens = history .fixedPoint threeTokens [.offload 1, .offload 1] := by
  refine ⟨threeTokens_plain, ⟨rfl, rfl, fun _ => rfl⟩, fun h => ?_⟩
  exact absurd (congrArg (List.map fun t => t .key 0) h) (by decide)

end ArgusEngine
