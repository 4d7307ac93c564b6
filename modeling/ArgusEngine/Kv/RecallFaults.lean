import ArgusEngine.Kv.Recall

/-!
# Recalls that fail

`recallOneWith` is `recall_one` with an allocator and a device that may refuse: what was moved or
written before a refusal stays moved or written.

* **`recallOneWith_never`**: with no refusal it is `recallOne`;
* `frame_recallOneWith`: only a recall that succeeds moves the cursor;
* **`recall_gives_up`**: what a failed recall leaves, and what its callers drop.
-/

namespace ArgusEngine

open FlatMem KVCache

namespace SwapHandler

/-! ## Refusals -/

/-- What is refused in one recall: the growth, a shift or a write of one half of one head. -/
structure Refusals where
  grow : Option String
  shift : Half → ℕ → Option String
  write : Half → ℕ → Option String

def Refusals.never : Refusals := ⟨none, fun _ _ => none, fun _ _ => none⟩

/-- `step`, where it is not refused. -/
def orRefuse (refuse : Half → ℕ → Option String) (step : Half → ℕ → Tensor → Except Fail Tensor)
    (x : Half) (h : ℕ) (t : Tensor) : Except Fail Tensor :=
  match refuse x h with
  | some e => .error (.err e)
  | none => step x h t

/-- The loops of `shift_positions` and `recall_one`: key, then value, of every head, up to the first
failure. -/
def eachHead (step : Half → ℕ → Tensor → Except Fail Tensor) :
    List ℕ → KVCache → Except Fail Unit × KVCache
  | [], c => (.ok (), c)
  | h :: hs, c =>
    match step .key h c.kBuffer with
    | .error e => (.error e, c)
    | .ok k =>
      match step .value h c.vBuffer with
      | .error e => (.error e, { c with kBuffer := k })
      | .ok v => eachHead step hs { c with kBuffer := k, vBuffer := v }

/-- `ensure_capacity`, only where the tokens do not fit. -/
def recallRoomWith (F : Refusals) (c : KVCache) (n : ℕ) : Except Fail (Bool × KVCache) :=
  if c.currentPos + n > c.capacity then
    match F.grow with
    | some e => .error (.err e)
    | none => c.ensureCapacity (c.currentPos + n)
  else .ok (false, c)

/-- `shift_positions(0, n, existing)` of a HeadMajor cache. -/
def recallShiftWith (F : Refusals) (c : KVCache) (n : ℕ) : Except Fail Unit × KVCache :=
  if c.currentPos = 0 ∨ n = 0 then (.ok (), c)
  else eachHead (orRefuse F.shift fun _ h t => .ok (c.shiftBufferForHead h ⟨0, n, c.currentPos⟩ t))
    (List.range c.kvHeads) c

def fileOf (kBytes vBytes : List UInt8) : Half → List UInt8
  | .key => kBytes
  | .value => vBytes

/-- `recall_one` from the reads on. -/
def loadRecordWith (F : Refusals) (disk : Disk) (c : KVCache) (rec : SwapRecord) :
    Except Fail ℕ × KVCache :=
  match disk.files rec.kPath, disk.files rec.vPath with
  | some kBytes, some vBytes =>
    let elemBytes := rec.dtype.size
    let perHeadBytes := rec.tokenCount * rec.headDim * elemBytes
    let headStrideBytes := c.capacity * rec.headDim * elemBytes
    let want := perHeadBytes * rec.nHeads
    let kLen := kBytes.length
    let vLen := vBytes.length
    if kLen ≠ want ∨ vLen ≠ want then (.error (.err
      s!"recall: file size mismatch (k={kLen}, v={vLen}, expected={want})"), c)
    else
      match eachHead (orRefuse F.write fun x h t =>
          t.writeBufferRange (slice (fileOf kBytes vBytes x) (h * perHeadBytes) perHeadBytes)
            (h * headStrideBytes))
          (List.range rec.nHeads) c with
      | (.error e, c') => (.error e, c')
      | (.ok (), c') => (.ok rec.tokenCount, { c' with
          currentPos := c.currentPos + rec.tokenCount
          highWaterPos := max c.highWaterPos (c.currentPos + rec.tokenCount) })
  | _, _ => (.error (.err "recall: file read failed"), c)

/-- `recall_one` with refusals. -/
def recallOneWith (F : Refusals) (disk : Disk) (c : KVCache) (rec : SwapRecord) :
    Except Fail ℕ × KVCache :=
  -- the checks come before anything that can be refused
  if c.layout ≠ .headMajor ∨ ¬ Fits c rec then recallOne disk c rec
  else match recallRoomWith F c rec.tokenCount with
    | .error _ => (.ok 0, c)
    | .ok (_, c₁) => match recallShiftWith F c₁ rec.tokenCount with
      | (.error e, c₂) => (.error e, c₂)
      | (.ok (), c₂) => loadRecordWith F disk c₂ rec

/-- `recall_layer` with refusals. -/
def recallLayerWith (F : Refusals) (s : SwapHandler) (layerIdx : ℕ) (c : KVCache) :
    Except Fail ℕ × SwapHandler × KVCache :=
  match s.records.find? fun r => r.layerIdx = layerIdx with
  | none => (.ok 0, s, c)
  | some rec =>
    let r := recallOneWith F s.disk c rec
    (r.1, { s with
      records := s.records.eraseP fun r => r.layerIdx = layerIdx
      disk := (s.disk.remove rec.kPath).remove rec.vPath }, r.2)

/-- The loop of `recall_caches`, with the refusals of every record. -/
def recallRecordsWith (F : SwapRecord → Refusals) : List SwapRecord → Disk → List KVCache →
    ℕ × Disk × List KVCache
  | [], disk, caches => (0, disk, caches)
  | rec :: recs, disk, caches =>
    match caches[rec.layerIdx]? with
    | none => recallRecordsWith F recs disk caches
    | some c =>
      let r := recallOneWith (F rec) disk c rec
      let n := match r.1 with
        | .ok n => n
        | .error _ => 0
      let rest := recallRecordsWith F recs ((disk.remove rec.kPath).remove rec.vPath)
        (caches.set rec.layerIdx r.2)
      (n + rest.1, rest.2)

/-- `recall_caches` with refusals. -/
def recallCachesWith (F : SwapRecord → Refusals) (s : SwapHandler) (caches : List KVCache) :
    ℕ × SwapHandler × List KVCache :=
  let r := recallRecordsWith F s.records s.disk caches
  (r.1, { s with records := [], disk := r.2.1 }, r.2.2)

/-! ## No refusal -/

section Never

variable {c : KVCache} {rec : SwapRecord}

theorem eachHead_of_ok (step : Half → ℕ → Tensor → Except Fail Tensor) (l : List ℕ) :
    ∀ {c : KVCache} {k v : Tensor}, l.foldlM (fun t h => step .key h t) c.kBuffer = .ok k →
    l.foldlM (fun t h => step .value h t) c.vBuffer = .ok v →
    eachHead step l c = (.ok (), { c with kBuffer := k, vBuffer := v }) := by
  induction l with
  | nil =>
    intro c k v hk hv
    cases hk
    cases hv
    rfl
  | cons h l ih =>
    intro c k v hk hv
    rw [List.foldlM_cons] at hk hv
    unfold eachHead
    cases hk₁ : step .key h c.kBuffer with
    | error e => rw [hk₁] at hk; cases hk
    | ok k₁ =>
      cases hv₁ : step .value h c.vBuffer with
      | error e => rw [hv₁] at hv; cases hv
      | ok v₁ =>
        rw [hk₁] at hk
        rw [hv₁] at hv
        exact ih (c := { c with kBuffer := k₁, vBuffer := v₁ }) hk hv

theorem orRefuse_never (step : Half → ℕ → Tensor → Except Fail Tensor) :
    orRefuse (fun _ _ => none) step = step := rfl

theorem foldlM_ok {α β : Type} (f : α → β → α) (l : List β) (a : α) :
    l.foldlM (fun a b => (.ok (f a b) : Except Fail α)) a = .ok (l.foldl f a) := by
  induction l generalizing a with
  | nil => rfl
  | cons b l ih => exact ih (f a b)

theorem recallShiftWith_never (hl : c.layout = .headMajor) (c₀ : KVCache)
    (hpos : c₀.currentPos = c.currentPos) (n : ℕ) :
    ∃ c', recallShiftWith .never c n = (.ok (), c') ∧ recallShift c₀ c n = .ok c' := by
  unfold recallShiftWith recallShift
  rw [hpos]
  by_cases h0 : c.currentPos = 0
  · rw [if_pos (.inl h0), if_neg (by omega)]
    exact ⟨c, rfl, rfl⟩
  rw [if_pos (Nat.pos_of_ne_zero h0)]
  unfold shiftPositions
  by_cases hn : n = 0
  · rw [if_pos (.inr hn), if_pos (.inr hn.symm)]
    exact ⟨c, rfl, rfl⟩
  rw [if_neg (by omega), if_neg (by simp only; omega), if_neg (by simp [hl])]
  refine ⟨_, ?_, rfl⟩
  have hfold : ∀ t, (List.range c.kvHeads).foldl (fun t h =>
    c.shiftBufferForHead h ⟨0, n, c.currentPos⟩ t) t =
      c.shiftBuffer ⟨0, n, c.currentPos⟩ t := by
    intro t
    unfold shiftBuffer
    rw [hl]
    rfl
  rw [← hfold, ← hfold]
  exact eachHead_of_ok _ _ (foldlM_ok _ _ _) (foldlM_ok _ _ _)

theorem loadRecordWith_never (hc : c.WF) (hfit : Fits c rec)
    (hf : c.kvDtype = .f16 ∨ c.kvDtype = .f32) (hroom : c.currentPos + rec.tokenCount ≤ c.capacity)
    (disk : Disk) : loadRecordWith .never disk c rec = loadRecord disk c rec := by
  unfold loadRecordWith loadRecord
  cases hk : disk.files rec.kPath with
  | none => rfl
  | some kb =>
    cases hv : disk.files rec.vPath with
    | none => rfl
    | some vb =>
      simp only
      split_ifs with hlen
      · rfl
      rw [not_or, not_not, not_not] at hlen
      obtain ⟨h₁, h₂, h₃⟩ := hfit
      have hunit : ∀ a, a * rec.headDim * rec.dtype.size = a * c.rowBytes := by
        intro a
        rw [rowBytes_of_float hc.stored hf, ← h₁, ← h₃, Nat.mul_assoc]
      simp only [hunit, ← h₂] at hlen ⊢
      obtain ⟨k, -, hkok, -⟩ := writeHeads_ok (hlen.1.trans (Nat.mul_comm _ _)) (hc.size .key)
        (Nat.le_of_add_left_le hroom)
      obtain ⟨v, -, hvok, -⟩ := writeHeads_ok (hlen.2.trans (Nat.mul_comm _ _)) (hc.size .value)
        (Nat.le_of_add_left_le hroom)
      simp only [show c.buffer .key = c.kBuffer from rfl, show c.buffer .value = c.vBuffer from rfl]
        at hkok hvok
      have heach := eachHead_of_ok (fun x h t => t.writeBufferRange
        (slice (fileOf kb vb x) (h * (rec.tokenCount * c.rowBytes)) (rec.tokenCount * c.rowBytes))
        (h * (c.capacity * c.rowBytes))) (List.range c.kvHeads) hkok hvok
      simp only [Refusals.never, orRefuse_never, heach, hkok, hvok]

/-- **Without a refusal** the recall is `recallOne`. -/
theorem recallOneWith_never (hc : c.WF) (hf : c.kvDtype = .f16 ∨ c.kvDtype = .f32) (disk : Disk) :
    recallOneWith .never disk c rec = recallOne disk c rec := by
  unfold recallOneWith
  split_ifs with hcheck
  · rfl
  rw [not_or, not_not, not_not] at hcheck
  obtain ⟨hl, hfit⟩ := hcheck
  rw [recallOne_of_fits hl hfit]
  have hroom : recallRoomWith .never c rec.tokenCount = recallRoom c rec.tokenCount := rfl
  rw [hroom]
  cases h : recallRoom c rec.tokenCount with
  | error e => rfl
  | ok r =>
    obtain ⟨b, c₁⟩ := r
    obtain ⟨hk, hle⟩ := keeps_recallRoom hc h
    have hpos : c₁.currentPos = c.currentPos := congrArg Frame.currentPos hk.frame
    have hfmt : c₁.format = c.format := congrArg Frame.format hk.frame
    have hl₁ : c₁.layout = .headMajor := (congrArg Format.layout hfmt).trans hl
    obtain ⟨c₂, hwith, hshift⟩ := recallShiftWith_never hl₁ c hpos.symm rec.tokenCount
    obtain ⟨c₃, hok, hS, -⟩ := shifted_recallShift hl hk hle
    rw [hshift] at hok
    cases hok
    have hfmt₂ : c₂.format = c.format := congrArg Frame.format hS.frame
    have hdt : c₂.kvDtype = c.kvDtype := congrArg Format.dtype hfmt₂
    simp only [hwith, hshift]
    refine loadRecordWith_never hS.wf ?_ (hdt ▸ hf) ?_ disk
    · exact ⟨(congrArg Format.headDim hfmt₂).trans hfit.1,
        (congrArg Format.kvHeads hfmt₂).trans hfit.2.1, hdt.trans hfit.2.2⟩
    · rw [show c₂.currentPos = c.currentPos from congrArg Frame.currentPos hS.frame]
      exact hS.room

end Never

/-! ## What a failed recall leaves -/

section Failed

variable {F : Refusals} {disk : Disk} {c : KVCache} {rec : SwapRecord}

theorem moved_eachHead {step : Half → ℕ → Tensor → Except Fail Tensor}
    (hstep : ∀ x h t t', step x h t = .ok t' → Recoded t t') (l : List ℕ) :
    ∀ c, Moved c (eachHead step l c).2 := by
  induction l with
  | nil => exact .refl
  | cons h l ih =>
    intro c
    unfold eachHead
    cases hk : step .key h c.kBuffer with
    | error e => exact .refl c
    | ok k =>
      obtain ⟨kb, -, rfl⟩ := hstep _ _ _ _ hk
      cases hv : step .value h c.vBuffer with
      | error e => exact ⟨kb, _, rfl⟩
      | ok v =>
        obtain ⟨vb, -, rfl⟩ := hstep _ _ _ _ hv
        exact Moved.trans ⟨kb, vb, rfl⟩ (ih _)

theorem recoded_orRefuse (refuse : Half → ℕ → Option String)
    {step : Half → ℕ → Tensor → Except Fail Tensor}
    (hstep : ∀ x h t t', step x h t = .ok t' → Recoded t t') (x : Half) (h : ℕ) (t t' : Tensor)
    (hok : orRefuse refuse step x h t = .ok t') : Recoded t t' := by
  unfold orRefuse at hok
  split at hok
  · cases hok
  · exact hstep x h t t' hok

theorem moved_recallShiftWith (F : Refusals) (c : KVCache) (n : ℕ) :
    Moved c (recallShiftWith F c n).2 := by
  unfold recallShiftWith
  split_ifs
  · exact .refl c
  · refine moved_eachHead (recoded_orRefuse F.shift fun x h t t' hok => ?_) _ c
    cases hok
    exact ⟨_, length_blit _ _ _ _ _, rfl⟩

theorem moved_writeLoop (F : Refusals) (src : Half → List UInt8) (perHead stride : ℕ)
    (l : List ℕ) (c : KVCache) : Moved c (eachHead (orRefuse F.write fun x h t =>
      t.writeBufferRange (slice (src x) (h * perHead) perHead) (h * stride)) l c).2 :=
  moved_eachHead (recoded_orRefuse F.write fun _ _ _ _ hok => recoded_writeBufferRange hok) l c

/-- A load that fails has rewritten rows at most; one that succeeds has also moved the cursor. -/
theorem frame_loadRecordWith (F : Refusals) (disk : Disk) (c : KVCache) (rec : SwapRecord) :
    let r := loadRecordWith F disk c rec
    ((∃ e, r.1 = .error e) ∧ r.2.frame = c.frame) ∨
      (r.1 = .ok rec.tokenCount ∧
      r.2.frame = { c.frame with currentPos := c.currentPos + rec.tokenCount }) := by
  unfold loadRecordWith
  split
  · simp only
    split_ifs
    · exact .inl ⟨⟨_, rfl⟩, rfl⟩
    · rename_i kb vb _ _ _
      have hmoved := moved_writeLoop F (fileOf kb vb)
        (rec.tokenCount * rec.headDim * rec.dtype.size) (c.capacity * rec.headDim * rec.dtype.size)
          (List.range rec.nHeads) c
      split
      · rename_i e c' heach
        rw [heach] at hmoved
        exact .inl ⟨⟨e, rfl⟩, frame_of_moved hmoved⟩
      · rename_i c' heach
        rw [heach] at hmoved
        refine .inr ⟨rfl, ?_⟩
        rw [← frame_of_moved hmoved]
        rfl
  · exact .inl ⟨⟨_, rfl⟩, rfl⟩

theorem frame_recallRoomWith {n : ℕ} {b : Bool} {c₁ : KVCache}
    (h : recallRoomWith F c n = .ok (b, c₁)) : c₁.frame = c.frame := by
  unfold recallRoomWith at h
  split_ifs at h
  · split at h
    · cases h
    · exact frame_ensureCapacity h
  · cases h; rfl

/-- The recall gets as far as the shift: the checks pass and there is room, or room is made. -/
def Reaches (F : Refusals) (c : KVCache) (rec : SwapRecord) : Prop :=
  c.layout = .headMajor ∧ Fits c rec ∧ (c.currentPos + rec.tokenCount ≤ c.capacity ∨
    (F.grow = none ∧ c.memory.isSome ∧ c.currentPos + rec.tokenCount ≤ c.maxSeqLen))

/-- **A recall that does not get as far as the shift** leaves the whole cache as it was. -/
theorem recallOneWith_of_not_reaches (disk : Disk) (h : ¬ Reaches F c rec) :
    ((∃ e, (recallOneWith F disk c rec).1 = .error e) ∨ (recallOneWith F disk c rec).1 = .ok 0) ∧
      (recallOneWith F disk c rec).2 = c := by
  unfold recallOneWith
  split_ifs with hcheck
  · by_cases hl : c.layout = .headMajor
    · obtain ⟨e, he⟩ := recallOne_of_not_fits hl (hcheck.resolve_left (not_not.mpr hl))
        (rfl : c.geometry = c.geometry)
      rw [(he disk disk).1]
      exact ⟨.inl ⟨e, rfl⟩, rfl⟩
    · unfold recallOne
      simp only [if_pos hl]
      exact ⟨.inl ⟨_, rfl⟩, trivial⟩
  rw [not_or, not_not, not_not] at hcheck
  have hroom : ∃ e, recallRoomWith F c rec.tokenCount = .error e := by
    have hcap : ¬ c.currentPos + rec.tokenCount ≤ c.capacity := fun hcap =>
      h ⟨hcheck.1, hcheck.2, .inl hcap⟩
    cases hg : F.grow with
    | some e =>
      unfold recallRoomWith
      rw [if_pos (Nat.not_le.mp hcap), hg]
      exact ⟨_, rfl⟩
    | none =>
      obtain ⟨e, he⟩ := recallRoom_of_not_takes hcheck.2 fun ht : Takes c rec =>
        h ⟨hcheck.1, hcheck.2, ht.2.imp_right fun hm => ⟨hg, hm⟩⟩
      unfold recallRoom at he
      unfold recallRoomWith
      rw [hg]
      exact ⟨e, he⟩
  obtain ⟨e, he⟩ := hroom
  rw [he]
  exact ⟨.inr rfl, rfl⟩

/-- **Only a recall that succeeds moves the cursor**; the starts stay in any case. -/
theorem frame_recallOneWith (F : Refusals) (disk : Disk) (c : KVCache) (rec : SwapRecord) :
    let r := recallOneWith F disk c rec
    r.2.frame = c.frame ∨
      (r.1 = .ok rec.tokenCount ∧
      r.2.frame = { c.frame with currentPos := c.currentPos + rec.tokenCount }) := by
  intro r
  by_cases hr : Reaches F c rec
  swap
  · exact .inl (congrArg frame (recallOneWith_of_not_reaches disk hr).2)
  show (recallOneWith F disk c rec).2.frame = _ ∨ (recallOneWith F disk c rec).1 = _ ∧
    (recallOneWith F disk c rec).2.frame = _
  unfold recallOneWith
  rw [if_neg (by simp [hr.1, hr.2.1])]
  split
  · exact .inl rfl
  rename_i b c₁ hroom
  have h₁ := frame_recallRoomWith hroom
  have h₂ := frame_of_moved (moved_recallShiftWith F c₁ rec.tokenCount)
  split
  · rename_i e c₂ hshift
    rw [hshift] at h₂
    exact .inl (h₂.trans h₁)
  · rename_i c₂ hshift
    rw [hshift] at h₂
    have h₃ : c₂.frame = c.frame := h₂.trans h₁
    rcases frame_loadRecordWith F disk c₂ rec with ⟨-, h⟩ | ⟨hok, h⟩
    · exact .inl (h.trans h₃)
    · refine .inr ⟨hok, ?_⟩
      rw [h, h₃, show c₂.currentPos = c.currentPos from congrArg Frame.currentPos h₃]

/-- The loop of `recall_caches` only removes files. -/
theorem files_recallRecordsWith {F : SwapRecord → Refusals} {path : SwapPath}
    (recs : List SwapRecord) : ∀ (disk : Disk) (caches : List KVCache), disk.files path = none →
      (recallRecordsWith F recs disk caches).2.1.files path = none := by
  induction recs with
  | nil => exact fun disk caches h => h
  | cons rec recs ih =>
    intro disk caches h
    unfold recallRecordsWith
    split
    · exact ih disk caches h
    · refine ih _ _ ?_
      simp only [Disk.remove, Function.update_apply]
      split_ifs <;> first | rfl | exact h

/-- **`recall_caches` removes the files of every record** whose layer exists. -/
theorem removed_recallRecordsWith {F : SwapRecord → Refusals} {rec : SwapRecord}
    (recs : List SwapRecord) : ∀ (disk : Disk) (caches : List KVCache), rec ∈ recs →
    rec.layerIdx < caches.length →
      let files := (recallRecordsWith F recs disk caches).2.1.files
      files rec.kPath = none ∧ files rec.vPath = none := by
  induction recs with
  | nil => exact fun disk caches h => absurd h List.not_mem_nil
  | cons r recs ih =>
    intro disk caches hmem hlt
    unfold recallRecordsWith
    rcases List.mem_cons.mp hmem with rfl | hmem
    · rw [List.getElem?_eq_getElem hlt]
      refine ⟨files_recallRecordsWith recs _ _ ?_, files_recallRecordsWith recs _ _ ?_⟩
      · simp only [Disk.remove, Function.update_apply, if_true, ite_self]
      · simp only [Disk.remove, Function.update_self]
    · split
      · exact ih disk caches hmem hlt
      · exact ih _ _ hmem (by rw [List.length_set]; exact hlt)

end Failed

end SwapHandler

open SwapHandler

/-- **A failed recall.** When `recall_one` returns an error or `Ok(0)`, the cursor and the starts
are what they were, and the whole cache is when it gave up before the shift: another layout,
geometry or type, no room, or a growth that is refused. The record is given up in any case:
`recall_layer` takes it off the ledger and removes its files, and so does `recall_caches`. -/
theorem recall_gives_up (F : Refusals) (disk : Disk) (c : KVCache) (rec : SwapRecord)
    (hfail : (∃ e, (recallOneWith F disk c rec).1 = .error e) ∨
    (recallOneWith F disk c rec).1 = .ok 0) : ((recallOneWith F disk c rec).2.frame = c.frame ∧
      (¬ Reaches F c rec → (recallOneWith F disk c rec).2 = c)) ∧
    (∀ (s : SwapHandler) (layerIdx : ℕ), s.disk = disk →
      s.records.find? (fun r => r.layerIdx = layerIdx) = some rec →
      let q := s.recallLayerWith F layerIdx c
      (q.1, q.2.2) = recallOneWith F disk c rec ∧
        q.2.1.records = s.records.eraseP (fun r => r.layerIdx = layerIdx) ∧
        q.2.1.disk.files rec.kPath = none ∧ q.2.1.disk.files rec.vPath = none) ∧
    (∀ (G : SwapRecord → Refusals) (s : SwapHandler) (caches : List KVCache), rec ∈ s.records →
      rec.layerIdx < caches.length →
      let q := s.recallCachesWith G caches
      q.2.1.records = [] ∧ q.2.1.disk.files rec.kPath = none ∧
        q.2.1.disk.files rec.vPath = none) := by
  refine ⟨⟨?_, fun hr => (recallOneWith_of_not_reaches disk hr).2⟩,
    fun s layerIdx hdisk hfind => ?_, fun G s caches hmem hlt =>
    ⟨rfl, removed_recallRecordsWith _ _ _ hmem hlt⟩⟩
  · rcases frame_recallOneWith F disk c rec with h | ⟨hok, h⟩
    · exact h
    · have hzero : rec.tokenCount = 0 := by
        rcases hfail with ⟨e, he⟩ | h0
        · rw [hok] at he; cases he
        · rw [hok] at h0; exact Except.ok.inj h0
      rw [h, hzero]
      rfl
  · subst hdisk
    unfold recallLayerWith
    rw [hfind]
    refine ⟨rfl, rfl, ?_, ?_⟩
    · simp only [Disk.remove, Function.update_apply, if_true, ite_self]
    · simp only [Disk.remove, Function.update_self]

/-- A full cache that cannot grow keeps its rows, and the record is gone. -/
theorem recall_gives_up_full : (recallOneWith .never diskSwap.disk raggedCache
      (diskSwap.dumpRecord 0 raggedCache 1)).2 = raggedCache ∧
    (({ diskSwap with records := [diskSwap.dumpRecord 0 raggedCache 1] } :
    SwapHandler).recallLayerWith .never 0
      raggedCache).2.1.records = [] := by
  have hno : ¬ Reaches .never raggedCache (diskSwap.dumpRecord 0 raggedCache 1) := by
    rintro ⟨-, -, h | ⟨-, h, -⟩⟩
    · exact absurd h (by decide)
    · exact absurd h (by decide)
  have h := recall_gives_up .never diskSwap.disk raggedCache (diskSwap.dumpRecord 0 raggedCache 1)
    (recallOneWith_of_not_reaches _ hno).1
  exact ⟨h.1.2 hno, (h.2.1 { diskSwap with records := [diskSwap.dumpRecord 0 raggedCache 1] }
    0 rfl rfl).2.1⟩

/-- The swap directory after an offload of one token, with its value file gone. -/
def lostValues : SwapHandler :=
  let s := (diskSwap.offloadPrefix .fixedPoint 0 threeTokens 1).2.1
  { s with disk := s.disk.remove ⟨0, 0, 1, .value⟩ }

/-- **A missing file costs a resident row and the record**: of the rows `2`, `3` the second is a
copy of the first after the recall has failed, and neither the record nor the key file is there any
more. -/
theorem failed_recall_loses : threeTokens.Plain ∧
    let c := (diskSwap.offloadPrefix .fixedPoint 0 threeTokens 1).2.2
    let q := lostValues.recallLayerWith .never 0 c
    q.1.toOption = none ∧ c.currentPos = 2 ∧ c.rowsOf .key 0 1 = [3, 0, 0, 0] ∧
      q.2.2.rowsOf .key 0 1 = [2, 0, 0, 0] ∧ (lostValues.records.length = 1 ∧ q.2.1.records = []) ∧
      ((lostValues.disk.files ⟨0, 0, 1, .key⟩).isSome = true ∧
      q.2.1.disk.files ⟨0, 0, 1, .key⟩ = none) :=
  ⟨threeTokens_plain, by decide⟩

end ArgusEngine
