import ArgusEngine.Attn.Flash
import ArgusEngine.Lib.RowMajor

/-!
# The tile kernel of the prefill

On `aarch64` a long prefill is cut into tasks, one for each tile of query rows and KV head, which
the thread pool runs in any order. A task classifies each key tile as full, diagonal or to be
skipped, and masks lane by lane only on the diagonal.

* `classifyTile`: `classifyTile_skip`, `classifyTile_full`: what the two easy kinds mean;
* `prefillRow`, `prefillTileWorker`, `flashPrefillForwardF32Neon`: the kernel;
* `flashAttentionForward`: the entry point, which chooses between the two kernels;
* `flashAttentionForward_row`: either kernel, with its heads or tasks in any order, writes the
  softmax averages;
* **`flashAttentionForward_eq`**: and it writes nothing else.
-/

namespace ArgusEngine.Attn

open OnlineSoftmax SlotMem

inductive TileKind where
  | full
  | diagonal
  | skip
deriving DecidableEq

def classifyTile (rStart rEnd cStart cEnd qStartPos : ℕ) (windowSize : Option ℕ) : TileKind :=
  let maxGlobalR := rEnd - 1 + qStartPos
  let minGlobalR := rStart + qStartPos
  let upperSkip := decide (cStart > maxGlobalR)
  let windowSkip := windowSize.any fun ws => decide (cEnd + ws ≤ minGlobalR + 1)
  if upperSkip || windowSkip then .skip
  else
    let causalFull := decide (cEnd ≤ minGlobalR + 1)
    let windowFull := windowSize.all fun ws => decide (cStart + ws > maxGlobalR)
    if causalFull && windowFull then .full else .diagonal

variable {K : Type*} [Field K] [LinearOrder K]

section Kernel

variable (F : FloatOps K) (a : ForwardArgs) (q k v : ℕ → K)

/-- The window as the task context carries it: a `u32`, one more than the window, zero for none. -/
def windowSizePlus1 (windowSize : Option ℕ) : ℕ :=
  match windowSize with
  | some w => (w % 2 ^ 32 + 1) % 2 ^ 32
  | none => 0

/-- The window as a task reads it. -/
def taskWindow (plus1 : ℕ) : Option ℕ := if plus1 = 0 then none else some (plus1 - 1)

/-- The lanes of a tile: on the diagonal each has its own mask. -/
def TileKind.valid (kind : TileKind) (ws : Option ℕ) (globalR globalC : ℕ) : Bool :=
  match kind with
  | .full => true
  | .diagonal => decide (globalC ≤ globalR) && ws.all fun w => decide (globalC + w > globalR)
  | .skip => false

/-- Kernel B for one row: the online softmax against a tile of a kind. -/
def prefillRow (p : HeadArgs) (ws : Option ℕ) (kind : TileKind) (cStart curBc row : ℕ)
    (st : Acc K (Fin p.headDim)) : Acc K (Fin p.headDim) :=
  let valid : ℕ → Bool := fun c => kind.valid ws (row + p.qStartPos) (cStart + c)
  let sRow : ℕ → K := fun c => p.logit F q k row (cStart + c)
  if (List.range curBc).any valid then
    let mNew := max st.m (runningMax (fun c => if valid c then ((sRow c : K) : WithBot K)
      else ⊥) curBc)
    let pRow : ℕ → K := fun c => if valid c then F.exp (sRow c - mNew.unbotD 0) else 0
    let alpha := F.rescale st.m (mNew.unbotD 0)
    { m := mNew
      l := st.l * alpha + ((List.range curBc).map pRow).sum
      o := fun d => (if alpha = 1 then st.o d else st.o d * alpha) +
        ((List.range curBc).map fun c => if pRow c = 0 then 0
          else pRow c * p.value v (cStart + c) d).sum }
  else st

/-- The states of the rows of tile `i` for one query head. -/
def prefillTile (p : HeadArgs) (ws : Option ℕ) (br bc i : ℕ) : ℕ → Acc K (Fin p.headDim) :=
  let rStart := i * br
  let rEnd := min (rStart + br) p.qLen
  (List.range (divCeil p.kvLen bc)).foldl (fun st tj =>
    let cStart := tj * bc
    let cEnd := min (cStart + bc) p.kvLen
    match classifyTile rStart rEnd cStart cEnd p.qStartPos ws with
    | .skip => st
    | kind => fun r =>
      if r < rEnd - rStart then prefillRow F q k v p ws kind cStart (cEnd - cStart)
        (rStart + r) (st r) else st r)
    fun _ => .empty

/-- The normalised row, zero where no key contributed. -/
def normalizeRow {headDim : ℕ} (st : Acc K (Fin headDim)) (x : ℕ) : K :=
  if h : x < headDim then if st.l = 0 then 0 else st.o ⟨x, h⟩ * (1 / st.l) else 0

/-- What the tile kernel gets for a query head: it has no first slot. -/
abbrev ForwardArgs.fullHead (h : ℕ) : HeadArgs := { a.head h with kvStart := 0 }

/-- `prefill_tile_worker`: the query heads of one KV head, on one tile of rows. -/
def prefillTileWorker (plus1 br bc : ℕ) (out : ℕ → K) (taskId : ℕ) : ℕ → K :=
  let tileI := taskId / a.nHeadsKv
  let kvH := taskId % a.nHeadsKv
  let gqa := a.nHeadsQ / a.nHeadsKv
  let rStart := tileI * br
  let rEnd := min (rStart + br) a.qLen
  if rEnd ≤ rStart then out
  else (List.range gqa).foldl (fun out g =>
    let qH := kvH * gqa + g
    (List.range (rEnd - rStart)).foldl (fun out r =>
      place (normalizeRow (prefillTile F q k v (a.fullHead qH) (taskWindow plus1) br bc tileI r))
        0 out ((rStart + r) * a.outStride + qH * a.headDim) a.headDim) out) out

/-- The tile sizes. -/
def prefillTileSize (headDim : ℕ) : ℕ × ℕ := if headDim ≥ 96 then (64, 64) else (128, 64)

def prefillTasks : ℕ := divCeil a.qLen (prefillTileSize a.headDim).1 * a.nHeadsKv

/-- `flash_prefill_forward_f32_neon`: the tasks of one dispatch, in the order the pool happens to
run them. -/
def flashPrefillForwardF32Neon (order : List ℕ) (out : ℕ → K) : ℕ → K :=
  order.foldl (prefillTileWorker F a q k v (windowSizePlus1 a.windowSize)
    (prefillTileSize a.headDim).1 (prefillTileSize a.headDim).2) out

def PREFILL_FLASH_THRESHOLD : ℕ := 128

def ragged : Bool := a.kvStart.any fun s => s.any fun x => decide (x > 0)

/-- The calls that go to the tile kernel. -/
def takesTiles (aarch64 : Bool) : Bool :=
  aarch64 && !ragged a && decide (PREFILL_FLASH_THRESHOLD ≤ a.qLen) && decide (8 ∣ a.headDim) &&
    decide (a.nHeadsKv ∣ a.nHeadsQ) && decide (a.kStride = a.headDim) &&
      decide (a.vStride = a.headDim) &&
    decide (a.qStride = a.nHeadsQ * a.headDim) && decide (a.outStride = a.nHeadsQ * a.headDim) &&
    decide (a.headDim ∣ a.kvHeadStride)

/-- `flash_attention_forward_strided`: `heads` and `tasks` are the orders the two kernels run in. -/
def flashAttentionForward (aarch64 : Bool) (br bc : ℕ) (heads tasks : List ℕ)
    (out : ℕ → K) : ℕ → K :=
  if takesTiles a aarch64 then flashPrefillForwardF32Neon F a q k v tasks out
  else flashAttentionForwardStrided F a q k v br bc heads out

end Kernel

/-! ## What a kind of tile says -/

section Kinds

variable {rStart rEnd cStart cEnd : ℕ} {p : HeadArgs}

theorem classifyTile_skip (hstart : p.kvStart = 0) (hc : cStart < cEnd) :
    classifyTile rStart rEnd cStart cEnd p.qStartPos p.windowSize = .skip ↔
      p.skips rStart rEnd cStart cEnd = true := by
  unfold classifyTile HeadArgs.skips
  simp only [hstart, show ¬ cEnd ≤ 0 by omega, decide_false, Bool.or_false]
  by_cases h : (decide (cStart > rEnd - 1 + p.qStartPos) ||
      p.windowSize.any fun ws => decide (cEnd + ws ≤ rStart + p.qStartPos + 1)) = true
  · rw [if_pos h]
    exact ⟨fun _ => h, fun _ => rfl⟩
  · rw [if_neg h]
    refine ⟨fun hk => ?_, fun hk => absurd hk h⟩
    split_ifs at hk

/-- The lanes a row takes of a tile that is not skipped are its band. -/
theorem valid_iff (hstart : p.kvStart = 0) {kind : TileKind}
    (hk : classifyTile rStart rEnd cStart cEnd p.qStartPos p.windowSize = kind)
    (hne : kind ≠ .skip) {r c : ℕ} (hr : r < rEnd - rStart) (hc : c < cEnd - cStart) :
    kind.valid p.windowSize (rStart + r + p.qStartPos) (cStart + c) =
      p.inBand (rStart + r + p.qStartPos) (cStart + c) := by
  cases kind with
  | skip => exact absurd rfl hne
  | diagonal => simp [TileKind.valid, HeadArgs.inBand, hstart]
  | full =>
    symm
    change p.inBand _ _ = true
    rw [inBand_iff]
    simp only [classifyTile] at hk
    split_ifs at hk with h₁ h₂
    simp only [Bool.and_eq_true, decide_eq_true_eq] at h₂
    refine ⟨by omega, fun w hw => ?_, by omega⟩
    rw [hw] at h₂
    simp only [Option.all_some, decide_eq_true_eq] at h₂
    omega

theorem taskWindow_windowSizePlus1 {w : Option ℕ} (hw : ∀ n ∈ w, n + 1 < 2 ^ 32) :
    taskWindow (windowSizePlus1 w) = w := by
  cases w with
  | none => rfl
  | some n =>
    have h := hw n rfl
    have hcode : windowSizePlus1 (some n) = n + 1 := by
      simp only [windowSizePlus1]
      omega
    rw [hcode, taskWindow, if_neg (by omega)]
    rfl

end Kinds

/-! ## The tile kernel computes the states of the plain one -/

section Agrees

variable {F : FloatOps K} {q k v : ℕ → K} {p : HeadArgs}

omit [Field K] in
theorem runningMax_congr {s s' : ℕ → WithBot K} {n : ℕ} (h : ∀ c < n, s c = s' c) :
    runningMax s n = runningMax s' n := by
  unfold runningMax
  refine List.foldl_ext _ _ _ fun m c hc => ?_
  rw [h c (List.mem_range.mp hc)]

theorem prefillRow_eq (hstart : p.kvStart = 0) {rStart rEnd cStart cEnd : ℕ} {kind : TileKind}
    (hk : classifyTile rStart rEnd cStart cEnd p.qStartPos p.windowSize = kind)
    (hne : kind ≠ .skip) {r : ℕ} (hr : r < rEnd - rStart) (st : Acc K (Fin p.headDim)) :
    prefillRow F q k v p p.windowSize kind cStart (cEnd - cStart) (rStart + r) st =
      flashRow F p q k v cStart (cEnd - cStart) (rStart + r) st := by
  have hvalid : ∀ c ∈ List.range (cEnd - cStart),
    kind.valid p.windowSize (rStart + r + p.qStartPos) (cStart + c) =
      p.inBand (rStart + r + p.qStartPos) (cStart + c) :=
    fun c hc => valid_iff hstart hk hne hr (List.mem_range.mp hc)
  have hany : ((List.range (cEnd - cStart)).any fun c =>
      kind.valid p.windowSize (rStart + r + p.qStartPos) (cStart + c)) =
      (List.range (cEnd - cStart)).any fun c => p.inBand (rStart + r + p.qStartPos)
        (cStart + c) := by
    rw [Bool.eq_iff_iff, List.any_eq_true, List.any_eq_true]
    exact exists_congr fun c => and_congr_right fun hc => by rw [hvalid c hc]
  have hmax : runningMax (fun c => if kind.valid p.windowSize (rStart + r + p.qStartPos)
    (cStart + c) then
      ((p.logit F q k (rStart + r) (cStart + c) : K) : WithBot K) else ⊥) (cEnd - cStart) =
      runningMax (p.tileLogit F q k cStart (rStart + r)) (cEnd - cStart) :=
    runningMax_congr fun c hc => by rw [hvalid c (List.mem_range.mpr hc)]; rfl
  have hweight : ∀ M : K, ∀ c ∈ List.range (cEnd - cStart),
      (if kind.valid p.windowSize (rStart + r + p.qStartPos) (cStart + c) then
        F.exp (p.logit F q k (rStart + r) (cStart + c) - M) else 0) =
      F.rescale (p.tileLogit F q k cStart (rStart + r) c) M := fun M c hc => by
    rw [hvalid c hc, rescale_tileLogit]
  have hrescale : ∀ x alpha : K, (if alpha = 1 then x else x * alpha) = x * alpha := by
    intro x alpha
    split_ifs with h
    · rw [h, mul_one]
    · rfl
  unfold prefillRow flashRow
  simp only [hany, hmax, hrescale]
  split_ifs
  · rw [List.map_congr_left (hweight _)]
    congr 2
    funext d
    congr 2
    refine List.map_congr_left fun c hc => ?_
    rw [hweight _ c hc, rescale_tileLogit]
    by_cases hb : p.inBand (rStart + r + p.qStartPos) (cStart + c) = true
    · simp only [if_pos hb, if_neg (F.pos _).ne']
    · simp only [if_neg hb, if_true]
  · rfl

/-- The states of a tile are those of the plain kernel. -/
theorem prefillTile_eq (hstart : p.kvStart = 0) {br bc : ℕ} (hbc : 0 < bc) (i : ℕ) {r : ℕ}
    (hr : r < min (i * br + br) p.qLen - i * br) :
    prefillTile F q k v p p.windowSize br bc i r = flashTile F p q k v br bc i r := by
  unfold prefillTile flashTile
  simp only
  generalize hn : divCeil p.kvLen bc = n
  have hle : n ≤ divCeil p.kvLen bc := hn.ge
  clear hn
  induction n with
  | zero => rfl
  | succ t ih =>
    have hlt : t * bc < min (t * bc + bc) p.kvLen := by
      have hcover := congrArg List.length (range_tile (n := p.kvLen) (t := t) (by omega) hbc)
      have hnext : t * bc < p.kvLen := by
        by_contra hge
        unfold divCeil at hle
        have h := Nat.mul_le_mul_right bc hle
        have hd := Nat.div_mul_le_self (p.kvLen + bc - 1) bc
        rw [Nat.succ_mul] at h
        omega
      omega
    rw [List.range_succ, List.foldl_append, List.foldl_append, List.foldl_cons, List.foldl_nil,
      List.foldl_cons, List.foldl_nil]
    have hih := ih (by omega)
    have hskip : classifyTile (i * br) (min (i * br + br) p.qLen) (t * bc)
      (min (t * bc + bc) p.kvLen) p.qStartPos
        p.windowSize = .skip ↔
        p.skips (i * br) (min (i * br + br) p.qLen) (t * bc) (min (t * bc + bc) p.kvLen) = true :=
      classifyTile_skip hstart hlt
    rcases hkind : classifyTile (i * br) (min (i * br + br) p.qLen) (t * bc)
      (min (t * bc + bc) p.kvLen) p.qStartPos p.windowSize with _ | _ | _
    · rw [if_neg (by rw [← hskip, hkind]; simp)]
      simp only [if_pos hr]
      rw [prefillRow_eq hstart hkind (by simp) hr, hih]
    · rw [if_neg (by rw [← hskip, hkind]; simp)]
      simp only [if_pos hr]
      rw [prefillRow_eq hstart hkind (by simp) hr, hih]
    · rw [if_pos (hskip.mp hkind)]
      exact hih

theorem normalizeRow_eq {headDim : ℕ} (st : Acc K (Fin headDim)) :
    normalizeRow st = finishRow st := by
  funext x
  unfold normalizeRow finishRow
  split_ifs <;> simp

end Agrees

/-! ## The output -/

section Output

variable {F : FloatOps K} {a : ForwardArgs} {q k v : ℕ → K}

/-- The rows that a task writes: its query heads, its rows. -/
def taskRows (a : ForwardArgs) (br taskId : ℕ) : List (ℕ × ℕ) :=
  (List.range (a.nHeadsQ / a.nHeadsKv)).flatMap fun g =>
    (List.range (min (taskId / a.nHeadsKv * br + br) a.qLen - taskId / a.nHeadsKv * br)).map
      fun r => (g, r)

theorem prefillTileWorker_eq (plus1 br bc : ℕ) (out : ℕ → K) (taskId : ℕ) :
    prefillTileWorker F a q k v plus1 br bc out taskId = (taskRows a br taskId).foldl (fun out x =>
      place (normalizeRow (prefillTile F q k v
        (a.fullHead (taskId % a.nHeadsKv * (a.nHeadsQ / a.nHeadsKv) + x.1))
          (taskWindow plus1) br bc (taskId / a.nHeadsKv) x.2)) 0 out
        ((taskId / a.nHeadsKv * br + x.2) * a.outStride +
          (taskId % a.nHeadsKv * (a.nHeadsQ / a.nHeadsKv) + x.1) * a.headDim) a.headDim) out := by
  rw [taskRows, List.foldl_flatMap]
  simp only [List.foldl_map]
  unfold prefillTileWorker
  simp only
  split_ifs with h
  · have hz : min (taskId / a.nHeadsKv * br + br) a.qLen - taskId / a.nHeadsKv * br = 0 := by omega
    rw [hz]
    simp
  · rfl

theorem fullHead_eq (h : ragged a = false) (head : ℕ) : a.fullHead head = a.head head := by
  have hzero : (a.head head).kvStart = 0 := by
    unfold ragged at h
    change ((a.kvStart.map fun s => s.getD (a.kvHead head) 0).getD 0) = 0
    revert h
    rcases a.kvStart with _ | s <;> intro h
    · rfl
    · simp only [Option.any_some, List.any_eq_false, decide_eq_true_eq, not_lt, Nat.le_zero] at h
      change s.getD (a.kvHead head) 0 = 0
      rw [List.getD_eq_getElem?_getD]
      rcases hs : s[a.kvHead head]? with _ | x
      · rfl
      · exact h x (List.mem_of_getElem? hs)
  calc a.fullHead head = { a.head head with kvStart := (a.head head).kvStart } := by rw [hzero]
    _ = a.head head := rfl

theorem fullHead_row (hragged : ragged a = false) {br bc i r h : ℕ} (hbc : 0 < bc)
    (hr : r < min (i * br + br) a.qLen - i * br) (d : Fin a.headDim) :
    normalizeRow (prefillTile F q k v (a.fullHead h) a.windowSize br bc i r) d =
      (a.head h).attended F q k v (i * br + r) d := by
  have htile := prefillTile_eq (F := F) (p := a.fullHead h) (q := q) (k := k) (v := v) rfl hbc i hr
  have hsums := flashTile_sums (F := F) (p := a.fullHead h) (q := q) (k := k) (v := v) hbc i hr
  have hband : (a.fullHead h).band (i * br + r) = (a.head h).band (i * br + r) := by
    rw [fullHead_eq hragged]
  rw [normalizeRow_eq, htile, finishRow_eq hsums d, hband]
  rfl

theorem mem_taskRows {br taskId g r : ℕ} :
    (g, r) ∈ taskRows a br taskId ↔
      g < a.nHeadsQ / a.nHeadsKv ∧ r < min (taskId / a.nHeadsKv * br + br) a.qLen - taskId /
        a.nHeadsKv * br := by
  simp only [taskRows, List.mem_flatMap, List.mem_range, List.mem_map, Prod.mk.injEq]
  constructor
  · rintro ⟨g', hg, r', hr, rfl, rfl⟩
    exact ⟨hg, hr⟩
  · rintro ⟨hg, hr⟩
    exact ⟨g, hg, r, hr, rfl, rfl⟩

/-- **The tile kernel**, its tasks in any order. -/
theorem flashPrefillForwardF32Neon_row (F : FloatOps K) (a : ForwardArgs) (q k v : ℕ → K)
    (hkv : a.nHeadsKv ∣ a.nHeadsQ) (hragged : ragged a = false)
    (hwindow : ∀ w ∈ a.windowSize, w + 1 < 2 ^ 32) (hstride : a.nHeadsQ * a.headDim ≤ a.outStride)
    {order : List ℕ} (horder : order.Perm (List.range (prefillTasks a))) (out : ℕ → K) {h r : ℕ}
    (hh : h < a.nHeadsQ) (hr : r < a.qLen) (d : Fin a.headDim) :
    flashPrefillForwardF32Neon F a q k v order out (h * a.headDim + r * a.outStride + d) =
      (a.head h).attended F q k v r d := by
  obtain ⟨gqa, hgqa⟩ := hkv
  have hn : 0 < a.nHeadsKv := Nat.pos_of_ne_zero fun h0 =>
    by rw [hgqa, h0, Nat.zero_mul] at hh; exact Nat.not_lt_zero _ hh
  have hdiv : a.nHeadsQ / a.nHeadsKv = gqa := by rw [hgqa, Nat.mul_div_cancel_left _ hn]
  have hg : 0 < gqa := Nat.pos_of_ne_zero fun h0 =>
    by rw [hgqa, h0, Nat.mul_zero] at hh; exact Nat.not_lt_zero _ hh
  have hbr : 0 < (prefillTileSize a.headDim).1 := by unfold prefillTileSize; split_ifs <;> decide
  have hbc : 0 < (prefillTileSize a.headDim).2 := by unfold prefillTileSize; split_ifs <;> decide
  set br := (prefillTileSize a.headDim).1 with hbrdef
  set bc := (prefillTileSize a.headDim).2
  have hrmod : r / br * br + r % br = r := Nat.div_add_mod' r br
  have hrlt := Nat.mod_lt r hbr
  have hhmod : h / gqa * gqa + h % gqa = h := Nat.div_add_mod' h gqa
  have hhlt := Nat.mod_lt h hg
  have hkvH : h / gqa < a.nHeadsKv := Nat.div_lt_of_lt_mul (by rw [Nat.mul_comm, ← hgqa]; exact hh)
  have htile : r / br < divCeil a.qLen br := by
    obtain ⟨i, hi, r', hr', heq⟩ := (tile_iff hbr a.qLen r).mpr hr
    obtain ⟨rfl, -⟩ := block_inj (n := br) (a := i) (b := r / br) (i := r') (j := r % br)
      (by omega) hrlt (by omega)
    exact hi
  -- the task of the row's tile and the head's group, and where it finds them again
  set task := r / br * a.nHeadsKv + h / gqa with htask
  have htdiv : task / a.nHeadsKv = r / br := by
    rw [htask, Nat.mul_comm, Nat.mul_add_div hn, Nat.div_eq_of_lt hkvH, Nat.add_zero]
  have htmod : task % a.nHeadsKv = h / gqa := by
    rw [htask, Nat.mul_comm, Nat.mul_add_mod, Nat.mod_eq_of_lt hkvH]
  have htlt : task < prefillTasks a := by
    have := Nat.mul_le_mul_right a.nHeadsKv (Nat.succ_le_of_lt htile)
    rw [Nat.succ_mul] at this
    unfold prefillTasks
    rw [← hbrdef]
    omega
  -- a row that covers the cell is this row of this head
  have hcover : ∀ {t g' r'}, t ∈ order → (g', r') ∈ taskRows a br t →
      (t / a.nHeadsKv * br + r') * a.outStride + (t % a.nHeadsKv * gqa + g') * a.headDim ≤
        h * a.headDim + r * a.outStride + d →
      h * a.headDim + r * a.outStride + d <
        (t / a.nHeadsKv * br + r') * a.outStride + (t % a.nHeadsKv * gqa + g') *
          a.headDim + a.headDim →
      t = task ∧ g' = h % gqa ∧ r' = r % br := by
    intro t g' r' _ hmem h₁ h₂
    obtain ⟨hg', hr'⟩ := mem_taskRows.mp hmem
    rw [hdiv] at hg'
    have hhead : t % a.nHeadsKv * gqa + g' < a.nHeadsQ := by
      have hm := Nat.mod_lt t hn
      have := Nat.mul_le_mul_right gqa (Nat.succ_le_of_lt hm)
      rw [Nat.succ_mul] at this
      omega
    rw [Nat.add_comm ((t / a.nHeadsKv * br + r') * a.outStride)] at h₁ h₂
    obtain ⟨heq, hrow⟩ := head_cells hstride hh hhead d.2 rfl h₁ h₂
    obtain ⟨hq, rfl⟩ := block_inj (n := gqa) hg' hhlt (heq.trans hhmod.symm)
    obtain ⟨hrq, rfl⟩ := block_inj (n := br) (by omega) hrlt (hrow.trans hrmod.symm)
    refine ⟨?_, rfl, rfl⟩
    rw [← Nat.div_add_mod t a.nHeadsKv, hq, hrq, htask, Nat.mul_comm]
  refine Folds.foldl_only (fun out : ℕ → K => out (h * a.headDim + r * a.outStride + d)) (x := task)
    (horder.mem_iff.mpr (List.mem_range.mpr htlt)) (fun out => ?_) (fun t hmem hne out => ?_) out
  · have hmem : (h % gqa, r % br) ∈ taskRows a br task :=
      mem_taskRows.mpr ⟨by rw [hdiv]; exact hhlt, by rw [htdiv]; omega⟩
    have hd := d.2
    rw [prefillTileWorker_eq, hdiv,
      foldl_place_of_mem _ (fun _ => 0)
        (fun x : ℕ × ℕ => (task / a.nHeadsKv * br + x.2) * a.outStride +
          (task % a.nHeadsKv * gqa + x.1) * a.headDim) (fun _ => a.headDim) hmem
        (by simp only [htdiv, htmod, hrmod, hhmod]; omega)
          (by simp only [htdiv, htmod, hrmod, hhmod]; omega)]
    · have hpos : 0 + (h * a.headDim + r * a.outStride + (d : ℕ) -
        (r * a.outStride + h * a.headDim)) = (d : ℕ) := by
        omega
      have hval : ∀ x t, x = h → t = r / br →
          normalizeRow (prefillTile F q k v (a.fullHead x)
            (taskWindow (windowSizePlus1 a.windowSize)) br bc t (r % br)) d =
            (a.head h).attended F q k v r d := by
        rintro _ _ rfl rfl
        rw [taskWindow_windowSizePlus1 hwindow, fullHead_row hragged hbc (by omega) d, hrmod]
      have hcell := hval _ _ ((congrArg (· * gqa + h % gqa) htmod).trans hhmod) htdiv
      simp only [htdiv, htmod, hrmod, hhmod, hpos] at hcell ⊢
      exact hcell
    · rintro ⟨g', r'⟩ hmem' hne ⟨h₁, h₂⟩
      obtain ⟨-, rfl, rfl⟩ := hcover (horder.mem_iff.mpr (List.mem_range.mpr htlt)) hmem' h₁ h₂
      exact hne rfl
  · rw [prefillTileWorker_eq, hdiv]
    refine foldl_place_of_notMem _ (fun _ => 0)
      (fun x : ℕ × ℕ => (t / a.nHeadsKv * br + x.2) * a.outStride + (t % a.nHeadsKv * gqa + x.1) *
        a.headDim) (fun _ => a.headDim) ?_ out
    rintro ⟨g', r'⟩ hmem' ⟨h₁, h₂⟩
    exact hne (hcover hmem hmem' h₁ h₂).1

/-- Whichever kernel the machine and the shapes choose, and in whatever order its heads or tasks
run, each row of each head is the softmax average over the keys of its band. -/
theorem flashAttentionForward_row (F : FloatOps K) (a : ForwardArgs) (q k v : ℕ → K)
    (aarch64 : Bool) {br bc : ℕ} (hbr : 0 < br) (hbc : 0 < bc)
    (hwindow : ∀ w ∈ a.windowSize, w + 1 < 2 ^ 32) (hstride : a.nHeadsQ * a.headDim ≤ a.outStride)
    {heads tasks : List ℕ} (hheads : heads.Perm (List.range a.nHeadsQ))
    (htasks : tasks.Perm (List.range (prefillTasks a))) (out : ℕ → K) {h r : ℕ} (hh : h < a.nHeadsQ)
    (hr : r < a.qLen) (d : Fin a.headDim) :
    flashAttentionForward F a q k v aarch64 br bc heads tasks out
      (h * a.headDim + r * a.outStride + d) = (a.head h).attended F q k v r d := by
  unfold flashAttentionForward
  split_ifs with htakes
  · simp only [takesTiles, Bool.and_eq_true, Bool.not_eq_true', decide_eq_true_eq] at htakes
    exact flashPrefillForwardF32Neon_row F a q k v htakes.1.1.1.1.1.2 htakes.1.1.1.1.1.1.1.1.2
      hwindow hstride htasks out hh hr d
  · exact flashAttentionForwardStrided_row F a q k v hbr hbc hstride hheads out hh hr d

theorem cell_inside {n headDim stride qLen h r x : ℕ} (hstride : n * headDim ≤ stride)
    (hh : h < n) (hr : r < qLen) (h₁ : h * headDim + r * stride ≤ x)
    (h₂ : x < h * headDim + r * stride + headDim) :
    x / stride < qLen ∧ x % stride < n * headDim := by
  have hend := Nat.mul_le_mul_right headDim (Nat.succ_le_of_lt hh)
  rw [Nat.succ_mul] at hend
  obtain ⟨j, rfl⟩ := Nat.exists_eq_add_of_le (Nat.le_of_add_left_le h₁)
  have hj : j < n * headDim := by omega
  rw [RowMajor.div_row (hj.trans_le hstride), RowMajor.mod_row (hj.trans_le hstride)]
  exact ⟨hr, hj⟩

theorem flashAttentionForward_frame (F : FloatOps K) (a : ForwardArgs) (q k v : ℕ → K)
    (aarch64 : Bool) {br bc : ℕ} (hbr : 0 < br) (hstride : a.nHeadsQ * a.headDim ≤ a.outStride)
    {heads tasks : List ℕ} (hheads : heads.Perm (List.range a.nHeadsQ)) (out : ℕ → K) {p : ℕ}
    (hp : ¬ (p / a.outStride < a.qLen ∧ p % a.outStride < a.nHeadsQ * a.headDim)) :
    flashAttentionForward F a q k v aarch64 br bc heads tasks out p = out p := by
  unfold flashAttentionForward
  split_ifs with htakes
  · simp only [takesTiles, Bool.and_eq_true, Bool.not_eq_true', decide_eq_true_eq] at htakes
    obtain ⟨gqa, hgqa⟩ := htakes.1.1.1.1.1.2
    unfold flashPrefillForwardF32Neon
    refine List.foldlRecOn tasks _ (motive := fun out' : ℕ → K => out' p = out p)
      rfl fun out' hout t _ => ?_
    rw [prefillTileWorker_eq, foldl_place_of_notMem _ (fun _ => 0)
      (fun x : ℕ × ℕ => (t / a.nHeadsKv * (prefillTileSize a.headDim).1 + x.2) * a.outStride +
        (t % a.nHeadsKv * (a.nHeadsQ / a.nHeadsKv) + x.1) * a.headDim)
          (fun _ => a.headDim) ?_ out', hout]
    rintro ⟨g, r⟩ hmem ⟨h₁, h₂⟩
    obtain ⟨hg, hr⟩ := mem_taskRows.mp hmem
    have hn : 0 < a.nHeadsKv := Nat.pos_of_ne_zero fun h0 =>
      by rw [h0, Nat.div_zero] at hg; exact Nat.not_lt_zero _ hg
    have hdiv : a.nHeadsQ / a.nHeadsKv = gqa := by rw [hgqa, Nat.mul_div_cancel_left _ hn]
    simp only [hdiv] at hg h₁ h₂
    have hhead : t % a.nHeadsKv * gqa + g < a.nHeadsQ := by
      have hgroup := Nat.mul_le_mul_right gqa (Nat.succ_le_of_lt (Nat.mod_lt t hn))
      rw [Nat.succ_mul] at hgroup
      omega
    exact hp (cell_inside hstride hhead (r := t / a.nHeadsKv * (prefillTileSize a.headDim).1 + r)
      (by omega) (by omega) (by omega))
  · refine List.foldlRecOn heads _ (motive := fun out' : ℕ → K => out' p = out p)
      rfl fun out' hout h hh => ?_
    rw [flashAttentionHeadFrom_frame F (a.head h) q k v hbr out' fun r hr hcell =>
      hp (cell_inside hstride (List.mem_range.mp (hheads.mem_iff.mp hh)) hr hcell.1 hcell.2), hout]

/-- A buffer after a forward pass: the softmax averages in the rows of its heads, and the rest as it
was. -/
def attendedRows (F : FloatOps K) (a : ForwardArgs) (q k v out : ℕ → K) : ℕ → K := fun p =>
  if h : p / a.outStride < a.qLen ∧ p % a.outStride < a.nHeadsQ * a.headDim then
    (a.head (p % a.outStride / a.headDim)).attended F q k v (p / a.outStride)
      ⟨p % a.outStride % a.headDim, Nat.mod_lt _ (Nat.pos_of_ne_zero fun h0 => by simp [h0] at h)⟩
  else out p

/-- **The prefill kernels agree.** Whichever kernel the machine and the shapes choose, with whatever
tiles, and in whatever order its heads or tasks run, it writes the softmax averages to the rows of
its heads, and nothing else. -/
theorem flashAttentionForward_eq (F : FloatOps K) (a : ForwardArgs) (q k v : ℕ → K)
    (aarch64 : Bool) {br bc : ℕ} (hbr : 0 < br) (hbc : 0 < bc)
    (hwindow : ∀ w ∈ a.windowSize, w + 1 < 2 ^ 32) (hstride : a.nHeadsQ * a.headDim ≤ a.outStride)
    {heads tasks : List ℕ} (hheads : heads.Perm (List.range a.nHeadsQ))
    (htasks : tasks.Perm (List.range (prefillTasks a))) (out : ℕ → K) :
    flashAttentionForward F a q k v aarch64 br bc heads tasks out = attendedRows F a q k v out := by
  funext p
  unfold attendedRows
  split_ifs with hp
  · have hh : p % a.outStride / a.headDim < a.nHeadsQ :=
      Nat.div_lt_of_lt_mul (by rw [Nat.mul_comm]; exact hp.2)
    have hrow := fun d => flashAttentionForward_row F a q k v aarch64 hbr hbc hwindow hstride hheads
      htasks out hh hp.1 d
    have hcell : p = p % a.outStride / a.headDim * a.headDim + p / a.outStride * a.outStride +
        p % a.outStride % a.headDim := by
      have h₁ := Nat.div_add_mod' (p % a.outStride) a.headDim
      have h₂ := Nat.div_add_mod' p a.outStride
      omega
    conv_lhs => rw [hcell]
    exact hrow ⟨_, _⟩
  · exact flashAttentionForward_frame F a q k v aarch64 hbr hstride hheads out hp

end Output

/-- Two query heads on one KV head, two tiles of rows from position one on, a window of 64. -/
def windowedForward : ForwardArgs where
  nHeadsQ := 2
  nHeadsKv := 1
  qLen := 200
  kvLen := 201
  headDim := 8
  qStride := 16
  kStride := 8
  vStride := 8
  outStride := 16
  kvHeadStride := 1608
  qStartPos := 1
  windowSize := some 64
  kvStart := none

theorem flashAttentionForward_eq_windowed :
    takesTiles windowedForward true = true ∧
    flashAttentionForward FloatOps.real windowedForward (fun i => (i : ℝ)) (fun i => (i : ℝ))
        (fun i => (i : ℝ)) true 1 2 [1, 0] [1, 0] (fun _ => 0) =
      attendedRows FloatOps.real windowedForward (fun i => (i : ℝ)) (fun i => (i : ℝ))
        (fun i => (i : ℝ)) fun _ => 0 :=
  ⟨by decide, flashAttentionForward_eq FloatOps.real windowedForward (fun i => (i : ℝ))
    (fun i => (i : ℝ)) (fun i => (i : ℝ)) true Nat.one_pos Nat.two_pos (by decide) (by decide)
    (by decide) (by decide) fun _ => 0⟩

end ArgusEngine.Attn
