import ArgusEngine.Kv.Append
import ArgusEngine.Kv.Transaction

/-!
# A committed keep is the naive gather

`keep` and `keep_per_head` accept strictly ascending lists of resident positions; committing one
compacts every head in place, right-aligned on the longest list. The result is what copying the kept
rows one by one into fresh buffers would give.

* `validateFrom_ok`, `keep_ok`, `keepPerHead_ok`: what the two calls accept;
* `gathers_commitPerHeadKeepAt`: the per-head loop, head after head, onto any cursor;
* **`commit_keepCall`**: acceptance and result of a keep, for every cache.
-/

namespace ArgusEngine

open FlatMem SlotMem KVCache

/-! ## What the calls accept -/

theorem foldl_max_le {l : List ℕ} {a n : ℕ} : l.foldl max a ≤ n ↔ a ≤ n ∧ ∀ x ∈ l, x ≤ n := by
  induction l generalizing a with
  | nil => simp
  | cons y l ih => rw [List.foldl_cons, ih]; simp [and_assoc]

namespace EngineCacheHandle

variable {P : Platform}

theorem validateFrom_ok (n : ℕ) (keep : List ℕ) : ∀ prev, validateFrom n prev keep = .ok () ↔
    (∀ p ∈ keep, p < n) ∧ keep.Pairwise (· < ·) ∧ ∀ q ∈ prev, ∀ p ∈ keep, q < p := by
  induction keep with
  | nil => intro prev; simp [validateFrom]
  | cons k ks ih =>
    intro prev
    have hany : (prev.any fun p => decide (k ≤ p)) = true ↔ ∃ q ∈ prev,
      k ≤ q := by cases prev <;> simp
    rw [validateFrom]
    by_cases h₁ : k ≥ n
    · rw [if_pos h₁]
      refine ⟨fun h => (by cases h), fun h => ?_⟩
      have := h.1 k List.mem_cons_self
      omega
    rw [if_neg h₁]
    by_cases h₂ : prev.any fun p => decide (k ≤ p)
    · rw [if_pos h₂]
      refine ⟨fun h => (by cases h), fun h => ?_⟩
      obtain ⟨q, hq, hle⟩ := hany.mp h₂
      have := h.2.2 q hq k List.mem_cons_self
      omega
    rw [if_neg h₂, ih]
    constructor
    · rintro ⟨hn, hp, hq⟩
      have hk : ∀ p ∈ ks, k < p := hq k rfl
      refine ⟨?_, List.pairwise_cons.mpr ⟨hk, hp⟩, ?_⟩
      · rintro p (_ | ⟨_, hp⟩)
        · omega
        · exact hn p hp
      · intro q hq p hp
        have hqk : q < k := by
          by_contra hle
          exact h₂ (hany.mpr ⟨q, hq, by omega⟩)
        rcases List.mem_cons.mp hp with rfl | hp
        · exact hqk
        · exact hqk.trans (hk p hp)
    · rintro ⟨hn, hp, -⟩
      rw [List.pairwise_cons] at hp
      refine ⟨fun p hp => hn p (List.mem_cons_of_mem _ hp), hp.2, ?_⟩
      rintro q ⟨⟩ p hp'
      exact hp.1 p hp'

theorem validateKeep_ok (h : EngineCacheHandle P) (keep : List ℕ) :
    h.validateKeep keep = .ok () ↔ (∀ p ∈ keep, p < h.entryPos) ∧ keep.Pairwise (· < ·) := by
  rw [validateKeep, validateFrom_ok]
  simp

theorem head?_lt_iff {keep : List ℕ} (h : keep.Pairwise (· < ·)) (n : ℕ) :
    (keep.head?.any fun p => decide (p < n)) = false ↔ ∀ p ∈ keep, n ≤ p := by
  cases keep with
  | nil => simp
  | cons k ks =>
    rw [List.pairwise_cons] at h
    simp only [List.head?_cons, Option.any_some, decide_eq_false_iff_not, Nat.not_lt, List.mem_cons,
      forall_eq_or_imp]
    refine ⟨fun hk => ⟨hk, fun p hp => ?_⟩, fun hk => hk.1⟩
    have := h.1 p hp
    omega

theorem keep_ok {c : KVCache} {l n : ℕ} {s : Option SwapHandler} (keep : List ℕ) :
    ((new c l n s : EngineCacheHandle P).keep keep).1 = .ok () ↔ keep.Pairwise (· < ·) ∧
      (∀ p ∈ keep, p < c.currentPos) ∧ ∀ h < c.kvHeads, ∀ p ∈ keep, c.headStartOf h ≤ p := by
  have hv := validateKeep_ok (new c l n s : EngineCacheHandle P) keep
  unfold EngineCacheHandle.keep
  cases hk : (new c l n s : EngineCacheHandle P).validateKeep keep with
  | error e =>
    rw [hk] at hv
    refine ⟨fun h => (by cases h), fun h => ?_⟩
    cases hv.mpr ⟨h.2.1, h.1⟩
  | ok u =>
    obtain ⟨hlt, hasc⟩ := hv.mp hk
    have hfloor : ∀ p, (new c l n s : EngineCacheHandle P).cache.headStarts.foldl max 0 ≤ p ↔
        ∀ h < c.kvHeads, c.headStartOf h ≤ p := by
      intro p
      rw [foldl_max_le]
      simp [headStarts, new]
    have hfirst := head?_lt_iff hasc
      ((new c l n s : EngineCacheHandle P).cache.headStarts.foldl max 0)
    simp only
    by_cases hr : c.isRagged = true
    · by_cases hb : (keep.head?.any fun p => decide
          (p < (new c l n s : EngineCacheHandle P).cache.headStarts.foldl max 0)) = true
      · rw [if_pos ⟨hr, hb⟩]
        refine ⟨fun h => (by cases h), fun h => ?_⟩
        rw [hfirst.mpr fun p hp => (hfloor p).mpr fun k hk => h.2.2 k hk p hp] at hb
        cases hb
      · rw [if_neg fun h => hb h.2]
        refine ⟨fun _ => ⟨hasc, hlt, fun k hk p hp => ?_⟩, fun _ => rfl⟩
        exact (hfloor p).mp (hfirst.mp (by simpa using hb) p hp) k hk
    · rw [if_neg fun h => hr h.1]
      refine ⟨fun _ => ⟨hasc, hlt, fun k _ p _ => ?_⟩, fun _ => rfl⟩
      rw [headStartOf_eq_zero (by simpa using hr)]
      exact Nat.zero_le p

theorem validateHeads_ok {h : EngineCacheHandle P} (heads : List (List ℕ)) : ∀ k,
    validateHeads h k heads = .ok () ↔ ∀ i (hi : i < heads.length),
      (∀ p ∈ heads[i], p < h.entryPos) ∧
      heads[i].Pairwise (· < ·) ∧ ∀ p ∈ heads[i], h.cache.headStartOf (k + i) ≤ p := by
  induction heads with
  | nil => intro k; simp [validateHeads]
  | cons head rest ih =>
    intro k
    -- the conditions of the first head and of the others
    have hsplit : (∀ i (hi : i < (head :: rest).length), (∀ p ∈ (head :: rest)[i], p < h.entryPos) ∧
        (head :: rest)[i].Pairwise (· < ·) ∧ ∀ p ∈ (head :: rest)[i],
          h.cache.headStartOf (k + i) ≤ p) ↔
        ((∀ p ∈ head, p < h.entryPos) ∧ head.Pairwise (· < ·) ∧ ∀ p ∈ head,
        h.cache.headStartOf k ≤ p) ∧ ∀ i (hi : i < rest.length), (∀ p ∈ rest[i], p < h.entryPos) ∧
        rest[i].Pairwise (· < ·) ∧
          ∀ p ∈ rest[i], h.cache.headStartOf (k + 1 + i) ≤ p := by
      constructor
      · intro hall
        refine ⟨hall 0 (Nat.succ_pos _), fun i hi => ?_⟩
        have := hall (i + 1) (Nat.succ_lt_succ hi)
        rwa [List.getElem_cons_succ, ← Nat.add_assoc, Nat.add_right_comm] at this
      · rintro ⟨h₀, hrest⟩ i hi
        cases i with
        | zero => exact h₀
        | succ i =>
          have := hrest i (Nat.lt_of_succ_lt_succ hi)
          rwa [Nat.add_right_comm, Nat.add_assoc] at this
    rw [hsplit, ← ih (k + 1), validateHeads]
    have hv := validateKeep_ok h head
    cases hk : h.validateKeep head with
    | error e =>
      rw [hk] at hv
      refine ⟨fun h => (by cases h), fun h => ?_⟩
      cases hv.mpr ⟨h.1.1, h.1.2.1⟩
    | ok u =>
      obtain ⟨hlt, hasc⟩ := hv.mp hk
      have hfirst := head?_lt_iff hasc (h.cache.headStartOf k)
      simp only
      split_ifs with hb
      · refine ⟨fun h => (by cases h), fun h => ?_⟩
        rw [hfirst.mpr h.1.2.2] at hb
        cases hb
      · exact ⟨fun hrest => ⟨⟨hlt, hasc, hfirst.mp (by simpa using hb)⟩, hrest⟩, fun h => h.2⟩

theorem equalLengths_iff (heads : List (List ℕ)) :
    equalLengths heads = true ↔ ∀ a ∈ heads, ∀ b ∈ heads, a.length = b.length := by
  induction heads with
  | nil => simp [equalLengths]
  | cons a rest ih =>
    cases rest with
    | nil => simp [equalLengths]
    | cons b rest =>
      rw [equalLengths, Bool.and_eq_true, decide_eq_true_eq, ih]
      constructor
      · rintro ⟨hab, hall⟩
        have hb : ∀ x ∈ a :: b :: rest, x.length = b.length := by
          rintro x (_ | ⟨_, hx⟩)
          · exact hab
          · exact hall x hx b List.mem_cons_self
        exact fun x hx y hy => (hb x hx).trans (hb y hy).symm
      · intro hall
        exact ⟨hall a List.mem_cons_self b (List.mem_cons_of_mem _ List.mem_cons_self),
          fun x hx y hy => hall x (List.mem_cons_of_mem _ hx) y (List.mem_cons_of_mem _ hy)⟩

theorem keepPerHead_ok {c : KVCache} {l n : ℕ} {s : Option SwapHandler} (heads : List (List ℕ)) :
    ((new c l n s : EngineCacheHandle P).keepPerHead heads).1 = .ok () ↔
      c.layout = .headMajor ∧ heads.length = c.kvHeads ∧
      (∀ i (hi : i < heads.length), (∀ p ∈ heads[i], p < c.currentPos) ∧ heads[i].Pairwise (· < ·) ∧
        ∀ p ∈ heads[i], c.headStartOf i ≤ p) ∧
      ((∀ a ∈ heads, ∀ b ∈ heads, a.length = b.length) ∨ c.supportsRagged = true) := by
  have hv := validateHeads_ok (h := (new c l n s : EngineCacheHandle P)) heads 0
  simp only [Nat.zero_add] at hv
  rw [← equalLengths_iff]
  unfold EngineCacheHandle.keepPerHead
  have hcache : (new c l n s : EngineCacheHandle P).cache = c := rfl
  rw [hcache] at hv ⊢
  by_cases h₁ : c.layout = .headMajor
  swap
  · rw [if_pos h₁]
    exact ⟨fun h => (by cases h), fun h => absurd h.1 h₁⟩
  by_cases h₂ : heads.length = c.kvHeads
  swap
  · rw [if_neg (not_not.mpr h₁), if_pos h₂]
    exact ⟨fun h => (by cases h), fun h => absurd h.2.1 h₂⟩
  rw [if_neg (not_not.mpr h₁), if_neg (not_not.mpr h₂)]
  cases hk : validateHeads (new c l n s : EngineCacheHandle P) 0 heads with
  | error e =>
    rw [hk] at hv
    refine ⟨fun h => (by cases h), fun h => ?_⟩
    cases hv.mpr h.2.2.1
  | ok u =>
    have hall := hv.mp hk
    simp only
    by_cases hb : (!equalLengths heads && !c.supportsRagged) = true
    · rw [if_pos hb]
      refine ⟨fun h => (by cases h), fun h => ?_⟩
      simp only [Bool.and_eq_true, Bool.not_eq_true'] at hb
      rcases h.2.2.2 with h | h
      · rw [hb.1] at h; cases h
      · rw [hb.2] at h; cases h
    · rw [if_neg hb]
      refine ⟨fun _ => ⟨h₁, h₂, hall, ?_⟩, fun _ => rfl⟩
      by_contra hne
      rw [not_or] at hne
      exact hb (by simp [hne.1, hne.2])

end EngineCacheHandle

/-! ## The committed cache -/

/-- `c'` holds in head `h` the rows of `c` at the positions `L h`, right-aligned on `n`. -/
structure Gathers (c c' : KVCache) (n : ℕ) (L : ℕ → List ℕ) : Prop where
  wf : c'.WF
  format : c'.format = c.format
  pos : c'.currentPos = n
  starts : ∀ h < c.kvHeads, c'.headStartOf h = n - (L h).length
  rows : ∀ x, ∀ h < c.kvHeads, ∀ i (hi : i < (L h).length),
    c'.rowsOf x h (n - (L h).length + i) = c.rowsOf x h (L h)[i]

section Commit

variable {c : KVCache}

theorem gathers_commitKeep (hc : c.WF) {keep : List ℕ} (hasc : keep.Pairwise (· < ·))
    (hlt : ∀ p ∈ keep, p < c.currentPos) : ∃ c', c.compactKeepPositions keep 0 = .ok c' ∧
      Gathers c (c'.setCurrentPos keep.length).clearHeadStarts keep.length fun _ => keep := by
  have hlen := length_le_of_pairwise hasc hlt
  have hpos := hc.pos
  have hR : ∃ c', c.compactKeepPositions keep 0 = .ok c' ∧
      Rewrites c c' fun _ f => (coalesce 0 keep).foldl move f := by
    cases keep with
    | nil => exact ⟨c, rfl, Rewrites.refl c⟩
    | cons p ps =>
      exact rewrites_compactKeepPositions hc
        (hc.opaque_headMajor (Nat.zero_lt_of_lt (hlt p List.mem_cons_self))) 0
        (fun p hp => (hlt p hp).trans_le hpos) (by omega)
  obtain ⟨c', hok, hR⟩ := hR
  have hwf := hR.wf hc
  have hrows := hR.rows
  obtain ⟨kb, vb, -, -, rfl⟩ := hR.frame
  obtain ⟨hp', hf', hr'⟩ := setCurrentPos_same (c.withContents kb vb) keep.length
  refine ⟨_, hok, ⟨?_, hf', hp', fun h _ => ?_, fun x h hh i hi => ?_⟩⟩
  · refine (hwf.setCurrentPos (hlen.trans hpos) fun ho hl => ?_).clearHeadStarts
    have := hc.seqMajor ho hl
    omega
  · exact (List.getD_nil ..).trans (Nat.sub_self _).symm
  · rw [Nat.sub_self, Nat.zero_add, ← gather_zero_apply hasc (c.rowsOf x h) hi,
      ← hrows x h hh, ← hr']
    cases x <;> rfl

/-- The loop of `commit_per_head_keep_at` over the heads from `k` on. -/
theorem rewrites_commitHeads (pos : ℕ) (heads : List (List ℕ)) : ∀ (k : ℕ) (c : KVCache), c.WF →
    c.layout = .headMajor → k + heads.length ≤ c.kvHeads → pos ≤ c.capacity →
    (∀ l ∈ heads, l.length ≤ pos ∧ ∀ p ∈ l, p < c.capacity) →
    ∃ c', (heads.zipIdx k).foldlM (fun (c : KVCache) kh =>
        c.compactKeepPositionsForHead kh.2 kh.1 (pos - kh.1.length)) c = .ok c' ∧
      Rewrites c c' fun h f => if h < k then f else
        (flushOrder (coalesce (pos - (heads.getD (h - k) []).length) (heads.getD (h - k) []))).foldl
          move f := by
  induction heads with
  | nil =>
    intro k c _ _ _ _ _
    refine ⟨c, rfl, (Rewrites.refl c).congr fun h f => ?_⟩
    split_ifs
    · rfl
    · rw [List.getD_nil]; rfl
  | cons l rest ih =>
    intro k c hc hl hk hpos hall
    obtain ⟨hlen, hlt⟩ := hall l List.mem_cons_self
    rw [List.length_cons] at hk
    obtain ⟨c₁, h₁, hR⟩ := rewrites_compactKeepPositionsForHead hc hl (show k < c.kvHeads by omega)
      (pos - l.length) hlt (by omega)
    have hwf := hR.wf hc
    obtain ⟨kb, vb, -, -, rfl⟩ := hR.frame
    obtain ⟨c₂, h₂, hR'⟩ := ih (k + 1) _ hwf hl (by simp only [withContents]; omega) hpos
      fun l hl => hall l (List.mem_cons_of_mem _ hl)
    refine ⟨c₂, ?_, (hR.trans hR').congr fun h f => ?_⟩
    · rw [List.zipIdx_cons, List.foldlM_cons, h₁]
      exact h₂
    · rcases Nat.lt_trichotomy h k with hlt | rfl | hgt
      · rw [if_neg hlt.ne, if_pos (by omega), if_pos hlt]
      · rw [if_pos rfl, if_pos (by omega), if_neg (by omega), Nat.sub_self]
        rfl
      · rw [if_neg hgt.ne', if_neg (by omega), if_neg (by omega),
          show h - k = h - (k + 1) + 1 by omega]
        rfl

/-- A committed per-head keep: every head right-aligned on the cursor `pos`, one that is asked for
or the longest head. -/
theorem gathers_commitPerHeadKeepAt (hc : c.WF) (hl : c.layout = .headMajor) {heads : List (List ℕ)}
    (hn : heads.length = c.kvHeads) (hasc : ∀ l ∈ heads, l.Pairwise (· < ·))
    (hlt : ∀ l ∈ heads, ∀ p ∈ l, p < c.currentPos) {cursor : Option ℕ} {pos : ℕ}
    (hcursor : cursor.getD ((heads.map List.length).foldl max 0) = pos)
    (hlong : (heads.map List.length).foldl max 0 ≤ pos) (hle : pos ≤ c.currentPos) :
    ∃ c', commitPerHeadKeepAt c heads cursor = .ok c' ∧ Gathers c c' pos fun h =>
      heads.getD h [] := by
  have hpos := hc.pos
  have hfit : ∀ l ∈ heads, l.length ≤ pos := fun l hl =>
    (foldl_max_le.mp hlong).2 _ (List.mem_map_of_mem hl)
  obtain ⟨c₁, hok, hR⟩ := rewrites_commitHeads pos heads 0 c hc hl (by omega) (by omega)
    fun l hl => ⟨hfit l hl, fun p hp => (hlt l hl p hp).trans_le hpos⟩
  have hwf := hR.wf hc
  have hrows := hR.rows
  obtain ⟨kb, vb, -, -, rfl⟩ := hR.frame
  obtain ⟨hp', hf', hr'⟩ := setCurrentPos_same (c.withContents kb vb) pos
  refine ⟨((c.withContents kb vb).setCurrentPos pos).setHeadStarts (heads.map fun h =>
    pos - h.length), ?_, ?_, hf', hp', fun h hh => ?_, fun x h hh i hi => ?_⟩
  · unfold commitPerHeadKeepAt
    cases cursor with
    | none =>
      simp only [Option.getD_none] at hcursor
      simp only [hcursor]
      rw [hok]
    | some cur =>
      simp only [Option.getD_some] at hcursor
      simp only [hcursor, if_pos (show pos ≥ (heads.map List.length).foldl max 0 ∧
        pos ≤ c.currentPos from ⟨hlong, hle⟩)]
      rw [hok]
  · refine (hwf.setCurrentPos (hle.trans hpos) fun ho hs => ?_).setHeadStarts _
    cases (show c.layout = .seqMajor from hs).symm.trans hl
  · have hh' : h < heads.length := hn ▸ hh
    have hmap : (heads.map fun l => pos - l.length).getD h 0 = pos - (heads.getD h []).length := by
      rw [List.getD_eq_getElem _ _ (by simpa using hh'), List.getD_eq_getElem _ _ hh',
        List.getElem_map]
    rw [headStartOf_setHeadStarts, hmap, hp']
    omega
  · have hh' : h < heads.length := hn ▸ hh
    have hget : heads.getD h [] = heads[h] := List.getD_eq_getElem _ _ hh'
    have hmem : heads.getD h [] ∈ heads := by rw [hget]; exact List.getElem_mem hh'
    have hrow := congrFun (hrows x h hh) (pos - (heads.getD h []).length + i)
    rw [if_neg (Nat.not_lt_zero h), Nat.sub_zero, gather_apply (hasc _ hmem) _ _ hi] at hrow
    rw [← hrow, ← hr']
    cases x <;> rfl

theorem longest_le {heads : List (List ℕ)} {n : ℕ} (hasc : ∀ l ∈ heads, l.Pairwise (· < ·))
    (hlt : ∀ l ∈ heads, ∀ p ∈ l, p < n) : (heads.map List.length).foldl max 0 ≤ n := by
  refine foldl_max_le.mpr ⟨Nat.zero_le _, fun n hn => ?_⟩
  obtain ⟨l, hl, rfl⟩ := List.mem_map.mp hn
  exact length_le_of_pairwise (hasc l hl) (hlt l hl)

theorem gathers_commitPerHeadKeep (hc : c.WF) (hl : c.layout = .headMajor) {heads : List (List ℕ)}
    (hn : heads.length = c.kvHeads) (hasc : ∀ l ∈ heads, l.Pairwise (· < ·))
    (hlt : ∀ l ∈ heads, ∀ p ∈ l, p < c.currentPos) : ∃ c', commitPerHeadKeep c heads = .ok c' ∧
      Gathers c c' ((heads.map List.length).foldl max 0) fun h => heads.getD h [] :=
  gathers_commitPerHeadKeepAt hc hl hn hasc hlt rfl le_rfl (longest_le hasc hlt)

end Commit

/-! ## Keep calls -/

/-- The two keep calls of the handle. -/
inductive KeepCall where
  | keep (positions : List ℕ)
  | keepPerHead (positions : List (List ℕ))

namespace KeepCall

/-- The call as a call of the handle. -/
def call {P : Platform} : KeepCall → HandleCall P
  | keep positions => .keep positions
  | keepPerHead positions => .keepPerHead positions

/-- Make the call. -/
def stage {P : Platform} (h : EngineCacheHandle P) (k : KeepCall) :
    Except CacheOpError Unit × EngineCacheHandle P := k.call.apply h

/-- The positions kept of head `h`. -/
def list : KeepCall → ℕ → List ℕ
  | keep positions, _ => positions
  | keepPerHead positions, h => positions.getD h []

/-- The length of the longest list. -/
def longest : KeepCall → ℕ
  | keep positions => positions.length
  | keepPerHead positions => (positions.map List.length).foldl max 0

/-- Ascending lists of positions resident in their head; lists of unequal lengths only where the
container holds a ragged geometry. -/
def Accepted (c : KVCache) : KeepCall → Prop
  | keep positions => positions.Pairwise (· < ·) ∧ (∀ p ∈ positions, p < c.currentPos) ∧
    ∀ h < c.kvHeads, ∀ p ∈ positions, c.headStartOf h ≤ p
  | keepPerHead positions => c.layout = .headMajor ∧ positions.length = c.kvHeads ∧
    (∀ h (hh : h < positions.length), (∀ p ∈ positions[h], p < c.currentPos) ∧
      positions[h].Pairwise (· < ·) ∧ ∀ p ∈ positions[h], c.headStartOf h ≤ p) ∧
    ((∀ a ∈ positions, ∀ b ∈ positions, a.length = b.length) ∨ c.supportsRagged = true)

theorem stage_ok {P : Platform} (c : KVCache) (layerIdx nLayers : ℕ) (swap : Option SwapHandler)
    (call : KeepCall) :
    (call.stage (EngineCacheHandle.new c layerIdx nLayers swap : EngineCacheHandle P)).1 =
      .ok () ↔ call.Accepted c := by
  cases call with
  | keep positions => exact EngineCacheHandle.keep_ok positions
  | keepPerHead positions => exact EngineCacheHandle.keepPerHead_ok positions

theorem gathers_commit {P : Platform} {c : KVCache} (hc : c.WF) (layerIdx nLayers : ℕ)
    (swap : Option SwapHandler) {call : KeepCall} (h : call.Accepted c) : ∃ c',
      (call.stage (EngineCacheHandle.new c layerIdx nLayers swap : EngineCacheHandle P)).2.commit =
        (.ok true, c', swap) ∧ Gathers c c' call.longest call.list := by
  have hst :
    (call.stage (EngineCacheHandle.new c layerIdx nLayers swap : EngineCacheHandle P)).2 = _ :=
    (HandleCall.apply_of_ok ((stage_ok c layerIdx nLayers swap call).mpr h)).1
  rw [hst]
  cases call with
  | keep positions =>
    obtain ⟨c', hok, hG⟩ := gathers_commitKeep hc h.1 h.2.1
    refine ⟨_, ?_, hG⟩
    simp only [KeepCall.call, HandleCall.staged, EngineCacheHandle.commit,
      EngineCacheHandle.commitValues, EngineCacheHandle.commitReencode,
      EngineCacheHandle.commitMerges, EngineCacheHandle.new,
      EngineCacheHandle.commitCompaction, hok]
  | keepPerHead positions =>
    have hall : ∀ l ∈ positions, l.Pairwise (· < ·) ∧ ∀ p ∈ l, p < c.currentPos := by
      intro l hl
      obtain ⟨i, hi, rfl⟩ := List.getElem_of_mem hl
      exact ⟨(h.2.2.1 i hi).2.1, (h.2.2.1 i hi).1⟩
    obtain ⟨c', hok, hG⟩ := gathers_commitPerHeadKeep hc h.1 h.2.1 (fun l hl => (hall l hl).1)
      fun l hl => (hall l hl).2
    refine ⟨c', ?_, hG⟩
    simp only [KeepCall.call, HandleCall.staged, EngineCacheHandle.commit,
      EngineCacheHandle.commitValues, EngineCacheHandle.commitReencode,
      EngineCacheHandle.commitMerges, EngineCacheHandle.new,
      EngineCacheHandle.commitCompaction, hok]

end KeepCall

/-- **A keep is accepted exactly when its lists are ascending and resident, and its commit is the
naive gather**: the cursor is the longest list, every head is right-aligned on it, and slot by slot
the rows are those the lists name. -/
theorem commit_keepCall (P : Platform) {c : KVCache} (hc : c.WF) (layerIdx nLayers : ℕ)
    (swap : Option SwapHandler) (call : KeepCall) :
    ((call.stage (EngineCacheHandle.new c layerIdx nLayers swap : EngineCacheHandle P)).1 = .ok () ↔
      call.Accepted c) ∧
    (call.Accepted c → ∃ c',
      (call.stage (EngineCacheHandle.new c layerIdx nLayers swap : EngineCacheHandle P)).2.commit =
        (.ok true, c', swap) ∧
      c'.currentPos = call.longest ∧
      c'.headStarts = (List.range c.kvHeads).map (fun h => call.longest - (call.list h).length) ∧
      ∀ x, ∀ h < c.kvHeads, ∀ i (hi : i < (call.list h).length),
        c'.readRow (c'.buffer x) (call.longest - (call.list h).length + i) h =
          c.readRow (c.buffer x) (call.list h)[i] h) := by
  refine ⟨KeepCall.stage_ok c layerIdx nLayers swap call, fun h => ?_⟩
  obtain ⟨c', hok, hG⟩ := KeepCall.gathers_commit (P := P) hc layerIdx nLayers swap h
  have hheads : c'.kvHeads = c.kvHeads := congrArg Format.kvHeads hG.format
  refine ⟨c', hok, hG.pos, ?_, fun x h' hh i hi => ?_⟩
  · unfold headStarts
    rw [hheads]
    exact List.map_congr_left fun h hh => hG.starts h (List.mem_range.mp hh)
  · -- the kept position is resident, and so is its slot
    have hlist : (call.list h').length ≤ call.longest ∧ ∀ p ∈ call.list h', p < c.currentPos := by
      cases call with
      | keep positions => exact ⟨le_rfl, h.2.1⟩
      | keepPerHead positions =>
        have hh' : h' < positions.length := h.2.1 ▸ hh
        simp only [KeepCall.list] at hi ⊢
        rw [List.getD_eq_getElem _ _ hh']
        exact ⟨(foldl_max_le.mp le_rfl).2 _ (List.mem_map_of_mem (List.getElem_mem hh')),
          (h.2.2.1 h' hh').1⟩
    rw [hG.wf.readRow x h' (by rw [hG.pos]; omega),
      hc.readRow x h' (hlist.2 _ (List.getElem_mem hi))]
    exact hG.rows x h' hh i hi

/-- A full HeadMajor F32 cache of two heads and three positions; head `1` starts at position `1`. -/
def raggedCache : KVCache :=
  { newWithGeometry (.host [1, 2, 3, 1] [1, 0, 0, 0, 2, 0, 0, 0, 3, 0, 0, 0, 9, 9, 9, 9, 5,
      0, 0, 0, 6, 0, 0, 0]) (.host [1, 2, 3, 1] (List.replicate 24 0)) 3 2 1 .headMajor with
    currentPos := 3
    highWaterPos := 3
    headStart := [0, 1] }

theorem raggedCache_wf : raggedCache.WF := by
  refine ⟨by decide, rfl, rfl, ?_, by decide, by decide, by decide, fun h => ?_, by decide⟩
  · rintro (_ | _) <;> decide
  · match h with
    | 0 | 1 => decide
    | h + 2 => exact Nat.zero_le _

/-- Two positions of head `0` and one of head `1` kept: head `1` moves up to slot `1`. -/
theorem commit_keepPerHead_ragged : ∃ c',
    ((KeepCall.keepPerHead [[0, 2], [2]]).stage
      (EngineCacheHandle.new raggedCache 0 1 none : EngineCacheHandle .fixedPoint)).2.commit =
        (.ok true, c', none) ∧ c'.headStarts = [0, 1] ∧
        c'.readRow c'.kBuffer 1 1 = [6, 0, 0, 0] := by
  obtain ⟨hiff, hcommit⟩ :=
    commit_keepCall .fixedPoint raggedCache_wf 0 1 none (.keepPerHead [[0, 2], [2]])
  obtain ⟨c', hok, -, hstarts, hrows⟩ := hcommit (hiff.mp (by decide))
  exact ⟨c', hok, hstarts, (hrows .key 1 (by decide) 0 (by decide)).trans (by decide)⟩

end ArgusEngine
