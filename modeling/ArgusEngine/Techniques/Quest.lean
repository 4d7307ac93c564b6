import Mathlib.Algebra.Order.BigOperators.Group.Finset
import Mathlib.Algebra.Order.Ring.Abs
import Mathlib.Data.List.GetD
import ArgusEngine.Lib.Folds
import ArgusEngine.Lib.Ranking

/-!
# Quest

The read stage of Quest keeps, for each page of the cache, the smallest and the largest value of
every channel of its keys. A query is bounded with them page by page, and the pages with the largest
bounds are read. The bounds are extended by the keys behind the last call, and built anew where the
cache has become shorter than it was then.

* `refreshMeta`, `pageScores`, `selectPages`, `readPlan`: the functions of the source, over exact
  arithmetic;
* `QuestEvent`, `QuestWorld`: a cache that changes between the calls;
* `Bounds`, `Selects`: what a call is to give;
* **`right_of_steady`**: it does in every run in which no key that a call has seen is replaced while
  the cache is at least as long at the next one.
-/

namespace ArgusEngine.Techniques

open Folds

/-! ## The stage -/

section Stage

variable {F : Type}

/-- The bounds of a page, channel by channel; `none` is the infinity that they start from. -/
structure PageMeta (F : Type) where
  min : List (Option F)
  max : List (Option F)

structure QuestState (F : Type) where
  pages : List (PageMeta F)
  covered : ℕ
  nKvHeads : ℕ
  headDim : ℕ

def QuestState.empty : QuestState F := ⟨[], 0, 0, 0⟩

structure Quest where
  pageSize : ℕ
  topKRatioDenom : ℕ

def Quest.new (pageSize topKRatioDenom : ℕ) : Quest := ⟨max pageSize 1, max topKRatioDenom 1⟩

def MIN_PAGES : ℕ := 4

def RECENT_WINDOW_PAGES : ℕ := 1

/-- What a call reads: a key by position, head and channel, a query by head and channel. -/
structure ReadCtx (F : Type) where
  currentPos : ℕ
  nKvHeads : ℕ
  headDim : ℕ
  key : Option (ℕ → ℕ → ℕ → F)
  query : Option (ℕ → ℕ → F)
  queryStats : Option (ℕ → ℕ → F)

/-- `div_ceil`. -/
def divCeil (a b : ℕ) : ℕ := if a % b = 0 then a / b else a / b + 1

variable [CommRing F] [LinearOrder F]

/-- A value of a channel. -/
def PageMeta.observe (i : ℕ) (v : F) (pm : PageMeta F) : PageMeta F :=
  ⟨pm.min.modify i (improve (· < ·) v), pm.max.modify i (improve (· > ·) v)⟩

/-- The key of a position, head by head. -/
def PageMeta.absorb (nKvHeads headDim : ℕ) (key : ℕ → ℕ → F) (pm : PageMeta F) : PageMeta F :=
  (List.range nKvHeads).foldl (fun pm h =>
    (List.range headDim).foldl (fun pm d => pm.observe (h * headDim + d) (key h d)) pm) pm

/-- The bounds of a page without keys. -/
def PageMeta.fresh (row : ℕ) : PageMeta F := ⟨List.replicate row none, List.replicate row none⟩

namespace Quest

variable (s : Quest)

/-- `refresh_meta`. -/
def refreshMeta (ctx : ReadCtx F) (st : QuestState F) : QuestState F :=
  let cur := ctx.currentPos
  let nKvHeads := max ctx.nKvHeads 1
  let headDim := ctx.headDim
  let row := nKvHeads * headDim
  let st := if cur < st.covered ∨ st.nKvHeads ≠ nKvHeads ∨ st.headDim ≠ headDim
    then ⟨[], 0, nKvHeads, headDim⟩ else st
  match ctx.key with
  | none => { st with covered := cur }
  | some key =>
    let nPages := divCeil cur s.pageSize
    let pages := if st.pages.length < nPages
      then st.pages ++ List.replicate (nPages - st.pages.length) (.fresh row) else st.pages
    let pages := (List.range' st.covered (cur - st.covered)).foldl (fun pages pos =>
      pages.modify (pos / s.pageSize) (.absorb nKvHeads headDim (key pos))) pages
    { st with pages := pages, covered := cur }

/-- The score of a page: the bound of the query, or the size of the channels. The bounds of a page
with a key are finite. -/
def pageScore (querySrc : Option (ℕ → ℕ → F)) (nKvHeads headDim : ℕ) (pm : PageMeta F) : F :=
  (List.range nKvHeads).foldl (fun s h =>
    let lo d := (pm.min.getD (h * headDim + d) none).getD 0
    let hi d := (pm.max.getD (h * headDim + d) none).getD 0
    match querySrc with
    | some q => (List.range headDim).foldl (fun s d => s + max (q h d * lo d) (q h d * hi d)) s
    | none => (List.range headDim).foldl (fun s d => s + max |lo d| |hi d|) s) 0

/-- `page_scores`. -/
def pageScores (ctx : ReadCtx F) (st : QuestState F) (nPages : ℕ) : List F :=
  let nKvHeads := max st.nKvHeads 1
  let headDim := st.headDim
  let row := nKvHeads * headDim
  if st.pages = [] ∨ row = 0 then List.replicate nPages 0
  else
    let querySrc := ctx.query.or ctx.queryStats
    (List.range nPages).map fun p => match (st.pages.take nPages)[p]? with
      | some pm => pageScore querySrc nKvHeads headDim pm
      | none => 0

/-- The order of the ranking: the larger score first, then the smaller page. -/
def ranks (scores : List F) (a b : ℕ) : Bool :=
  decide (scores.getD b 0 < scores.getD a 0) || decide (scores.getD a 0 = scores.getD b 0) &&
    decide (a ≤ b)

/-- The number of pages that are chosen by rank. -/
def topK (nPages : ℕ) : ℕ := min (max (nPages / s.topKRatioDenom) MIN_PAGES) nPages

/-- The pages that are chosen by rank. -/
def byRank (scores : List F) (nPages : ℕ) : List ℕ :=
  ((List.range nPages).mergeSort (ranks scores)).take (s.topK nPages)

/-- `select_pages`. -/
def selectPages (scores : List F) (nPages : ℕ) : Option (List ℕ) :=
  if nPages = 0 then none
  else if nPages ≤ s.topK nPages then none
  else
    let selected := (s.byRank scores nPages).foldl (fun b p => b.set p true)
      (List.replicate nPages false)
    let selected := selected.set 0 true
    let first := nPages - RECENT_WINDOW_PAGES
    let selected := (List.range' first (nPages - first)).foldl (fun b p => b.set p true) selected
    let select := (List.range nPages).filter fun p => selected.getD p false
    if nPages ≤ select.length then none else some select

/-- `read_plan`: the pages to read, of `page_size` positions each, and the state behind the call. -/
def readPlan (ctx : ReadCtx F) (st : QuestState F) : Option (List ℕ) × QuestState F :=
  let nPages := divCeil ctx.currentPos s.pageSize
  let st := s.refreshMeta ctx st
  if nPages ≤ MIN_PAGES then (none, st) else (s.selectPages (pageScores ctx st nPages) nPages, st)

end Quest

end Stage

/-! ## Runs -/

/-- What happens to the cache and to the stage. -/
inductive QuestEvent (F : Type) where
  | append (keys : List (ℕ → ℕ → F))
  /-- A compaction to the positions of `keep`. -/
  | compact (keep : ℕ → Bool)
  /-- A call of `read_plan`, with the signals it is shown. -/
  | call (query queryStats : Option (ℕ → ℕ → F))

/-- The keys of the cache, the state of the stage and the keys at its last call. -/
structure QuestWorld (F : Type) where
  keys : List (ℕ → ℕ → F)
  st : QuestState F
  called : List (ℕ → ℕ → F)

namespace QuestWorld

variable {F : Type} [CommRing F] [LinearOrder F] (s : Quest) (nKvHeads headDim : ℕ)

/-- What a call reads of the cache. -/
def ctx (w : QuestWorld F) (query queryStats : Option (ℕ → ℕ → F)) : ReadCtx F :=
  ⟨w.keys.length, nKvHeads, headDim, some fun pos => w.keys.getD pos fun _ _ =>
    0, query, queryStats⟩

def exec (w : QuestWorld F) : QuestEvent F → QuestWorld F
  | .append keys => { w with keys := w.keys ++ keys }
  | .compact keep => { w with keys := (w.keys.zipIdx.filter fun k => keep k.2).map Prod.fst }
  | .call query queryStats =>
    { w with st := (s.readPlan (w.ctx nKvHeads headDim query queryStats) w.st).2, called := w.keys }

def init : QuestWorld F := ⟨[], .empty, []⟩

def run (es : List (QuestEvent F)) : QuestWorld F := es.foldl (exec s nKvHeads headDim) init

/-- At a call the cache is shorter than at the last one, or its keys are still there in their
places. -/
def Steady (w : QuestWorld F) : QuestEvent F → Prop
  | .call _ _ => w.keys.length < w.called.length ∨ w.called <+: w.keys
  | _ => True

/-- The values of a channel in a page. -/
def channel (w : QuestWorld F) (p h d : ℕ) : Set F :=
  {v | ∃ pos, ∃ k, w.keys[pos]? = some k ∧ pos / s.pageSize = p ∧ v = k h d}

/-- The bounds that a call leaves are those of the keys of the cache, so that a query is bounded by
the score. -/
structure Bounds (w : QuestWorld F) (query queryStats : Option (ℕ → ℕ → F)) : Prop where
  pages : (s.readPlan (w.ctx nKvHeads headDim query queryStats) w.st).2.pages.length =
    divCeil w.keys.length s.pageSize
  least : ∀ p pm, (s.readPlan (w.ctx nKvHeads headDim query queryStats)
    w.st).2.pages[p]? = some pm → ∀ h < max nKvHeads 1, ∀ d < headDim, ∃ m,
    pm.min[h * headDim + d]? = some (some m) ∧ IsLeast (w.channel s p h d) m
  greatest : ∀ p pm, (s.readPlan (w.ctx nKvHeads headDim query queryStats)
    w.st).2.pages[p]? = some pm → ∀ h < max nKvHeads 1, ∀ d < headDim, ∃ m,
    pm.max[h * headDim + d]? = some (some m) ∧ IsGreatest (w.channel s p h d) m
  score : ∀ q, query.or queryStats = some q → ∀ pos k, w.keys[pos]? = some k →
    ∑ h ∈ Finset.range (max nKvHeads 1), ∑ d ∈ Finset.range headDim, q h d * k h d ≤
      (Quest.pageScores (w.ctx nKvHeads headDim query queryStats)
        (s.readPlan (w.ctx nKvHeads headDim query queryStats) w.st).2
        (divCeil w.keys.length s.pageSize)).getD (pos / s.pageSize) 0

/-- The pages that a call selects. -/
structure Selects (w : QuestWorld F) (query queryStats : Option (ℕ → ℕ → F))
    (select : List ℕ) : Prop where
  ascending : select.Pairwise (· < ·)
  inRange : ∀ p ∈ select, p < divCeil w.keys.length s.pageSize
  first : 0 ∈ select
  last : divCeil w.keys.length s.pageSize - 1 ∈ select
  outside : ∀ scores, scores = Quest.pageScores (w.ctx nKvHeads headDim query queryStats)
      (s.readPlan (w.ctx nKvHeads headDim query queryStats) w.st).2
        (divCeil w.keys.length s.pageSize) →
    ∀ p < divCeil w.keys.length s.pageSize, p ∉ select →
      ∀ p' ∈ s.byRank scores (divCeil w.keys.length s.pageSize), scores.getD p 0 ≤ scores.getD p' 0

/-- **What a call is to give.** -/
def Right (w : QuestWorld F) (query queryStats : Option (ℕ → ℕ → F)) : Prop :=
  Bounds s nKvHeads headDim w query queryStats ∧
    ∀ select, (s.readPlan (w.ctx nKvHeads headDim query queryStats) w.st).1 = some select →
      Selects s nKvHeads headDim w query queryStats select

end QuestWorld

/-! ## Pages -/

section Pages

variable {F : Type} [LinearOrder F]

theorem lt_divCeil {a b p : ℕ} (hb : 0 < b) : p < divCeil a b ↔ p * b < a := by
  have hdiv := Nat.div_add_mod' a b
  have hmod := Nat.mod_lt a hb
  have hmul : p < a / b → p * b + b ≤ a / b * b := fun h => by
    rw [← Nat.succ_mul]
    exact Nat.mul_le_mul_right b h
  have hle : a / b ≤ p → a / b * b ≤ p * b := fun h => Nat.mul_le_mul_right b h
  unfold divCeil
  split_ifs with h0
  · constructor
    · intro h
      have := hmul h
      omega
    · intro h
      by_contra hnot
      have := hle (by omega)
      omega
  · constructor
    · intro h
      rcases Nat.lt_succ_iff_lt_or_eq.mp h with h | rfl
      · have := hmul h
        omega
      · omega
    · intro h
      by_contra hnot
      have hmul' := Nat.mul_le_mul_right b (show a / b + 1 ≤ p by omega)
      rw [Nat.add_mul] at hmul'
      omega

theorem PageMeta.absorb_eq (nKvHeads headDim : ℕ) (key : ℕ → ℕ → F) (pm : PageMeta F) :
    pm.absorb nKvHeads headDim key = (List.range (nKvHeads * headDim)).foldl
      (fun pm i => pm.observe i (key (i / headDim) (i % headDim))) pm := by
  rw [← foldl_nest]
  unfold absorb
  refine List.foldl_ext _ _ _ fun pm h _ => List.foldl_ext _ _ _ fun pm d hd => ?_
  have hd := List.mem_range.mp hd
  rw [Nat.mul_add_mod_self_right, Nat.mod_eq_of_lt hd, Nat.add_comm,
    Nat.add_mul_div_right _ _ (by omega),
    Nat.div_eq_of_lt hd, Nat.zero_add]

theorem PageMeta.foldl_observe (v : ℕ → F) (n : ℕ) (pm : PageMeta F) {i : ℕ} (hi : i < n) :
    ((List.range n).foldl (fun pm i => pm.observe i (v i)) pm).min[i]? =
      pm.min[i]?.map (improve (· < ·) (v i)) ∧
      ((List.range n).foldl (fun pm i => pm.observe i (v i)) pm).max[i]? =
        pm.max[i]?.map (improve (· > ·) (v i)) := by
  have hsplit : ∀ n, ((List.range n).foldl (fun pm i => pm.observe i (v i)) pm).min =
        (List.range n).foldl (fun b i => b.modify i (improve (· < ·) (v i))) pm.min ∧
      ((List.range n).foldl (fun pm i => pm.observe i (v i)) pm).max =
        (List.range n).foldl (fun b i => b.modify i (improve (· > ·) (v i))) pm.max := by
    intro n
    induction n with
    | zero => exact ⟨rfl, rfl⟩
    | succ n ih =>
      rw [List.range_succ, List.foldl_append, List.foldl_append, List.foldl_append]
      exact ⟨congrArg (fun b => b.modify n (improve (· < ·) (v n))) ih.1,
        congrArg (fun b => b.modify n (improve (· > ·) (v n))) ih.2⟩
  rw [(hsplit n).1, (hsplit n).2]
  exact ⟨getElem?_foldl_range_modify hi, getElem?_foldl_range_modify hi⟩

theorem PageMeta.foldl_absorb {nKvHeads headDim : ℕ} (key : ℕ → ℕ → ℕ → F) (l : List ℕ)
    (pm : PageMeta F) {h d : ℕ} (hh : h < nKvHeads) (hd : d < headDim) :
    (l.foldl (fun pm pos => pm.absorb nKvHeads headDim (key pos)) pm).min[h * headDim + d]? =
        pm.min[h * headDim + d]?.map
          (fun o => l.foldl (fun o pos => improve (· < ·) (key pos h d) o) o) ∧
      (l.foldl (fun pm pos => pm.absorb nKvHeads headDim (key pos)) pm).max[h * headDim + d]? =
        pm.max[h * headDim + d]?.map
          (fun o => l.foldl (fun o pos => improve (· > ·) (key pos h d) o) o) := by
  have hi : h * headDim + d < nKvHeads * headDim := by
    have := Nat.mul_le_mul_right headDim (show h + 1 ≤ nKvHeads by omega)
    rw [Nat.succ_mul] at this
    omega
  have hdiv : (h * headDim + d) / headDim = h := by
    rw [Nat.add_comm, Nat.add_mul_div_right _ _ (by omega), Nat.div_eq_of_lt hd, Nat.zero_add]
  have hmod : (h * headDim + d) % headDim =
    d := by rw [Nat.mul_add_mod_self_right, Nat.mod_eq_of_lt hd]
  induction l generalizing pm with
  | nil => simp
  | cons pos l ih =>
    obtain ⟨hmin, hmax⟩ := foldl_observe (fun i => key pos (i / headDim) (i % headDim))
      (nKvHeads * headDim) pm hi
    rw [hdiv, hmod] at hmin hmax
    rw [List.foldl_cons, (ih _).1, (ih _).2, absorb_eq, hmin, hmax, Option.map_map, Option.map_map]
    exact ⟨rfl, rfl⟩

variable [CommRing F] (s : Quest) (nKvHeads headDim : ℕ)

/-- The bounds of page `p` of the keys. -/
def pageMeta (keys : List (ℕ → ℕ → F)) (p : ℕ) : PageMeta F :=
  ((List.range keys.length).filter (· / s.pageSize = p)).foldl (fun pm pos =>
    pm.absorb (max nKvHeads 1) headDim (keys.getD pos fun _ _ => 0))
      (.fresh (max nKvHeads 1 * headDim))

/-- The state that covers the keys. -/
def covering (keys : List (ℕ → ℕ → F)) : QuestState F :=
  ⟨(List.range (divCeil keys.length s.pageSize)).map (pageMeta s nKvHeads headDim keys),
    keys.length, max nKvHeads 1, headDim⟩

variable {s nKvHeads headDim}

theorem pageMeta_of_le (hs : 0 < s.pageSize) {keys : List (ℕ → ℕ → F)} {p : ℕ}
    (hp : divCeil keys.length s.pageSize ≤ p) :
    pageMeta s nKvHeads headDim keys p = .fresh (max nKvHeads 1 * headDim) := by
  have hnone : (List.range keys.length).filter (fun pos => decide (pos / s.pageSize = p)) = [] := by
    rw [List.filter_eq_nil_iff]
    intro pos hpos heq
    have heq := of_decide_eq_true heq
    have hlt : p < divCeil keys.length s.pageSize := by
      rw [lt_divCeil hs, ← heq]
      exact (Nat.div_mul_le_self _ _).trans_lt (List.mem_range.mp hpos)
    omega
  rw [pageMeta, hnone]
  rfl

variable (nKvHeads headDim) in
/-- **Extending the bounds** from a prefix of the keys to all of them. -/
theorem extend_covering (hs : 0 < s.pageSize) {old keys : List (ℕ → ℕ → F)} (h : old <+: keys) :
    (List.range' old.length (keys.length - old.length)).foldl
      (fun pages pos => pages.modify (pos / s.pageSize)
        (.absorb (max nKvHeads 1) headDim (keys.getD pos fun _ _ => 0)))
      (if (covering s nKvHeads headDim old).pages.length < divCeil keys.length s.pageSize
        then (covering s nKvHeads headDim old).pages ++
          List.replicate (divCeil keys.length s.pageSize -
            (covering s nKvHeads headDim old).pages.length) (.fresh (max nKvHeads 1 * headDim))
        else (covering s nKvHeads headDim old).pages) =
    (covering s nKvHeads headDim keys).pages := by
  have hlen := h.length_le
  have hpages : (covering s nKvHeads headDim old).pages.length =
    divCeil old.length s.pageSize := by simp [covering]
  have hmono : divCeil old.length s.pageSize ≤ divCeil keys.length s.pageSize := by
    by_contra hlt
    have := (lt_divCeil (a := old.length) hs).mp (Nat.lt_of_not_le hlt)
    have := (lt_divCeil (a := keys.length) hs (p := divCeil keys.length s.pageSize)).mpr (by omega)
    omega
  -- the pages before the loop: those of the old keys, and fresh ones
  have hbefore : (if (covering s nKvHeads headDim old).pages.length < divCeil keys.length s.pageSize
        then (covering s nKvHeads headDim old).pages ++
          List.replicate (divCeil keys.length s.pageSize -
            (covering s nKvHeads headDim old).pages.length) (.fresh (max nKvHeads 1 * headDim))
        else (covering s nKvHeads headDim old).pages) =
      (List.range (divCeil keys.length s.pageSize)).map (pageMeta s nKvHeads headDim old) := by
    rw [hpages]
    split_ifs with hlt
    · obtain ⟨k, hk⟩ := Nat.exists_eq_add_of_le hmono
      rw [hk, Nat.add_sub_cancel_left, List.range_add, List.map_append, List.map_map]
      refine congrArg _ (List.ext_getElem? fun i => ?_)
      by_cases hi : i < k
      · rw [List.getElem?_replicate, if_pos hi, List.getElem?_map, List.getElem?_range hi]
        exact congrArg some (pageMeta_of_le hs (Nat.le_add_right _ _)).symm
      · rw [List.getElem?_replicate, if_neg hi, List.getElem?_eq_none (by simpa using hi)]
    · rw [covering, show divCeil old.length s.pageSize = divCeil keys.length s.pageSize by omega]
  have hsame : ∀ pos < old.length, old.getD pos (fun _ _ => 0) = keys.getD pos fun _ _ =>
    (0 : F) := by
    intro pos hpos
    obtain ⟨t, rfl⟩ := h
    rw [List.getD_eq_getElem?_getD, List.getD_eq_getElem?_getD, List.getElem?_append_left hpos]
  rw [hbefore]
  refine List.ext_getElem? fun p => ?_
  rw [getElem?_foldl_modify, covering]
  by_cases hp : p < divCeil keys.length s.pageSize
  · rw [List.getElem?_map, List.getElem?_map, List.getElem?_range hp]
    refine congrArg some ?_
    have hrange : List.range keys.length = List.range old.length ++ List.range' old.length
      (keys.length - old.length) := by
      rw [List.range'_eq_map_range, ← List.range_add, Nat.add_sub_cancel' hlen]
    rw [pageMeta, pageMeta, hrange, List.filter_append, List.foldl_append]
    refine congrArg (fun pm => List.foldl _ pm _) (List.foldl_ext _ _ _ fun pm pos hpos => ?_)
    rw [hsame pos (List.mem_range.mp (List.mem_of_mem_filter hpos))]
  · rw [List.getElem?_eq_none (by simpa using hp), List.getElem?_eq_none (by simpa using hp)]
    rfl

/-- **`refresh_meta`** covers the keys, from a state that covers a prefix of them or is given up. -/
theorem refreshMeta_eq (hs : 0 < s.pageSize) (old : List (ℕ → ℕ → F)) {keys : List (ℕ → ℕ → F)}
    {st : QuestState F} {query queryStats : Option (ℕ → ℕ → F)}
    (h : st = covering s nKvHeads headDim old ∧ old <+: keys ∨
      (keys.length < st.covered ∨ st.nKvHeads ≠ max nKvHeads 1 ∨ st.headDim ≠ headDim)) :
    s.refreshMeta ⟨keys.length, nKvHeads, headDim, some fun pos => keys.getD pos fun _ _ => 0,
    query, queryStats⟩ st =
      covering s nKvHeads headDim keys := by
  have hnil : (⟨[], 0, max nKvHeads 1, headDim⟩ : QuestState F) =
    covering s nKvHeads headDim [] := by
    simp [covering, divCeil]
  have hfrom : ∃ old, old <+: keys ∧
      (if keys.length < st.covered ∨ st.nKvHeads ≠ max nKvHeads 1 ∨ st.headDim ≠ headDim
        then ⟨[], 0, max nKvHeads 1, headDim⟩ else st) = covering s nKvHeads headDim old := by
    split_ifs with hreset
    · exact ⟨[], List.nil_prefix, hnil⟩
    · obtain ⟨hst, hold⟩ := h.resolve_right hreset
      exact ⟨old, hold, hst⟩
  obtain ⟨from', hpre, hfrom⟩ := hfrom
  unfold Quest.refreshMeta
  dsimp only
  rw [hfrom]
  have hext := extend_covering nKvHeads headDim hs hpre
  rw [show (covering s nKvHeads headDim from').covered = from'.length from rfl, hext]
  rfl

end Pages

/-! ## Scores and selection -/

section Scores

variable {F : Type} [CommRing F] [LinearOrder F] {s : Quest}

theorem pageScore_eq (q : ℕ → ℕ → F) (nKvHeads headDim : ℕ) (pm : PageMeta F) :
    Quest.pageScore (some q) nKvHeads headDim pm = ∑ h ∈ Finset.range nKvHeads,
    ∑ d ∈ Finset.range headDim,
      max (q h d * (pm.min.getD (h * headDim + d) none).getD 0)
        (q h d * (pm.max.getD (h * headDim + d) none).getD 0) := by
  unfold Quest.pageScore
  dsimp only
  simp only [foldl_add, zero_add]

theorem mul_le_max [IsStrictOrderedRing F] {q lo hi k : F} (hlo : lo ≤ k) (hhi : k ≤ hi) :
    q * k ≤ max (q * lo) (q * hi) := by
  rcases le_total 0 q with hq | hq
  · exact le_max_of_le_right (mul_le_mul_of_nonneg_left hhi hq)
  · exact le_max_of_le_left (mul_le_mul_of_nonpos_left hlo hq)

theorem mem_selectPages {scores : List F} {nPages : ℕ} {select : List ℕ}
    (h : s.selectPages scores nPages = some select) : select.Pairwise (· < ·) ∧ 0 < nPages ∧
      ∀ p, p ∈ select ↔ p < nPages ∧ (p ∈ s.byRank scores nPages ∨ p = 0 ∨ p = nPages - 1) := by
  unfold Quest.selectPages at h
  split_ifs at h with h0 hall
  dsimp only at h
  split_ifs at h with hfull
  obtain rfl := Option.some.inj h
  refine ⟨List.pairwise_lt_range.filter _, by omega, fun p => ?_⟩
  rw [List.mem_filter, List.mem_range]
  refine and_congr_right fun hp => ?_
  have hlen : ((s.byRank scores nPages).foldl (fun b p => b.set p true)
    (List.replicate nPages false)).length = nPages := by
    rw [length_foldl_set, List.length_replicate]
  have hzero := getD_foldl_set (l := [0]) (p := p) (hlen.symm ▸ hp)
  have hrank := getD_foldl_set (l := s.byRank scores nPages) (b := List.replicate nPages false)
    (p := p) (by simpa using hp)
  have hrecent : p ∈ List.range' (nPages - RECENT_WINDOW_PAGES)
    (nPages - (nPages - RECENT_WINDOW_PAGES)) ↔
      p = nPages - 1 := by
    rw [List.mem_range'_1]
    unfold RECENT_WINDOW_PAGES
    omega
  rw [getD_foldl_set (by rw [List.length_set, hlen]; exact hp), hrecent]
  rw [List.foldl_cons, List.foldl_nil, List.mem_singleton] at hzero
  rw [hzero, hrank]
  have hnone : ¬ (List.replicate nPages false).getD p false = true := by
    rw [List.getD_eq_getElem?_getD, List.getElem?_replicate, if_pos hp]
    exact Bool.false_ne_true
  rw [or_iff_left hnone, or_comm, or_comm (a := p = 0), or_assoc]

/-- **The selection**: the pages that it leaves out do not score higher than those chosen by
rank. -/
theorem le_of_notMem_select {scores : List F} {nPages : ℕ} {select : List ℕ}
    (h : s.selectPages scores nPages = some select) {p p' : ℕ} (hp : p < nPages) (hout : p ∉ select)
    (hp' : p' ∈ s.byRank scores nPages) : scores.getD p 0 ≤ scores.getD p' 0 := by
  have hnot : p ∉ s.byRank scores nPages := fun hin =>
    hout ((mem_selectPages h).2.2 p |>.mpr ⟨hp, Or.inl hin⟩)
  have hmem : p ∈ (List.range nPages).mergeSort (Quest.ranks scores) := by
    rw [List.mem_mergeSort, List.mem_range]
    exact hp
  have hsorted : ((List.range nPages).mergeSort (Quest.ranks scores)).Pairwise fun a b =>
    Quest.ranks scores a b = true := by
    refine List.pairwise_mergeSort (fun a b c hab hbc => ?_) (fun a b => ?_) _
    · simp only [Quest.ranks, Bool.or_eq_true, Bool.and_eq_true, decide_eq_true_eq] at hab hbc ⊢
      rcases hab with hab | ⟨hab, hab'⟩ <;> rcases hbc with hbc | ⟨hbc, hbc'⟩
      · exact Or.inl (hbc.trans hab)
      · exact Or.inl (hbc ▸ hab)
      · exact Or.inl (hab ▸ hbc)
      · exact Or.inr ⟨hab.trans hbc, hab'.trans hbc'⟩
    · simp only [Quest.ranks, Bool.or_eq_true, Bool.and_eq_true, decide_eq_true_eq]
      rcases lt_trichotomy (scores.getD a 0) (scores.getD b 0) with hlt | heq | hgt
      · exact Or.inr (Or.inl hlt)
      · rcases Nat.le_total a b with hle | hle
        · exact Or.inl (Or.inr ⟨heq, hle⟩)
        · exact Or.inr (Or.inr ⟨heq.symm, hle⟩)
      · exact Or.inl (Or.inl hgt)
  rw [← List.take_append_drop (s.topK nPages)
    ((List.range nPages).mergeSort (Quest.ranks scores))] at hmem
  have hdrop := (List.mem_append.mp hmem).resolve_left hnot
  have hrank := Ranking.rel_of_take_of_drop hsorted hp' hdrop
  simp only [Quest.ranks, Bool.or_eq_true, Bool.and_eq_true, decide_eq_true_eq] at hrank
  rcases hrank with hlt | ⟨heq, -⟩
  · exact hlt.le
  · exact heq.ge

end Scores

/-! ## Calls -/

theorem Quest.readPlan_snd {F : Type} [CommRing F] [LinearOrder F] {s : Quest} {ctx : ReadCtx F}
    {st : QuestState F} : (s.readPlan ctx st).2 = s.refreshMeta ctx st := by
  unfold readPlan
  dsimp only
  split_ifs <;> rfl

namespace QuestWorld

variable {F : Type} [CommRing F] [LinearOrder F] {s : Quest} {nKvHeads headDim : ℕ}
  {w : QuestWorld F} {query queryStats : Option (ℕ → ℕ → F)}

/-- The stage has not been called, or it covers the keys of its last call. -/
def Inv (s : Quest) (nKvHeads headDim : ℕ) (w : QuestWorld F) : Prop :=
  w.st = .empty ∧ w.called = [] ∨ w.st = covering s nKvHeads headDim w.called

/-- **A steady call** covers the keys of the cache. -/
theorem Inv.call (h : Inv s nKvHeads headDim w) (hs : 0 < s.pageSize)
    (hsteady : Steady w (.call query queryStats)) :
    (s.readPlan (w.ctx nKvHeads headDim query queryStats) w.st).2 =
      covering s nKvHeads headDim w.keys := by
  rw [Quest.readPlan_snd]
  rcases h with ⟨hempty, -⟩ | hcov
  · refine refreshMeta_eq hs [] (Or.inr (Or.inr (Or.inl ?_)))
    rw [hempty]
    exact (Nat.lt_of_lt_of_le Nat.zero_lt_one (Nat.le_max_right _ _)).ne
  · rcases hsteady with hshrunk | hinit
    · refine refreshMeta_eq hs [] (Or.inr (Or.inl ?_))
      rw [hcov]
      exact hshrunk
    · exact refreshMeta_eq hs _ (Or.inl ⟨hcov, hinit⟩)

theorem Inv.exec (h : Inv s nKvHeads headDim w) (hs : 0 < s.pageSize) {e : QuestEvent F}
    (hsteady : Steady w e) : Inv s nKvHeads headDim (exec s nKvHeads headDim w e) := by
  cases e with
  | append keys => exact h
  | compact keep => exact h
  | call query queryStats => exact Or.inr (h.call hs hsteady)

omit [CommRing F] [LinearOrder F] in
theorem mem_page {p pos : ℕ} : pos ∈ (List.range w.keys.length).filter (· / s.pageSize = p) ↔
    pos < w.keys.length ∧ pos / s.pageSize = p := by
  simp

/-- **The bounds of the covered keys.** -/
theorem bounds_covering (hs : 0 < s.pageSize) {p : ℕ} {pm : PageMeta F}
    (hpm : (covering s nKvHeads headDim w.keys).pages[p]? = some pm) {h d : ℕ}
    (hh : h < max nKvHeads 1) (hd : d < headDim) :
    (∃ m, pm.min[h * headDim + d]? = some (some m) ∧ IsLeast (w.channel s p h d) m) ∧
      ∃ m, pm.max[h * headDim + d]? = some (some m) ∧ IsGreatest (w.channel s p h d) m := by
  obtain ⟨hp, rfl⟩ : p < divCeil w.keys.length s.pageSize ∧
    pageMeta s nKvHeads headDim w.keys p = pm := by
    obtain ⟨hlt, hget⟩ := List.getElem?_eq_some_iff.mp hpm
    have hlt' : p < divCeil w.keys.length s.pageSize := by simpa [covering] using hlt
    refine ⟨hlt', ?_⟩
    rw [← hget]
    simp [covering]
  have hne : (List.range w.keys.length).filter (fun pos => decide (pos / s.pageSize = p)) ≠ [] := by
    refine List.ne_nil_of_mem (a := p * s.pageSize) (mem_page.mpr ⟨(lt_divCeil hs).mp hp, ?_⟩)
    exact Nat.mul_div_cancel _ hs
  have hi : h * headDim + d < max nKvHeads 1 * headDim := by
    have := Nat.mul_le_mul_right headDim (show h + 1 ≤ max nKvHeads 1 by omega)
    rw [Nat.succ_mul] at this
    omega
  obtain ⟨hmin, hmax⟩ := PageMeta.foldl_absorb (fun pos => w.keys.getD pos fun _ _ => 0)
    ((List.range w.keys.length).filter (· / s.pageSize = p))
      (.fresh (max nKvHeads 1 * headDim)) hh hd
  have hval : ∀ pos ∈ (List.range w.keys.length).filter (fun pos => decide (pos / s.pageSize = p)),
      w.keys.getD pos (fun _ _ => 0) h d ∈ w.channel s p h d := by
    intro pos hpos
    obtain ⟨hlt, hpage⟩ := mem_page.mp hpos
    exact ⟨pos, w.keys[pos], List.getElem?_eq_getElem hlt, hpage,
      by rw [List.getD_eq_getElem _ _ hlt]⟩
  have hall : ∀ v ∈ w.channel s p h d, ∃ pos ∈ (List.range w.keys.length).filter
      (fun pos => decide (pos / s.pageSize = p)), v = w.keys.getD pos (fun _ _ => 0) h d := by
    rintro v ⟨pos, k, hk, hpage, rfl⟩
    obtain ⟨hlt, rfl⟩ := List.getElem?_eq_some_iff.mp hk
    exact ⟨pos, mem_page.mpr ⟨hlt, hpage⟩, by rw [List.getD_eq_getElem _ _ hlt]⟩
  constructor
  · obtain ⟨m, hm, ⟨pos, hpos, hmpos⟩, hbest⟩ := foldl_improve (· < ·) hne fun pos =>
      w.keys.getD pos (fun _ _ => 0) h d
    refine ⟨m, ?_, hmpos ▸ hval pos hpos, fun v hv => ?_⟩
    · refine hmin.trans ?_
      rw [PageMeta.fresh, List.getElem?_replicate, if_pos hi, Option.map_some, hm]
    · obtain ⟨pos', hpos', rfl⟩ := hall v hv
      exact not_lt.mp (hbest pos' hpos')
  · obtain ⟨m, hm, ⟨pos, hpos, hmpos⟩, hbest⟩ := foldl_improve (· > ·) hne fun pos =>
      w.keys.getD pos (fun _ _ => 0) h d
    refine ⟨m, ?_, hmpos ▸ hval pos hpos, fun v hv => ?_⟩
    · refine hmax.trans ?_
      rw [PageMeta.fresh, List.getElem?_replicate, if_pos hi, Option.map_some, hm]
    · obtain ⟨pos', hpos', rfl⟩ := hall v hv
      exact not_lt.mp (hbest pos' hpos')

/-- The score that a covered page has for a query. -/
theorem score_covering [IsStrictOrderedRing F] (hs : 0 < s.pageSize) {q : ℕ → ℕ → F}
    (hq : query.or queryStats = some q) {pos : ℕ} {k : ℕ → ℕ → F} (hk : w.keys[pos]? = some k) :
    ∑ h ∈ Finset.range (max nKvHeads 1), ∑ d ∈ Finset.range headDim, q h d * k h d ≤
      (Quest.pageScores (w.ctx nKvHeads headDim query queryStats)
        (covering s nKvHeads headDim w.keys) (divCeil w.keys.length s.pageSize)).getD
          (pos / s.pageSize) 0 := by
  have hlt := (List.getElem?_eq_some_iff.mp hk).1
  have hpage : pos / s.pageSize < divCeil w.keys.length s.pageSize :=
    (lt_divCeil hs).mpr ((Nat.div_mul_le_self _ _).trans_lt hlt)
  have hpm : (covering s nKvHeads headDim w.keys).pages[pos / s.pageSize]? =
      some (pageMeta s nKvHeads headDim w.keys (pos / s.pageSize)) := by
    rw [covering, List.getElem?_map, List.getElem?_range hpage]
    rfl
  have hheads : max (covering s nKvHeads headDim w.keys).nKvHeads 1 = max nKvHeads 1 :=
    max_eq_left (Nat.le_max_right nKvHeads 1)
  unfold Quest.pageScores
  dsimp only
  split_ifs with hempty
  · -- a row of no channels
    rcases hempty with hnil | hrow
    · rw [hnil] at hpm
      cases hpm
    · rw [hheads] at hrow
      have hpos : 0 < max nKvHeads 1 := Nat.lt_of_lt_of_le Nat.zero_lt_one (Nat.le_max_right _ _)
      have hdim : headDim = 0 := (Nat.mul_eq_zero.mp hrow).resolve_left hpos.ne'
      rw [List.getD_eq_getElem?_getD, List.getElem?_replicate, if_pos hpage, hdim]
      simp
  · have htake : ((covering s nKvHeads headDim w.keys).pages.take
      (divCeil w.keys.length s.pageSize))[pos / s.pageSize]? =
        some (pageMeta s nKvHeads headDim w.keys (pos / s.pageSize)) := by
      rw [List.getElem?_take, if_pos hpage, hpm]
    rw [List.getD_eq_getElem?_getD, List.getElem?_map, List.getElem?_range hpage,
      Option.map_some, htake, hheads]
    have hsrc : (w.ctx nKvHeads headDim query queryStats).query.or
      (w.ctx nKvHeads headDim query queryStats).queryStats =
        some q := hq
    rw [hsrc]
    refine le_of_le_of_eq ?_ (pageScore_eq q _ _ _).symm
    refine Finset.sum_le_sum fun h hh => Finset.sum_le_sum fun d hd => ?_
    obtain ⟨⟨lo, hlo, hleast⟩, hi, hhi, hgreatest⟩ :=
      bounds_covering hs hpm (Finset.mem_range.mp hh) (Finset.mem_range.mp hd)
    have hin : k h d ∈ w.channel s (pos / s.pageSize) h d := ⟨pos, k, hk, rfl, rfl⟩
    rw [List.getD_eq_getElem?_getD, List.getD_eq_getElem?_getD]
    change _ ≤ max (q h d *
      (((pageMeta s nKvHeads headDim w.keys (pos / s.pageSize)).min[h * headDim + d]?).getD
        none).getD 0)
      (q h d * (((pageMeta s nKvHeads headDim w.keys (pos / s.pageSize)).max[h * headDim + d]?).getD
        none).getD 0)
    rw [hlo, hhi]
    exact mul_le_max (hleast.2 hin) (hgreatest.2 hin)

/-- **A steady call gives what it is to give.** -/
theorem Inv.right [IsStrictOrderedRing F] (h : Inv s nKvHeads headDim w) (hs : 0 < s.pageSize)
    (hsteady : Steady w (.call query queryStats)) :
    Right s nKvHeads headDim w query queryStats := by
  have hst := h.call hs hsteady
  refine ⟨⟨?_, ?_, ?_, ?_⟩, fun select hselect => ?_⟩
  · rw [hst]
    simp [covering]
  · intro p pm hpm k hk d hd
    rw [hst] at hpm
    exact (bounds_covering hs hpm hk hd).1
  · intro p pm hpm k hk d hd
    rw [hst] at hpm
    exact (bounds_covering hs hpm hk hd).2
  · intro q hq pos k hk
    rw [hst]
    exact score_covering hs hq hk
  · have hsel : s.selectPages (Quest.pageScores (w.ctx nKvHeads headDim query queryStats)
        (s.readPlan (w.ctx nKvHeads headDim query queryStats) w.st).2
          (divCeil w.keys.length s.pageSize))
        (divCeil w.keys.length s.pageSize) = some select := by
      rw [Quest.readPlan_snd]
      unfold Quest.readPlan at hselect
      dsimp only at hselect
      by_cases hfew : divCeil (w.ctx nKvHeads headDim query queryStats).currentPos
        s.pageSize ≤ MIN_PAGES
      · rw [if_pos hfew] at hselect
        cases hselect
      · rw [if_neg hfew] at hselect
        exact hselect
    obtain ⟨hasc, hpos, hmem⟩ := mem_selectPages hsel
    refine ⟨hasc, fun p hp => ((hmem p).mp hp).1, (hmem 0).mpr ⟨hpos, Or.inr (Or.inl rfl)⟩,
      (hmem _).mpr ⟨by omega, Or.inr (Or.inr rfl)⟩, ?_⟩
    rintro scores rfl p hp hout p' hp'
    exact le_of_notMem_select hsel hp hout hp'

/-- **Every call of a run is right** if the keys that it has in common with the last call are in
their places, or the cache has become shorter. -/
theorem right_of_steady [IsStrictOrderedRing F] (pageSize topKRatioDenom nKvHeads headDim : ℕ)
    (es : List (QuestEvent F)) (query queryStats : Option (ℕ → ℕ → F))
    (hsteady : ∀ pre e post, es ++ [.call query queryStats] = pre ++ e :: post →
      Steady (run (Quest.new pageSize topKRatioDenom) nKvHeads headDim pre) e) :
    Right (Quest.new pageSize topKRatioDenom) nKvHeads headDim
      (run (Quest.new pageSize topKRatioDenom) nKvHeads headDim es) query queryStats := by
  have hs : 0 < (Quest.new pageSize topKRatioDenom).pageSize :=
    Nat.lt_of_lt_of_le Nat.zero_lt_one (Nat.le_max_right _ _)
  have hinv : Inv (Quest.new pageSize topKRatioDenom) nKvHeads headDim
      (run (F := F) (Quest.new pageSize topKRatioDenom) nKvHeads headDim es) := by
    have hinit : ∀ pre e post, es = pre ++ e :: post →
        Steady (run (Quest.new pageSize topKRatioDenom) nKvHeads headDim pre) e := by
      rintro pre e post rfl
      exact hsteady pre e (post ++ [.call query queryStats]) (by simp)
    clear hsteady
    induction es using List.reverseRecOn with
    | nil => exact Or.inl ⟨rfl, rfl⟩
    | append_singleton es e ih =>
      have hes := ih fun pre e' post h => hinit pre e' (post ++ [e]) (by rw [h]; simp)
      rw [run, List.foldl_append]
      exact hes.exec hs (hinit es e [] rfl)
  exact hinv.right hs (hsteady es _ [] rfl)

theorem forall_steady_cons {s : Quest} {nKvHeads headDim : ℕ} {w : QuestWorld F} {e : QuestEvent F}
    {es : List (QuestEvent F)} (he : Steady w e)
    (hes : ∀ pre e' post, es = pre ++ e' :: post →
      Steady (pre.foldl (exec s nKvHeads headDim) (exec s nKvHeads headDim w e)) e') :
    ∀ pre e' post, e :: es = pre ++ e' :: post →
    Steady (pre.foldl (exec s nKvHeads headDim) w) e' := by
  rintro (_ | ⟨a, pre⟩) e' post h
  · obtain ⟨rfl, -⟩ := List.cons.inj h
    exact he
  · obtain ⟨rfl, hrest⟩ := List.cons.inj h
    exact hes pre e' post hrest

/-- A key of one channel. -/
def keyOf (v : ℤ) : ℕ → ℕ → ℤ := fun _ _ => v

/-- Four calls, three of them by a query: on ten keys, on twelve, on the half of those and on two
more. None of them reads all pages unranked. -/
theorem right_appended :
    Right (Quest.new 1 8) 1 1
      (run (Quest.new 1 8) 1 1
        [.append ((List.range 10).map fun n => keyOf (5 - n)), .call none none,
        .append [keyOf 3, keyOf (-7)],
          .call (some (keyOf 2)) none, .compact fun pos => decide (pos % 2 = 0),
          .call none (some (keyOf (-1))), .append [keyOf 8, keyOf 1]])
            (some (keyOf (-3))) none := by
  refine right_of_steady 1 8 1 1 _ (some (keyOf (-3))) none
    (forall_steady_cons trivial
      (forall_steady_cons (Or.inr List.nil_prefix)
        (forall_steady_cons trivial
          (forall_steady_cons (Or.inr ⟨_, rfl⟩)
            (forall_steady_cons trivial
              (forall_steady_cons (Or.inl (by decide))
                (forall_steady_cons trivial (forall_steady_cons (Or.inr ⟨_, rfl⟩) ?_))))))))
  intro pre e' post h
  simp at h

/-- The key of a cache of one position replaced between two calls: the bounds are still those of the
old one. -/
theorem not_right_replaced : ¬ Right (Quest.new 1 1) 1 1
    (run (Quest.new 1 1) 1 1 [.append [keyOf 1], .call none none, .compact fun _ => false,
    .append [keyOf 2]]) none none := by
  intro h
  obtain ⟨m, hm, hleast⟩ := h.1.least 0 ⟨[some 1], [some 1]⟩ rfl 0 (by decide) 0 (by decide)
  obtain rfl : 1 = m := Option.some.inj (Option.some.inj hm)
  obtain ⟨pos, k, hk, -, hv⟩ := hleast.1
  have hkeys : [keyOf 2][pos]? = some k := hk
  obtain rfl : keyOf 2 = k := by
    cases pos with
    | zero => exact Option.some.inj hkeys
    | succ pos => cases hkeys
  exact absurd hv (by decide)

end QuestWorld

end ArgusEngine.Techniques
