import Mathlib.Algebra.Notation.Defs
import Mathlib.Data.List.TakeWhile
import ArgusEngine.Kv.Tensor
import ArgusEngine.Lib.Checked

/-!
# The prompt attention

Row `q` of a layer holds one number for each cache slot of the prompt, the attention of query head
`q` to the key in that slot. A compaction renumbers the slots; `PrefillAttn.gather` rebuilds the
columns from the lists of kept positions and from the occupancy after the compaction.

* `gatherLayer`, `PrefillAttn.gather`: `none` where the capture cannot be carried;
* **`carried_of_gather`**: entry by entry, what a gathered layer holds.
-/

namespace ArgusEngine

open FlatMem

structure PrefillAttn (α : Type) where
  rows : List (List α)
  /-- The occupancy of the compaction the rows were carried through, until that compaction is
  seen. -/
  gatheredAt : Option ℕ
  deriving DecidableEq

namespace PrefillAttn

variable {α : Type}

def captured (rows : List (List α)) : PrefillAttn α := ⟨rows, none⟩

/-- `survives_shrink_to`: the answer, and the capture with the claim consumed. -/
def survivesShrinkTo (p : PrefillAttn α) (occupancy : ℕ) : Bool × PrefillAttn α :=
  (p.gatheredAt == some occupancy, { p with gatheredAt := none })

end PrefillAttn

/-- The kept positions below `prefixLen`: `partition_point` on an ascending list. -/
def promptPart (prefixLen : ℕ) (full : List ℕ) : List ℕ :=
  full.takeWhile fun p => decide (p < prefixLen)

section Gather

variable {α : Type} [Zero α]

/-- The new row of query head `q`: its kept columns, right-aligned. -/
def gatherHead (group prefixLen newPrefix : ℕ) (kept : List (List ℕ)) (row : List α) (q : ℕ) :
    Except Fail (List α) :=
  match kept[q / group]? with
  | none => .error (.panic "index out of bounds")
  | some list => .ok (List.replicate (newPrefix - list.length) 0 ++
      list.map fun p => (slice row (q * prefixLen) prefixLen).getD p 0)

/-- One layer of `gather`. -/
def gatherLayer (occupancy nHeadsQ nKvHeads group : ℕ) (keep : ℕ → Option (List ℕ)) (row : List α) :
    Except Fail (Option (List α)) :=
  let prefixLen := row.length / max nHeadsQ 1
  if prefixLen = 0 then .ok none
  else match (List.range nKvHeads).mapM keep with
    | none => .ok none
    | some fulls =>
      let kept := fulls.map (promptPart prefixLen)
      let tails := fulls.map fun full => full.length - (promptPart prefixLen full).length
      match tails.head? with
      | none => .error (.panic "index out of bounds")
      | some tail =>
        if occupancy < tail then .ok none
        else
          let newPrefix := occupancy - tail
          if newPrefix = 0 ∨ (tails.any fun t => t != tail) ∨
            (kept.any fun k => decide (k.length > newPrefix)) then
            .ok none
          else do
            let next ← (List.range nHeadsQ).mapM (gatherHead group prefixLen newPrefix kept row)
            return some next.flatten

/-- The loop of `gather` over the layers from `layer` on; a layer that cannot be carried ends it. -/
def gatherLayers (occupancy nHeadsQ nKvHeads group : ℕ) (keep : ℕ → ℕ → Option (List ℕ)) :
    ℕ → List (List α) → Except Fail (Option (List (List α)))
  | _, [] => .ok (some [])
  | layer, row :: rows => do
    match ← gatherLayer occupancy nHeadsQ nKvHeads group (keep layer) row with
    | none => return none
    | some next =>
      match ← gatherLayers occupancy nHeadsQ nKvHeads group keep (layer + 1) rows with
      | none => return none
      | some out => return some (next :: out)

/-- `gather`: the capture in the numbering after a compaction that left `occupancy` slots. -/
def PrefillAttn.gather (p : PrefillAttn α) (occupancy nHeadsQ nKvHeads : ℕ)
    (keep : ℕ → ℕ → Option (List ℕ)) : Except Fail (Option (PrefillAttn α)) :=
  let group := nHeadsQ / nKvHeads
  -- a division by no heads is no group either
  if group = 0 then .ok none
  else do
    let out ← gatherLayers occupancy nHeadsQ nKvHeads group keep 0 p.rows
    return out.map fun rows => ⟨rows, some occupancy⟩

end Gather

/-! ## What is gathered -/

/-- `next` is the row of a layer carried through the lists `keep h`: slots `newPrefix` wide, the
kept prompt positions of each head right-aligned in front of a tail that all heads share. -/
structure CarriedRow {α : Type} [Zero α] (occupancy nHeadsQ nKvHeads : ℕ)
    (keep : ℕ → Option (List ℕ)) (row next : List α) (newPrefix : ℕ) : Prop where
  pos : 0 < newPrefix
  length : next.length = nHeadsQ * newPrefix
  lists : ∀ h < nKvHeads, ∃ full, keep h = some full ∧ full.length ≤ occupancy ∧
    occupancy = newPrefix + (full.length - (promptPart (row.length / nHeadsQ) full).length) ∧
    (promptPart (row.length / nHeadsQ) full).length ≤ newPrefix
  head : ∀ q < nHeadsQ, q / (nHeadsQ / nKvHeads) < nKvHeads
  entry : ∀ q < nHeadsQ, ∀ full, keep (q / (nHeadsQ / nKvHeads)) = some full → ∀ j < newPrefix,
    let prompt := promptPart (row.length / nHeadsQ) full
    next.getD (q * newPrefix + j) 0 = if j < newPrefix - prompt.length then 0
      else row.getD (q * (row.length / nHeadsQ) + prompt.getD (j - (newPrefix - prompt.length)) 0) 0

theorem mapM_range_eq_some {β : Type} {f : ℕ → Option β} {n : ℕ} {bs : List β}
    (h : (List.range n).mapM f = some bs) : bs.length = n ∧ ∀ i < n, f i = bs[i]? := by
  have hmap := (Checked.some_mapM.mp h).symm
  have hlen : bs.length = n := by simpa using congrArg List.length hmap
  refine ⟨hlen, fun i hi => ?_⟩
  have hget := congrArg (fun l => l[i]?) hmap
  simp only [List.getElem?_map, List.getElem?_range hi, Option.map_some] at hget
  cases hb : bs[i]? with
  | none => rw [hb] at hget; cases hget
  | some b =>
    rw [hb] at hget
    exact (Option.some.inj hget).symm

section Carry

variable {α : Type} [Zero α] {occupancy nHeadsQ nKvHeads : ℕ}

theorem lt_of_mem_promptPart {prefixLen p : ℕ} {full : List ℕ} (h : p ∈ promptPart prefixLen full) :
    p < prefixLen := by
  simpa using List.mem_takeWhile_imp h

theorem ok_gatherHead {group W N q : ℕ} {kept : List (List ℕ)} {row chunk : List α}
    (h : gatherHead group W N kept row q = .ok chunk) : ∃ list, kept[q / group]? = some list ∧
      (list.length ≤ N → chunk.length = N) ∧ ∀ j < N, (∀ p ∈ list, p < W) → list.length ≤ N →
        chunk.getD j 0 = if j < N - list.length then 0
          else row.getD (q * W + list.getD (j - (N - list.length)) 0) 0 := by
  unfold gatherHead at h
  split at h
  · cases h
  rename_i list hlist
  cases h
  refine ⟨list, hlist, fun hle => ?_, fun j hj hlt hle => ?_⟩
  · rw [List.length_append, List.length_replicate, List.length_map]
    omega
  rw [List.getD_eq_getElem?_getD]
  split_ifs with hstart
  · rw [List.getElem?_append_left (by rwa [List.length_replicate]), List.getElem?_replicate,
      if_pos hstart]
    rfl
  · have hin : j - (N - list.length) < list.length := by omega
    have hp := hlt _ (List.getElem_mem hin)
    rw [List.getElem?_append_right (by rw [List.length_replicate]; omega), List.length_replicate,
      List.getElem?_map, List.getElem?_eq_getElem hin, Option.map_some, Option.getD_some,
      List.getD_eq_getElem?_getD, getElem?_slice, if_pos hp, List.getD_eq_getElem _ _ hin,
      List.getD_eq_getElem?_getD]

/-- **A layer that is gathered.** -/
theorem carried_gatherLayer {keep : ℕ → Option (List ℕ)} {row next : List α}
    (h : gatherLayer occupancy nHeadsQ nKvHeads (nHeadsQ / nKvHeads) keep row = .ok (some next))
    (hgroup : nHeadsQ / nKvHeads ≠ 0) :
    ∃ newPrefix, CarriedRow occupancy nHeadsQ nKvHeads keep row next newPrefix := by
  have hq : 0 < nHeadsQ := Nat.pos_of_ne_zero fun h0 => hgroup (by rw [h0, Nat.zero_div])
  unfold gatherLayer at h
  rw [Nat.max_eq_left hq] at h
  simp only at h
  split_ifs at h with hW0
  · cases h
  split at h
  · cases h
  rename_i fulls hfulls
  obtain ⟨hlen, hget⟩ := mapM_range_eq_some hfulls
  split at h
  · cases h
  rename_i tail htail
  split_ifs at h with hocc hbad
  · cases h
  · cases h
  obtain ⟨chunks, hchunks, h⟩ := Checked.ok_bind.mp h
  cases h
  simp only [not_or, List.any_map, List.any_eq_true, Function.comp_apply, not_exists, not_and,
    decide_eq_true_eq, bne_iff_ne, ne_eq, not_not, Nat.not_lt] at hbad
  obtain ⟨hpos, htails, hkept⟩ := hbad
  have hall := Checked.ok_mapM.mp hchunks
  have hcount : chunks.length = nHeadsQ := hall.length_eq.symm.trans List.length_range
  -- the chunk of head `q` comes from the list of its KV head
  have hchunk : ∀ q < nHeadsQ, ∃ full, fulls[q / (nHeadsQ / nKvHeads)]? = some full ∧
      (chunks.getD q []).length = occupancy - tail ∧ ∀ j < occupancy - tail,
        let prompt := promptPart (row.length / nHeadsQ) full
        (chunks.getD q []).getD j 0 = if j < occupancy - tail - prompt.length then 0
          else row.getD (q * (row.length / nHeadsQ) +
            prompt.getD (j - (occupancy - tail - prompt.length)) 0) 0 := by
    intro q hq
    have hone := hall.get (by rw [List.length_range]; exact hq) (hcount ▸ hq)
    rw [List.get_eq_getElem, List.get_eq_getElem, List.getElem_range] at hone
    obtain ⟨list, hlist, hsize, hentry⟩ := ok_gatherHead hone
    rw [List.getElem?_map] at hlist
    obtain ⟨full, hfull, rfl⟩ := Option.map_eq_some_iff.mp hlist
    have hshort := hkept full (List.mem_of_getElem? hfull)
    rw [List.getD_eq_getElem _ _ (hcount ▸ hq)]
    exact ⟨full, hfull, hsize hshort, fun j hj =>
      hentry j hj (fun p hp => lt_of_mem_promptPart hp) hshort⟩
  have hflat : chunks.flatten = (List.range nHeadsQ).flatMap fun q => chunks.getD q [] := by
    rw [List.flatMap_def]
    congr 1
    refine List.ext_getElem (by simp [hcount]) fun i h₁ h₂ => ?_
    rw [List.getElem_map, List.getElem_range, List.getD_eq_getElem _ _ h₁]
  have hsizes : ∀ q < nHeadsQ, (chunks.getD q []).length = occupancy - tail := by
    intro q hq
    obtain ⟨full, -, hsize, -⟩ := hchunk q hq
    exact hsize
  rw [hflat]
  refine ⟨occupancy - tail, by omega, length_flatMap_range hsizes, fun k hk => ?_, fun q hq => ?_,
    fun q hq full hfull j hj => ?_⟩
  · have hkeep := hget k hk
    rw [List.getElem?_eq_getElem (hlen ▸ hk)] at hkeep
    have hmem : fulls[k] ∈ fulls := List.getElem_mem _
    have ht := htails _ hmem
    have hs := hkept _ hmem
    exact ⟨_, hkeep, by omega, by omega, hs⟩
  · obtain ⟨full, hfull, -⟩ := hchunk q hq
    exact hlen ▸ (List.getElem?_eq_some_iff.mp hfull).1
  · obtain ⟨full', hfull', -, hentry⟩ := hchunk q hq
    have hkv := hlen ▸ (List.getElem?_eq_some_iff.mp hfull').1
    obtain rfl : full' = full := Option.some.inj (hfull'.symm.trans ((hget _ hkv).symm.trans hfull))
    have hslice := slice_flatMap_range hsizes hq
    have hj' := congrArg (fun l => l[j]?) hslice
    simp only [getElem?_slice, if_pos hj] at hj'
    simp only
    rw [List.getD_eq_getElem?_getD, hj', ← List.getD_eq_getElem?_getD]
    exact hentry j hj

theorem carried_gatherLayers {keep : ℕ → ℕ → Option (List ℕ)} (hgroup : nHeadsQ / nKvHeads ≠ 0) :
    ∀ (rows : List (List α)) (layer : ℕ) {out : List (List α)},
      gatherLayers occupancy nHeadsQ nKvHeads (nHeadsQ / nKvHeads) keep layer rows =
      .ok (some out) → out.length = rows.length ∧ ∀ l row next, rows[l]? = some row →
      out[l]? = some next → ∃ newPrefix,
        CarriedRow occupancy nHeadsQ nKvHeads (keep (layer + l)) row next newPrefix := by
  intro rows
  induction rows with
  | nil =>
    intro layer out h
    cases h
    exact ⟨rfl, fun l row next hrow => by simp at hrow⟩
  | cons row rows ih =>
    intro layer out h
    obtain ⟨first, hfirst, h⟩ := Checked.ok_bind.mp h
    cases first with
    | none => cases h
    | some next =>
      obtain ⟨rest, hrest, h⟩ := Checked.ok_bind.mp h
      cases rest with
      | none => cases h
      | some out' =>
        cases h
        obtain ⟨hlen, hall⟩ := ih (layer + 1) hrest
        refine ⟨by rw [List.length_cons, List.length_cons, hlen], fun l row' next' hrow hnext => ?_⟩
        cases l with
        | zero =>
          cases hrow
          cases hnext
          exact carried_gatherLayer hfirst hgroup
        | succ l =>
          rw [show layer + (l + 1) = layer + 1 + l by omega]
          exact hall l row' next' hrow hnext

/-- **What a gathered capture holds**, layer by layer. -/
theorem carried_of_gather {p out : PrefillAttn α} {keep : ℕ → ℕ → Option (List ℕ)}
    (h : p.gather occupancy nHeadsQ nKvHeads keep = .ok (some out)) :
    out.rows.length = p.rows.length ∧
      nHeadsQ / nKvHeads ≠ 0 ∧ ∀ l row next, p.rows[l]? = some row →
      out.rows[l]? = some next → ∃ newPrefix,
        CarriedRow occupancy nHeadsQ nKvHeads (keep l) row next newPrefix := by
  unfold PrefillAttn.gather at h
  simp only at h
  split_ifs at h with hgroup
  · cases h
  obtain ⟨rows, hrows, h⟩ := Checked.ok_bind.mp h
  cases rows with
  | none => cases h
  | some rows =>
    cases h
    obtain ⟨hlen, hall⟩ := carried_gatherLayers hgroup p.rows 0 hrows
    exact ⟨hlen, hgroup, fun l row next hrow hnext => Nat.zero_add l ▸ hall l row next hrow hnext⟩

/-- **A gather that fails panics.** -/
theorem panic_of_gather {p : PrefillAttn α} {keep : ℕ → ℕ → Option (List ℕ)} {e : Fail}
    (h : p.gather occupancy nHeadsQ nKvHeads keep = .error e) : ∃ text, e = .panic text := by
  have hlayer : ∀ {keep : ℕ → Option (List ℕ)} {row : List α} {e : Fail},
      gatherLayer occupancy nHeadsQ nKvHeads (nHeadsQ / nKvHeads) keep row = .error e → ∃ text,
        e = .panic text := by
    intro keep row e h
    unfold gatherLayer at h
    simp only at h
    split_ifs at h
    split at h
    · cases h
    split at h
    · cases h
      exact ⟨_, rfl⟩
    split_ifs at h
    cases hmap : (List.range nHeadsQ).mapM
      (gatherHead (nHeadsQ / nKvHeads) (row.length / max nHeadsQ 1) _ _ row) with
    | error e' =>
      rw [hmap] at h
      cases h
      obtain ⟨q, -, hq⟩ := Checked.exists_of_mapM_error hmap
      unfold gatherHead at hq
      split at hq
      · cases hq
        exact ⟨_, rfl⟩
      · cases hq
    | ok chunks =>
      rw [hmap] at h
      cases h
  have hlayers : ∀ (rows : List (List α)) (layer : ℕ) {e : Fail},
      gatherLayers occupancy nHeadsQ nKvHeads (nHeadsQ / nKvHeads) keep layer rows = .error e →
        ∃ text, e = .panic text := by
    intro rows
    induction rows with
    | nil =>
      intro layer e h
      cases h
    | cons row rows ih =>
      intro layer e h
      unfold gatherLayers at h
      cases hfirst : gatherLayer occupancy nHeadsQ nKvHeads (nHeadsQ / nKvHeads)
        (keep layer) row with
      | error e' =>
        rw [hfirst] at h
        cases h
        exact hlayer hfirst
      | ok first =>
        rw [hfirst, Checked.ok_seq] at h
        cases first with
        | none => cases h
        | some next =>
          cases hrest : gatherLayers occupancy nHeadsQ nKvHeads (nHeadsQ / nKvHeads)
            keep (layer + 1) rows with
          | error e' =>
            simp only [hrest] at h
            cases h
            exact ih _ hrest
          | ok rest =>
            simp only [hrest, Checked.ok_seq] at h
            cases rest <;> cases h
  unfold PrefillAttn.gather at h
  simp only at h
  split_ifs at h
  cases hrows : gatherLayers occupancy nHeadsQ nKvHeads (nHeadsQ / nKvHeads) keep 0 p.rows with
  | error e' =>
    rw [hrows] at h
    cases h
    exact hlayers _ _ hrows
  | ok rows =>
    rw [hrows] at h
    cases h

end Carry

end ArgusEngine
