import ArgusEngine.Kv.Tensor
import ArgusEngine.Lib.Checked

/-!
# Scoring what the candidates retain

A candidate is scored as the table of positions it retains, `KeepSets`, one list for each layer and
KV head. `decide` checks the tables, scores every one against what is resident now and names the
smallest score. The arithmetic of a score is a parameter.

* `KeepSets`, with `push`, `head`, `validate` and `validateWithin`;
* `decideWinner`;
* **`lt_of_decideWinner`**: the winner is one of the pool.
-/

namespace ArgusEngine

open FlatMem

/-- `x as u32`. -/
def asU32 (x : ℕ) : ℕ := x % 2 ^ 32

/-- The outcome of a product of `usize` values, which wraps in a release build. -/
def asUsizeWrapped (x : ℕ) : ℕ := x % 2 ^ 64

/-- `Vec::<u32>::with_capacity`. -/
def withCapacityU32 (n : ℕ) : Except Fail Unit :=
  if 4 * n ≥ 2 ^ 63 then .error (.panic "capacity overflow") else .ok ()

/-- The retained positions of a whole model: the lists back to back, and where each of them ends. -/
structure KeepSets where
  nLayers : ℕ
  nKvHeads : ℕ
  idx : List ℕ
  off : List ℕ
  deriving Repr, DecidableEq

inductive KeepError where
  | order (layer kvHead : ℕ)
  | notAscending (layer kvHead : ℕ)
  | outOfRange (layer kvHead pos currentPos : ℕ)
  | empty (layer kvHead : ℕ)
  | hole (layer kvHead pos start : ℕ)
  deriving Repr, DecidableEq

def KeepError.text : KeepError → String
  | order layer kvHead => s!"keep-set pushed out of order at (layer {layer}, kv_head {kvHead})"
  | notAscending layer kvHead =>
    s!"keep-set at (layer {layer}, kv_head {kvHead}) is not strictly ascending — the causal boundary is a prefix " ++
      "count and would be wrong"
  | outOfRange layer kvHead pos currentPos =>
    s!"keep-set at (layer {layer}, kv_head {kvHead}) retains position {pos} but only {currentPos} tokens are resident"
  | empty layer kvHead => s!"keep-set at (layer {layer}, kv_head {kvHead}) retains nothing"
  | hole layer kvHead pos start =>
    s!"keep-set at (layer {layer}, kv_head {kvHead}) retains position {pos}, but that head is resident from {start} " ++
      "— the slots before it are holes"

namespace KeepSets

/-- `with_capacity`: no lists yet. -/
def withCapacity (nLayers nKvHeads totalIdx : ℕ) : Except Fail KeepSets := do
  withCapacityU32 totalIdx
  return ⟨nLayers, nKvHeads, [], [0]⟩

variable (s : KeepSets)

/-- The lists appended, whatever their place. -/
def append (ascending : List ℕ) : KeepSets :=
  { s with idx := s.idx ++ ascending, off := s.off ++ [asU32 (s.idx.length + ascending.length)] }

/-- `push`: the next list, in row-major order. -/
def push (layer kvHead : ℕ) (ascending : List ℕ) : Except KeepError KeepSets :=
  let want := s.off.length - 1
  if layer ≥ s.nLayers ∨ kvHead ≥ s.nKvHeads ∨ want ≠ layer * s.nKvHeads + kvHead
    then .error (.order layer kvHead)
  else .ok (s.append ascending)

def isComplete : Bool := s.off.length == s.nLayers * s.nKvHeads + 1

/-- `head`: one list. -/
def head (layer kvHead : ℕ) : Except Fail (List ℕ) :=
  let i := layer * s.nKvHeads + kvHead
  match s.off[i]?, s.off[i + 1]? with
  | some a, some b =>
    if a ≤ b ∧ b ≤ s.idx.length then .ok (slice s.idx a (b - a))
      else .error (.panic "slice index out of range")
  | _, _ => .error (.panic "index out of bounds")

/-- `total`: the positions retained over every layer and head. -/
def total : ℕ := s.idx.length

/-- The layers and heads, row-major. -/
def cells : List (ℕ × ℕ) :=
  (List.range s.nLayers).flatMap fun l => (List.range s.nKvHeads).map fun h => (l, h)

/-- A loop over all lists that ends at the first complaint. -/
def firstError (check : ℕ → ℕ → Except Fail (Option KeepError)) : Except Fail (Option KeepError) :=
  s.cells.foldlM (fun found cell => match found with
    | some e => .ok (some e)
    | none => check cell.1 cell.2) none

/-- `h.windows(2).any(|w| w[0] >= w[1])`. -/
def descends : List ℕ → Bool
  | a :: b :: rest => decide (a ≥ b) || descends (b :: rest)
  | _ => false

/-- `validate`: complete, and every list ascending, in range and not empty. -/
def validate (currentPos : ℕ) : Except Fail (Option KeepError) :=
  if !s.isComplete then
    let want := s.off.length - 1
    .ok (some (.order (want / s.nKvHeads) (want % s.nKvHeads)))
  else s.firstError fun layer kvHead => do
    let list ← s.head layer kvHead
    return match list.getLast? with
      | none => some (.empty layer kvHead)
      | some last =>
        if last ≥ currentPos then some (.outOfRange layer kvHead last currentPos)
        else if descends list then some (.notAscending layer kvHead)
        else none

/-- `resident`: what every head holds now, from its first resident position on. -/
def resident (nLayers nKvHeads currentPos : ℕ) (start : ℕ → ℕ → ℕ) : Except Fail KeepSets := do
  let s ← withCapacity nLayers nKvHeads (asUsizeWrapped (nLayers * nKvHeads * currentPos))
  return s.cells.foldl (fun s cell =>
    let start := asU32 (min (start cell.1 cell.2) currentPos)
    s.append (List.range' start (asU32 currentPos - start))) s

/-- `validate_within`: no list starts below the one of `base`. -/
def validateWithin (base : KeepSets) : Except Fail (Option KeepError) :=
  s.firstError fun layer kvHead => do
    let held ← base.head layer kvHead
    let start := held.head?.getD 0
    let list ← s.head layer kvHead
    return match list.head? with
      | none => none
      | some pos => if pos < start then some (.hole layer kvHead pos start) else none

end KeepSets

/-! ## The decision -/

/-- `Geom`, without the head dimension. -/
structure Geom where
  nLayers : ℕ
  nKvHeads : ℕ
  currentPos : ℕ
  rows : ℕ

/-- What a `KeepError` ends. -/
def refuse (e : Option KeepError) : Except Fail Unit :=
  match e with
  | none => .ok ()
  | some e => .error (.err e.text)

/-- The fold of `decide` over the scores: the first of the smallest ones. -/
def smallest {S : Type} (lt : S → S → Bool) (scores : List S) : ℕ :=
  (List.range scores.length).foldl (fun best i => match scores[i]?, scores[best]? with
    | some s, some b => if lt s b then i else best
    | _, _ => best) 0

/-- `decide`: the scores of the pool and the winner. -/
def decideWinner {S : Type} (score : KeepSets → Except Fail S) (lt : S → S → Bool)
    (g : Geom) (basisD qDim : ℕ) (start : ℕ → ℕ → ℕ) (pool : List KeepSets) :
    Except Fail (List S × ℕ) :=
  if pool = [] then .error (.err "aperturb: the candidate pool is empty")
  else if g.rows = 0 ∨ g.rows > g.currentPos ∨ g.rows > 32 then
    .error (.err "aperturb: rows must be in 1..=32 and no larger than the resident token count")
  else if basisD ≠ qDim then
    .error (.err s!"aperturb: output basis for layer 0 has {basisD} elements, expected {qDim}")
  else do
    let identity ← KeepSets.resident g.nLayers g.nKvHeads g.currentPos start
    pool.forM fun keep => do
      refuse (← keep.validate g.currentPos)
      refuse (← keep.validateWithin identity)
    let scores ← pool.mapM score
    return (scores, smallest lt scores)

theorem smallest_lt {S : Type} (lt : S → S → Bool) {scores : List S} (h : scores ≠ []) :
    smallest lt scores < scores.length := by
  have hall : ∀ (l : List ℕ) (best : ℕ), best < scores.length → (∀ i ∈ l, i < scores.length) →
      l.foldl (fun best i => match scores[i]?, scores[best]? with
        | some s, some b => if lt s b then i else best
        | _, _ => best) best < scores.length := by
    intro l
    induction l with
    | nil => exact fun best hbest _ => hbest
    | cons i l ih =>
      intro best hbest hl
      refine ih _ ?_ fun j hj => hl j (List.mem_cons_of_mem _ hj)
      dsimp only
      split
      · split_ifs
        · exact hl i List.mem_cons_self
        · exact hbest
      · exact hbest
  exact hall _ 0 (List.length_pos_iff.mpr h) fun i hi => List.mem_range.mp hi

/-- **The winner is one of the pool**, and every entry has a score. -/
theorem lt_of_decideWinner {S : Type} {score : KeepSets → Except Fail S}
    {lt : S → S → Bool} {g : Geom} {basisD qDim : ℕ} {start : ℕ → ℕ → ℕ} {pool : List KeepSets}
    {scores : List S} {winner : ℕ}
    (h : decideWinner score lt g basisD qDim start pool = .ok (scores, winner)) :
    scores.length = pool.length ∧ winner < pool.length := by
  unfold decideWinner at h
  split_ifs at h with hpool
  obtain ⟨identity, -, h⟩ := Checked.ok_bind.mp h
  obtain ⟨-, -, h⟩ := Checked.ok_bind.mp h
  obtain ⟨scores', hscores, h⟩ := Checked.ok_bind.mp h
  cases h
  have hlen : scores.length = pool.length := (Checked.ok_mapM.mp hscores).length_eq.symm
  refine ⟨hlen, hlen ▸ smallest_lt lt ?_⟩
  rw [← List.length_pos_iff, hlen]
  exact List.length_pos_iff.mpr hpool

end ArgusEngine
