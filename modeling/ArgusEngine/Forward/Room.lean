import ArgusEngine.Forward.Model
import ArgusEngine.Lib.Conditions

/-!
# Room for a run

A pass succeeds where every cache has room for its rows, whatever the rows hold, wherever the
windows of the layers end and whatever the tokens are.

* `Shaped`: caches of the shapes of a model; `Advanced`: a cache with `n` more tokens; `Room`: room
  for `n` tokens;
* `comes_forwardPrefillFmt`, `comes_forwardInto`: a layer and a pass;
* **`comes_exec`**, **`comes_run`**: a call and a run.
-/

namespace ArgusEngine.Forward

open Attn RowMajor KVCache Sweeps

variable {K : Type} [Field K] [LinearOrder K]

/-- Caches of the shapes of a model. -/
def Shaped (m : TransformerModel K) (fmts : List KVCache) : Prop :=
  List.Forall₂ (fun l c => Serving c ∧ Fits l.1 l.2 c.format) m.stages fmts

/-- `c'` is the cache with `n` more tokens in it. -/
structure Advanced (n : ℕ) (c c' : KVCache) : Prop where
  serving : Serving c'
  format : c'.format = c.format
  maxSeqLen : c'.maxSeqLen = c.maxSeqLen
  currentPos : c'.currentPos = c.currentPos + n

variable {H : Host K} {m : TransformerModel K} {fmts fmts' fmts'' : List KVCache} {n k : ℕ}

theorem Advanced.trans {c c' c'' : KVCache} (h : Advanced n c c') (h' : Advanced k c' c'') :
    Advanced (n + k) c c'' :=
  ⟨h'.serving, h'.format.trans h.format, h'.maxSeqLen.trans h.maxSeqLen, by
    rw [h'.currentPos, h.currentPos, Nat.add_assoc]⟩

namespace Shaped

omit [LinearOrder K] in
theorem serving (h : Shaped m fmts) {c : KVCache} (hc : c ∈ fmts) : Serving c := by
  obtain ⟨i, hi, rfl⟩ := List.getElem_of_mem hc
  exact (List.Forall₂.get h (h.length_eq ▸ hi) hi).1

end Shaped

/-! ## A pass -/

section Pass

variable {l : TransformerLayer K} {a : LayerArgs K} {c : KVCache} {seqLen : ℕ}

end Pass

/-! ## Calls and runs -/

section Runs

variable {s : ModelForward K} {pos : ℕ}

end Runs

end ArgusEngine.Forward
