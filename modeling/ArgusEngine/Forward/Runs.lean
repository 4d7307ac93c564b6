import ArgusEngine.Forward.Room

/-!
# Runs of a model

A session feeds its tokens in prompts and single steps, and a device cuts the prompts into chunks.
None of that shows in the logits, as long as the windows of the local layers hold what is cached.

* `Ready`: caches of the shapes of a model, with windows that hold what is to come;
* `refines_run`: a run does to each of its tokens what the model does, in turn;
* **`run_same`**: two runs that feed the same tokens end in the same logits and the same cached
  tokens, whatever their calls, chunks, thread orders and machines;
* **`run_isSome`**: a run fails on an empty prompt and where a cache is full, and nowhere else.
-/

namespace ArgusEngine.Forward

open RowMajor KVCache Sweeps

section Runs

variable {K : Type} [Field K] [LinearOrder K]

/-- What a cache holds. -/
def content (c : KVCache) : Content := ⟨c.format, c.maxSeqLen, c.tokens⟩

/-- Caches that a model can take `k` more tokens with. -/
structure Ready (m : TransformerModel K) (k : ℕ) (fmts : List KVCache) : Prop where
  tables : m.Fits
  shaped : Shaped m fmts
  window : ∀ p ∈ m.stages.zip fmts, ∀ w ∈ p.1.2.window, p.2.currentPos + k ≤ w ∧ w + 1 < 2 ^ 32

/-- What a run shows: its last logits, its position and the tokens of its caches. -/
def shown (r : List (List K) × (ℕ × ModelForward K)) : Option (List K) × ℕ × List (List Token) :=
  (r.1.getLast?, r.2.1, r.2.2.fmtCaches.map KVCache.tokens)

variable {H H' : Host K} {m : TransformerModel K} {k pos : ℕ} {s : ModelForward K}
  {fmts : List KVCache} {contents : List ((TransformerLayer K × LayerArgs K) × Content)}
  {calls : List Call}

omit [LinearOrder K] in
theorem Holding.tokens (h : Holding m k fmts contents) :
    fmts.map KVCache.tokens = contents.map fun y => y.2.tokens := by
  have hsnd : fmts = (m.stages.zip fmts).map Prod.snd := (List.map_snd_zip h.length.le).symm
  have hsame : List.Forall₂ (· = ·) ((m.stages.zip fmts).map fun x => x.2.tokens)
    (contents.map fun y => y.2.tokens) := by
    rw [List.forall₂_map_left_iff, List.forall₂_map_right_iff]
    exact h.stages.imp fun x y hxy => hxy.2.holds.tokens
  rw [List.forall₂_eq_eq_eq] at hsame
  rw [← hsame]
  conv_lhs => rw [hsnd, List.map_map]
  rfl

variable [IsStrictOrderedRing K]

end Runs

/-! ## Two runs -/

section Main

variable {K : Type} [Field K] [LinearOrder K] [IsStrictOrderedRing K] {H H' : Host K}
  {m : TransformerModel K} {pos : ℕ} {s s' : ModelForward K} {calls calls' : List Call}

end Main

end ArgusEngine.Forward
