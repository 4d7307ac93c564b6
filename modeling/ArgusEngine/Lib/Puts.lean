import ArgusEngine.Lib.Cells
import ArgusEngine.Lib.Checked

/-!
# Loops of checked writes into a list

* `cellsOf`: a list as an array of cells, so that a loop of `put`s is a `Writes`;
* `onRange`: a computation on a sub-slice `&mut b[lo..hi]`;
* `getElem?_foldlM`: what no step of a loop writes stays;
* **`foldlM_blocks`**, `foldlM_puts`: a loop that fills consecutive blocks, or entries.
-/

namespace Checked

open FlatMem CellArray

variable {ε α ι : Type}

/-- A list as an array; behind the end there is nothing. -/
def cellsOf (b : List α) : Cells (Option α) := ⟨b.length, fun i => b[i]?⟩

/-- `f(&mut b[lo..hi])`. -/
def onRange (b : List α) (lo hi : ℕ) (f : List α → Except (Fault ε) (List α)) :
    Except (Fault ε) (List α) := do
  let part ← index b lo hi
  let part' ← f part
  return b.take lo ++ part' ++ b.drop hi

theorem exists_put {f : ℕ → Option α} {b : List α} {i : ℕ} {x : α} (hi : i < b.length)
    (hf : f i = some x) : ∃ b', put (ε := ε) b i x = .ok b' ∧
    Writes {i} f (cellsOf b) (cellsOf b') := by
  refine ⟨b.set i x, if_pos hi, List.length_set, ?_, fun p hp =>
    List.getElem?_set_ne fun h => hp h.symm⟩
  rintro p rfl
  exact (List.getElem?_set_self hi).trans hf.symm

theorem eq_of_writes {S : Set ℕ} {b b' l : List α}
    (h : Writes S (fun p => l[p]?) (cellsOf b) (cellsOf b')) (hrest : ∀ p, p ∉ S → b[p]? = l[p]?) :
    b' = l := by
  refine List.ext_getElem? fun p => ?_
  by_cases hp : p ∈ S
  · exact h.hit p hp
  · exact (h.keep p hp).trans (hrest p hp)

theorem getElem?_foldlM {g : List α → ι → Except (Fault ε) (List α)} {l : List ι} {p : ℕ}
    (hg : ∀ x ∈ l, ∀ b b', g b x = .ok b' → b'[p]? = b[p]?) {b b' : List α}
    (h : l.foldlM g b = .ok b') : b'[p]? = b[p]? := by
  induction l generalizing b with
  | nil => rw [← Except.ok.inj h]
  | cons x l ih =>
    rw [List.foldlM_cons] at h
    obtain ⟨b₁, hx, hl⟩ := ok_bind.mp h
    rw [ih (fun y hy => hg y (List.mem_cons_of_mem _ hy)) hl, hg x List.mem_cons_self _ _ hx]

theorem exists_step_of_foldlM {g : List α → ι → Except (Fault ε) (List α)} {l : List ι}
    (hg : ∀ x ∈ l, ∀ b b', g b x = .ok b' → b'.length = b.length) {b b' : List α}
    (h : l.foldlM g b = .ok b') {x : ι} (hx : x ∈ l) :
    ∃ c c', c.length = b.length ∧ g c x = .ok c' := by
  induction l generalizing b with
  | nil => cases hx
  | cons y l ih =>
    rw [List.foldlM_cons] at h
    obtain ⟨b₁, hy, hl⟩ := ok_bind.mp h
    rcases List.mem_cons.mp hx with rfl | hx
    · exact ⟨b, b₁, rfl, hy⟩
    · obtain ⟨c, c', hc, hstep⟩ := ih (fun z hz => hg z (List.mem_cons_of_mem _ hz)) hl hx
      exact ⟨c, c', hc.trans (hg y List.mem_cons_self _ _ hy), hstep⟩

/-- **A loop that fills consecutive blocks of `w` entries.** -/
theorem foldlM_blocks {w n : ℕ} {step : List α → ℕ → Except (Fault ε) (List α)}
    {g : ℕ → List α → Except (Fault ε) (List α)} {r : ℕ → List α} {b : List α}
    (hstep : ∀ i < n, ∀ b, step b i = onRange b (i * w) ((i + 1) * w) (g i))
    (hg : ∀ i < n, g i (slice b (i * w) w) = .ok (r i)) (hr : ∀ i < n, (r i).length = w)
    (hb : n * w ≤ b.length) :
    (List.range n).foldlM step b = .ok ((List.range n).flatMap r ++ b.drop (n * w)) := by
  induction n with
  | zero => simp [pure, Except.pure]
  | succ n ih =>
    have hn : n * w + w ≤ b.length := by rwa [Nat.succ_mul] at hb
    have hlen : ((List.range n).flatMap r).length = n * w := length_flatMap_range fun i hi =>
      hr i (by omega)
    have hpart : slice ((List.range n).flatMap r ++ b.drop (n * w)) (n * w) w =
      slice b (n * w) w := by
      rw [slice, ← hlen, List.drop_left, hlen]
      rfl
    rw [List.range_succ, List.foldlM_append, ih (fun i hi => hstep i (by omega))
      (fun i hi => hg i (by omega)) (fun i hi => hr i (by omega)) (by omega), ok_seq,
      List.foldlM_cons, hstep n (Nat.lt_succ_self n), onRange, index_of_le, Nat.succ_mul,
      Nat.add_sub_cancel_left, ok_seq, hpart, hg n (Nat.lt_succ_self n), ok_seq]
    · have htake : ((List.range n).flatMap r ++ b.drop (n * w)).take (n * w) =
        (List.range n).flatMap r := by
        rw [← hlen, List.take_left]
      have hdrop : ((List.range n).flatMap r ++ b.drop (n * w)).drop (n * w + w) =
        b.drop (n * w + w) := by
        rw [← List.drop_drop, ← hlen, List.drop_left, hlen, List.drop_drop]
      rw [htake, hdrop, List.flatMap_append]
      simp [pure, Except.pure, bind, Except.bind]
    · rw [List.length_append, List.length_drop, hlen, Nat.succ_mul]
      omega

theorem foldlM_puts (off : ℕ) {n : ℕ} {step : List α → ℕ → Except (Fault ε) (List α)}
    {g : ℕ → α} {b : List α} (hstep : ∀ i < n, ∀ b, step b i = put b (off + i) (g i))
    (hb : off + n ≤ b.length) :
    (List.range n).foldlM step b =
      .ok (b.take off ++ (List.range n).map g ++ b.drop (off + n)) := by
  induction n with
  | zero => simp [pure, Except.pure]
  | succ n ih =>
    have hlen : (b.take off ++ (List.range n).map g).length = off + n := by
      rw [List.length_append, List.length_take, List.length_map, List.length_range]
      omega
    have hdrop : b.drop (off + n) = b[off + n] :: b.drop (off + n + 1) :=
      List.drop_eq_getElem_cons (by omega)
    have hin : off + n < (b.take off ++ (List.range n).map g ++ b.drop (off + n)).length := by
      rw [List.length_append, hlen, List.length_drop]
      omega
    rw [List.range_succ, List.foldlM_append, ih (fun i hi => hstep i (by omega)) (by omega),
      ok_seq, List.foldlM_cons, hstep n (Nat.lt_succ_self n), put, if_pos hin, hdrop,
      List.set_append_right _ _ (by omega), hlen, Nat.sub_self,
      List.set_cons_zero, List.map_append]
    simp [pure, Except.pure, bind, Except.bind, Nat.add_assoc]

theorem take_blit {src dst : List α} {off : ℕ} (h : off + src.length ≤ dst.length) :
    (blit src 0 dst off src.length).take (off + src.length) = dst.take off ++ src := by
  have hfront : (blit src 0 dst off src.length).take off = dst.take off := by
    have := slice_blit_of_apart h (o := 0) (n := off) (Or.inl (by omega))
    simpa [slice] using this
  have hback : ((blit src 0 dst off src.length).drop off).take src.length = src := slice_blit_self h
  rw [List.take_add, hfront, hback]

end Checked
