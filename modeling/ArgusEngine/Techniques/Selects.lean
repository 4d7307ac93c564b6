import Mathlib.Data.Finset.Card
import ArgusEngine.Techniques.KeepTopK

/-!
# The set that is selected

* `Selects`: the list that is documented, with its three parts;
* **`selects_compileKeepTopK`**: `compile_keep_top_k` returns that list, and there is no other.
-/

namespace ArgusEngine.Techniques

namespace KeepTopK

variable (spec : KeepTopK)

/-- The first resident position. -/
def first : ℕ := min spec.start spec.current

/-- Where the protected prefix ends. -/
def prefixEnd : ℕ := min (spec.first + spec.prefixLen) spec.current

/-- Where the recent window starts. -/
def recentStart : ℕ := max (spec.current - spec.recent) spec.prefixEnd

theorem first_le_prefixEnd : spec.first ≤ spec.prefixEnd :=
  le_min (Nat.le_add_right _ _) (min_le_right _ _)

theorem prefixEnd_le_recentStart : spec.prefixEnd ≤ spec.recentStart := le_max_right _ _

theorem recentStart_le_current : spec.recentStart ≤ spec.current :=
  max_le (Nat.sub_le _ _) (min_le_right _ _)

end KeepTopK

section Selects

variable {F : Type} [LinearOrder F]

/-- A list of positions keeps the protected prefix, the heaviest positions of the middle, and the
recent window. -/
structure Selects (spec : KeepTopK) (score : ℕ → F) (l : List ℕ) : Prop where
  ascending : l.Pairwise (· < ·)
  resident : ∀ p ∈ l, min spec.start spec.current ≤ p ∧ p < spec.current
  protectedPart : ∀ p, min spec.start spec.current ≤ p →
    p < min spec.start spec.current + spec.prefixLen → p < spec.current → p ∈ l
  recentPart : ∀ p, min spec.start spec.current ≤ p → spec.current - spec.recent ≤ p →
    p < spec.current → p ∈ l
  length : l.length = (spec.prefixEnd - spec.first) +
    min spec.heavy (spec.recentStart - spec.prefixEnd) + (spec.current - spec.recentStart)
  heaviest : ∀ k ∈ l, ∀ d ∉ l, spec.prefixEnd ≤ k → k < spec.recentStart → spec.prefixEnd ≤ d →
    d < spec.recentStart → score d < score k ∨ score k = score d ∧ k < d
  whole : spec.recentStart - spec.prefixEnd ≤ spec.heavy →
    l = List.range' spec.first (spec.current - spec.first)

/-! ## The heaviest positions -/

theorem heaviest_of_le {a n k : ℕ} {score : ℕ → F} (h : n ≤ k) :
    heaviest ((List.range' a n).map fun pos => (pos, score pos)) k = List.range' a n := by
  have hnodup : (((List.range' a n).map fun pos => (pos, score pos)).map Prod.fst).Nodup := by
    rw [fst_tokenScores]
    exact List.nodup_range'
  have hsub : heaviest ((List.range' a n).map fun pos => (pos, score pos)) k ⊆ List.range' a n := by
    intro p hp
    have := mem_heaviest hp
    rwa [fst_tokenScores] at this
  have hperm : (heaviest ((List.range' a n).map fun pos => (pos, score pos)) k).Perm
    (List.range' a n) := by
    refine (List.subperm_of_subset (ascending_heaviest hnodup k).nodup hsub).perm_of_length_le ?_
    rw [length_heaviest, List.length_map, List.length_range']
    omega
  exact hperm.eq_of_pairwise (fun p q _ _ hpq hqp => absurd hpq hqp.not_gt)
    (ascending_heaviest hnodup k) List.pairwise_lt_range'

/-! ## The list -/

theorem compileKeepTopK_eq (spec : KeepTopK) (score : ℕ → F) : compileKeepTopK spec score =
    List.range' spec.first (spec.prefixEnd - spec.first) ++
      heaviest ((List.range' spec.prefixEnd (spec.recentStart - spec.prefixEnd)).map fun pos =>
        (pos, score pos))
        spec.heavy ++ List.range' spec.recentStart (spec.current - spec.recentStart) := rfl

theorem mem_compileKeepTopK_middle {spec : KeepTopK} {score : ℕ → F} {p : ℕ}
    (hlo : spec.prefixEnd ≤ p) (hhi : p < spec.recentStart) : p ∈ compileKeepTopK spec score ↔
      p ∈ heaviest ((List.range' spec.prefixEnd (spec.recentStart - spec.prefixEnd)).map fun pos =>
        (pos, score pos))
        spec.heavy := by
  have hfirst := spec.first_le_prefixEnd
  rw [compileKeepTopK_eq, List.mem_append, List.mem_append, List.mem_range'_1, List.mem_range'_1]
  constructor
  · rintro ((h | h) | h)
    · omega
    · exact h
    · omega
  · exact fun h => .inl (.inr h)

/-- **The whole range** is kept where the heavy hitters fill the middle. -/
theorem compileKeepTopK_whole {spec : KeepTopK} (score : ℕ → F)
    (h : spec.recentStart - spec.prefixEnd ≤ spec.heavy) :
    compileKeepTopK spec score = List.range' spec.first (spec.current - spec.first) := by
  have hfirst := spec.first_le_prefixEnd
  have hmiddle := spec.prefixEnd_le_recentStart
  have hrecent := spec.recentStart_le_current
  have happend : ∀ {a b c : ℕ}, a ≤ b → b ≤ c →
      List.range' a (b - a) ++ List.range' b (c - b) = List.range' a (c - a) := by
    intro a b c hab hbc
    obtain ⟨m, rfl⟩ := Nat.exists_eq_add_of_le hab
    obtain ⟨n, rfl⟩ := Nat.exists_eq_add_of_le hbc
    rw [Nat.add_sub_cancel_left, Nat.add_sub_cancel_left, List.range'_append_1, Nat.add_assoc,
      Nat.add_sub_cancel_left]
  rw [compileKeepTopK_eq, heaviest_of_le h, happend hfirst hmiddle,
    happend (hfirst.trans hmiddle) hrecent]

theorem selects (spec : KeepTopK) (score : ℕ → F) :
    Selects spec score (compileKeepTopK spec score) := by
  have hfirst := spec.first_le_prefixEnd
  have hmiddle := spec.prefixEnd_le_recentStart
  have hrecent := spec.recentStart_le_current
  -- a start behind the last resident position is that position
  have hkeeps : Keeps spec.first spec.current spec.prefixLen spec.recent
    (compileKeepTopK spec score) := by
    have := keeps_compileKeepTopK { spec with start := spec.first } (min_le_right _ _) score
    unfold compileKeepTopK at this ⊢
    dsimp only [KeepTopK.first] at this ⊢
    rwa [min_assoc, min_self] at this
  refine ⟨hkeeps.ascending, hkeeps.resident, fun p hs hp hc => hkeeps.first p hs ?_,
    hkeeps.last, ?_, ?_, compileKeepTopK_whole score⟩
  · have : spec.first = min spec.start spec.current := rfl
    omega
  · rw [compileKeepTopK_eq, List.length_append, List.length_append, length_heaviest,
      List.length_map, List.length_range', List.length_range', List.length_range']
  · intro k hk d hd hk1 hk2 hd1 hd2
    rw [mem_compileKeepTopK_middle hk1 hk2] at hk
    rw [mem_compileKeepTopK_middle hd1 hd2] at hd
    exact (rank_of_heaviest hk (List.mem_range'_1.mpr (by omega)) hd).imp_right fun h =>
      ⟨h.1.symm, h.2⟩

/-- **One list**: two lists that are selected hold the same positions. -/
theorem Selects.unique {spec : KeepTopK} {score : ℕ → F} {l l' : List ℕ} (h : Selects spec score l)
    (h' : Selects spec score l') : l = l' := by
  have hlen : l'.toFinset.card = l.toFinset.card := by
    rw [List.toFinset_card_of_nodup h.ascending.nodup,
      List.toFinset_card_of_nodup h'.ascending.nodup, h.length, h'.length]
  -- a position of one list alone is in the middle
  have hmiddle : ∀ {m m' : List ℕ}, Selects spec score m → Selects spec score m' → ∀ p ∈ m, p ∉ m' →
      spec.prefixEnd ≤ p ∧ p < spec.recentStart := by
    intro m m' hm hm' p hp hnot
    obtain ⟨hs, hc⟩ := hm.resident p hp
    have h1 : ¬ p < min spec.start spec.current + spec.prefixLen := fun hlt =>
      hnot (hm'.protectedPart p hs hlt hc)
    have h2 : ¬ spec.current - spec.recent ≤ p := fun hle => hnot (hm'.recentPart p hs hle hc)
    unfold KeepTopK.recentStart KeepTopK.prefixEnd KeepTopK.first
    omega
  have hsub : l ⊆ l' := by
    intro k hk
    by_contra hk'
    -- the other list holds another position, and each is ranked in front of the other
    obtain ⟨d, hd, hd'⟩ : ∃ d ∈ l', d ∉ l := by
      by_contra hnone
      push Not at hnone
      have hss : l'.toFinset ⊂ l.toFinset := by
        refine Finset.ssubset_iff_subset_ne.mpr ⟨fun x hx => ?_, fun heq => ?_⟩
        · exact List.mem_toFinset.mpr (hnone x (List.mem_toFinset.mp hx))
        · exact hk' (List.mem_toFinset.mp (heq ▸ List.mem_toFinset.mpr hk))
      exact (Finset.card_lt_card hss).ne hlen
    obtain ⟨hk1, hk2⟩ := hmiddle h h' k hk hk'
    obtain ⟨hd1, hd2⟩ := hmiddle h' h d hd hd'
    rcases h.heaviest k hk d hd' hk1 hk2 hd1 hd2 with hlt | ⟨heq, hlt⟩
    · rcases h'.heaviest d hd k hk' hd1 hd2 hk1 hk2 with hlt' | ⟨heq', -⟩
      · exact hlt.asymm hlt'
      · exact hlt.ne heq'
    · rcases h'.heaviest d hd k hk' hd1 hd2 hk1 hk2 with hlt' | ⟨-, hlt'⟩
      · exact hlt'.ne heq
      · exact hlt.asymm hlt'
  have hperm : l.Perm l' := by
    refine (List.subperm_of_subset h.ascending.nodup hsub).perm_of_length_le ?_
    rw [h.length, h'.length]
  exact hperm.eq_of_pairwise (fun p q _ _ hpq hqp => absurd hpq hqp.not_gt) h.ascending h'.ascending

/-- **`compile_keep_top_k` selects the documented set**, and nothing else is that set. -/
theorem selects_compileKeepTopK (spec : KeepTopK) (score : ℕ → F) :
    Selects spec score (compileKeepTopK spec score) ∧ ∀ l, Selects spec score l →
    l = compileKeepTopK spec score :=
  ⟨selects spec score, fun _ hl => hl.unique (selects spec score)⟩

end Selects

end ArgusEngine.Techniques
