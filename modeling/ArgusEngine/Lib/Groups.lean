import Mathlib.Data.List.Induction
import Mathlib.Data.List.Nodup

/-!
# Grouping by key

A map from keys to the values pushed under them, by `entry(k).or_default().push(a)`, as the list of
its entries.

* `push`, `collect`;
* `nodup_keys_collect`, `mem_keys_collect`: every key has one entry, and is the key of a value;
* **`perm_collect`**: the entries hold the values, each once.
-/

namespace Groups

variable {κ α β : Type*} [DecidableEq κ]

/-- A value in the entry of its key. -/
def push (k : κ) (b : β) : List (κ × List β) → List (κ × List β)
  | [] => [(k, [b])]
  | g :: gs => if g.1 = k then (g.1, g.2 ++ [b]) :: gs else g :: push k b gs

/-- The values of a list in the entries of their keys. -/
def collect (key : α → κ) (val : α → β) (l : List α) : List (κ × List β) :=
  l.foldl (fun gs a => push (key a) (val a) gs) []

variable {k : κ} {b : β} {gs : List (κ × List β)}

theorem keys_push : (push k b gs).map Prod.fst =
    if k ∈ gs.map Prod.fst then gs.map Prod.fst else gs.map Prod.fst ++ [k] := by
  induction gs with
  | nil => rfl
  | cons g gs ih =>
    unfold push
    by_cases hg : g.1 = k
    · rw [if_pos hg, if_pos (by rw [List.map_cons, hg]; exact List.mem_cons_self)]
      rfl
    · rw [if_neg hg, List.map_cons, ih]
      by_cases hk : k ∈ gs.map Prod.fst
      · rw [if_pos hk, if_pos (by rw [List.map_cons]; exact List.mem_cons_of_mem _ hk)]
        rfl
      · rw [if_neg hk, if_neg
          (by rw [List.map_cons, List.mem_cons, not_or]; exact ⟨Ne.symm hg, hk⟩)]
        rfl

theorem perm_push : ((push k b gs).flatMap Prod.snd).Perm (b :: gs.flatMap Prod.snd) := by
  induction gs with
  | nil => exact List.Perm.refl _
  | cons g gs ih =>
    unfold push
    by_cases hg : g.1 = k
    · rw [if_pos hg, List.flatMap_cons, List.flatMap_cons, List.append_assoc, List.singleton_append]
      exact List.perm_middle
    · rw [if_neg hg, List.flatMap_cons, List.flatMap_cons]
      exact (List.Perm.append_left _ ih).trans List.perm_middle

variable {key : α → κ} {val : α → β} {l : List α}

theorem collect_concat (a : α) : collect key val (l ++ [a]) = push (key a) (val a)
    (collect key val l) :=
  List.foldl_append

theorem nodup_keys_collect : ((collect key val l).map Prod.fst).Nodup := by
  induction l using List.reverseRecOn with
  | nil => exact List.nodup_nil
  | append_singleton l a ih =>
    rw [collect_concat, keys_push]
    by_cases hk : key a ∈ (collect key val l).map Prod.fst
    · rw [if_pos hk]
      exact ih
    · rw [if_neg hk]
      exact ih.append (List.nodup_singleton _) (List.disjoint_singleton.mpr hk)

theorem mem_keys_collect (h : k ∈ (collect key val l).map Prod.fst) : ∃ a ∈ l, key a = k := by
  induction l using List.reverseRecOn with
  | nil => cases h
  | append_singleton l a ih =>
    have hold : k ∈ (collect key val l).map Prod.fst → ∃ a' ∈ l ++ [a], key a' = k := fun h =>
      let ⟨a', ha', hk⟩ := ih h
      ⟨a', List.mem_append_left _ ha', hk⟩
    rw [collect_concat, keys_push] at h
    split_ifs at h
    · exact hold h
    · rcases List.mem_append.mp h with h | h
      · exact hold h
      · exact ⟨a, List.mem_append_right _ List.mem_cons_self, (List.mem_singleton.mp h).symm⟩

/-- **The entries hold the values, each once.** -/
theorem perm_collect : ((collect key val l).flatMap Prod.snd).Perm (l.map val) := by
  induction l using List.reverseRecOn with
  | nil => exact List.Perm.refl _
  | append_singleton l a ih =>
    rw [collect_concat, List.map_append, List.map_singleton]
    exact perm_push.trans ((ih.cons _).trans (List.perm_append_singleton _ _).symm)

end Groups
