import Mathlib.Data.List.Nodup
import Mathlib.Logic.Function.Basic

/-!
# Assignments in place

An `Assign` writes one place of a store, from that place and the places it reads. Assignments that
write different places and read none of them can be run in place, one after the other: each writes
what it would write on a snapshot of the store.

* **`run_place`**: the value of a place that is written;
* `run_of_notMem`: every other place.
-/

namespace InPlace

variable {ι β : Type*}

/-- The place written, the places read besides it, and the value. -/
structure Assign (ι β : Type*) where
  place : ι
  reads : List ι
  value : (ι → β) → β
  congr : ∀ {f g : ι → β}, f place = g place → (∀ i ∈ reads, f i = g i) → value f = value g

namespace Assign

/-- No place is written twice, and none that is written is read by another assignment. -/
structure Independent (l : List (Assign ι β)) : Prop where
  nodup : (l.map place).Nodup
  reads : ∀ a ∈ l, ∀ b ∈ l, b.place ∉ a.reads

theorem Independent.tail {a : Assign ι β} {l : List (Assign ι β)} (h : Independent (a :: l)) :
    Independent l :=
  ⟨(List.nodup_cons.mp h.nodup).2, fun b hb b' hb' =>
    h.reads b (List.mem_cons_of_mem _ hb) b' (List.mem_cons_of_mem _ hb')⟩

variable [DecidableEq ι]

def exec (a : Assign ι β) (f : ι → β) : ι → β := Function.update f a.place (a.value f)

/-- The assignments in order, each on what the others before it have left. -/
def run (l : List (Assign ι β)) (f : ι → β) : ι → β := l.foldl (fun f a => a.exec f) f

theorem run_cons (a : Assign ι β) (l : List (Assign ι β)) (f : ι → β) :
    run (a :: l) f = run l (a.exec f) := rfl

theorem exec_place (a : Assign ι β) (f : ι → β) : a.exec f a.place = a.value f :=
  Function.update_self ..

theorem exec_of_ne {a : Assign ι β} {i : ι} (h : i ≠ a.place) (f : ι → β) : a.exec f i = f i :=
  Function.update_of_ne h ..

theorem run_of_notMem {l : List (Assign ι β)} {i : ι} (h : i ∉ l.map place) (f : ι → β) :
    run l f i = f i := by
  induction l generalizing f with
  | nil => rfl
  | cons a l ih =>
    rw [List.map_cons, List.mem_cons, not_or] at h
    rw [run_cons, ih h.2, exec_of_ne h.1]

/-- **In place is as on a snapshot.** -/
theorem run_place {l : List (Assign ι β)} (h : Independent l) {a : Assign ι β}
    (ha : a ∈ l) (f : ι → β) : run l f a.place = a.value f := by
  induction l generalizing f with
  | nil => exact absurd ha List.not_mem_nil
  | cons b l ih =>
    have hfresh := (List.nodup_cons.mp h.nodup).1
    rw [run_cons]
    rcases List.mem_cons.mp ha with rfl | ha'
    · rw [run_of_notMem hfresh, exec_place]
    · rw [ih h.tail ha']
      -- `b` wrote neither the place of `a` nor anything `a` reads
      refine a.congr (exec_of_ne ?_ f) fun i hi => exec_of_ne ?_ f
      · rintro he
        exact hfresh (he ▸ List.mem_map_of_mem ha')
      · rintro rfl
        exact h.reads a ha b List.mem_cons_self hi

end Assign

end InPlace
