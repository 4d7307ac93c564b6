import Mathlib.Data.List.Forall2
import Mathlib.Data.Option.Basic
import Mathlib.Tactic.Common

/-!
# Items through a chain of stages

A stage keeps a state, takes one item at a time and may fail. Items can go through a chain of stages
one after the other, each through the whole chain (`column`), or all of them through the first
stage, then through the second, and so on (`block`). A stage that takes a whole batch at once is
compared with one that takes its items in turn (`sweep`).

* `sweep`, `column`, `block`;
* **`sweep_column`**: the two orders are the same;
* **`rel_column_sweep`**: where every stage takes a batch as another takes its items, so do the
  chains.
-/

namespace Sweeps

universe u

variable {L S T A B C : Type u}

/-- The items of a list through one stage, in their order. -/
def sweep (f : S → A → Option (B × S)) : S → List A → Option (List B × S)
  | s, [] => some ([], s)
  | s, a :: as => do
    let (b, s) ← f s a
    let (bs, s) ← sweep f s as
    some (b :: bs, s)

/-- One item through a chain of stages, each with its state. -/
def column (f : L → S → A → Option (A × S)) : List (L × S) → A → Option (A × List (L × S))
  | [], a => some (a, [])
  | (l, s) :: rest, a => do
    let (b, s) ← f l s a
    let (c, rest) ← column f rest b
    some (c, (l, s) :: rest)

/-- All items through the first stage, then through the second, and so on. -/
def block (f : L → S → A → Option (A × S)) : List (L × S) → List A → Option (List A × List (L × S))
  | [], as => some (as, [])
  | (l, s) :: rest, as => do
    let (bs, s) ← sweep (f l) s as
    let (cs, rest) ← block f rest bs
    some (cs, (l, s) :: rest)

/-! ## The two orders -/

theorem sweep_map (f : S → A → Option (B × S)) (g : T → A) (h : B → C) (s : S) (ts : List T) :
    sweep (fun s t => (f s (g t)).map fun r => (h r.1, r.2)) s ts =
      (sweep f s (ts.map g)).map fun r => (r.1.map h, r.2) := by
  induction ts generalizing s with
  | nil => rfl
  | cons t ts ih =>
    rw [List.map_cons, sweep, sweep]
    cases f s (g t) with
    | none => rfl
    | some r =>
      simp only [Option.bind_eq_bind, Option.map_some, Option.bind_some, ih]
      cases sweep f r.2 (ts.map g) with
      | none => rfl
      | some r => rfl

theorem map_fst_column {f : L → S → A → Option (A × S)} {stages : List (L × S)} {a : A}
    {r : A × List (L × S)} (h : column f stages a = some r) :
    r.2.map Prod.fst = stages.map Prod.fst := by
  induction stages generalizing a r with
  | nil =>
    obtain rfl := Option.some.inj h
    rfl
  | cons st rest ih =>
    obtain ⟨l, s⟩ := st
    rw [column] at h
    cases hf : f l s a with
    | none => simp [hf] at h
    | some x =>
      cases hc : column f rest x.1 with
      | none => simp [hf, hc] at h
      | some y =>
        simp only [hf, hc, Option.bind_eq_bind, Option.bind_some, Option.some.injEq] at h
        rw [← h, List.map_cons, List.map_cons, ih hc]

/-- A stage followed by another. -/
def chain (f : S → A → Option (B × S)) (g : T → B → Option (C × T)) (st : S × T) (a : A) :
    Option (C × (S × T)) := do
  let (b, s) ← f st.1 a
  let (c, t) ← g st.2 b
  some (c, (s, t))

theorem sweep_chain (f : S → A → Option (B × S)) (g : T → B → Option (C × T)) (s : S)
    (t : T) (as : List A) : sweep (chain f g) (s, t) as = (sweep f s as).bind fun r =>
      (sweep g t r.1).map fun r' => (r'.1, (r.2, r'.2)) := by
  induction as generalizing s t with
  | nil => rfl
  | cons a as ih =>
    rw [sweep, sweep, chain]
    cases hf : f s a with
    | none => rfl
    | some r =>
      obtain ⟨b, s₁⟩ := r
      simp only [Option.bind_eq_bind, Option.bind_some]
      cases hg : g t b with
      | none =>
        -- the second stage fails at the first item: so it does after a sweep of the first stage
        simp only [Option.bind_none]
        cases sweep f s₁ as with
        | none => rfl
        | some r => simp [sweep, hg]
      | some r =>
        obtain ⟨c, t₁⟩ := r
        simp only [Option.bind_some, ih]
        cases sweep f s₁ as with
        | none => rfl
        | some r =>
          obtain ⟨bs, s₂⟩ := r
          simp only [Option.bind_some, sweep, hg, Option.bind_eq_bind]
          cases sweep g t₁ bs with
          | none => rfl
          | some r => rfl

/-- **The two orders are the same.** -/
theorem sweep_column (f : L → S → A → Option (A × S)) (stages : List (L × S)) (as : List A) :
    sweep (column f) stages as = block f stages as := by
  induction stages generalizing as with
  | nil =>
    induction as with
    | nil => rfl
    | cons a as ih =>
      rw [sweep, column]
      simp only [Option.bind_eq_bind, Option.bind_some]
      rw [ih]
      rfl
  | cons st rest ih =>
    obtain ⟨l, s⟩ := st
    have hchain : ∀ (s : S) (rest : List (L × S)) (as : List A),
      sweep (column f) ((l, s) :: rest) as =
        (sweep (chain (f l) (column f)) (s, rest) as).map fun r => (r.1, (l, r.2.1) :: r.2.2) := by
      intro s rest as
      induction as generalizing s rest with
      | nil => rfl
      | cons a as ih' =>
        rw [sweep, sweep, column, chain]
        cases f l s a with
        | none => rfl
        | some r =>
          obtain ⟨b, s₁⟩ := r
          simp only [Option.bind_eq_bind, Option.bind_some]
          cases column f rest b with
          | none => rfl
          | some r =>
            obtain ⟨c, rest₁⟩ := r
            simp only [Option.bind_some, ih']
            cases sweep (chain (f l) (column f)) (s₁, rest₁) as with
            | none => rfl
            | some r => rfl
    rw [hchain, sweep_chain, block]
    cases sweep (f l) s as with
    | none => rfl
    | some r =>
      simp only [Option.bind_eq_bind, Option.bind_some, ih]
      cases block f rest r.1 with
      | none => rfl
      | some r => rfl

/-! ## Batches -/

theorem rel_mono {R R' : A → B → Prop} {x : Option A} {y : Option B} (h : Option.Rel R x y)
    (hmono : ∀ a b, x = some a → y = some b → R a b → R' a b) : Option.Rel R' x y := by
  cases h with
  | none => exact .none
  | some hab => exact .some (hmono _ _ rfl rfl hab)

theorem rel_map {D : Type u} {R : A → B → Prop} {Q : C → D → Prop} {x : Option A} {y : Option B}
    {f : A → C} {g : B → D} (h : Option.Rel R x y) (hfg : ∀ a b, R a b → Q (f a) (g b)) :
    Option.Rel Q (x.map f) (y.map g) := by
  cases h with
  | none => exact .none
  | some hab => exact .some (hfg _ _ hab)

theorem rel_map_left {R : A → B → Prop} {Q : C → B → Prop} {x : Option A} {y : Option B} {f : A → C}
    (h : Option.Rel R x y) (hf : ∀ a b, R a b → Q (f a) b) : Option.Rel Q (x.map f) y := by
  have hmap : Option.Rel Q (x.map f) (y.map id) := rel_map h hf
  rwa [Option.map_id, id_eq] at hmap

theorem rel_bind {D : Type u} {R : A → B → Prop} {Q : C → D → Prop} {x : Option A} {y : Option B}
    {f : A → Option C} {g : B → Option D} (h : Option.Rel R x y)
    (hfg : ∀ a b, R a b → Option.Rel Q (f a) (g b)) : Option.Rel Q (x.bind f) (y.bind g) := by
  cases h with
  | none => exact .none
  | some hab => exact hfg _ _ hab

/-- **Batches through a chain.** Where each stage takes a batch as its counterpart takes the items
in turn, the chains do, from related states to related states. -/
theorem rel_column_sweep {f : L → S → A → Option (A × S)} {g : L → T → B → Option (B × T)}
    {R Q : L → S → T → Prop} {E : A → List B → Prop}
    (hstage : ∀ l s t a bs, R l s t → E a bs →
      Option.Rel (fun x y => E x.1 y.1 ∧ Q l x.2 y.2) (f l s a) (sweep (g l) t bs))
    {stages : List (L × S)} {stages' : List (L × T)}
    (hstages : List.Forall₂ (fun x y => x.1 = y.1 ∧ R x.1 x.2 y.2) stages stages') {a : A}
    {bs : List B} (hab : E a bs) :
    Option.Rel (fun x y => E x.1 y.1 ∧ List.Forall₂ (fun x y => x.1 = y.1 ∧ Q x.1 x.2 y.2) x.2 y.2)
      (column f stages a)
      (sweep (column g) stages' bs) := by
  rw [sweep_column]
  induction hstages generalizing a bs with
  | nil => exact .some ⟨hab, .nil⟩
  | @cons x y rest rest' hxy _ ih =>
    obtain ⟨l, s⟩ := x
    obtain ⟨l', t⟩ := y
    obtain ⟨rfl, hst⟩ : l = l' ∧ R l s t := hxy
    rw [column, block]
    have hone := hstage l s t a bs hst hab
    cases hf : f l s a with
    | none =>
      rw [hf] at hone
      cases hg : sweep (g l) t bs with
      | none => exact .none
      | some r =>
        rw [hg] at hone
        cases hone
    | some r =>
      rw [hf] at hone
      cases hg : sweep (g l) t bs with
      | none =>
        rw [hg] at hone
        cases hone
      | some r' =>
        rw [hg] at hone
        obtain ⟨hE, hR⟩ : E r.1 r'.1 ∧ Q l r.2 r'.2 := by
          cases hone with
          | some h => exact h
        have hrest := ih hE
        simp only [Option.bind_eq_bind, Option.bind_some]
        cases hcol : column f rest r.1 with
        | none =>
          rw [hcol] at hrest
          cases hblk : block g rest' r'.1 with
          | none => exact .none
          | some r'' =>
            rw [hblk] at hrest
            cases hrest
        | some q =>
          rw [hcol] at hrest
          cases hblk : block g rest' r'.1 with
          | none =>
            rw [hblk] at hrest
            cases hrest
          | some q' =>
            rw [hblk] at hrest
            cases hrest with
            | some h => exact .some ⟨h.1, .cons ⟨rfl, hR⟩ h.2⟩

end Sweeps
