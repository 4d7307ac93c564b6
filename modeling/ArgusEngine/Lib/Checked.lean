import Mathlib.Data.List.Forall2
import ArgusEngine.Lib.Cursor

/-!
# Checked machine operations

A program with 64-bit sizes whose sums are checked for overflow and whose indexing is checked
against the length. A computation ends in a value, in an error that it reports, in a panic, or
without memory (`Fault`).

* `add`, `sub`, `div`, `get`, `put`, `index`, `ensure`: the operations that can fail;
* `NoPanic`: a computation that does not panic, with a rule for each operation and
  **`noPanic_bind`** for sequencing;
* `ok_bind`, `ok_mapM`, `exists_mapM`: how a sequence and a loop succeed;
* `reads`: items one after another. **`noPanic_reads`**: they are read where every item that is
  reached is.
-/

namespace Checked

open FlatMem

/-- How a computation fails: an error it returns, a panic, or an allocation that does not
succeed. -/
inductive Fault (ε : Type) where
  | err (e : ε)
  | panic (text : String)
  | alloc
  deriving Repr, DecidableEq

variable {ε α β γ : Type}

/-- `a + b` in 64 bits. -/
def add (a b : ℕ) : Except (Fault ε) ℕ :=
  if a + b < 2 ^ 64 then .ok (a + b) else .error (.panic "attempt to add with overflow")

/-- `a * b` in 64 bits. -/
def mul (a b : ℕ) : Except (Fault ε) ℕ :=
  if a * b < 2 ^ 64 then .ok (a * b) else .error (.panic "attempt to multiply with overflow")

/-- `a - b`. -/
def sub (a b : ℕ) : Except (Fault ε) ℕ :=
  if b ≤ a then .ok (a - b) else .error (.panic "attempt to subtract with overflow")

/-- `a % b`. -/
def rem (a b : ℕ) : Except (Fault ε) ℕ :=
  if b ≠ 0 then .ok (a % b)
  else .error (.panic "attempt to calculate the remainder with a divisor of zero")

/-- `a / b`. -/
def div (a b : ℕ) : Except (Fault ε) ℕ :=
  if b ≠ 0 then .ok (a / b) else .error (.panic "attempt to divide by zero")

/-- `b[i]`. -/
def get (b : List α) (i : ℕ) : Except (Fault ε) α :=
  match b[i]? with
  | some a => .ok a
  | none => .error (.panic "index out of bounds")

/-- `b[i] = x`. -/
def put (b : List α) (i : ℕ) (x : α) : Except (Fault ε) (List α) :=
  if i < b.length then .ok (b.set i x) else .error (.panic "index out of bounds")

/-- `b[lo..hi]`. -/
def index (b : List α) (lo hi : ℕ) : Except (Fault ε) (List α) :=
  if lo ≤ hi ∧ hi ≤ b.length then .ok (slice b lo (hi - lo))
    else .error (.panic "range out of bounds for slice")

/-- `b[lo..]`. -/
def indexFrom (b : List α) (lo : ℕ) : Except (Fault ε) (List α) :=
  if lo ≤ b.length then .ok (b.drop lo)
    else .error (.panic "range start index out of range for slice")

/-- `if !c { return Err(e) }`. -/
def ensure (c : Prop) [Decidable c] (e : ε) : Except (Fault ε) Unit :=
  if c then .ok () else .error (.err e)

/-- `Option::ok_or`. -/
def okOr (e : ε) : Option α → Except (Fault ε) α
  | some a => .ok a
  | none => .error (.err e)

/-- `Result::map_err` on the errors that are returned. -/
def mapErr (f : ε → ε) (x : Except (Fault ε) α) : Except (Fault ε) α :=
  match x with
  | .error (.err e) => .error (.err (f e))
  | x => x

/-- `Result::map_err` to errors of another type. -/
def liftErr {δ : Type} (f : ε → δ) : Except (Fault ε) α → Except (Fault δ) α
  | .ok a => .ok a
  | .error (.err e) => .error (.err (f e))
  | .error (.panic text) => .error (.panic text)
  | .error .alloc => .error .alloc

/-- `vec![x; n]`: no allocation holds more than `isize::MAX` bytes. -/
def vec (x : UInt8) (n : ℕ) : Except (Fault ε) (List UInt8) :=
  if n < 2 ^ 63 then .ok (List.replicate n x) else .error .alloc

/-- `dst[off..off + src.len()].copy_from_slice(src)`. -/
def copyAt (dst : List α) (off : ℕ) (src : List α) : Except (Fault ε) (List α) :=
  if off + src.length ≤ dst.length then .ok (blit src 0 dst off src.length)
  else .error (.panic "range end index out of range for slice")

/-- Copies one after another, each a block at an offset. -/
def copies (ws : List (ℕ × List α)) (dst : List α) : Except (Fault ε) (List α) :=
  ws.foldlM (fun dst w => copyAt dst w.1 w.2) dst

/-- `n` items one after another, read from position `p` on; a reader returns its item and the
position behind it. -/
def reads (read : ℕ → Except (Fault ε) (α × ℕ)) : (n p : ℕ) → Except (Fault ε) (List α × ℕ)
  | 0, p => .ok ([], p)
  | n + 1, p => do
    let (a, p) ← read p
    let (as, p) ← reads read n p
    return (a :: as, p)

/-- Position `q` is behind the first `i` items from `p` on. -/
def Reaches (read : ℕ → Except (Fault ε) (α × ℕ)) (p i q : ℕ) : Prop :=
  ∃ as, reads read i p = .ok (as, q)

/-! ## Success -/

theorem ok_bind {x : Except ε α} {f : α → Except ε β} {b : β} :
    (x >>= f) = .ok b ↔ ∃ a, x = .ok a ∧ f a = .ok b := by
  cases x with
  | error e => simp [bind, Except.bind]
  | ok a => simp [bind, Except.bind]

theorem bind_of_ok {x : Except ε α} {f : α → Except ε β} {a : α} (h : x = .ok a) :
    (x >>= f) = f a := by
  rw [h]
  rfl

theorem ok_seq {f : α → Except ε β} {a : α} : ((.ok a : Except ε α) >>= f) = f a := rfl

theorem bind_congr_ok {x : Except ε α} {f g : α → Except ε β} (h : ∀ a, x = .ok a → f a = g a) :
    (x >>= f) = (x >>= g) := by
  cases x with
  | error e => rfl
  | ok a => exact h a rfl

theorem ok_guard {c : Prop} [Decidable c] {x a : α} {e : Fault ε} :
    (if c then .ok x else .error e : Except (Fault ε) α) = .ok a ↔ c ∧ a = x := by
  split_ifs with h
  · exact ⟨fun hx => ⟨h, (Except.ok.inj hx).symm⟩, fun hx => congrArg Except.ok hx.2.symm⟩
  · exact ⟨fun hx => (nomatch hx), fun hx => absurd hx.1 h⟩

@[simp] theorem ok_add {a b s : ℕ} : add (ε := ε) a b = .ok s ↔ a + b < 2 ^ 64 ∧ s = a + b :=
  ok_guard

@[simp] theorem ok_mul {a b s : ℕ} : mul (ε := ε) a b = .ok s ↔ a * b < 2 ^ 64 ∧ s = a * b :=
  ok_guard

@[simp] theorem ok_rem {a b s : ℕ} : rem (ε := ε) a b = .ok s ↔ b ≠ 0 ∧ s = a % b :=
  ok_guard

@[simp] theorem ok_div {a b s : ℕ} : div (ε := ε) a b = .ok s ↔ b ≠ 0 ∧ s = a / b :=
  ok_guard

@[simp] theorem ok_put {b b' : List α} {i : ℕ} {x : α} :
    put (ε := ε) b i x = .ok b' ↔ i < b.length ∧ b' = b.set i x :=
  ok_guard

@[simp] theorem ok_sub {a b s : ℕ} : sub (ε := ε) a b = .ok s ↔ b ≤ a ∧ s = a - b :=
  ok_guard

@[simp] theorem ok_index {b s : List α} {lo hi : ℕ} :
    index (ε := ε) b lo hi = .ok s ↔ (lo ≤ hi ∧ hi ≤ b.length) ∧ s = slice b lo (hi - lo) :=
  ok_guard

@[simp] theorem ok_indexFrom {b s : List α} {lo : ℕ} :
    indexFrom (ε := ε) b lo = .ok s ↔ lo ≤ b.length ∧ s = b.drop lo :=
  ok_guard

@[simp] theorem ok_ensure {c : Prop} [Decidable c] {e : ε} {u : Unit} : ensure c e = .ok u ↔ c := by
  unfold ensure
  split_ifs with h <;> simp [h]

theorem ensure_of {c : Prop} [Decidable c] {e : ε} (h : c) : ensure c e = .ok () := if_pos h

@[simp] theorem ok_okOr {e : ε} {o : Option α} {a : α} : okOr e o = .ok a ↔ o = some a := by
  cases o <;> simp [okOr]

@[simp] theorem ok_mapErr {f : ε → ε} {x : Except (Fault ε) α} {a : α} :
    mapErr f x = .ok a ↔ x = .ok a := by
  unfold mapErr
  split <;> simp

@[simp] theorem ok_liftErr {δ : Type} {f : ε → δ} {x : Except (Fault ε) α} {a : α} :
    liftErr f x = .ok a ↔ x = .ok a := by
  cases x with
  | ok a => simp [liftErr]
  | error e => cases e <;> simp [liftErr]

@[simp] theorem ok_vec {x : UInt8} {n : ℕ} {b : List UInt8} :
    vec (ε := ε) x n = .ok b ↔ n < 2 ^ 63 ∧ b = List.replicate n x :=
  ok_guard

theorem ok_mapM {f : α → Except ε β} {l : List α} {bs : List β} :
    l.mapM f = .ok bs ↔ List.Forall₂ (fun a b => f a = .ok b) l bs := by
  induction l generalizing bs with
  | nil =>
    rw [List.mapM_nil, List.forall₂_nil_left_iff]
    exact ⟨fun h => (Except.ok.inj h).symm, fun h => h ▸ rfl⟩
  | cons a l ih =>
    rw [List.mapM_cons, List.forall₂_cons_left_iff]
    simp only [ok_bind, ih]
    constructor
    · rintro ⟨b, hb, bs', hbs', h⟩
      exact ⟨b, bs', hb, hbs', (Except.ok.inj h).symm⟩
    · rintro ⟨b, bs', hb, hbs', rfl⟩
      exact ⟨b, hb, bs', hbs', rfl⟩

theorem mapM_eq_map {f : α → Except ε β} {g : α → β} {l : List α} (h : ∀ a ∈ l, f a = .ok (g a)) :
    l.mapM f = .ok (l.map g) := by
  rw [ok_mapM, List.forall₂_map_right_iff, List.forall₂_same]
  exact h

theorem exists_of_mapM_error {f : α → Except ε β} {l : List α} {e : ε} (h : l.mapM f = .error e) :
    ∃ a ∈ l, f a = .error e := by
  induction l with
  | nil => cases h
  | cons a l ih =>
    rw [List.mapM_cons] at h
    cases ha : f a with
    | error e' =>
      rw [ha] at h
      cases h
      exact ⟨a, List.mem_cons_self, ha⟩
    | ok b =>
      rw [ha, ok_seq] at h
      cases hl : l.mapM f with
      | error e' =>
        rw [hl] at h
        cases h
        obtain ⟨x, hx, hfx⟩ := ih hl
        exact ⟨x, List.mem_cons_of_mem _ hx, hfx⟩
      | ok bs =>
        rw [hl] at h
        cases h

theorem some_mapM {f : α → Option β} {l : List α} {bs : List β} :
    l.mapM f = some bs ↔ l.map f = bs.map some := by
  induction l generalizing bs with
  | nil =>
    rw [List.mapM_nil, List.map_nil, eq_comm (b := bs.map some), List.map_eq_nil_iff]
    exact ⟨fun h => (Option.some.inj h).symm, fun h => h ▸ rfl⟩
  | cons a l ih =>
    rw [List.mapM_cons, List.map_cons]
    simp only [Option.bind_eq_bind, Option.bind_eq_some_iff, ih]
    constructor
    · rintro ⟨b, hb, bs', hbs', h⟩
      cases h
      rw [List.map_cons, hb, hbs']
    · intro h
      cases bs with
      | nil => cases h
      | cons b bs =>
        rw [List.map_cons, List.cons.injEq] at h
        exact ⟨b, h.1, bs, h.2, rfl⟩

theorem exists_mapM {R : α → β → Prop} {f : α → Except ε β} {l : List α}
    (h : ∀ a ∈ l, ∃ b, f a = .ok b ∧ R a b) : ∃ bs, l.mapM f = .ok bs ∧ List.Forall₂ R l bs := by
  induction l with
  | nil => exact ⟨[], rfl, .nil⟩
  | cons a l ih =>
    obtain ⟨b, hb, hR⟩ := h a List.mem_cons_self
    obtain ⟨bs, hbs, hRs⟩ := ih fun x hx => h x (List.mem_cons_of_mem _ hx)
    exact ⟨b :: bs, by rw [List.mapM_cons, hb, ok_seq, hbs]; rfl, .cons hR hRs⟩

theorem exists_mapM_range {R : ℕ → β → Prop} {f : ℕ → Except (Fault ε) β} {n : ℕ}
    (h : ∀ i < n, ∃ b, f i = .ok b ∧ R i b) :
    ∃ bs, (List.range n).mapM f = .ok bs ∧ bs.length = n ∧ ∀ i b, bs[i]? = some b → R i b := by
  obtain ⟨bs, hbs, hall⟩ := exists_mapM (l := List.range n) (R := R) fun i hi =>
    h i (List.mem_range.mp hi)
  have hlen : bs.length = n := hall.length_eq.symm.trans List.length_range
  refine ⟨bs, hbs, hlen, fun i b hb => ?_⟩
  obtain ⟨hi, rfl⟩ := List.getElem?_eq_some_iff.mp hb
  have hget := hall.get (i := i) (by rw [List.length_range]; omega) hi
  simpa using hget

theorem exists_foldlM {f : β → α → Except ε β} {l : List α}
    (h : ∀ b, ∀ a ∈ l, ∃ b', f b a = .ok b') (b : β) : ∃ b', l.foldlM f b = .ok b' := by
  induction l generalizing b with
  | nil => exact ⟨b, rfl⟩
  | cons a l ih =>
    obtain ⟨b₁, hb₁⟩ := h b a List.mem_cons_self
    obtain ⟨b', hb'⟩ := ih (fun b x hx => h b x (List.mem_cons_of_mem _ hx)) b₁
    exact ⟨b', by rw [List.foldlM_cons, hb₁, ok_seq, hb']⟩

theorem keeps_foldlM {P : β → Prop} {f : β → α → Except ε β} {l : List α}
    (hf : ∀ a ∈ l, ∀ b b', P b → f b a = .ok b' → P b') {b b' : β} (h : l.foldlM f b = .ok b')
    (hb : P b) : P b' := by
  induction l generalizing b with
  | nil => exact Except.ok.inj h ▸ hb
  | cons a l ih =>
    rw [List.foldlM_cons] at h
    obtain ⟨b₁, ha, hl⟩ := ok_bind.mp h
    exact ih (fun x hx => hf x (List.mem_cons_of_mem _ hx)) hl (hf a List.mem_cons_self b b₁ hb ha)

theorem foldlM_still {f : β → α → Except ε β} {l : List α} {b : β} (h : ∀ a ∈ l, f b a = .ok b) :
    l.foldlM f b = .ok b := by
  induction l with
  | nil => rfl
  | cons a l ih =>
    rw [List.foldlM_cons, h a List.mem_cons_self, ok_seq]
    exact ih fun x hx => h x (List.mem_cons_of_mem _ hx)

theorem foldlM_flatMap {f : α → List γ} {g : β → γ → Except ε β} {l : List α} {b : β} :
    (l.flatMap f).foldlM g b = l.foldlM (fun b a => (f a).foldlM g b) b := by
  induction l generalizing b with
  | nil => rfl
  | cons a l ih =>
    rw [List.flatMap_cons, List.foldlM_append, List.foldlM_cons]
    exact bind_congr_ok fun b' _ => ih

theorem sub_of_le {a b : ℕ} (h : b ≤ a) : sub (ε := ε) a b = .ok (a - b) := if_pos h

theorem get_of_lt {b : List α} {i : ℕ} (h : i < b.length) : get (ε := ε) b i = .ok b[i] := by
  rw [get, List.getElem?_eq_getElem h]

theorem index_of_le {b : List α} {lo hi : ℕ} (h : lo ≤ hi ∧ hi ≤ b.length) :
    index (ε := ε) b lo hi = .ok (slice b lo (hi - lo)) :=
  if_pos h

@[simp] theorem ok_forM {f : α → Except (Fault ε) PUnit} {l : List α} {u : PUnit} :
    l.forM f = .ok u ↔ ∀ a ∈ l, f a = .ok () := by
  induction l with
  | nil => simp [pure, Except.pure]
  | cons a l ih =>
    rw [List.forM, List.forall_mem_cons]
    simp only [ok_bind, ih]
    exact ⟨fun ⟨_, ha, hl⟩ => ⟨ha, hl⟩, fun ⟨ha, hl⟩ => ⟨_, ha, hl⟩⟩

/-! ## Panics -/

/-- The computation returns a value or an error. -/
def NoPanic (x : Except (Fault ε) α) : Prop := ∀ text, x ≠ .error (.panic text)

@[simp] theorem noPanic_ok (a : α) : NoPanic (.ok a : Except (Fault ε) α) := by simp [NoPanic]

@[simp] theorem noPanic_pure (a : α) : NoPanic (pure a : Except (Fault ε) α) := noPanic_ok a

@[simp] theorem noPanic_err (e : ε) :
    NoPanic (.error (.err e) : Except (Fault ε) α) := by simp [NoPanic]

@[simp] theorem noPanic_panic (text : String) :
    ¬ NoPanic (.error (.panic text) : Except (Fault ε) α) := by
  simp [NoPanic]

@[simp] theorem noPanic_alloc : NoPanic (.error .alloc : Except (Fault ε) α) := by simp [NoPanic]

/-- **A sequence panics where one of its steps does.** -/
@[simp] theorem noPanic_bind {x : Except (Fault ε) α} {f : α → Except (Fault ε) β} :
    NoPanic (x >>= f) ↔ NoPanic x ∧ ∀ a, x = .ok a → NoPanic (f a) := by
  cases x with
  | error e => cases e <;> simp [bind, Except.bind, NoPanic]
  | ok a => simp [bind, Except.bind]

theorem noPanic_guard {c : Prop} [Decidable c] {x : α} {text : String} :
    NoPanic (if c then .ok x else .error (.panic text) : Except (Fault ε) α) ↔ c := by
  split_ifs with h
  · exact ⟨fun _ => h, fun _ => noPanic_ok x⟩
  · exact ⟨fun hx => absurd hx (noPanic_panic text), fun hx => absurd hx h⟩

@[simp] theorem noPanic_add {a b : ℕ} : NoPanic (add (ε := ε) a b) ↔ a + b < 2 ^ 64 :=
  noPanic_guard

@[simp] theorem noPanic_mul {a b : ℕ} : NoPanic (mul (ε := ε) a b) ↔ a * b < 2 ^ 64 :=
  noPanic_guard

@[simp] theorem noPanic_rem {a b : ℕ} : NoPanic (rem (ε := ε) a b) ↔ b ≠ 0 :=
  noPanic_guard

@[simp] theorem noPanic_sub {a b : ℕ} : NoPanic (sub (ε := ε) a b) ↔ b ≤ a :=
  noPanic_guard

@[simp] theorem noPanic_index {b : List α} {lo hi : ℕ} :
    NoPanic (index (ε := ε) b lo hi) ↔ lo ≤ hi ∧ hi ≤ b.length :=
  noPanic_guard

@[simp] theorem noPanic_indexFrom {b : List α} {lo : ℕ} :
    NoPanic (indexFrom (ε := ε) b lo) ↔ lo ≤ b.length :=
  noPanic_guard

@[simp] theorem noPanic_ensure {c : Prop} [Decidable c] {e : ε} : NoPanic (ensure c e) := by
  unfold ensure
  split_ifs <;> simp

@[simp] theorem noPanic_okOr {e : ε} {o : Option α} : NoPanic (okOr e o) := by
  cases o <;> simp [okOr]

@[simp] theorem noPanic_mapErr {f : ε → ε} {x : Except (Fault ε) α} :
    NoPanic (mapErr f x) ↔ NoPanic x := by
  cases x with
  | ok a => simp [mapErr]
  | error e => cases e <;> simp [mapErr]

@[simp] theorem noPanic_liftErr {δ : Type} {f : ε → δ} {x : Except (Fault ε) α} :
    NoPanic (liftErr f x) ↔ NoPanic x := by
  cases x with
  | ok a => simp [liftErr]
  | error e => cases e <;> simp [liftErr]

@[simp] theorem noPanic_vec {x : UInt8} {n : ℕ} : NoPanic (vec (ε := ε) x n) := by
  unfold vec
  split_ifs <;> simp

theorem noPanic_mapM {f : α → Except (Fault ε) β} {l : List α} (h : ∀ a ∈ l, NoPanic (f a)) :
    NoPanic (l.mapM f) := by
  induction l with
  | nil => exact noPanic_pure []
  | cons a l ih =>
    rw [List.mapM_cons]
    simp only [noPanic_bind, noPanic_pure, implies_true, and_true]
    exact ⟨h a List.mem_cons_self, fun _ _ => ih fun x hx => h x (List.mem_cons_of_mem _ hx)⟩

theorem noPanic_forM {f : α → Except (Fault ε) PUnit} {l : List α} (h : ∀ a ∈ l, NoPanic (f a)) :
    NoPanic (l.forM f) := by
  induction l with
  | nil => exact noPanic_pure _
  | cons a l ih =>
    rw [List.forM, noPanic_bind]
    exact ⟨h a List.mem_cons_self, fun _ _ => ih fun x hx => h x (List.mem_cons_of_mem _ hx)⟩

/-! ## Items -/

section Items

variable {read : ℕ → Except (Fault ε) (α × ℕ)} {p q i n : ℕ}

theorem reaches_zero : Reaches read p 0 q ↔ q = p := by
  constructor
  · rintro ⟨as, h⟩
    exact (Prod.ext_iff.mp (Except.ok.inj h)).2.symm
  · rintro rfl
    exact ⟨[], rfl⟩

theorem reaches_succ : Reaches read p (i + 1) q ↔ ∃ a r, read p = .ok (a, r) ∧
    Reaches read r i q := by
  constructor
  · rintro ⟨as, h⟩
    obtain ⟨⟨a, r⟩, ha, h⟩ := ok_bind.mp h
    obtain ⟨⟨bs, r'⟩, hb, h⟩ := ok_bind.mp h
    obtain rfl : r' = q := (Prod.ext_iff.mp (Except.ok.inj h)).2
    exact ⟨a, r, ha, bs, hb⟩
  · rintro ⟨a, r, ha, as, has⟩
    refine ⟨a :: as, ?_⟩
    rw [reads, ha, ok_seq]
    simp only [has, ok_seq]
    rfl

theorem of_reads {as : List α} (h : reads read n p = .ok (as, q)) :
    as.length = n ∧ ∀ a ∈ as, ∃ p q, read p = .ok (a, q) := by
  induction n generalizing p as with
  | zero =>
    cases h
    exact ⟨rfl, fun a ha => absurd ha List.not_mem_nil⟩
  | succ n ih =>
    obtain ⟨⟨a, r⟩, ha, h⟩ := ok_bind.mp h
    obtain ⟨⟨bs, r'⟩, hb, h⟩ := ok_bind.mp h
    cases h
    obtain ⟨hlen, hall⟩ := ih hb
    exact ⟨congrArg (· + 1) hlen, List.forall_mem_cons.mpr ⟨⟨p, r, ha⟩, hall⟩⟩

theorem Reaches.keeps {P : ℕ → Prop} (hread : ∀ p a q, P p → read p = .ok (a, q) → P q) (hp : P p)
    (h : Reaches read p i q) : P q := by
  induction i generalizing p with
  | zero => exact reaches_zero.mp h ▸ hp
  | succ i ih =>
    obtain ⟨a, r, ha, hr⟩ := reaches_succ.mp h
    exact ih (hread p a r hp ha) hr

/-- **A loop of reads panics where one of the reads it reaches does.** -/
theorem noPanic_reads : NoPanic (reads read n p) ↔ ∀ i < n, ∀ q, Reaches read p i q →
    NoPanic (read q) := by
  induction n generalizing p with
  | zero => simp [reads]
  | succ n ih =>
    rw [reads]
    simp only [noPanic_bind, noPanic_pure, implies_true, and_true, ih, Prod.forall]
    constructor
    · rintro ⟨hp, hrest⟩ i hi q hq
      cases i with
      | zero => exact reaches_zero.mp hq ▸ hp
      | succ i =>
        obtain ⟨a, r, ha, hr⟩ := reaches_succ.mp hq
        exact hrest a r ha i (by omega) q hr
    · intro h
      refine ⟨h 0 (by omega) p (reaches_zero.mpr rfl), fun a r ha i hi q hq => ?_⟩
      exact h (i + 1) (by omega) q (reaches_succ.mpr ⟨a, r, ha, hq⟩)

end Items

/-! ## Copies -/

section Copies

variable {src dst : List α} {off : ℕ}

theorem slice_blit_self (h : off + src.length ≤ dst.length) :
    slice (blit src 0 dst off src.length) off src.length = src := by
  have hsrc : slice src 0 src.length = src := List.take_length
  refine Eq.trans ?_ hsrc
  refine slice_ext fun i hi => ?_
  rw [getElem?_blit (Nat.le_of_eq (Nat.zero_add _)) _ h, if_pos ⟨Nat.le_add_right _ _, by omega⟩,
    Nat.add_sub_cancel_left]

theorem slice_blit_of_apart (h : off + src.length ≤ dst.length) {o n : ℕ}
    (hapart : o + n ≤ off ∨ off + src.length ≤ o) :
    slice (blit src 0 dst off src.length) o n = slice dst o n := by
  refine slice_ext fun i hi => ?_
  rw [getElem?_blit (Nat.le_of_eq (Nat.zero_add _)) _ h, if_neg (by omega)]

theorem copyAt_of_le (h : off + src.length ≤ dst.length) :
    copyAt (ε := ε) dst off src = .ok (blit src 0 dst off src.length) :=
  if_pos h

theorem length_of_copyAt {out : List α} (h : copyAt (ε := ε) dst off src = .ok out) :
    out.length = dst.length := by
  unfold copyAt at h
  split_ifs at h
  rw [← Except.ok.inj h, length_blit]

/-- **Copies to places that do not overlap**: each block is found at its place, the rest is as
before. -/
theorem copies_of_apart {ws : List (ℕ × List α)} {dst : List α}
    (hin : ∀ w ∈ ws, w.1 + w.2.length ≤ dst.length)
    (hapart : ws.Pairwise fun w w' => w.1 + w.2.length ≤ w'.1) :
    ∃ out, copies (ε := ε) ws dst = .ok out ∧ out.length = dst.length ∧
      (∀ o n, (∀ w ∈ ws, o + n ≤ w.1 ∨ w.1 + w.2.length ≤ o) → slice out o n = slice dst o n) ∧
      ∀ w ∈ ws, slice out w.1 w.2.length = w.2 := by
  induction ws generalizing dst with
  | nil => exact ⟨dst, rfl, rfl, fun _ _ _ => rfl, fun w hw => absurd hw List.not_mem_nil⟩
  | cons w ws ih =>
    have hw := hin w List.mem_cons_self
    have hlen : (blit w.2 0 dst w.1 w.2.length).length = dst.length := length_blit _ _ _ _ _
    obtain ⟨hfirst, hrest⟩ := List.pairwise_cons.mp hapart
    obtain ⟨out, hout, hlen', hframe, hblocks⟩ :=
      ih (fun x hx => hlen.symm ▸ hin x (List.mem_cons_of_mem _ hx)) hrest
    refine ⟨out, ?_, hlen'.trans hlen, fun o n h => ?_, fun x hx => ?_⟩
    · rw [copies, List.foldlM_cons, copyAt_of_le hw, ok_seq]
      exact hout
    · rw [hframe o n fun x hx => h x (List.mem_cons_of_mem _ hx),
        slice_blit_of_apart hw (h w List.mem_cons_self)]
    · rcases List.mem_cons.mp hx with rfl | hx
      · rw [hframe _ _ fun y hy => .inl (hfirst y hy), slice_blit_self hw]
      · exact hblocks x hx

end Copies

end Checked
