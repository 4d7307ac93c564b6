import Mathlib.Algebra.Order.Ring.Nat
import ArgusEngine.Lib.Bytes

/-!
# Reading a byte string from front to back

A reader takes the bytes and an offset; it returns a value with the offset behind it, or nothing
where the bytes end. Numbers are little-endian.

* `readBytes`, `readLe`: a block of bytes, one number;
* `readLes`: numbers one after another. **`readLes_eq_some`**: they are the slices in order;
* `At src off rest`: what is left to read; `readBytes_at`, `readLe_at`, **`readLes_at`**: a reader
  gives back what was written there.
-/

namespace FlatMem

/-- The `k` little-endian bytes of a number. -/
def toLe : ℕ → ℕ → List UInt8
  | 0, _ => []
  | k + 1, n => UInt8.ofNat n :: toLe k (n / 256)

/-- The number written in little-endian bytes. -/
def ofLe (b : List UInt8) : ℕ := b.foldr (fun x n => x.toNat + 256 * n) 0

def readBytes (n : ℕ) (src : List UInt8) (off : ℕ) : Option (List UInt8 × ℕ) :=
  if off + n > src.length then none else some (slice src off n, off + n)

/-- A number of `n` bytes. -/
def readLe (n : ℕ) (src : List UInt8) (off : ℕ) : Option (ℕ × ℕ) :=
  (readBytes n src off).map fun r => (ofLe r.1, r.2)

/-- `k` numbers of `n` bytes. -/
def readLes (n : ℕ) (src : List UInt8) : ℕ → ℕ → Option (List ℕ × ℕ)
  | 0, off => some ([], off)
  | k + 1, off => do
    let (x, off) ← readLe n src off
    let (xs, off) ← readLes n src k off
    return (x :: xs, off)

theorem length_toLe (k n : ℕ) : (toLe k n).length = k := by
  induction k generalizing n with
  | zero => rfl
  | succ k ih => rw [toLe, List.length_cons, ih]

theorem ofLe_toLe (k n : ℕ) : ofLe (toLe k n) = n % 256 ^ k := by
  induction k generalizing n with
  | zero => simp [toLe, ofLe, Nat.mod_one]
  | succ k ih =>
    have hcons : ofLe (toLe (k + 1) n) = (UInt8.ofNat n).toNat + 256 *
      ofLe (toLe k (n / 256)) := rfl
    have hbyte : (UInt8.ofNat n).toNat = n % 256 := UInt8.toNat_ofNat'
    rw [hcons, ih, hbyte, Nat.pow_succ, Nat.mul_comm (256 ^ k), Nat.mod_mul]

section Readers

variable {src : List UInt8} {n off : ℕ}

theorem readBytes_eq_some {r : List UInt8 × ℕ} (h : readBytes n src off = some r) :
    r = (slice src off n, off + n) := by
  unfold readBytes at h
  split_ifs at h
  exact (Option.some.inj h).symm

theorem readLe_eq_some {r : ℕ × ℕ} (h : readLe n src off = some r) :
    r = (ofLe (slice src off n), off + n) := by
  obtain ⟨r', hr, rfl⟩ := Option.map_eq_some_iff.mp h
  rw [readBytes_eq_some hr]

/-- **Numbers one after another.** -/
theorem readLes_eq_some {k : ℕ} {r : List ℕ × ℕ} (h : readLes n src k off = some r) :
    r = ((List.range k).map fun i => ofLe (slice src (off + i * n) n), off + k * n) := by
  induction k generalizing off r with
  | zero =>
    cases h
    simp
  | succ k ih =>
    simp only [readLes, Option.bind_eq_bind, Option.bind_eq_some_iff, Option.pure_def,
      Option.some.injEq] at h
    obtain ⟨x, hx, xs, hxs, rfl⟩ := h
    rw [readLe_eq_some hx] at hxs
    rw [readLe_eq_some hx, ih hxs, List.range_succ_eq_map]
    simp only [List.map_cons, List.map_map, Nat.zero_mul, Nat.add_zero, Nat.succ_mul]
    refine Prod.ext (congrArg (List.cons _) (List.map_congr_left fun i _ => ?_))
      (by simp only; omega)
    simp only [Function.comp, Nat.succ_eq_add_one, Nat.add_mul, Nat.one_mul]
    congr 2
    omega

end Readers

/-! ## Reading what was written -/

theorem guard_pos {p : Prop} [Decidable p] (h : p) : (guard p : Option Unit) = some () := if_pos h

/-- `rest` is what is left of `src` from `off` on. -/
def At (src : List UInt8) (off : ℕ) (rest : List UInt8) : Prop :=
  ∃ pre, src = pre ++ rest ∧ pre.length = off

theorem at_zero (src : List UInt8) : At src 0 src := ⟨[], rfl, rfl⟩

theorem ofLe_lt (b : List UInt8) : ofLe b < 256 ^ b.length := by
  induction b with
  | nil => exact Nat.one_pos
  | cons x b ih =>
    have hx := x.toNat_lt
    have hcons : ofLe (x :: b) = x.toNat + 256 * ofLe b := rfl
    rw [hcons, List.length_cons, Nat.pow_succ]
    omega

theorem ofLe_slice_lt (src : List UInt8) (off k : ℕ) : ofLe (slice src off k) < 256 ^ k :=
  (ofLe_lt _).trans_le (Nat.pow_le_pow_right (by decide) (List.length_take_le ..))

section Written

variable {src field rest : List UInt8} {n k x off : ℕ}

theorem At.skip (h : At src off (field ++ rest)) (hn : field.length = n) :
    At src (off + n) rest := by
  obtain ⟨pre, hsrc, hpre⟩ := h
  exact ⟨pre ++ field, by rw [hsrc, List.append_assoc], by rw [List.length_append, hpre, hn]⟩

theorem At.drop (h : At src off rest) : src.drop off = rest := by
  obtain ⟨pre, rfl, rfl⟩ := h
  exact List.drop_left ..

theorem At.length (h : At src off rest) : off + rest.length = src.length := by
  obtain ⟨pre, rfl, rfl⟩ := h
  exact (List.length_append ..).symm

theorem At.slice (h : At src off (field ++ rest)) (hn : field.length = n) :
    slice src off n = field := by
  rw [FlatMem.slice, h.drop, ← hn]
  exact List.take_left ..

theorem readBytes_at (h : At src off (field ++ rest)) (hn : field.length = n) :
    readBytes n src off = some (field, off + n) := by
  have hlen := h.length
  rw [List.length_append] at hlen
  unfold readBytes
  rw [if_neg (by omega), h.slice hn]

theorem readLe_at (h : At src off (toLe k x ++ rest)) :
    readLe k src off = some (x % 256 ^ k, off + k) := by
  unfold readLe
  rw [readBytes_at h (length_toLe k x), Option.map_some, ofLe_toLe]

/-- **Numbers one after another, read back.** -/
theorem readLes_at {xs : List ℕ} (h : At src off (xs.flatMap (toLe k) ++ rest))
    (hx : ∀ x ∈ xs, x < 256 ^ k) :
    readLes k src xs.length off = some (xs, off + xs.length * k) := by
  induction xs generalizing off with
  | nil =>
    rw [List.length_nil, Nat.zero_mul, Nat.add_zero]
    rfl
  | cons x xs ih =>
    rw [List.flatMap_cons, List.append_assoc] at h
    have hrest := ih (h.skip (length_toLe k x)) fun y hy => hx y (List.mem_cons_of_mem _ hy)
    rw [List.length_cons, readLes, readLe_at h]
    simp only [Option.bind_eq_bind, Option.bind_some, hrest,
      Nat.mod_eq_of_lt (hx x List.mem_cons_self)]
    exact congrArg (fun off => some (x :: xs, off)) (by rw [Nat.succ_mul]; omega)

theorem map_slice_at {α β : Type*} {f : α → List UInt8} (hf : ∀ a, (f a).length = k)
    (g : List UInt8 → β) {as : List α} (h : At src off (as.flatMap f ++ rest)) :
    ((List.range as.length).map fun i => g (FlatMem.slice src (off + i * k) k)) =
      as.map fun a => g (f a) := by
  induction as generalizing off with
  | nil => rfl
  | cons a as ih =>
    rw [List.flatMap_cons, List.append_assoc] at h
    rw [List.length_cons, List.range_succ_eq_map, List.map_cons, List.map_map, List.map_cons,
      Nat.zero_mul, Nat.add_zero, h.slice (hf a), ← ih (h.skip (hf a))]
    refine congrArg (List.cons _) (List.map_congr_left fun i _ => ?_)
    simp only [Function.comp, Nat.succ_eq_add_one, Nat.add_mul, Nat.one_mul]
    congr 2
    omega

end Written

end FlatMem
