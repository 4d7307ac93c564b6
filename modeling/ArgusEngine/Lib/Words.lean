import ArgusEngine.Lib.Checked

/-!
# Byte arrays and machine integers

`Raw n` is an array of `n` bytes. The machine integers are written as little-endian arrays (`le16`,
`le32`, `le64`, `leI32`) and read at an offset (`u16At`, `u32At`, `u64At`, `i32At`), which panics
past the end. Text is `String`; `asBytes` and `fromUtf8` are its UTF-8 bytes.

* `ok_u64At` and its siblings: what is read is the number in the slice.
* **`slice_flatten`**: the parts of a byte string that is put together from parts.
-/

namespace Checked

open FlatMem

variable {ε : Type}

/-- An array of `n` bytes. -/
abbrev Raw (n : ℕ) : Type := {b : List UInt8 // b.length = n}

instance {n : ℕ} : DecidableEq (Raw n) :=
  fun a b => decidable_of_iff (a.1 = b.1) Subtype.ext_iff.symm

@[simp] theorem length_raw {n : ℕ} (a : Raw n) : a.1.length = n := a.2

/-- `b[lo..lo + n].try_into().unwrap()`. -/
def array (b : List UInt8) (lo n : ℕ) : Except (Fault ε) (Raw n) :=
  if h : lo + n ≤ b.length then .ok ⟨slice b lo n, length_slice h⟩
  else .error (.panic "range out of bounds for slice")

/-- `a[..s.len()].copy_from_slice(s)` on a zeroed array, for what fits into it. -/
def padded (n : ℕ) (s : List UInt8) : Raw n := ⟨(s ++ List.replicate n 0).take n, by simp⟩

def le16 (x : UInt16) : List UInt8 := toLe 2 x.toNat
def le32 (x : UInt32) : List UInt8 := toLe 4 x.toNat
def le64 (x : UInt64) : List UInt8 := toLe 8 x.toNat
def leI32 (x : Int32) : List UInt8 := le32 x.toUInt32

def ofLe16 (b : List UInt8) : UInt16 := .ofNat (ofLe b)
def ofLe32 (b : List UInt8) : UInt32 := .ofNat (ofLe b)
def ofLe64 (b : List UInt8) : UInt64 := .ofNat (ofLe b)
def ofLeI32 (b : List UInt8) : Int32 := (ofLe32 b).toInt32

/-- A number of `n` bytes at an offset. -/
def readAt {α : Type} (n : ℕ) (f : List UInt8 → α) (b : List UInt8) (lo : ℕ) :
    Except (Fault ε) α := do
  return f (← array b lo n).1

abbrev u16At (b : List UInt8) (lo : ℕ) : Except (Fault ε) UInt16 := readAt 2 ofLe16 b lo
abbrev u32At (b : List UInt8) (lo : ℕ) : Except (Fault ε) UInt32 := readAt 4 ofLe32 b lo
abbrev u64At (b : List UInt8) (lo : ℕ) : Except (Fault ε) UInt64 := readAt 8 ofLe64 b lo
abbrev i32At (b : List UInt8) (lo : ℕ) : Except (Fault ε) Int32 := readAt 4 ofLeI32 b lo

/-- `n` reads, each `k` behind the one before. -/
def readMany {α : Type} (k : ℕ) (read : ℕ → Except (Fault ε) α) :
    (n pos : ℕ) → Except (Fault ε) (List α)
  | 0, _ => .ok []
  | n + 1, pos => do return (← read pos) :: (← readMany k read n (pos + k))

/-- `str::as_bytes`. -/
def asBytes (s : String) : List UInt8 := s.toByteArray.data.toList

/-- `str::from_utf8`. -/
def fromUtf8 (b : List UInt8) : Option String := String.fromUTF8? ⟨b.toArray⟩

/-! ## Numbers and their bytes -/

@[simp] theorem length_le16 (x : UInt16) : (le16 x).length = 2 := length_toLe 2 _
@[simp] theorem length_le32 (x : UInt32) : (le32 x).length = 4 := length_toLe 4 _
@[simp] theorem length_le64 (x : UInt64) : (le64 x).length = 8 := length_toLe 8 _
@[simp] theorem length_leI32 (x : Int32) : (leI32 x).length = 4 := length_toLe 4 _

@[simp] theorem ofLe16_le16 (x : UInt16) : ofLe16 (le16 x) = x := by
  rw [ofLe16, le16, ofLe_toLe, Nat.mod_eq_of_lt (show x.toNat < 256 ^ 2 from x.toNat_lt),
    UInt16.ofNat_toNat]

@[simp] theorem ofLe32_le32 (x : UInt32) : ofLe32 (le32 x) = x := by
  rw [ofLe32, le32, ofLe_toLe, Nat.mod_eq_of_lt (show x.toNat < 256 ^ 4 from x.toNat_lt),
    UInt32.ofNat_toNat]

@[simp] theorem ofLe64_le64 (x : UInt64) : ofLe64 (le64 x) = x := by
  rw [ofLe64, le64, ofLe_toLe, Nat.mod_eq_of_lt (show x.toNat < 256 ^ 8 from x.toNat_lt),
    UInt64.ofNat_toNat]

@[simp] theorem ofLeI32_leI32 (x : Int32) : ofLeI32 (leI32 x) = x := by
  rw [ofLeI32, leI32, ofLe32_le32]
  rfl

/-! ## Reading -/

section Reading

variable {b : List UInt8} {lo n : ℕ}

theorem array_of_le (h : lo + n ≤ b.length) :
    array (ε := ε) b lo n = .ok ⟨slice b lo n, length_slice h⟩ :=
  dif_pos h

theorem readAt_of_le {α : Type} {f : List UInt8 → α} (h : lo + n ≤ b.length) :
    readAt (ε := ε) n f b lo = .ok (f (slice b lo n)) := by
  rw [readAt, array_of_le h]
  rfl

@[simp] theorem ok_array {a : Raw n} : array (ε := ε) b lo n = .ok a ↔ lo + n ≤ b.length ∧
    a.1 = slice b lo n := by
  unfold array
  split_ifs with h
  · simp [h, Subtype.ext_iff, eq_comm]
  · simp [h]

@[simp] theorem noPanic_array : NoPanic (array (ε := ε) b lo n) ↔ lo + n ≤ b.length := by
  unfold array
  split_ifs with h <;> simp [h]

@[simp] theorem ok_readAt {α : Type} {f : List UInt8 → α} {x : α} :
    readAt (ε := ε) n f b lo = .ok x ↔ lo + n ≤ b.length ∧ x = f (slice b lo n) := by
  unfold readAt array
  split_ifs with h
  · simp [h, bind, Except.bind, pure, Except.pure, eq_comm]
  · simp [h, bind, Except.bind]

@[simp] theorem noPanic_readAt {α : Type} {f : List UInt8 → α} :
    NoPanic (readAt (ε := ε) n f b lo) ↔ lo + n ≤ b.length := by
  simp only [readAt, noPanic_bind, noPanic_array, noPanic_pure, implies_true, and_true]

theorem noPanic_readMany {α : Type} {k : ℕ} {read : ℕ → Except (Fault ε) α} {n pos : ℕ}
    (h : ∀ i < n, NoPanic (read (pos + i * k))) : NoPanic (readMany k read n pos) := by
  induction n generalizing pos with
  | zero => exact noPanic_ok _
  | succ n ih =>
    simp only [readMany, noPanic_bind, noPanic_pure, implies_true, and_true]
    refine ⟨by simpa using h 0 (Nat.zero_lt_succ n), fun _ _ => ih fun i hi => ?_⟩
    have hnext := h (i + 1) (Nat.succ_lt_succ hi)
    rwa [Nat.add_mul, Nat.one_mul, Nat.add_comm (i * k), ← Nat.add_assoc] at hnext

theorem readMany_eq_ok {α : Type} {k : ℕ} {read : ℕ → Except (Fault ε) α} {xs : List α} {pos : ℕ}
    (h : ∀ i (hi : i < xs.length), read (pos + i * k) = .ok xs[i]) :
    readMany k read xs.length pos = .ok xs := by
  induction xs generalizing pos with
  | nil => rfl
  | cons x xs ih =>
    have hx : read pos = .ok x := by simpa using h 0 (Nat.zero_lt_succ _)
    have hxs : readMany k read xs.length (pos + k) = .ok xs := by
      refine ih fun i hi => ?_
      have hnext := h (i + 1) (Nat.succ_lt_succ hi)
      rwa [Nat.add_mul, Nat.one_mul, Nat.add_comm (i * k), ← Nat.add_assoc] at hnext
    rw [List.length_cons, readMany, bind_of_ok hx, bind_of_ok hxs]
    rfl

end Reading

theorem padded_of_length {n : ℕ} {s : List UInt8} (h : s.length = n) : padded n s = ⟨s, h⟩ := by
  subst h
  exact Subtype.ext List.take_left

/-! ## Parts -/

theorem slice_mid {a m c : List UInt8} {off n : ℕ} (hoff : a.length = off) (hn : m.length = n) :
    slice (a ++ m ++ c) off n = m := by
  rw [slice, List.append_assoc, ← hoff, List.drop_left, ← hn, List.take_left]

theorem flatten_split {ps : List (List UInt8)} {p : List UInt8} {i : ℕ} (hp : ps[i]? = some p) :
    ps.flatten = (ps.take i).flatten ++ p ++ (ps.drop (i + 1)).flatten := by
  obtain ⟨hi, rfl⟩ := List.getElem?_eq_some_iff.mp hp
  rw [List.append_assoc, ← List.flatten_cons, ← List.drop_eq_getElem_cons hi, ← List.flatten_append,
    List.take_append_drop]

/-- **A part of a byte string that is put together from parts.** -/
theorem slice_flatten {ps : List (List UInt8)} {p : List UInt8} {i off n : ℕ} (hp : ps[i]? = some p)
    (hoff : ((ps.take i).map List.length).sum = off) (hn : p.length = n) :
    slice ps.flatten off n = p := by
  rw [flatten_split hp]
  exact slice_mid (by rw [List.length_flatten, hoff]) hn

theorem length_blocks {α : Type} {enc : α → List UInt8} {k : ℕ} (henc : ∀ x, (enc x).length = k)
    (xs : List α) : (xs.flatMap enc).length = xs.length * k := by
  rw [List.length_flatMap, List.map_congr_left fun x _ => henc x, List.map_const',
    List.sum_replicate_nat]

/-- **A block of a list that is written in blocks of one length.** -/
theorem slice_blocks {α : Type} {enc : α → List UInt8} {k : ℕ} (henc : ∀ x, (enc x).length = k)
    {xs : List α} {i : ℕ} (hi : i < xs.length) (pre post : List UInt8) :
    slice (pre ++ xs.flatMap enc ++ post) (pre.length + i * k) k = enc xs[i] := by
  have hsplit : xs.flatMap enc = (xs.take i).flatMap enc ++ enc xs[i] ++
    (xs.drop (i + 1)).flatMap enc := by
    rw [List.append_assoc, ← List.flatMap_cons, ← List.drop_eq_getElem_cons hi,
      ← List.flatMap_append, List.take_append_drop]
  have hparts : pre ++ xs.flatMap enc ++ post =
      (pre ++ (xs.take i).flatMap enc) ++ enc xs[i] ++ ((xs.drop (i + 1)).flatMap enc ++ post) := by
    rw [hsplit]
    simp only [List.append_assoc]
  rw [hparts]
  refine slice_mid ?_ (henc _)
  rw [List.length_append, length_blocks henc, List.length_take, Nat.min_eq_left (Nat.le_of_lt hi)]

/-! ## Text -/

@[simp] theorem fromUtf8_asBytes (s : String) : fromUtf8 (asBytes s) = some s := by
  have hdata : (⟨(asBytes s).toArray⟩ : ByteArray) = s.toByteArray := rfl
  rw [fromUtf8, hdata, String.fromUTF8?, dif_pos s.isValidUTF8]
  rfl

theorem fromUtf8_eq_some {b : List UInt8} {s : String} : fromUtf8 b = some s ↔ asBytes s = b := by
  constructor
  · intro h
    rw [fromUtf8, String.fromUTF8?] at h
    split_ifs at h
    rw [← Option.some.inj h]
    rfl
  · rintro rfl
    exact fromUtf8_asBytes s

end Checked
