import Mathlib.Data.List.ReduceOption
import Mathlib.Tactic.Common

/-!
# A byte stream with read timeouts

A stream is what a reader will meet: chunks of data, and reads that time out, up to the end of the
stream. `readExact n` asks for `n` bytes and reads until it has them; a timeout or the end loses the
bytes it had read. Where the chunks are cut does not matter, only where the timeouts fall: `wire`
lays a stream out byte by byte, and **`wire_readExact`** reads it there (`readWire`).
-/

namespace ByteStream

inductive Event where
  | data (chunk : List UInt8)
  | timeout
  deriving Repr, DecidableEq

/-- How a read ends. -/
inductive Read where
  | done (bytes : List UInt8)
  | eof
  | timedOut
  deriving Repr, DecidableEq

/-- The bytes `c` were read before. -/
def Read.prepend (c : List UInt8) : Read → Read
  | done bytes => done (c ++ bytes)
  | eof => eof
  | timedOut => timedOut

def readExact : ℕ → List Event → Read × List Event
  | 0, es => (.done [], es)
  | _ + 1, [] => (.eof, [])
  | _ + 1, .timeout :: es => (.timedOut, es)
  | n + 1, .data c :: es =>
    if n + 1 ≤ c.length then (.done (c.take (n + 1)), .data (c.drop (n + 1)) :: es)
    else ((readExact (n + 1 - c.length) es).1.prepend c, (readExact (n + 1 - c.length) es).2)

/-- The stream byte by byte; `none` is a timeout. -/
def wire (es : List Event) : List (Option UInt8) :=
  es.flatMap fun e =>
    match e with
    | .data c => c.map some
    | .timeout => [none]

def readWire : ℕ → List (Option UInt8) → Read × List (Option UInt8)
  | 0, w => (.done [], w)
  | _ + 1, [] => (.eof, [])
  | _ + 1, none :: w => (.timedOut, w)
  | n + 1, some b :: w => ((readWire n w).1.prepend [b], (readWire n w).2)

@[simp] theorem wire_nil : wire [] = [] := rfl

@[simp] theorem wire_timeout (es : List Event) : wire (.timeout :: es) = none :: wire es := rfl

@[simp] theorem wire_data (c : List UInt8) (es : List Event) :
    wire (.data c :: es) = c.map some ++ wire es := rfl

@[simp] theorem prepend_prepend (c d : List UInt8) (r : Read) :
    (r.prepend d).prepend c = r.prepend (c ++ d) := by
  cases r <;> simp [Read.prepend]

@[simp] theorem prepend_nil (r : Read) : r.prepend [] = r := by
  cases r <;> rfl

theorem readWire_data (c : List UInt8) (n : ℕ) (w : List (Option UInt8)) :
    readWire n (c.map some ++ w) =
      if n ≤ c.length then (.done (c.take n), (c.drop n).map some ++ w)
      else ((readWire (n - c.length) w).1.prepend c, (readWire (n - c.length) w).2) := by
  induction c generalizing n with
  | nil => cases n <;> simp [readWire]
  | cons b c ih =>
    cases n with
    | zero => simp [readWire]
    | succ n =>
      rw [List.map_cons, List.cons_append, readWire, ih]
      by_cases hn : n ≤ c.length
      · simp [hn, Read.prepend]
      · simp [hn, Nat.add_sub_add_right]

theorem readWire_bytes (c : List UInt8) (w : List (Option UInt8)) :
    readWire c.length (c.map some ++ w) = (.done c, w) := by
  simp [readWire_data]

/-- **Reads do not see where the chunks are cut.** -/
theorem wire_readExact (n : ℕ) (es : List Event) :
    readWire n (wire es) = ((readExact n es).1, wire (readExact n es).2) := by
  induction es generalizing n with
  | nil => cases n <;> rfl
  | cons e es ih =>
    cases n with
    | zero => simp [readWire, readExact]
    | succ n =>
      cases e with
      | timeout => rfl
      | data c =>
        rw [wire_data, readWire_data, readExact, ih]
        split_ifs <;> rfl

theorem readExact_of_wire {n : ℕ} {es : List Event} {r : Read} {w : List (Option UInt8)}
    (h : readWire n (wire es) = (r, w)) : ∃ es', readExact n es = (r, es') ∧ wire es' = w := by
  rw [wire_readExact] at h
  obtain ⟨hr, hw⟩ := Prod.ext_iff.mp h
  exact ⟨(readExact n es).2, Prod.ext hr rfl, hw⟩

theorem length_readWire_le (n : ℕ) (w : List (Option UInt8)) :
    (readWire n w).2.length ≤ w.length := by
  induction w generalizing n with
  | nil => cases n <;> simp [readWire]
  | cons b w ih =>
    cases n with
    | zero => simp [readWire]
    | succ n =>
      cases b with
      | none => simp [readWire]
      | some b =>
        have := ih n
        simp only [readWire, List.length_cons]
        omega

/-- A read that does not meet the end moves on. -/
theorem length_readWire_lt {n : ℕ} (hn : 0 < n) {w : List (Option UInt8)}
    (hw : (readWire n w).1 ≠ .eof) : (readWire n w).2.length < w.length := by
  cases n with
  | zero => omega
  | succ n =>
    cases w with
    | nil => exact absurd rfl hw
    | cons b w =>
      cases b with
      | none => simp [readWire]
      | some b =>
        have := length_readWire_le n w
        simp only [readWire, List.length_cons]
        omega

end ByteStream
