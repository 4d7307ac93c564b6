import Mathlib.Algebra.CharZero.Defs
import Mathlib.Tactic.Ring
import ArgusEngine.Lib.Cells
import ArgusEngine.Lib.Nibbles

/-!
# Dequantization at load time

`dequantQ4_1` and `dequantQ4K` turn the blocks of a GGUF tensor into numbers. The arithmetic is that
of a commutative ring `K`; the halves of a block (its scale and its minimum) are taken as arbitrary
numbers, `num i` being the number at byte `i` of the data. `none` is a panic.

* `dequantQ4_1_eq`: the elements of a `Q4_1` tensor, `nibble * d + m` for the 32 nibbles of a block;
* `dequantQ4K_eq`: the elements the decoder of `Q4_K` super-blocks writes;
* `FollowsGgml`: the elements of the GGML layout;
* **`dequantQ4K_followsGgml_iff`**: which super-blocks the decoder reads as GGML does.
-/

namespace ArgusEngine

namespace Loader

open FlatMem CellArray Nibbles

variable {K : Type} [CommRing K]

/-! ## `Q4_1` -/

/-- Byte `j` of block `bi`: its low nibble is element `j`, its high nibble element `j + 16`. -/
def dequantQ4_1Byte (num : ℕ → K) (data : List UInt8) (out : Cells K) (x : ℕ × ℕ) :
    Option (Cells K) := do
  let d := num (x.1 * 20)
  let m := num (x.1 * 20 + 2)
  let qs := slice data (x.1 * 20 + 4) 16
  let byte ← qs[x.2]?
  let out ← out.set (x.1 * 32 + x.2) (((byte &&& (0x0F : UInt8)).toNat : K) * d + m)
  out.set (x.1 * 32 + (x.2 + 16)) (((byte >>> (4 : UInt8)).toNat : K) * d + m)

/-- `dequant_q4_1`: blocks of 20 bytes and 32 values. -/
def dequantQ4_1 (num : ℕ → K) (data : List UInt8) (numElements : ℕ) : Option (List K) := do
  guard (numElements % 32 = 0)
  let nBlocks := numElements / 32
  guard (nBlocks * 20 ≤ data.length)
  filledBy numElements 0 (List.range nBlocks ×ˢ List.range 16) (dequantQ4_1Byte num data)

/-! ## `Q4_K` -/

/-- `sc[j]` as `dequant_q4_k` unpacks it from the 12 scale bytes. -/
def unpackScale (s : List UInt8) (j : ℕ) : UInt8 :=
  if j < 4 then s.getD j 0 &&& 63
  else (s.getD (j + 4) 0 &&& (0xF : UInt8)) <<< (2 : UInt8) ||| (s.getD (j - 4) 0 >>> (6 : UInt8))

/-- `mn[j]`. -/
def unpackMin (s : List UInt8) (j : ℕ) : UInt8 :=
  if j < 4 then s.getD (j + 4) 0 &&& 63
  else (s.getD (j + 4) 0 >>> (4 : UInt8)) <<< (2 : UInt8) ||| (s.getD j 0 >>> (6 : UInt8))

/-- The scale bytes of super-block `bi`. -/
def scalesRaw (data : List UInt8) (bi : ℕ) : List UInt8 := slice data (bi * 144 + 4) 12

/-- The quant bytes of super-block `bi`. -/
def quants (data : List UInt8) (bi : ℕ) : List UInt8 := slice data (bi * 144 + 16) 128

/-- Byte `i` of sub-block `j` of super-block `bi`. -/
def dequantQ4KByte (num : ℕ → K) (data : List UInt8) (out : Cells K) (x : ℕ × ℕ × ℕ) :
    Option (Cells K) := do
  let (bi, j, i) := x
  let d := num (bi * 144)
  let dmin := num (bi * 144 + 2)
  let dSc := d * ((unpackScale (scalesRaw data bi) j).toNat : K)
  let dMn := dmin * ((unpackMin (scalesRaw data bi) j).toNat : K)
  let byte ← (quants data bi)[j * 16 + i]?
  let out ← out.set (bi * 256 + j * 32 + i) (((byte &&& (0x0F : UInt8)).toNat : K) * dSc - dMn)
  out.set (bi * 256 + j * 32 + (i + 16)) (((byte >>> (4 : UInt8)).toNat : K) * dSc - dMn)

/-- `dequant_q4_k`: super-blocks of 144 bytes and 256 values. -/
def dequantQ4K (num : ℕ → K) (data : List UInt8) (numElements : ℕ) : Option (List K) := do
  guard (numElements % 256 = 0)
  let nBlocks := numElements / 256
  guard (nBlocks * 144 ≤ data.length)
  filledBy numElements 0 (List.range nBlocks ×ˢ List.range 8 ×ˢ List.range 16)
    (dequantQ4KByte num data)

/-! ## What the loops write -/

section Loops

variable {num : ℕ → K} {data : List UInt8}

/-- Nibble `t` of 16 bytes: the low nibbles first, then the high ones. -/
def nibbleAt (b : List UInt8) (t : ℕ) : ℕ :=
  if t < 16 then lo (b.getD t 0) else hi (b.getD (t - 16) 0)

omit [CommRing K] in
theorem writes_nibbles {out : Cells K} {byte : UInt8} {o i : ℕ} {f : ℕ → K} {g : ℕ → K}
    (hlen : o + 32 ≤ out.len) (hi : i < 16) (hlo : g (lo byte) = f (o + i))
    (hhi : g (Nibbles.hi byte) = f (o + (i + 16))) : ∃ out', (do
      let out ← out.set (o + i) (g (byte &&& (0x0F : UInt8)).toNat)
      out.set (o + (i + 16)) (g (byte >>> (4 : UInt8)).toNat)) = some out' ∧
      Writes ({o + i} ∪ {o + (i + 16)}) f out out' := by
  rw [toNat_and_low, toNat_shiftRight_four]
  obtain ⟨o₁, ho₁, hw₁⟩ := Writes.exists_set (a := out) (i := o + i) (by omega) hlo
  obtain ⟨o₂, ho₂, hw₂⟩ := Writes.exists_set (a := o₁) (i := o + (i + 16))
    (by have := hw₁.len; omega) hhi
  refine ⟨o₂, ?_, hw₁.trans hw₂⟩
  rw [ho₁]
  exact ho₂

/-- Element `p` of a `Q4_1` tensor. -/
def q4_1Element (num : ℕ → K) (data : List UInt8) (p : ℕ) : K :=
  (nibbleAt (slice data (p / 32 * 20 + 4) 16) (p % 32) : K) * num (p / 32 * 20) +
    num (p / 32 * 20 + 2)

/-- **`dequant_q4_1`** follows the `Q4_1` layout, blocks in order. -/
theorem dequantQ4_1_eq (num : ℕ → K) {n : ℕ} (hlen : n * 20 ≤ data.length) :
    dequantQ4_1 num data (n * 32) = some ((List.range (n * 32)).map (q4_1Element num data)) := by
  have hfill : filledBy (n * 32) 0 (List.range n ×ˢ List.range 16) (dequantQ4_1Byte num data) =
      some ((List.range (n * 32)).map (q4_1Element num data)) := by
    refine filledBy_eq (S := fun x => {x.1 * 32 + x.2} ∪ {x.1 * 32 + (x.2 + 16)}) ?_ fun p hp => ?_
    · rintro ⟨b, i⟩ hx out hout
      rw [List.mem_product, List.mem_range, List.mem_range] at hx
      have hin := row_bound (w := 20) hx.1
      have hcells := row_bound (w := 32) hx.1
      have hqs : (slice data (b * 20 + 4) 16)[i]? =
        some ((slice data (b * 20 + 4) 16).getD i 0) := by
        have hi : i < (slice data (b * 20 + 4) 16).length := by
          rw [length_slice (by omega)]
          exact hx.2
        rw [List.getElem?_eq_getElem hi, List.getD_eq_getElem _ _ hi]
      unfold dequantQ4_1Byte
      simp only
      rw [hqs]
      refine writes_nibbles (g := fun k => (k : K) * num (b * 20) + num (b * 20 + 2))
        (by omega) hx.2 ?_ ?_
      · have h₁ : (b * 32 + i) / 32 = b := by omega
        have h₂ : (b * 32 + i) % 32 = i := by omega
        rw [q4_1Element, h₁, h₂, nibbleAt, if_pos hx.2]
      · have h₁ : (b * 32 + (i + 16)) / 32 = b := by omega
        have h₂ : (b * 32 + (i + 16)) % 32 = i + 16 := by omega
        rw [q4_1Element, h₁, h₂, nibbleAt, if_neg (by omega), Nat.add_sub_cancel]
    · refine ⟨(p / 32, p % 16), ?_, ?_⟩
      · rw [List.mem_product, List.mem_range, List.mem_range]
        exact ⟨by omega, by omega⟩
      · simp only [Set.mem_union, Set.mem_singleton_iff]
        omega
  have hn : n * 32 / 32 = n := Nat.mul_div_cancel _ (by decide)
  unfold dequantQ4_1
  simp only [hn]
  rw [guard_pos (Nat.mul_mod_left ..), guard_pos hlen]
  exact hfill

/-- Element `t` of sub-block `j` of super-block `bi`, as the decoder computes it. -/
def q4KElement (num : ℕ → K) (data : List UInt8) (bi j t : ℕ) : K :=
  (nibbleAt (slice (quants data bi) (j * 16) 16) t : K) *
    (num (bi * 144) * ((unpackScale (scalesRaw data bi) j).toNat : K)) -
    num (bi * 144 + 2) * ((unpackMin (scalesRaw data bi) j).toNat : K)

/-- **`dequant_q4_k`**, element by element. -/
theorem dequantQ4K_eq (num : ℕ → K) {n : ℕ} (hlen : n * 144 ≤ data.length) :
    dequantQ4K num data (n * 256) =
    some ((List.range (n * 256)).map fun p => q4KElement num data (p / 256)
      (p / 32 % 8) (p % 32)) := by
  have hfill : filledBy (n * 256) 0 (List.range n ×ˢ List.range 8 ×ˢ List.range 16)
    (dequantQ4KByte num data) =
      some ((List.range (n * 256)).map fun p => q4KElement num data (p / 256)
        (p / 32 % 8) (p % 32)) := by
    refine filledBy_eq (S := fun x => {x.1 * 256 + x.2.1 * 32 + x.2.2} ∪
      {x.1 * 256 + x.2.1 * 32 + (x.2.2 + 16)}) ?_ fun p hp => ?_
    · rintro ⟨b, j, i⟩ hx out hout
      simp only [List.mem_product, List.mem_range] at hx
      obtain ⟨hb, hj, hi⟩ := hx
      have hin := row_bound (w := 144) hb
      have hcells := row_bound (w := 256) hb
      have hqlen : (quants data b).length = 128 := length_slice (by omega)
      have hbyte : (quants data b)[j * 16 + i]? =
        some ((slice (quants data b) (j * 16) 16).getD i 0) := by
        have hk : i < (slice (quants data b) (j * 16) 16).length := by
          rw [length_slice (by omega)]
          exact hi
        rw [List.getD_eq_getElem _ _ hk, ← List.getElem?_eq_getElem hk, getElem?_slice, if_pos hi]
      unfold dequantQ4KByte
      simp only
      rw [hbyte]
      refine writes_nibbles (o := b * 256 + j * 32) (g := fun k => (k : K) *
        (num (b * 144) * ((unpackScale (scalesRaw data b) j).toNat : K)) -
        num (b * 144 + 2) * ((unpackMin (scalesRaw data b) j).toNat : K)) (by omega) hi ?_ ?_
      · have h₁ : (b * 256 + j * 32 + i) / 256 = b := by omega
        have h₂ : (b * 256 + j * 32 + i) / 32 % 8 = j := by omega
        have h₃ : (b * 256 + j * 32 + i) % 32 = i := by omega
        simp only [h₁, h₂, h₃]
        rw [q4KElement, nibbleAt, if_pos hi]
      · have h₁ : (b * 256 + j * 32 + (i + 16)) / 256 = b := by omega
        have h₂ : (b * 256 + j * 32 + (i + 16)) / 32 % 8 = j := by omega
        have h₃ : (b * 256 + j * 32 + (i + 16)) % 32 = i + 16 := by omega
        simp only [h₁, h₂, h₃]
        rw [q4KElement, nibbleAt, if_neg (by omega), Nat.add_sub_cancel]
    · refine ⟨(p / 256, p / 32 % 8, p % 16), ?_, ?_⟩
      · simp only [List.mem_product, List.mem_range]
        omega
      · simp only [Set.mem_union, Set.mem_singleton_iff]
        omega
  have hn : n * 256 / 256 = n := Nat.mul_div_cancel _ (by decide)
  unfold dequantQ4K
  simp only [hn]
  rw [guard_pos (Nat.mul_mod_left ..), guard_pos hlen]
  exact hfill

end Loops

/-! ## The GGML layout -/

/-- `sc(j)` of the GGML layout. -/
def ggmlScale (s : List UInt8) (j : ℕ) : UInt8 :=
  if j < 4 then s.getD j 0 &&& 63
  else (s.getD (j + 4) 0 &&& (15 : UInt8)) ||| ((s.getD (j - 4) 0 >>> (6 : UInt8)) <<< (4 : UInt8))

/-- `m(j)` of the GGML layout. -/
def ggmlMin (s : List UInt8) (j : ℕ) : UInt8 :=
  if j < 4 then s.getD (j + 4) 0 &&& 63
  else (s.getD (j + 4) 0 >>> (4 : UInt8)) ||| ((s.getD j 0 >>> (6 : UInt8)) <<< (4 : UInt8))

/-- `out` are the elements of the super-blocks of `data` in the GGML layout: 64 elements share 32
quant bytes, the first 32 their low nibbles and the other 32 their high nibbles. -/
def FollowsGgml (num : ℕ → K) (data : List UInt8) (out : List K) : Prop :=
  ∀ bi < data.length / 144, ∀ c < 4, ∀ l < 32,
    out[256 * bi + (64 * c + l)]? =
      some (num (144 * bi) * ((ggmlScale (scalesRaw data bi) (2 * c)).toNat : K) *
        (((quants data bi).getD (32 * c + l) 0 &&& (15 : UInt8)).toNat : K) -
      num (144 * bi + 2) * ((ggmlMin (scalesRaw data bi) (2 * c)).toNat : K)) ∧
    out[256 * bi + (64 * c + 32 + l)]? =
      some (num (144 * bi) * ((ggmlScale (scalesRaw data bi) (2 * c + 1)).toNat : K) *
        (((quants data bi).getD (32 * c + l) 0 >>> (4 : UInt8)).toNat : K) -
      num (144 * bi + 2) * ((ggmlMin (scalesRaw data bi) (2 * c + 1)).toNat : K))

/-- The two high bits of a byte. -/
def top (x : UInt8) : ℕ := x.toNat / 64

/-- The super-blocks that the decoder reads as GGML does. In the sub-blocks from 4 on it puts the
four low bits of a scale or minimum above the two high ones, and it takes the 32 nibbles of a
sub-block from 16 bytes. -/
structure ReadAlike (s qs : List UInt8) : Prop where
  mins : ∀ j, 4 ≤ j → j < 8 → hi (s.getD (j + 4) 0) = 5 * top (s.getD j 0)
  /-- The half of a sub-block that both read from the same nibbles. -/
  own : ∀ c < 4, ∀ i < 16,
    (unpackScale s (2 * c) = ggmlScale s (2 * c) ∨ lo (qs.getD (32 * c + i) 0) = 0) ∧
    (unpackScale s (2 * c + 1) = ggmlScale s (2 * c + 1) ∨ hi (qs.getD (32 * c + (i + 16)) 0) = 0)
  /-- The half where the decoder takes the nibbles of the other sub-block. -/
  crossed : ∀ c < 4, ∀ i < 16,
    (unpackScale s (2 * c)).toNat * hi (qs.getD (32 * c + i) 0) =
      (ggmlScale s (2 * c)).toNat * lo (qs.getD (32 * c + (i + 16)) 0) ∧
    (unpackScale s (2 * c + 1)).toNat * lo (qs.getD (32 * c + (i + 16)) 0) =
      (ggmlScale s (2 * c + 1)).toNat * hi (qs.getD (32 * c + i) 0)

section Ggml

variable {s qs : List UInt8}

/-- Nibble `l` of sub-block `j` in the GGML layout. -/
def ggmlNibble (qs : List UInt8) (j l : ℕ) : ℕ :=
  if j % 2 = 0 then lo (qs.getD (16 * j + l) 0) else hi (qs.getD (16 * (j - 1) + l) 0)

theorem top_lt (x : UInt8) : top x < 4 := Nat.div_lt_of_lt_mul x.toNat_lt

theorem toNat_shiftRight_six (x : UInt8) : (x >>> (6 : UInt8)).toNat = top x := by
  rw [UInt8.toNat_shiftRight]
  exact Nat.shiftRight_eq_div_pow _ 6

theorem toNat_unpackMin {j : ℕ} (hj : 4 ≤ j) :
    (unpackMin s j).toNat = 4 * hi (s.getD (j + 4) 0) + top (s.getD j 0) := by
  have hh := hi_lt (s.getD (j + 4) 0)
  have ht := top_lt (s.getD j 0)
  have h2 : (2 : UInt8).toNat % 8 = 2 := rfl
  rw [unpackMin, if_neg (by omega), UInt8.toNat_or, UInt8.toNat_shiftLeft, toNat_shiftRight_six,
    toNat_shiftRight_four, h2, Nat.mod_eq_of_lt (by rw [Nat.shiftLeft_eq]; omega), Nat.or_comm,
    or_shiftLeft (by omega)]
  omega

theorem toNat_ggmlMin {j : ℕ} (hj : 4 ≤ j) :
    (ggmlMin s j).toNat = hi (s.getD (j + 4) 0) + 16 * top (s.getD j 0) := by
  have hh := hi_lt (s.getD (j + 4) 0)
  have ht := top_lt (s.getD j 0)
  have h4 : (4 : UInt8).toNat % 8 = 4 := rfl
  rw [ggmlMin, if_neg (by omega), UInt8.toNat_or, UInt8.toNat_shiftLeft, toNat_shiftRight_six,
    toNat_shiftRight_four, h4, Nat.mod_eq_of_lt (by rw [Nat.shiftLeft_eq]; omega)]
  exact or_shiftLeft (k := 4) hh

theorem unpackMin_eq_iff {j : ℕ} : (unpackMin s j).toNat = (ggmlMin s j).toNat ↔
    (4 ≤ j → hi (s.getD (j + 4) 0) = 5 * top (s.getD j 0)) := by
  by_cases hj : 4 ≤ j
  · rw [toNat_unpackMin hj, toNat_ggmlMin hj]
    omega
  · simp only [hj, false_implies, iff_true]
    rw [unpackMin, ggmlMin, if_pos (by omega), if_pos (by omega)]

theorem nibbleAt_slice (qs : List UInt8) (j : ℕ) {i : ℕ} (hi' : i < 16) :
    nibbleAt (slice qs (j * 16) 16) i = lo (qs.getD (16 * j + i) 0) ∧
      nibbleAt (slice qs (j * 16) 16) (i + 16) = hi (qs.getD (16 * j + i) 0) := by
  have hbyte : (slice qs (j * 16) 16).getD i 0 = qs.getD (16 * j + i) 0 := by
    rw [List.getD_eq_getElem?_getD, List.getD_eq_getElem?_getD, getElem?_slice,
      if_pos hi', Nat.mul_comm j]
  rw [nibbleAt, nibbleAt, if_pos hi', if_neg (by omega), Nat.add_sub_cancel, hbyte]
  exact ⟨rfl, rfl⟩

/-- **The super-blocks that are read alike** are those where every scale times its nibble and every
minimum is the one of the GGML layout. -/
theorem readAlike_iff : ReadAlike s qs ↔
    (∀ j < 8, (unpackMin s j).toNat = (ggmlMin s j).toNat) ∧ ∀ j < 8, ∀ l < 32,
      (unpackScale s j).toNat * nibbleAt (slice qs (j * 16) 16) l =
        (ggmlScale s j).toNat * ggmlNibble qs j l := by
  -- the four quarters of 64 elements that share 32 bytes
  have hquarters : ∀ c < 4, ∀ i < 16,
      (nibbleAt (slice qs (2 * c * 16) 16) i = lo (qs.getD (32 * c + i) 0) ∧
        ggmlNibble qs (2 * c) i = lo (qs.getD (32 * c + i) 0)) ∧
      (nibbleAt (slice qs (2 * c * 16) 16) (i + 16) = hi (qs.getD (32 * c + i) 0) ∧
        ggmlNibble qs (2 * c) (i + 16) = lo (qs.getD (32 * c + (i + 16)) 0)) ∧
      (nibbleAt (slice qs ((2 * c + 1) * 16) 16) i = lo (qs.getD (32 * c + (i + 16)) 0) ∧
        ggmlNibble qs (2 * c + 1) i = hi (qs.getD (32 * c + i) 0)) ∧
      (nibbleAt (slice qs ((2 * c + 1) * 16) 16) (i + 16) = hi (qs.getD (32 * c + (i + 16)) 0) ∧
        ggmlNibble qs (2 * c + 1) (i + 16) = hi (qs.getD (32 * c + (i + 16)) 0)) := by
    intro c hc i hi'
    obtain ⟨hl, hh⟩ := nibbleAt_slice qs (2 * c) hi'
    obtain ⟨hl', hh'⟩ := nibbleAt_slice qs (2 * c + 1) hi'
    have he : 16 * (2 * c) = 32 * c := by omega
    have ho : 16 * (2 * c + 1) + i = 32 * c + (i + 16) := by omega
    rw [he] at hl hh
    rw [ho] at hl' hh'
    have hodd : ¬ (2 * c + 1) % 2 = 0 := by omega
    simp only [ggmlNibble, Nat.mul_mod_right, if_true, if_neg hodd, Nat.add_sub_cancel, he]
    exact ⟨⟨hl, trivial⟩, ⟨hh, trivial⟩, ⟨hl', trivial⟩, ⟨hh', trivial⟩⟩
  constructor
  · intro h
    refine ⟨fun j hj => unpackMin_eq_iff.mpr fun h4 => h.mins j h4 hj, fun j hj l hl => ?_⟩
    obtain ⟨⟨h₁, g₁⟩, ⟨h₂, g₂⟩, ⟨h₃, g₃⟩, ⟨h₄, g₄⟩⟩ :=
      hquarters (j / 2) (by omega) (l % 16) (by omega)
    obtain ⟨hown, hown'⟩ := h.own (j / 2) (by omega) (l % 16) (by omega)
    obtain ⟨hcross, hcross'⟩ := h.crossed (j / 2) (by omega) (l % 16) (by omega)
    obtain hj' | hj' : j = 2 * (j / 2) ∨ j = 2 * (j / 2) + 1 := by omega
    · obtain hl' | hl' : l = l % 16 ∨ l = l % 16 + 16 := by omega
      · rw [hj', hl', h₁, g₁]
        exact mul_eq_mul_right_iff.mpr (hown.imp_left (congrArg UInt8.toNat))
      · rw [hj', hl', h₂, g₂]
        exact hcross
    · obtain hl' | hl' : l = l % 16 ∨ l = l % 16 + 16 := by omega
      · rw [hj', hl', h₃, g₃]
        exact hcross'
      · rw [hj', hl', h₄, g₄]
        exact mul_eq_mul_right_iff.mpr (hown'.imp_left (congrArg UInt8.toNat))
  · rintro ⟨hmins, hprod⟩
    refine ⟨fun j h4 hj => unpackMin_eq_iff.mp (hmins j hj) h4, fun c hc i hi' => ?_,
      fun c hc i hi' => ?_⟩
    · obtain ⟨⟨h₁, g₁⟩, -, -, ⟨h₄, g₄⟩⟩ := hquarters c hc i hi'
      have hp₁ := hprod (2 * c) (by omega) i (by omega)
      have hp₄ := hprod (2 * c + 1) (by omega) (i + 16) (by omega)
      rw [h₁, g₁] at hp₁
      rw [h₄, g₄] at hp₄
      exact ⟨(mul_eq_mul_right_iff.mp hp₁).imp_left UInt8.toNat_inj.mp,
        (mul_eq_mul_right_iff.mp hp₄).imp_left UInt8.toNat_inj.mp⟩
    · obtain ⟨-, ⟨h₂, g₂⟩, ⟨h₃, g₃⟩, -⟩ := hquarters c hc i hi'
      have hp₂ := hprod (2 * c) (by omega) (i + 16) (by omega)
      have hp₃ := hprod (2 * c + 1) (by omega) i (by omega)
      rw [h₂, g₂] at hp₂
      rw [h₃, g₃] at hp₃
      exact ⟨hp₂, hp₃⟩

/-- One element for all scales and minima: the products and the minima agree. -/
theorem element_eq_iff [CharZero K] {x sc m x' sc' m' : ℕ} :
    (∀ d dmin : K, (x : K) * (d * sc) - dmin * m = d * sc' * x' - dmin * m') ↔
      sc * x = sc' * x' ∧ m = m' := by
  constructor
  · intro h
    have hone := h 1 0
    have hmin := h 0 1
    simp only [one_mul, zero_mul, sub_zero, mul_zero, zero_sub, neg_inj] at hone hmin
    refine ⟨?_, Nat.cast_injective hmin⟩
    rw [Nat.mul_comm sc]
    exact_mod_cast hone
  · rintro ⟨hp, rfl⟩ d dmin
    have hcast : (sc : K) * x = sc' * x' := by exact_mod_cast hp
    calc (x : K) * (d * sc) - dmin * m = d * (sc * x) - dmin * m := by ring
      _ = d * sc' * x' - dmin * m := by rw [hcast]; ring

/-- The elements the decoder writes, at the indices of the GGML layout. -/
theorem followsGgml_iff {num : ℕ → K} {data : List UInt8} {n : ℕ} (hn : data.length / 144 = n) :
    FollowsGgml num data
      ((List.range (n * 256)).map fun p => q4KElement num data (p / 256) (p / 32 % 8) (p % 32)) ↔
    ∀ bi < n, ∀ j < 8, ∀ l < 32, q4KElement num data bi j l =
      num (bi * 144) * ((ggmlScale (scalesRaw data bi) j).toNat : K) *
        (ggmlNibble (quants data bi) j l : K) - num (bi * 144 + 2) *
          ((ggmlMin (scalesRaw data bi) j).toNat : K) := by
  have hat : ∀ bi < n, ∀ j < 8, ∀ l < 32, ((List.range (n * 256)).map fun p =>
      q4KElement num data (p / 256) (p / 32 % 8) (p % 32))[256 * bi + (32 * j + l)]? =
      some (q4KElement num data bi j l) := by
    intro bi hbi j hj l hl
    have hin : 256 * bi + (32 * j + l) < n * 256 := by omega
    have h₁ : (256 * bi + (32 * j + l)) / 256 = bi := by omega
    have h₂ : (256 * bi + (32 * j + l)) / 32 % 8 = j := by omega
    have h₃ : (256 * bi + (32 * j + l)) % 32 = l := by omega
    rw [List.getElem?_map, List.getElem?_range hin, Option.map_some, h₁, h₂, h₃]
  unfold FollowsGgml
  rw [hn]
  refine forall₂_congr fun bi hbi => ?_
  rw [Nat.mul_comm 144 bi]
  constructor
  · intro h j hj l hl
    obtain ⟨heven, hodd⟩ := h (j / 2) (by omega) l hl
    rw [toNat_and_low] at heven
    rw [toNat_shiftRight_four] at hodd
    obtain hj' | hj' : j = 2 * (j / 2) ∨ j = 2 * (j / 2) + 1 := by omega
    · rw [show 64 * (j / 2) + l = 32 * j + l by omega, hat bi hbi j hj l hl, ← hj'] at heven
      rw [Option.some.inj heven, ggmlNibble, if_pos (by omega), show 16 * j = 32 * (j / 2) by omega]
    · rw [show 64 * (j / 2) + 32 + l = 32 * j + l by omega, hat bi hbi j hj l hl, ← hj'] at hodd
      rw [Option.some.inj hodd, ggmlNibble, if_neg (by omega), show 16 * (j - 1) =
        32 * (j / 2) by omega]
  · intro h c hc l hl
    have heven := h (2 * c) (by omega) l hl
    have hodd := h (2 * c + 1) (by omega) l hl
    rw [ggmlNibble, if_pos (by omega), show 16 * (2 * c) = 32 * c by omega] at heven
    rw [ggmlNibble, if_neg (by omega), Nat.add_sub_cancel, show 16 * (2 * c) =
      32 * c by omega] at hodd
    rw [toNat_and_low, toNat_shiftRight_four, show 64 * c + l = 32 * (2 * c) + l by omega,
      show 64 * c + 32 + l = 32 * (2 * c + 1) +
        l by omega, hat bi hbi _ (by omega) l hl, hat bi hbi _ (by omega) l hl,
      heven, hodd]
    exact ⟨rfl, rfl⟩

end Ggml

/-- **Which `Q4_K` tensors are decoded in the GGML layout**: those whose super-blocks are all read
alike. -/
theorem dequantQ4K_followsGgml_iff [CharZero K] (data : List UInt8) :
    (∀ num : ℕ → K, ∃ out, dequantQ4K num data (data.length / 144 * 256) = some out ∧
      out.length = data.length / 144 * 256 ∧ FollowsGgml num data out) ↔
    ∀ bi < data.length / 144, ReadAlike (scalesRaw data bi) (quants data bi) := by
  have hdecode := fun num : ℕ → K => dequantQ4K_eq num (Nat.div_mul_le_self data.length 144)
  constructor
  · intro h bi hbi
    have hagree : ∀ j < 8, ∀ l < 32, (unpackScale (scalesRaw data bi) j).toNat *
        nibbleAt (slice (quants data bi) (j * 16) 16) l =
          (ggmlScale (scalesRaw data bi) j).toNat * ggmlNibble (quants data bi) j l ∧
        (unpackMin (scalesRaw data bi) j).toNat = (ggmlMin (scalesRaw data bi) j).toNat := by
      intro j hj l hl
      refine (element_eq_iff (K := K)).mp fun d dmin => ?_
      -- the numbers of this super-block are `d` and `dmin`
      obtain ⟨out, hout, -, hfol⟩ := h fun i => if i = bi * 144 then d else dmin
      rw [← Option.some.inj ((hdecode _).symm.trans hout), followsGgml_iff rfl] at hfol
      have hj := hfol bi hbi j hj l hl
      rw [q4KElement] at hj
      simpa only [if_true, if_neg (show ¬ bi * 144 + 2 = bi * 144 by omega)] using hj
    exact readAlike_iff.mpr ⟨fun j hj => (hagree j hj 0 (by decide)).2, fun j hj l hl =>
      (hagree j hj l hl).1⟩
  · intro h num
    refine ⟨_, hdecode num, by simp, (followsGgml_iff rfl).mpr fun bi hbi j hj l hl => ?_⟩
    obtain ⟨hmins, hprod⟩ := readAlike_iff.mp (h bi hbi)
    exact element_eq_iff.mpr ⟨hprod j hj l hl, hmins j hj⟩ _ _

/-- A super-block with `d = 1`, the first four scales `1`, no minima and every nibble `5`. -/
def fives : List UInt8 :=
  [0x00, 0x3C, 0, 0, 1, 1, 1, 1] ++ List.replicate 8 0 ++ List.replicate 128 0x55

theorem dequantQ4K_fives : fives.length / 144 = 1 ∧ ∀ num : ℕ → ℤ, ∃ out,
    dequantQ4K num fives (1 * 256) = some out ∧ out.length = 1 * 256 ∧
    FollowsGgml num fives out := by
  have hone : fives.length / 144 = 1 := by decide +kernel
  have hiff := dequantQ4K_followsGgml_iff (K := ℤ) fives
  rw [hone] at hiff
  refine ⟨hone, hiff.mpr fun bi hbi => ?_⟩
  obtain rfl : bi = 0 := by omega
  refine ⟨fun j h4 h8 => ?_, ?_, ?_⟩
  · obtain rfl | rfl | rfl | rfl : j = 4 ∨ j = 5 ∨ j = 6 ∨ j = 7 := by omega
    all_goals decide +kernel
  · decide +kernel
  · decide +kernel

/-- A super-block with `d = 1`, the first scale `1` and one high nibble `1`, in the first quant
byte. -/
def oneHighNibble : List UInt8 :=
  [0x00, 0x3C, 0, 0, 1] ++ List.replicate 11 0 ++ [0x10] ++ List.replicate 127 0

/-- The nibble belongs to element 32, of the second sub-block; the decoder makes it element 16, of
the first. -/
theorem dequantQ4K_crosses :
    ∃ out : List ℤ, dequantQ4K (fun i => if i = 0 then 1 else 0) oneHighNibble 256 = some out ∧
    out[16]? = some 1 ∧ ¬ FollowsGgml (fun i => if i = 0 then 1 else 0) oneHighNibble out := by
  refine ⟨_, dequantQ4K_eq _ (n := 1) (by decide +kernel), by decide +kernel, fun h => ?_⟩
  have hval := (h 0 (by decide +kernel) 0 (by decide +kernel) 16 (by decide +kernel)).1
  revert hval
  decide +kernel

end Loader

end ArgusEngine
