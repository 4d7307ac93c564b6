import ArgusEngine.Kv.Tensor
import ArgusEngine.Lib.Cells
import ArgusEngine.Lib.Nibbles

/-!
# The Adreno SOA form of `Q4_0` weights

The re-layout of a `Q4_0` weight of `ne01` rows and `ne00` columns for the Adreno kernels. A block
of the input is 18 bytes, an `f16` scale and 32 nibbles; the output holds the nibbles and the scales
in two buffers, both transposed.

* `q4_0AosToSoaUnshuffled`: the nibbles and scales of every block, in the order of the blocks;
* `q4_0AosToAdrenoSoa`: the two transposes over it;
* **`adrenoSoa_lossless`**: nibble `j` of block `(r, k)` is nibble `j % 4` of the word `(8 * k + j /
  4) * ne01 + r`, its scale the half `k * ne01 + r`, and nothing else is there.

`none` is a panic.
-/

namespace ArgusEngine

namespace Auf

open FlatMem CellArray Checked Nibbles

/-! ## The conversion -/

/-- Bytes of a block: the scale and 16 bytes of nibbles. -/
def blockSize : ℕ := 18

/-- One byte pair `i` of block `b`: the low nibbles of the pair make byte `i` of the output block,
the high ones byte `i + 8`. -/
def unshufflePair (blocks : List UInt8) (q : Cells UInt8) (x : ℕ × ℕ) : Option (Cells UInt8) := do
  let qs := slice blocks (x.1 * blockSize + 2) (QK4_0 / 2)
  let x0 ← qs[2 * x.2]?
  let x1 ← qs[2 * x.2 + 1]?
  let q ← q.set (x.1 * (QK4_0 / 2) + x.2)
    ((x0 &&& (0x0F : UInt8)) ||| ((x1 &&& (0x0F : UInt8)) <<< (4 : UInt8)))
  q.set (x.1 * (QK4_0 / 2) + (x.2 + QK4_0 / 4))
    (((x0 &&& (0xF0 : UInt8)) >>> (4 : UInt8)) ||| (x1 &&& (0xF0 : UInt8)))

/-- `q4_0_aos_to_soa_unshuffled`: the nibbles and the scales. -/
def q4_0AosToSoaUnshuffled (blocks : List UInt8) : Option (List UInt8 × List UInt8) := do
  let nBlocks := blocks.length / blockSize
  let q ← filledBy (nBlocks * (QK4_0 / 2)) 0 (List.range nBlocks ×ˢ List.range (QK4_0 / 4))
    (unshufflePair blocks)
  let d := (List.range nBlocks).flatMap fun b => slice blocks (b * blockSize) 2
  return (q, d)

/-- The little-endian 16-bit words of a byte string. -/
def words (b : List UInt8) (n : ℕ) : List UInt16 :=
  (List.range n).map fun i => ofLe16 (slice b (i * 2) 2)

/-- The transpose of a `rows × cols` matrix of words, as bytes. -/
def transpose (src : List UInt16) (rows cols : ℕ) : Option (List UInt8) := do
  let t ← filledBy (rows * cols) 0 (List.range rows ×ˢ List.range cols) fun t (x : ℕ × ℕ) => do
    let v ← src[x.1 * cols + x.2]?
    t.set (x.2 * rows + x.1) v
  return t.flatMap le16

/-- `q4_0_aos_to_adreno_soa`, with its debug assertions. -/
def q4_0AosToAdrenoSoa (blocks : List UInt8) (ne00 ne01 : ℕ) :
    Option (List UInt8 × List UInt8) := do
  guard (ne00 % QK4_0 = 0)
  let blocksPerRow := ne00 / QK4_0
  let colsUshort := ne00 / 4
  guard (blocks.length = ne01 * blocksPerRow * blockSize)
  let (q, d) ← q4_0AosToSoaUnshuffled blocks
  guard (q.length = ne01 * blocksPerRow * 16)
  let qOut ← transpose (words q (ne01 * colsUshort)) ne01 colsUshort
  guard (d.length = ne01 * blocksPerRow * 2)
  let dOut ← transpose (words d (ne01 * blocksPerRow)) ne01 blocksPerRow
  return (qOut, dOut)

/-! ## What the loops write -/

/-- Nibble `j` of block `n`: the low nibbles of its bytes are `0..16`, the high ones `16..32`. -/
def aosNibble (blocks : List UInt8) (n j : ℕ) : ℕ :=
  if j < 16 then lo (blocks.getD (n * blockSize + 2 + j) 0)
    else hi (blocks.getD (n * blockSize + 2 + (j - 16)) 0)

/-- The scale of block `n`. -/
def aosScale (blocks : List UInt8) (n : ℕ) : List UInt8 := slice blocks (n * blockSize) 2

/-- Byte `p` of the unshuffled nibbles. -/
def unshuffledByte (blocks : List UInt8) (p : ℕ) : UInt8 :=
  .ofNat (aosNibble blocks (p / 16) (2 * (p % 16)) + 16 * aosNibble blocks (p / 16)
    (2 * (p % 16) + 1))

section Loops

variable {blocks : List UInt8} {n : ℕ}

theorem aosNibble_lt (blocks : List UInt8) (n j : ℕ) : aosNibble blocks n j < 16 := by
  unfold aosNibble
  split_ifs
  · exact lo_lt _
  · exact hi_lt _

theorem unshuffledByte_at (blocks : List UInt8) (b : ℕ) {t : ℕ} (ht : t < 16) :
    (unshuffledByte blocks (b * 16 + t)).toNat = aosNibble blocks b (2 * t) + 16 *
      aosNibble blocks b (2 * t + 1) := by
  have h₁ := aosNibble_lt blocks b (2 * t)
  have h₂ := aosNibble_lt blocks b (2 * t + 1)
  have hdiv : (b * 16 + t) / 16 = b := by omega
  have hmod : (b * 16 + t) % 16 = t := by omega
  rw [unshuffledByte, hdiv, hmod, UInt8.toNat_ofNat', Nat.mod_eq_of_lt (by omega)]

theorem writes_unshufflePair (hlen : n * blockSize ≤ blocks.length) {b i : ℕ} (hb : b < n)
    (hi : i < 8) {q : Cells UInt8} (hq : q.len = n * 16) :
    ∃ q', unshufflePair blocks q (b, i) = some q' ∧
      Writes ({b * 16 + i} ∪ {b * 16 + (i + 8)}) (unshuffledByte blocks) q q' := by
  have hrow : b * blockSize + blockSize ≤ n * blockSize := row_bound hb
  unfold blockSize at hrow hlen
  have hget : ∀ t < 16, (slice blocks (b * 18 + 2) 16)[t]? =
    some (blocks.getD (b * 18 + 2 + t) 0) := by
    intro t ht
    have hin : b * 18 + 2 + t < blocks.length := by omega
    rw [getElem?_slice, if_pos ht, List.getElem?_eq_getElem hin, List.getD_eq_getElem _ _ hin]
  have hlow : (blocks.getD (b * 18 + 2 + 2 * i) 0 &&& (0x0F : UInt8)) |||
      ((blocks.getD (b * 18 + 2 + (2 * i + 1)) 0 &&& (0x0F : UInt8)) <<< (4 : UInt8)) =
      unshuffledByte blocks (b * 16 + i) := by
    rw [← UInt8.toNat_inj, toNat_low_pair, unshuffledByte_at blocks b (by omega),
      aosNibble, aosNibble, if_pos (by omega), if_pos (by omega)]
    rfl
  have hhigh : ((blocks.getD (b * 18 + 2 + 2 * i) 0 &&& (0xF0 : UInt8)) >>> (4 : UInt8)) |||
      (blocks.getD (b * 18 + 2 + (2 * i + 1)) 0 &&& (0xF0 : UInt8)) =
        unshuffledByte blocks (b * 16 + (i + 8)) := by
    rw [← UInt8.toNat_inj, toNat_high_pair, unshuffledByte_at blocks b (by omega),
      aosNibble, aosNibble, if_neg (by omega), if_neg (by omega),
      show 2 * (i + 8) - 16 = 2 * i by omega,
      show 2 * (i + 8) + 1 - 16 = 2 * i + 1 by omega]
    rfl
  obtain ⟨q₁, hq₁, hw₁⟩ := Writes.exists_set (a := q) (i := b * 16 + i) (by omega) hlow
  obtain ⟨q₂, hq₂, hw₂⟩ := Writes.exists_set (a := q₁) (i := b * 16 + (i + 8))
    (by have := hw₁.len; omega) hhigh
  refine ⟨q₂, ?_, hw₁.trans hw₂⟩
  simp only [unshufflePair, blockSize, QK4_0, Nat.reduceDiv]
  rw [hget _ (by omega), hget _ (by omega)]
  simp only [Option.bind_eq_bind, Option.bind_some]
  rw [hq₁]
  exact hq₂

/-- **Step 1**: every block of nibbles unshuffled, and the scales. -/
theorem q4_0AosToSoaUnshuffled_eq (hlen : blocks.length = n * blockSize) :
    q4_0AosToSoaUnshuffled blocks =
    some ((List.range (n * 16)).map (unshuffledByte blocks),
    (List.range n).flatMap (aosScale blocks)) := by
  have hn : blocks.length / blockSize = n := by
    rw [hlen]
    exact Nat.mul_div_cancel _ (by decide)
  have hq : filledBy (n * 16) 0 (List.range n ×ˢ List.range 8) (unshufflePair blocks) =
      some ((List.range (n * 16)).map (unshuffledByte blocks)) := by
    refine filledBy_eq (S := fun x => {x.1 * 16 + x.2} ∪ {x.1 * 16 + (x.2 + 8)}) ?_ fun p hp => ?_
    · rintro ⟨b, i⟩ hx q hq
      rw [List.mem_product, List.mem_range, List.mem_range] at hx
      exact writes_unshufflePair (Nat.le_of_eq hlen.symm) hx.1 hx.2 hq
    · refine ⟨(p / 16, p % 8), ?_, ?_⟩
      · rw [List.mem_product, List.mem_range, List.mem_range]
        exact ⟨by omega, by omega⟩
      · simp only [Set.mem_union, Set.mem_singleton_iff]
        omega
  unfold q4_0AosToSoaUnshuffled
  simp only [hn, QK4_0, Nat.reduceDiv]
  rw [hq]
  rfl

theorem transposed_index {rows r c n : ℕ} (hr : r < rows) (hc : c < n) :
    c * rows + r < rows * n ∧ (c * rows + r) % rows = r ∧ (c * rows + r) / rows = c := by
  refine ⟨?_, ?_, ?_⟩
  · have := row_bound (w := rows) hc
    rw [Nat.mul_comm rows]
    omega
  · rw [Nat.mul_add_mod_self_right, Nat.mod_eq_of_lt hr]
  · rw [Nat.add_comm, Nat.add_mul_div_right _ _ (by omega), Nat.div_eq_of_lt hr, Nat.zero_add]

/-- **Steps 2 and 3**: word `c * rows + r` of a transpose is word `r * cols + c` of its source. -/
theorem exists_transpose {src : List UInt16} {rows cols : ℕ} (hlen : src.length = rows * cols) :
    ∃ out, transpose src rows cols = some out ∧ out.length = rows * cols * 2 ∧
    ∀ r < rows, ∀ c < cols,
      slice out ((c * rows + r) * 2) 2 = le16 (src.getD (r * cols + c) 0) := by
  have ht : filledBy (rows * cols) 0 (List.range rows ×ˢ List.range cols) (fun t (x : ℕ × ℕ) => do
      let v ← src[x.1 * cols + x.2]?
      t.set (x.2 * rows + x.1) v) =
      some ((List.range (rows * cols)).map fun p => src.getD (p % rows * cols + p / rows) 0) := by
    refine filledBy_eq (S := fun x => {x.2 * rows + x.1}) ?_ fun p hp => ?_
    · rintro ⟨r, c⟩ hx t hlen'
      rw [List.mem_product, List.mem_range, List.mem_range] at hx
      obtain ⟨hout, hmod, hdiv⟩ := transposed_index hx.1 hx.2
      have hin : r * cols + c < src.length := by
        have := row_bound (w := cols) hx.1
        omega
      have hval : src[r * cols + c] =
        src.getD ((c * rows + r) % rows * cols + (c * rows + r) / rows) 0 := by
        rw [hmod, hdiv, List.getD_eq_getElem _ _ hin]
      obtain ⟨t', ht', hw⟩ := Writes.exists_set (a := t) (i := c * rows + r)
        (f := fun p => src.getD (p % rows * cols + p / rows) 0) (by omega) hval
      refine ⟨t', ?_, hw⟩
      rw [List.getElem?_eq_getElem hin]
      exact ht'
    · have hrows : 0 < rows := Nat.pos_of_ne_zero fun h0 => by simp [h0] at hp
      refine ⟨(p % rows, p / rows), ?_, ?_⟩
      · rw [List.mem_product, List.mem_range, List.mem_range]
        exact ⟨Nat.mod_lt _ hrows, Nat.div_lt_of_lt_mul hp⟩
      · exact (Nat.div_add_mod' p rows).symm
  refine ⟨(List.range (rows * cols)).flatMap fun p =>
    le16 (src.getD (p % rows * cols + p / rows) 0), ?_, ?_, fun r hr c hc => ?_⟩
  · unfold transpose
    rw [ht]
    exact congrArg some (List.flatMap_map ..)
  · exact length_flatMap_range fun _ _ => length_le16 _
  · obtain ⟨hout, hmod, hdiv⟩ := transposed_index hr hc
    rw [slice_flatMap_range (fun _ _ => length_le16 _) hout, hmod, hdiv]

theorem getD_words {b : List UInt8} {m i : ℕ} (hi : i < m) :
    (words b m).getD i 0 = ofLe16 (slice b (i * 2) 2) := by
  have hin : i < (words b m).length := by simpa [words] using hi
  rw [List.getD_eq_getElem _ _ hin]
  simp [words]

end Loops

/-! ## The conversion as a whole -/

/-- The word and the nibble in it where nibble `j` of block `(r, k)` goes. -/
def soaPlace (ne01 r k j : ℕ) : ℕ × ℕ := ((8 * k + j / 4) * ne01 + r, j % 4)

/-- What the two buffers hold: scale and nibbles of every block at their places. -/
structure IsSoa (blocks : List UInt8) (ne01 blocksPerRow : ℕ) (q d : List UInt8) : Prop where
  length_q : q.length = 16 * (ne01 * blocksPerRow)
  length_d : d.length = 2 * (ne01 * blocksPerRow)
  scale : ∀ r < ne01, ∀ k < blocksPerRow,
    slice d ((k * ne01 + r) * 2) 2 = aosScale blocks (r * blocksPerRow + k)
  nibble : ∀ r < ne01, ∀ k < blocksPerRow, ∀ j < 32,
    nibble (ofLe16 (slice q ((soaPlace ne01 r k j).1 * 2) 2)) (soaPlace ne01 r k j).2 =
      aosNibble blocks (r * blocksPerRow + k) j

section Whole

variable {blocks : List UInt8} {ne00 ne01 : ℕ}

theorem nibbles_unshuffledByte (blocks : List UInt8) (b : ℕ) {t : ℕ} (ht : t < 16) :
    lo (unshuffledByte blocks (b * 16 + t)) = aosNibble blocks b (2 * t) ∧
      hi (unshuffledByte blocks (b * 16 + t)) = aosNibble blocks b (2 * t + 1) := by
  have h := unshuffledByte_at blocks b ht
  have h₁ := aosNibble_lt blocks b (2 * t)
  unfold lo hi
  omega

/-- Word `u` of an unshuffled block holds four consecutive nibbles. -/
theorem nibble_unshuffled (blocks : List UInt8) {n b j : ℕ} (hb : b < n) (hj : j < 32) :
    nibble (ofLe16 (slice ((List.range (n * 16)).map (unshuffledByte blocks))
      ((b * 8 + j / 4) * 2) 2)) (j % 4) = aosNibble blocks b j := by
  have hrow := row_bound (w := 16) hb
  have hword : slice ((List.range (n * 16)).map (unshuffledByte blocks)) ((b * 8 + j / 4) * 2) 2 =
      [unshuffledByte blocks (b * 16 + 2 * (j / 4)),
      unshuffledByte blocks (b * 16 + (2 * (j / 4) + 1))] := by
    refine List.ext_getElem? fun i => ?_
    rw [getElem?_slice]
    split_ifs with hi
    · have hin : (b * 8 + j / 4) * 2 + i < n * 16 := by omega
      rw [List.getElem?_map, List.getElem?_range hin]
      obtain rfl | rfl : i = 0 ∨ i = 1 := by omega
      · simp only [Option.map_some, List.getElem?_cons_zero]
        congr 2
        omega
      · simp only [Option.map_some, List.getElem?_cons_succ, List.getElem?_cons_zero]
        congr 2
        omega
    · rw [List.getElem?_eq_none (by simp only [List.length_cons, List.length_nil]; omega)]
  obtain ⟨h₀, h₁, h₂, h₃⟩ := nibble_ofLe16 hword
  obtain ⟨hl, hh⟩ := nibbles_unshuffledByte blocks b (t := 2 * (j / 4)) (by omega)
  obtain ⟨hl', hh'⟩ := nibbles_unshuffledByte blocks b (t := 2 * (j / 4) + 1) (by omega)
  -- the four nibbles of the word are the nibbles `4 * (j / 4) + e` of the block
  obtain he | he | he | he : j % 4 = 0 ∨ j % 4 = 1 ∨ j % 4 = 2 ∨ j % 4 = 3 := by omega
  · rw [he, h₀, hl]
    congr 1
    omega
  · rw [he, h₁, hh]
    congr 1
    omega
  · rw [he, h₂, hl']
    congr 1
    omega
  · rw [he, h₃, hh']
    congr 1
    omega

/-- **The conversion succeeds** and its buffers hold every scale and every nibble at its place. -/
theorem isSoa_adreno (h32 : ne00 % 32 = 0) (hlen : blocks.length = ne01 * (ne00 / 32) * 18) :
    ∃ q d, q4_0AosToAdrenoSoa blocks ne00 ne01 = some (q, d) ∧
    IsSoa blocks ne01 (ne00 / 32) q d := by
  have hcols : ne00 / 4 = ne00 / 32 * 8 := by omega
  have hscale : ∀ b < ne01 * (ne00 / 32), (aosScale blocks b).length = 2 := by
    intro b hb
    have := row_bound (w := 18) hb
    exact length_slice (by unfold blockSize; omega)
  have hblock : ∀ r < ne01, ∀ k < ne00 / 32, r * (ne00 / 32) + k < ne01 * (ne00 / 32) := by
    intro r hr k hk
    have := row_bound (w := ne00 / 32) hr
    omega
  have hqsrc : (words ((List.range (ne01 * (ne00 / 32) * 16)).map (unshuffledByte blocks))
      (ne01 * (ne00 / 4))).length = ne01 * (ne00 / 4) := by simp [words]
  have hdsrc : (words ((List.range (ne01 * (ne00 / 32))).flatMap (aosScale blocks))
    (ne01 * (ne00 / 32))).length =
      ne01 * (ne00 / 32) := by simp [words]
  obtain ⟨q, hq, hqlen, hqwords⟩ := exists_transpose hqsrc
  obtain ⟨d, hd, hdlen, hdwords⟩ := exists_transpose hdsrc
  refine ⟨q, d, ?_, ⟨?_, ?_, fun r hr k hk => ?_, fun r hr k hk j hj => ?_⟩⟩
  · have hg : ∀ {p : Prop} [Decidable p], p → (guard p : Option Unit) = some () := fun h => if_pos h
    have hqbytes : ((List.range (ne01 * (ne00 / 32) * 16)).map (unshuffledByte blocks)).length =
        ne01 * (ne00 / QK4_0) * 16 := by simp [QK4_0]
    have hdbytes : ((List.range (ne01 * (ne00 / 32))).flatMap (aosScale blocks)).length =
        ne01 * (ne00 / QK4_0) * 2 := length_flatMap_range hscale
    have h32' : ne00 % QK4_0 = 0 := h32
    have hlen' : blocks.length = ne01 * (ne00 / QK4_0) * blockSize := hlen
    unfold q4_0AosToAdrenoSoa
    simp only [Option.bind_eq_bind]
    rw [hg h32', Option.bind_some, hg hlen', Option.bind_some, q4_0AosToSoaUnshuffled_eq hlen,
      Option.bind_some]
    simp only
    rw [hg hqbytes, Option.bind_some, hq, Option.bind_some, hg hdbytes, Option.bind_some]
    exact Option.bind_eq_some_iff.mpr ⟨d, hd, rfl⟩
  · rw [hqlen, hcols]
    ring
  · rw [hdlen]
    ring
  · have hn := hblock r hr k hk
    rw [hdwords r hr k hk, getD_words hn, slice_flatMap_range hscale hn]
    exact le16_ofLe16 (hscale _ hn)
  · have hc : 8 * k + j / 4 < ne00 / 4 := by omega
    have hin : r * (ne00 / 4) + (8 * k + j / 4) < ne01 * (ne00 / 4) := by
      have := row_bound (w := ne00 / 4) hr
      omega
    have hindex : r * (ne00 / 4) + (8 * k + j / 4) = (r * (ne00 / 32) + k) * 8 + j / 4 := by
      rw [hcols]
      ring
    simp only [soaPlace]
    rw [hqwords r hr _ hc, ofLe16_le16, getD_words hin, hindex]
    exact nibble_unshuffled blocks (hblock r hr k hk) hj

/-- **The places** of the nibbles are all nibbles of all words, each once. -/
theorem bijOn_soaPlace (ne01 blocksPerRow : ℕ) :
    Set.BijOn (fun x : ℕ × ℕ × ℕ => soaPlace ne01 x.1 x.2.1 x.2.2)
    (Set.Iio ne01 ×ˢ Set.Iio blocksPerRow ×ˢ Set.Iio 32)
      (Set.Iio (8 * (ne01 * blocksPerRow)) ×ˢ Set.Iio 4) := by
  have hsize : 8 * (ne01 * blocksPerRow) = ne01 * (8 * blocksPerRow) := by ring
  refine ⟨?_, ?_, ?_⟩
  · rintro ⟨r, k, j⟩ ⟨hr, hk, hj⟩
    simp only [Set.mem_Iio] at hr hk hj
    have hplace := (transposed_index (c := 8 * k + j / 4) (n := 8 * blocksPerRow) hr (by omega)).1
    exact ⟨by rw [Set.mem_Iio, hsize]; exact hplace, Nat.mod_lt _ (by decide)⟩
  · rintro ⟨r, k, j⟩ ⟨hr, hk, hj⟩ ⟨r', k', j'⟩ ⟨hr', hk', hj'⟩ h
    simp only [Set.mem_Iio] at hr hk hj hr' hk' hj'
    simp only [soaPlace, Prod.mk.injEq] at h
    obtain ⟨-, hmod, hdiv⟩ := transposed_index (c := 8 * k + j / 4)
      (n := 8 * blocksPerRow) hr (by omega)
    obtain ⟨-, hmod', hdiv'⟩ := transposed_index (c := 8 * k' + j' / 4)
      (n := 8 * blocksPerRow) hr' (by omega)
    rw [h.1] at hmod hdiv
    have hrow : r = r' := hmod.symm.trans hmod'
    have hcol : 8 * k + j / 4 = 8 * k' + j' / 4 := hdiv.symm.trans hdiv'
    have hnib := h.2
    simp only [Prod.mk.injEq]
    omega
  · rintro ⟨w, e⟩ ⟨hw, he⟩
    simp only [Set.mem_Iio] at hw he
    rw [hsize] at hw
    have hrows : 0 < ne01 := Nat.pos_of_ne_zero fun h0 => by simp [h0] at hw
    have hcol : w / ne01 < 8 * blocksPerRow := Nat.div_lt_of_lt_mul hw
    have hword : 8 * (w / ne01 / 8) + (w / ne01 % 8 * 4 + e) / 4 = w / ne01 := by omega
    refine ⟨(w % ne01, w / ne01 / 8, w / ne01 % 8 * 4 + e), ⟨Nat.mod_lt _ hrows, ?_, ?_⟩, ?_⟩
    · simp only [Set.mem_Iio]
      omega
    · simp only [Set.mem_Iio]
      omega
    · simp only [soaPlace, hword, Nat.div_add_mod', Prod.mk.injEq, true_and]
      omega

/-- **Nothing is lost**: the buffers determine the blocks. -/
theorem IsSoa.blocks_eq {blocks' q d : List UInt8} {blocksPerRow : ℕ}
    (h : IsSoa blocks ne01 blocksPerRow q d) (h' : IsSoa blocks' ne01 blocksPerRow q d)
    (hlen : blocks.length = ne01 * blocksPerRow * blockSize)
    (hlen' : blocks'.length = ne01 * blocksPerRow * blockSize) : blocks = blocks' := by
  unfold blockSize at hlen hlen'
  -- a block is named by its row and its column
  have hblock : ∀ n < ne01 * blocksPerRow, ∃ r < ne01, ∃ k < blocksPerRow,
    n = r * blocksPerRow + k := by
    intro n hn
    have hcols : 0 < blocksPerRow := Nat.pos_of_ne_zero fun h0 => by simp [h0] at hn
    exact ⟨n / blocksPerRow, Nat.div_lt_of_lt_mul (by rwa [Nat.mul_comm]), n % blocksPerRow,
      Nat.mod_lt _ hcols, (Nat.div_add_mod' n blocksPerRow).symm⟩
  have hscale : ∀ n < ne01 * blocksPerRow, aosScale blocks n = aosScale blocks' n := by
    intro n hn
    obtain ⟨r, hr, k, hk, rfl⟩ := hblock n hn
    rw [← h.scale r hr k hk, h'.scale r hr k hk]
  have hnibble : ∀ n < ne01 * blocksPerRow, ∀ j < 32, aosNibble blocks n j =
    aosNibble blocks' n j := by
    intro n hn j hj
    obtain ⟨r, hr, k, hk, rfl⟩ := hblock n hn
    rw [← h.nibble r hr k hk j hj, h'.nibble r hr k hk j hj]
  refine List.ext_getElem (by rw [hlen, hlen']) fun p hp hp' => ?_
  have hn : p / 18 < ne01 * blocksPerRow := by omega
  by_cases ht : p % 18 < 2
  · have hbyte := congrArg (fun b => b[p % 18]?) (hscale _ hn)
    have hindex : p / 18 * blockSize + p % 18 = p := Nat.div_add_mod' p 18
    simp only [aosScale, getElem?_slice, if_pos ht, hindex] at hbyte
    rw [List.getElem?_eq_getElem hp, List.getElem?_eq_getElem hp'] at hbyte
    exact Option.some.inj hbyte
  · have hlow := hnibble _ hn (p % 18 - 2) (by omega)
    have hhigh := hnibble _ hn (p % 18 - 2 + 16) (by omega)
    have hindex : p / 18 * blockSize + 2 + (p % 18 - 2) = p := by
      unfold blockSize
      omega
    simp only [aosNibble, if_pos (show p % 18 - 2 < 16 by omega),
      if_neg (show ¬ p % 18 - 2 + 16 < 16 by omega),
      Nat.add_sub_cancel, hindex, List.getD_eq_getElem _ _ hp, List.getD_eq_getElem _ _ hp']
        at hlow hhigh
    exact ext_nibbles hlow hhigh

end Whole

/-- **The conversion is a lossless re-layout.** For every weight of whole blocks it returns 16 and 2
bytes a block: the scale of block `(r, k)` is the half `k * ne01 + r`, nibble `j` of the block is a
nibble of a word `c * ne01 + r` with `c` in the eight words of the block, the places are a
bijection, and the blocks can be recovered. -/
theorem adrenoSoa_lossless (blocks : List UInt8) (ne00 ne01 : ℕ) (h32 : ne00 % 32 = 0)
    (hlen : blocks.length = ne01 * (ne00 / 32) * 18) :
    ∃ q d, q4_0AosToAdrenoSoa blocks ne00 ne01 = some (q, d) ∧
      q.length = 16 * (ne01 * (ne00 / 32)) ∧ d.length = 2 * (ne01 * (ne00 / 32)) ∧
      (∀ r < ne01, ∀ k < ne00 / 32, slice d ((k * ne01 + r) * 2) 2 =
        slice blocks ((r * (ne00 / 32) + k) * 18) 2) ∧
      (∀ r < ne01, ∀ k < ne00 / 32, ∀ j < 32, ∃ c, 8 * k ≤ c ∧ c < 8 * k + 8 ∧
        (soaPlace ne01 r k j).1 = c * ne01 + r ∧
        nibble (ofLe16 (slice q ((soaPlace ne01 r k j).1 * 2) 2)) (soaPlace ne01 r k j).2 =
          aosNibble blocks (r * (ne00 / 32) + k) j) ∧
      Set.BijOn (fun x : ℕ × ℕ × ℕ => soaPlace ne01 x.1 x.2.1 x.2.2)
        (Set.Iio ne01 ×ˢ Set.Iio (ne00 / 32) ×ˢ Set.Iio 32) (Set.Iio (q.length / 2) ×ˢ Set.Iio 4) ∧
      ∀ blocks', blocks'.length = blocks.length →
      q4_0AosToAdrenoSoa blocks' ne00 ne01 = some (q, d) → blocks' = blocks := by
  obtain ⟨q, d, hok, hsoa⟩ := isSoa_adreno h32 hlen
  have hwords : q.length / 2 = 8 * (ne01 * (ne00 / 32)) := by
    rw [hsoa.length_q]
    omega
  refine ⟨q, d, hok, hsoa.length_q, hsoa.length_d, hsoa.scale, fun r hr k hk j hj => ?_, ?_,
    fun blocks' hb hok' => ?_⟩
  · exact ⟨8 * k + j / 4, by omega, by omega, rfl, hsoa.nibble r hr k hk j hj⟩
  · rw [hwords]
    exact bijOn_soaPlace ne01 (ne00 / 32)
  · obtain ⟨q', d', hok'', hsoa'⟩ := isSoa_adreno h32 (hb.trans hlen)
    obtain ⟨rfl, rfl⟩ := Prod.mk.inj (Option.some.inj (hok'.symm.trans hok''))
    exact hsoa'.blocks_eq hsoa (hb.trans hlen) hlen

/-- Two rows of one block each. -/
def twoRows : List UInt8 := (List.range 36).map UInt8.ofNat

theorem adrenoSoa_twoRows : ∃ q d, q4_0AosToAdrenoSoa twoRows 32 2 = some (q, d) ∧
    q.length = 32 ∧ d.length = 4 ∧ slice d 2 2 = [18, 19] ∧ nibble (ofLe16 (slice q (9 * 2) 2))
      3 = aosNibble twoRows 1 19 := by
  obtain ⟨q, d, hok, hq, hd, hscale, hnibble, -⟩ := adrenoSoa_lossless twoRows 32 2 rfl rfl
  obtain ⟨c, -, -, -, hval⟩ := hnibble 1 (by decide) 0 (by decide) 19 (by decide)
  exact ⟨q, d, hok, hq, hd, (hscale 1 (by decide) 0 (by decide)).trans rfl, hval⟩

end Auf

end ArgusEngine
