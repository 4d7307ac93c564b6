import ArgusEngine.Lib.Nibbles
import ArgusEngine.Lib.Puts
import ArgusEngine.Lib.Rounding
import ArgusEngine.Kv.Tensor

/-!
# The descriptor codec

`encode_via_descriptor` and `decode_via_descriptor` quantize a row of `f32` values and unpack it
again, block by block, in the layout that a `KVLayoutDesc` names. As in a debug build: an arithmetic
overflow and a failed `debug_assert` panic. The `f32` operations of the encoders are a parameter
(`Arith`), and so is what the decoder makes of a scale, a minimum and an integer code (`Dequant`).

* `encodeViaDescriptor`, `decodeViaDescriptor`: the functions of the source;
* **`encodeBlockPerblockf16Nibble_eq`**, **`unpackBlockViaDescriptor_nibble`**: a block of nibbles;
* **`encodeBlockPerblockf16withminQuad_eq`**, **`unpackBlockViaDescriptor_quad`**: a block of
  two-bit codes.
-/

namespace ArgusEngine

namespace Format

open Checked FlatMem CellArray Nibbles

/-! ## Machine integers -/

/-- The result of an `i32` operation. -/
def i32 (x : ℤ) : Except (Fault String) ℤ :=
  if -2 ^ 31 ≤ x ∧ x < 2 ^ 31 then .ok x
    else .error (.panic "attempt to add or subtract with overflow")

/-- `1i32 << k`. -/
def oneShl (k : ℕ) : Except (Fault String) ℤ :=
  if k < 32 then .ok (if k = 31 then -2 ^ 31 else 2 ^ k)
    else .error (.panic "attempt to shift left with overflow")

/-- `1u32 << k`. -/
def oneShlU32 (k : ℕ) : Except (Fault String) ℕ :=
  if k < 32 then .ok (2 ^ k) else .error (.panic "attempt to shift left with overflow")

/-- `x << k` on a byte. -/
def shl (x : UInt8) (k : ℕ) : Except (Fault String) UInt8 :=
  if k < 8 then .ok (x <<< UInt8.ofNat k) else .error (.panic "attempt to shift left with overflow")

/-! ## Arithmetic -/

/-- The `f32` arithmetic of the encoders. -/
structure Arith where
  F : Type
  zero : F
  one : F
  /-- `max_abs`, `min_val` and `max_val` of a block. -/
  maxAbs : List F → F
  minVal : List F → F
  maxVal : List F → F
  neg : F → F
  sub : F → F → F
  mul : F → F → F
  div : F → F → F
  round : F → F
  /-- `x.clamp(lo, hi)`. -/
  clamp : F → F → F → F
  /-- `x == 0.0`. -/
  isZero : F → Bool
  ofInt : ℤ → F
  /-- `as i32` and `as u8`. -/
  toI32 : F → ℤ
  toU8 : F → UInt8
  toF16 : F → UInt16
  /-- A clamped value is cast to an integer between the bounds. -/
  toI32_clamp : ∀ x (a b : ℕ), a ≤ 2 ^ 24 → b ≤ 2 ^ 24 →
    -a ≤ toI32 (clamp x (neg (ofInt a)) (ofInt b)) ∧ toI32 (clamp x (neg (ofInt a)) (ofInt b)) ≤ b
  toU8_clamp : ∀ x (b : ℕ), b < 256 → (toU8 (clamp x zero (ofInt b))).toNat ≤ b
  /-- A block of zeros has the scale zero and the codes zero. -/
  maxAbs_zero : ∀ n, maxAbs (List.replicate n zero) = zero
  isZero_div : ∀ b : ℕ, 0 < b → isZero (div zero (ofInt b)) = true
  mul_zero : mul zero zero = zero
  round_zero : round zero = zero
  toI32_zero : ∀ a b : ℕ, toI32 (clamp zero (neg (ofInt a)) (ofInt b)) = 0

namespace Arith

variable (A : Arith)

/-- `if d == 0.0 { 0.0 } else { 1.0 / d }`. -/
def inverse (d : A.F) : A.F := if A.isZero d then A.zero else A.div A.one d

/-- The scale of a symmetric block with the zero point `zp`. -/
def symScale (zp : ℤ) (src : List A.F) : A.F := A.div (A.maxAbs src) (A.ofInt (zp - 1))

/-- The code of a value of a symmetric block. -/
def symCode (zp : ℤ) (src : List A.F) (x : A.F) : ℤ :=
  A.toI32 (A.clamp (A.round (A.mul x (A.inverse (A.symScale zp src)))) (A.neg (A.ofInt zp))
    (A.ofInt (zp - 1)))

/-- The scale of an asymmetric block with the largest code `qmax`. -/
def asymScale (qmax : ℕ) (src : List A.F) : A.F :=
  A.div (A.sub (A.maxVal src) (A.minVal src)) (A.ofInt qmax)

/-- The code of a value of an asymmetric block. -/
def asymCode (qmax : ℕ) (src : List A.F) (x : A.F) : UInt8 :=
  A.toU8 (A.clamp (A.round (A.mul (A.sub x (A.minVal src)) (A.inverse (A.asymScale qmax src))))
    A.zero (A.ofInt qmax))

end Arith

/-- What the decoder computes from the stored halves and an integer code. -/
structure Dequant (V : Type) where
  /-- `q as f32 * scale`. -/
  scaled : UInt16 → ℤ → V
  /-- `q as f32 * scale + min`; without a minimum it is `0.0`. -/
  affine : UInt16 → Option UInt16 → ℤ → V

/-! ## Encoding -/

variable (A : Arith)

/-- `encode_block_perblockf16_nibble`. -/
def encodeBlockPerblockf16Nibble (bits n : ℕ) (src : List A.F) (dst : List UInt8) :
    Except (Fault String) (List UInt8) := do
  let zp ← oneShl (← sub bits 1)
  let _qmax ← i32 (zp - 1)
  let half := n / 2
  let dst ← copyAt dst 0 (le16 (A.toF16 (A.symScale zp src)))
  (List.range half).foldlM (fun dst i => do
    let v0 := A.symCode zp src (← get src i)
    let v1 := A.symCode zp src (← get src (i + half))
    let c0 ← i32 (v0 + zp)
    let c1 ← i32 (v1 + zp)
    put dst (2 + i) (UInt8.ofInt c0 ||| (UInt8.ofInt c1 <<< (4 : UInt8)))) dst

/-- `encode_block_perblockf16withmin_quad`. -/
def encodeBlockPerblockf16withminQuad (bits n : ℕ) (src : List A.F) (dst : List UInt8) :
    Except (Fault String) (List UInt8) := do
  let qmax := (← oneShlU32 bits) - 1
  let perByte ← div 8 bits
  let dst ← copyAt dst 0 (le16 (A.toF16 (A.asymScale qmax src)))
  let dst ← copyAt dst 2 (le16 (A.toF16 (A.minVal src)))
  (List.range (← div n perByte)).foldlM (fun dst i => do
    let byte ← (List.range perByte).foldlM (fun byte j => do
      let q := A.asymCode qmax src (← get src (i * perByte + j))
      return byte ||| (← shl q (j * bits))) (0 : UInt8)
    put dst (4 + i) byte) dst

/-- The encoder of one block. -/
def encodeBlock (quad : Bool) :
    (bits n : ℕ) → List A.F → List UInt8 → Except (Fault String) (List UInt8) :=
  if quad then encodeBlockPerblockf16withminQuad A else encodeBlockPerblockf16Nibble A

/-- The two formats that can be written. -/
def writable (desc : KVLayoutDesc) : Except (Fault String) Bool :=
  match desc.scaleLayout, desc.packing with
  | .perBlockF16, .nibble => .ok false
  | .perBlockF16WithMin, .quad => .ok true
  | sl, pk =>
    .error (.err ("encode_via_descriptor: only PerBlockF16/Nibble(q4_0) or " ++
      s!"PerBlockF16WithMin/Quad(q2_0) supported, got {sl.debug}/{pk.debug}"))

/-- `encode_via_descriptor`. -/
def encodeViaDescriptor (desc : KVLayoutDesc) (src : List A.F) (dst : List UInt8) :
    Except (Fault String) (List UInt8) := do
  let quad ← writable desc
  let blockElems := desc.blockElems
  let blockBytes ← (match desc.blockBytes with
    | some bb => .ok bb
    | none => .error (.panic "block-quant packing (Nibble/Quad) has block_bytes"))
  ensure (¬ (blockElems = 0 ∨ src.length % blockElems ≠ 0))
    s!"encode_via_descriptor: src len {src.length} not a multiple of block_elems {blockElems}"
  let nBlocks := src.length / blockElems
  ensure (¬ dst.length < nBlocks * blockBytes)
    s!"encode_via_descriptor: dst {dst.length} < {nBlocks * blockBytes} ({nBlocks} blocks × {blockBytes} bytes)"
  (List.range nBlocks).foldlM (fun dst bi => do
    let s ← index src (bi * blockElems) ((bi + 1) * blockElems)
    onRange dst (bi * blockBytes) ((bi + 1) * blockBytes)
      (encodeBlock A quad desc.bits blockElems s)) dst

/-! ## Decoding -/

variable {V : Type} (D : Dequant V)

/-- `unpack_block_via_descriptor`, on a block and an output of one block. -/
def unpackBlockViaDescriptor (desc : KVLayoutDesc) (block : List UInt8) (out : List V) :
    Except (Fault String) (List V) := do
  let n := desc.blockElems
  (if out.length = n then .ok () else .error (.panic "assertion failed: out.len() == n"))
  let scale ← u16At block 0
  let (min, quants) ← (match desc.scaleLayout with
    | .perBlockF16WithMin => do
      let m ← u16At block 2
      return (some m, ← indexFrom block 4)
    | .perBlockF16 => do return (none, ← indexFrom block 2)
    | .none => do return (none, ← indexFrom block 2))
  match desc.packing with
  | .nibble =>
    let half := n / 2
    (List.range half).foldlM (fun out i => do
      let b ← get quants i
      let lo := b &&& (0x0F : UInt8)
      let hi := b >>> (4 : UInt8)
      if desc.scaleLayout = .perBlockF16 then do
        let zp ← oneShl (← sub desc.bits 1)
        let out ← put out i (D.scaled scale (← i32 (lo.toNat - zp)))
        put out (i + half) (D.scaled scale (← i32 (hi.toNat - zp)))
      else do
        let out ← put out i (D.affine scale min lo.toNat)
        put out (i + half) (D.affine scale min hi.toNat)) out
  | .byte =>
    (List.range (Nat.min n out.length)).foldlM (fun out i => do
      put out i (D.scaled scale (← get quants i).toInt8.toInt)) out
  | .quad =>
    (quants.take (n / 4)).zipIdx.foldlM (fun out (b, i) =>
      (List.range 4).foldlM (fun out j =>
        put out (i * 4 + j) (D.affine scale min ((b >>> UInt8.ofNat (j * 2)) &&&
          (0x03 : UInt8)).toNat)) out) out
  | .dense => .error (.panic "Dense packing must not reach unpack_block_via_descriptor")

/-- `decode_via_descriptor`. -/
def decodeViaDescriptor (desc : KVLayoutDesc) (src : List UInt8) (dst : List V) :
    Except (Fault String) (List V) := do
  let blockElems := desc.blockElems
  let blockBytes ← (match desc.blockBytes with
    | some bb => .ok bb
    | none => .error (.panic "decode_via_descriptor: block-quant descriptor (Dense not allowed)"))
  (List.range (← div dst.length blockElems)).foldlM (fun dst bi => do
    let block ← index src (bi * blockBytes) ((bi + 1) * blockBytes)
    onRange dst (bi * blockElems) ((bi + 1) * blockElems)
      (unpackBlockViaDescriptor D desc block)) dst

/-! ## Blocks of nibbles -/

section Nibble

variable {A D} {bits n : ℕ} {src : List A.F}

/-- The codes of a symmetric block. -/
def codes (zp : ℤ) (src : List A.F) : List ℤ := src.map (A.symCode zp src)

/-- Two codes in a byte. -/
def pack (zp c0 c1 : ℤ) : UInt8 := UInt8.ofInt (c0 + zp) ||| (UInt8.ofInt (c1 + zp) <<< (4 : UInt8))

/-- The packed codes of a symmetric block. -/
def nibbles (zp : ℤ) (n : ℕ) (src : List A.F) : List UInt8 :=
  (List.range (n / 2)).map fun i => pack zp ((codes zp src).getD i 0)
    ((codes zp src).getD (i + n / 2) 0)

theorem oneShl_of_le (h₁ : 1 ≤ bits) (h₂ : bits ≤ 31) :
    oneShl (bits - 1) = .ok (2 ^ (bits - 1)) := by
  rw [oneShl, if_pos (by omega), if_neg (by omega)]

theorem i32_of_le {x : ℤ} (h₁ : -2 ^ 31 ≤ x) (h₂ : x < 2 ^ 31) : i32 x = .ok x := if_pos ⟨h₁, h₂⟩

theorem two_pow_le_of_le (h₁ : 1 ≤ bits) {k : ℕ} (h₂ : bits ≤ k + 1) :
    (2 : ℤ) ^ (bits - 1) ≤ 2 ^ k :=
  pow_le_pow_right₀ (by decide) (by omega)

theorem get_code (zp : ℤ) {i : ℕ} (hi : i < src.length) :
    ∃ x ∈ src, get (ε := String) src i = .ok x ∧ (codes zp src).getD i 0 = A.symCode zp src x := by
  refine ⟨src[i], List.getElem_mem hi, get_of_lt hi, ?_⟩
  rw [codes, List.getD_eq_getElem _ _ (by simpa using hi), List.getElem_map]

/-- **A symmetric block**: the scale and the packed codes. -/
theorem encodeBlockPerblockf16Nibble_eq (h₁ : 1 ≤ bits) (h₂ : bits ≤ 31) (hsrc : src.length = n)
    (hfit : ∀ x ∈ src, -2 ^ 31 ≤ A.symCode (2 ^ (bits - 1)) src x + 2 ^ (bits - 1) ∧
      A.symCode (2 ^ (bits - 1)) src x + 2 ^ (bits - 1) < 2 ^ 31) {dst : List UInt8} (hdst :
      dst.length = 2 + n / 2) :
    encodeBlockPerblockf16Nibble A bits n src dst =
      .ok (le16 (A.toF16 (A.symScale (2 ^ (bits - 1)) src)) ++ nibbles (2 ^ (bits - 1)) n src) := by
  have hpos : (0 : ℤ) < 2 ^ (bits - 1) := by positivity
  have hle := two_pow_le_of_le h₁ (k := 30) h₂
  have hhead : 0 + (le16 (A.toF16 (A.symScale (2 ^ (bits - 1)) src))).length ≤ dst.length := by
    rw [length_le16]
    omega
  rw [encodeBlockPerblockf16Nibble, sub_of_le h₁, ok_seq, oneShl_of_le h₁ h₂, ok_seq,
    i32_of_le (by omega) (by omega), ok_seq, copyAt_of_le hhead, ok_seq]
  rw [foldlM_puts 2 (g := fun i => pack (2 ^ (bits - 1)) ((codes (2 ^ (bits - 1)) src).getD i 0)
    ((codes (2 ^ (bits - 1)) src).getD (i + n / 2) 0))]
  · have htake := take_blit hhead
    rw [length_le16] at htake
    rw [List.drop_of_length_le (by rw [length_blit]; omega), List.append_nil, length_le16,
      htake, List.take_zero, List.nil_append]
    rfl
  · intro i hi b
    obtain ⟨x0, hx0, hget0, hc0⟩ := get_code (2 ^ (bits - 1)) (show i < src.length by omega)
    obtain ⟨x1, hx1, hget1, hc1⟩ := get_code (2 ^ (bits - 1)) (show i + n / 2 < src.length by omega)
    obtain ⟨hl0, hu0⟩ := hfit x0 hx0
    obtain ⟨hl1, hu1⟩ := hfit x1 hx1
    rw [hget0, ok_seq, hget1, ok_seq, i32_of_le hl0 hu0, ok_seq, i32_of_le hl1 hu1,
      ok_seq, hc0, hc1]
    rfl
  · rw [length_blit]
    omega

theorem lo_pack (zp c0 c1 : ℤ) : lo (pack zp c0 c1) = lo (UInt8.ofInt (c0 + zp)) := by
  have hshift : ∀ m : ℕ, m <<< 4 % 2 ^ 8 % 2 ^ 4 = 0 := by
    intro m
    rw [Nat.shiftLeft_eq]
    omega
  rw [lo, pack, UInt8.toNat_or, UInt8.toNat_shiftLeft, show (16 : ℕ) = 2 ^ 4 from rfl,
    Nat.or_mod_two_pow, show (4 : UInt8).toNat % 8 = 4 from rfl, hshift, Nat.or_zero]
  rfl

theorem toNat_ofInt (c : ℤ) : ((UInt8.ofInt c).toNat : ℤ) = c % 256 := by
  rw [UInt8.ofInt, UInt8.toNat_ofNat']
  omega

theorem hi_pack {zp c0 c1 : ℤ} (h0 : 0 ≤ c0 + zp) (h0' : c0 + zp < 16) (h1 : 0 ≤ c1 + zp)
    (h1' : c1 + zp < 16) : (hi (pack zp c0 c1) : ℤ) = c1 + zp := by
  have e0 := toNat_ofInt (c0 + zp)
  have e1 := toNat_ofInt (c1 + zp)
  have hlt : (UInt8.ofInt (c0 + zp)).toNat < 2 ^ 4 := by omega
  rw [hi, pack, UInt8.toNat_or, UInt8.toNat_shiftLeft, show (4 : UInt8).toNat % 8 = 4 from rfl,
    Nat.mod_eq_of_lt (by rw [Nat.shiftLeft_eq]; omega), or_shiftLeft hlt]
  omega

/-- **Codes of at most four bits come back from their byte.** -/
theorem fields_pack {zp c0 c1 : ℤ} (h0 : 0 ≤ c0 + zp) (h0' : c0 + zp < 16) (h1 : 0 ≤ c1 + zp)
    (h1' : c1 + zp < 16) : (lo (pack zp c0 c1) : ℤ) - zp = c0 ∧
    (hi (pack zp c0 c1) : ℤ) - zp = c1 := by
  have e0 := toNat_ofInt (c0 + zp)
  have hlo := lo_pack zp c0 c1
  have hhi := hi_pack h0 h0' h1 h1'
  unfold lo at hlo
  unfold lo
  omega

/-- **Unpacking nibbles**: a block gives the list whose first half comes from the low and whose
second half comes from the high nibbles. -/
theorem unpackBlockViaDescriptor_nibble {desc : KVLayoutDesc}
    (hscale : desc.scaleLayout = .perBlockF16) (hpack : desc.packing = .nibble) (h₁ : 1 ≤ desc.bits)
    (h₂ : desc.bits ≤ 31) (heven : 2 ∣ desc.blockElems) {sc : UInt16} {qs : List UInt8}
    (hqs : qs.length = desc.blockElems / 2) {out target : List V}
    (hout : out.length = desc.blockElems) (htarget : target.length = desc.blockElems)
    (hlo : ∀ i (h : i < qs.length),
    target[i]? = some (D.scaled sc (lo qs[i] - 2 ^ (desc.bits - 1)))) (hhi :
    ∀ i (h : i < qs.length), target[i + qs.length]? =
      some (D.scaled sc (hi qs[i] - 2 ^ (desc.bits - 1)))) :
    unpackBlockViaDescriptor D desc (le16 sc ++ qs) out = .ok target := by
  have hpos : (0 : ℤ) < 2 ^ (desc.bits - 1) := by positivity
  have hle := two_pow_le_of_le h₁ (k := 30) h₂
  have hread : u16At (ε := String) (le16 sc ++ qs) 0 = .ok sc := by
    rw [u16At, readAt_of_le (by simp), slice, List.drop_zero, List.take_left' (length_le16 sc),
      ofLe16_le16]
  have hfrom : indexFrom (ε := String) (le16 sc ++ qs) 2 = .ok qs := by
    rw [indexFrom, if_pos (by simp), List.drop_left' (length_le16 sc)]
  have hloop : ∀ i ∈ List.range (desc.blockElems / 2), ∀ b : List V,
    (cellsOf b).len = desc.blockElems →
      ∃ b', (do
        let x ← get qs i
        let zp ← oneShl (← sub desc.bits 1)
        let b ← put b i (D.scaled sc (← i32 ((x &&& (0x0F : UInt8)).toNat - zp)))
        put b (i + desc.blockElems / 2) (D.scaled sc (← i32 ((x >>> (4 : UInt8)).toNat - zp)))) =
          .ok b' ∧
      Writes ({i} ∪ {i + desc.blockElems / 2}) (fun p => target[p]?) (cellsOf b) (cellsOf b') := by
    intro i hi b hb
    have hi' : i < qs.length := by rw [hqs]; exact List.mem_range.mp hi
    have hlt := lo_lt qs[i]
    have hlt' := hi_lt qs[i]
    obtain ⟨b₁, hput₁, hw₁⟩ := exists_put (ε := String) (f := fun p => target[p]?) (b := b) (i := i)
      (show i < (cellsOf b).len by omega) (hlo i hi')
    obtain ⟨b₂, hput₂, hw₂⟩ := exists_put (ε := String) (f := fun p => target[p]?) (b := b₁)
      (i := i + qs.length) (show _ < (cellsOf b₁).len by rw [hw₁.len]; omega) (hhi i hi')
    rw [hqs] at hput₂ hw₂
    refine ⟨b₂, ?_, hw₁.trans hw₂⟩
    rw [get_of_lt hi', ok_seq, sub_of_le h₁, ok_seq, oneShl_of_le h₁ h₂, ok_seq, toNat_and_low,
      i32_of_le (by omega) (by omega), ok_seq, hput₁, ok_seq, toNat_shiftRight_four,
      i32_of_le (by omega) (by omega), ok_seq, hput₂]
  obtain ⟨b', hb', hw⟩ := Writes.exists_foldlM hloop hout
  have hres : b' = target := by
    refine eq_of_writes hw fun p hp => ?_
    have hpn : desc.blockElems ≤ p := by
      by_contra hlt
      refine hp ?_
      by_cases hhalf : p < desc.blockElems / 2
      · exact ⟨p, List.mem_range.mpr hhalf, Or.inl rfl⟩
      · exact ⟨p - desc.blockElems / 2, List.mem_range.mpr (by omega), Or.inr (by
          rw [Set.mem_singleton_iff]; omega)⟩
    rw [List.getElem?_eq_none (by omega), List.getElem?_eq_none (by omega)]
  rw [unpackBlockViaDescriptor, if_pos hout, ok_seq, hread, ok_seq, hscale, hpack, hfrom,
    ok_seq, ← hres, ← hb']
  simp only [if_true]
  rfl

end Nibble

/-! ## Blocks of two-bit codes -/

section Quad

variable {A D} {n : ℕ} {src : List A.F}

/-- Four codes in a byte. -/
def packFour (a b c d : UInt8) : UInt8 :=
  0 ||| a <<< UInt8.ofNat (0 * 2) ||| b <<< UInt8.ofNat (1 * 2) ||| c <<< UInt8.ofNat (2 * 2) |||
    d <<< UInt8.ofNat (3 * 2)

/-- Field `j` of a byte of four codes. -/
def field (x : UInt8) (j : ℕ) : UInt8 := (x >>> UInt8.ofNat (j * 2)) &&& (0x03 : UInt8)

/-- The codes of an asymmetric block. -/
def codes₂ (src : List A.F) : List UInt8 := src.map (A.asymCode (2 ^ 2 - 1) src)

/-- The packed codes of an asymmetric block. -/
def quads (n : ℕ) (src : List A.F) : List UInt8 :=
  (List.range (n / 4)).map fun i => packFour ((codes₂ src).getD (i * 4 + 0) 0)
    ((codes₂ src).getD (i * 4 + 1) 0) ((codes₂ src).getD (i * 4 + 2) 0)
      ((codes₂ src).getD (i * 4 + 3) 0)

/-- **Codes of two bits come back from their byte.** -/
theorem field_packFour (f : ℕ → UInt8) (hf : ∀ j, (f j).toNat < 4) {j : ℕ} (hj : j < 4) :
    field (packFour (f 0) (f 1) (f 2) (f 3)) j = f j := by
  have hall : ∀ a b c d j : Fin 4, field (packFour (.ofNat a) (.ofNat b) (.ofNat c) (.ofNat d)) j =
      [UInt8.ofNat a, .ofNat b, .ofNat c, .ofNat d].getD j 0 := by decide +kernel
  have hof : ∀ k, UInt8.ofNat (⟨(f k).toNat, hf k⟩ : Fin 4) = f k := fun k => UInt8.ofNat_toNat
  have h := hall ⟨_, hf 0⟩ ⟨_, hf 1⟩ ⟨_, hf 2⟩ ⟨_, hf 3⟩ ⟨j, hj⟩
  rw [hof, hof, hof, hof] at h
  refine h.trans ?_
  obtain rfl | rfl | rfl | rfl : j = 0 ∨ j = 1 ∨ j = 2 ∨ j = 3 := by omega
  all_goals rfl

theorem get_code₂ {i : ℕ} (hi : i < src.length) :
    ∃ x, get (ε := String) src i = .ok x ∧
    (codes₂ src).getD i 0 = A.asymCode (2 ^ 2 - 1) src x := by
  refine ⟨src[i], get_of_lt hi, ?_⟩
  rw [codes₂, List.getD_eq_getElem _ _ (by simpa using hi), List.getElem_map]

theorem code₂_lt (i : ℕ) : ((codes₂ src).getD i 0).toNat < 4 := by
  rw [codes₂, List.getD_eq_getElem?_getD, List.getElem?_map]
  cases src[i]? with
  | none => exact Nat.zero_lt_succ 3
  | some x => exact Nat.lt_succ_of_le (A.toU8_clamp _ 3 (by decide))

theorem foldlM_four {i : ℕ} (hi : i * 4 + 3 < src.length) :
    (List.range 4).foldlM (fun byte j => do
      let q := A.asymCode (2 ^ 2 - 1) src (← get src (i * 4 + j))
      return byte ||| (← shl q (j * 2))) (0 : UInt8) =
    .ok (packFour ((codes₂ src).getD (i * 4 + 0) 0) ((codes₂ src).getD (i * 4 + 1) 0)
      ((codes₂ src).getD (i * 4 + 2) 0) ((codes₂ src).getD (i * 4 + 3) 0)) := by
  obtain ⟨x0, h0, e0⟩ := get_code₂ (show i * 4 + 0 < src.length by omega)
  obtain ⟨x1, h1, e1⟩ := get_code₂ (show i * 4 + 1 < src.length by omega)
  obtain ⟨x2, h2, e2⟩ := get_code₂ (show i * 4 + 2 < src.length by omega)
  obtain ⟨x3, h3, e3⟩ := get_code₂ hi
  rw [show List.range 4 = [0, 1, 2, 3] from rfl, e0, e1, e2, e3]
  simp only [List.foldlM_cons, List.foldlM_nil, h0, h1, h2, h3, ok_seq]
  rfl

/-- **An asymmetric block**: the scale, the minimum and the packed codes. -/
theorem encodeBlockPerblockf16withminQuad_eq (hsrc : src.length = n) (hfour : 4 ∣ n)
    {dst : List UInt8} (hdst : dst.length = 4 + n / 4) :
    encodeBlockPerblockf16withminQuad A 2 n src dst =
      .ok (le16 (A.toF16 (A.asymScale (2 ^ 2 - 1) src)) ++ le16 (A.toF16 (A.minVal src)) ++
        quads n src) := by
  have hshl : oneShlU32 2 = .ok (2 ^ 2) := rfl
  have hdiv : div (ε := String) 8 2 = .ok 4 := rfl
  have hdiv' : div (ε := String) n 4 = .ok (n / 4) := rfl
  generalize hsc : le16 (A.toF16 (A.asymScale (2 ^ 2 - 1) src)) = sc
  generalize hmn : le16 (A.toF16 (A.minVal src)) = mn
  have hsc2 : sc.length = 2 := hsc ▸ length_le16 _
  have hmn2 : mn.length = 2 := hmn ▸ length_le16 _
  have hroom : 0 + sc.length ≤ dst.length := by omega
  have hroom' : 2 + mn.length ≤ (blit sc 0 dst 0 sc.length).length := by rw [length_blit]; omega
  rw [encodeBlockPerblockf16withminQuad, hshl, ok_seq, hdiv, ok_seq, hsc,
    copyAt_of_le hroom, ok_seq, hmn, copyAt_of_le hroom', ok_seq, hdiv', ok_seq]
  rw [foldlM_puts 4 (g := fun i => packFour ((codes₂ src).getD (i * 4 + 0) 0)
    ((codes₂ src).getD (i * 4 + 1) 0) ((codes₂ src).getD (i * 4 + 2) 0)
      ((codes₂ src).getD (i * 4 + 3) 0))]
  · have htake := take_blit hroom
    have htake' := take_blit hroom'
    rw [Nat.zero_add, List.take_zero, List.nil_append, hsc2] at htake
    rw [hsc2, htake, hmn2] at htake'
    rw [List.drop_of_length_le (by rw [length_blit, length_blit]; omega), List.append_nil,
      hsc2, hmn2, htake']
    rfl
  · intro i hi b
    rw [foldlM_four (by omega), ok_seq]
  · rw [length_blit, length_blit]
    omega

/-- **Unpacking two-bit codes**: the values of the fields in order. -/
theorem unpackBlockViaDescriptor_quad {desc : KVLayoutDesc}
    (hscale : desc.scaleLayout = .perBlockF16WithMin) (hpack : desc.packing = .quad)
    (hfour : 4 ∣ desc.blockElems) {sc mn : UInt16} {qs : List UInt8}
    (hqs : qs.length = desc.blockElems / 4) {out target : List V}
    (hout : out.length = desc.blockElems) (htarget : target.length = desc.blockElems)
    (hfield : ∀ i (h : i < qs.length), ∀ j < 4,
      target[i * 4 + j]? = some (D.affine sc (some mn) (field qs[i] j).toNat)) :
    unpackBlockViaDescriptor D desc (le16 sc ++ le16 mn ++ qs) out = .ok target := by
  have hlen : (le16 sc ++ le16 mn).length = 4 := by simp
  have hread : u16At (ε := String) (le16 sc ++ le16 mn ++ qs) 0 = .ok sc := by
    rw [u16At, readAt_of_le (by simp), slice, List.drop_zero, List.append_assoc,
      List.take_left' (length_le16 sc), ofLe16_le16]
  have hread' : u16At (ε := String) (le16 sc ++ le16 mn ++ qs) 2 = .ok mn := by
    rw [u16At, readAt_of_le (by rw [List.length_append, hlen]; omega), slice, List.append_assoc,
      List.drop_left' (length_le16 sc), List.take_left' (length_le16 mn), ofLe16_le16]
  have hfrom : indexFrom (ε := String) (le16 sc ++ le16 mn ++ qs) 4 = .ok qs := by
    rw [indexFrom, if_pos (by rw [List.length_append, hlen]; omega), List.drop_left' hlen]
  have hloop : ∀ x ∈ qs.zipIdx, ∀ b : List V, (cellsOf b).len = desc.blockElems →
      ∃ b', (List.range 4).foldlM (fun out j =>
        put (ε := String) out (x.2 * 4 + j) (D.affine sc (some mn) (field x.1 j).toNat))
          b = .ok b' ∧
      Writes {p | ∃ j ∈ List.range 4, p ∈ ({x.2 * 4 + j} : Set ℕ)} (fun p => target[p]?)
        (cellsOf b) (cellsOf b') := by
    rintro ⟨q, i⟩ hx b hb
    obtain ⟨hi, hq⟩ := List.mem_zipIdx' hx
    refine Writes.exists_foldlM (fun j hj b hb => ?_) hb
    have hlt := List.mem_range.mp hj
    exact exists_put (show _ < (cellsOf b).len by omega) (by rw [hq]; exact hfield i hi j hlt)
  obtain ⟨b', hb', hw⟩ := Writes.exists_foldlM hloop hout
  have hres : b' = target := by
    refine eq_of_writes hw fun p hp => ?_
    have hpn : desc.blockElems ≤ p := by
      by_contra hlt
      have hq : p / 4 < qs.length := by omega
      refine hp ⟨(qs[p / 4], p / 4), ?_, p % 4, List.mem_range.mpr (Nat.mod_lt _ (by decide)), ?_⟩
      · exact List.mk_mem_zipIdx_iff_getElem?.mpr (List.getElem?_eq_getElem hq)
      · exact (Nat.div_add_mod' p 4).symm
    rw [List.getElem?_eq_none (by omega), List.getElem?_eq_none (by omega)]
  have hall : qs.take (desc.blockElems / 4) = qs := List.take_of_length_le (by omega)
  rw [unpackBlockViaDescriptor, if_pos hout, ok_seq, hread, ok_seq, hscale, hpack, hread',
    ok_seq, hfrom, ok_seq, ← hres, ← hb']
  simp only [pure_bind, hall]
  rfl

end Quad

end Format

end ArgusEngine
