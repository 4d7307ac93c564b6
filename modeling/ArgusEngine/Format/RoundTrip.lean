import ArgusEngine.Format.DtypeLayout

/-!
# Which descriptors round trip

The encoder looks at the scale layout and the packing of a descriptor; the width of the codes and
the number of values of a block go into its arithmetic unchecked.

* `RoundTrips`: the bytes of a row, and that its codes come back from them;
* `Packs`: the width fits the packing, and a block is whole bytes;
* **`roundTrips_iff`**: the rows of an accepted descriptor round trip exactly when it packs.
-/

namespace ArgusEngine

namespace Format

open Checked FlatMem CellArray Nibbles

variable (A : Arith) {V : Type} (D : Dequant V)

/-- What comes back for the value `x` of the block `s`: its code with the scale and the minimum of
the block. -/
def value (desc : KVLayoutDesc) (s : List A.F) (x : A.F) : V :=
  match desc.packing with
  | .quad => D.affine (A.toF16 (A.asymScale (2 ^ desc.bits - 1) s)) (some (A.toF16 (A.minVal s)))
      (A.asymCode (2 ^ desc.bits - 1) s x).toNat
  | _ =>
    D.scaled (A.toF16 (A.symScale (2 ^ (desc.bits - 1)) s)) (A.symCode (2 ^ (desc.bits - 1)) s x)

/-- Block `i` of a row. -/
def block {α : Type} (desc : KVLayoutDesc) (src : List α) (i : ℕ) : List α :=
  slice src (i * desc.blockElems) desc.blockElems

/-- The bytes of a row: as many as the descriptor says, each written by the block it belongs to and
by no other, and the codes of all values come back from them. -/
structure RoundTrips (desc : KVLayoutDesc) (src : List A.F) (bytes : List UInt8) : Prop where
  size : desc.bytesForElems src.length = some bytes.length
  written : ∀ dst : List UInt8, bytes.length ≤ dst.length →
    encodeViaDescriptor A desc src dst = .ok (bytes ++ dst.drop bytes.length)
  blocks : ∀ i < src.length / desc.blockElems, ∀ bb, desc.blockBytes = some bb →
    ∀ d : List UInt8, d.length = bb → encodeBlock A (desc.packing = .quad) desc.bits desc.blockElems
      (block desc src i) d = .ok (slice bytes (i * bb) bb)
  decoded : ∀ (V : Type) (D : Dequant V) (out : List V), out.length = src.length →
    decodeViaDescriptor D desc bytes out =
      .ok ((List.range (src.length / desc.blockElems)).flatMap fun i =>
      (block desc src i).map (value A D desc (block desc src i)))

/-- The encoder takes rows of this format. -/
def Accepted (desc : KVLayoutDesc) : Prop :=
  ∃ src dst, ∀ e, encodeViaDescriptor A desc src dst ≠ .error (.err e)

/-- Codes of at most a nibble in pairs, or codes of two bits in fours. -/
def Packs (desc : KVLayoutDesc) : Prop :=
  desc.packing = .nibble ∧ (1 ≤ desc.bits ∧ desc.bits ≤ 4) ∧ 2 ∣ desc.blockElems ∨
    desc.packing = .quad ∧ desc.bits = 2 ∧ 4 ∣ desc.blockElems

instance (desc : KVLayoutDesc) : Decidable (Packs desc) :=
  inferInstanceAs (Decidable (_ ∧ _ ∧ _ ∨ _ ∧ _ ∧ _))

variable {A D} {desc : KVLayoutDesc} {src : List A.F}

/-! ## Rows -/

theorem length_block {α : Type} {src : List α} {i : ℕ} (hi : i < src.length / desc.blockElems) :
    (block desc src i).length = desc.blockElems := by
  have hle := row_bound (w := desc.blockElems) hi
  have hdiv := Nat.div_mul_le_self src.length desc.blockElems
  exact length_slice (by omega)

theorem index_block {α : Type} {src : List α} {i : ℕ} (hi : i < src.length / desc.blockElems) :
    index (ε := String) src (i * desc.blockElems) ((i + 1) * desc.blockElems) =
      .ok (block desc src i) := by
  have hle := row_bound (w := desc.blockElems) hi
  have hdiv := Nat.div_mul_le_self src.length desc.blockElems
  rw [index_of_le ⟨by rw [Nat.succ_mul]; omega, by rw [Nat.succ_mul]; omega⟩, Nat.succ_mul,
    Nat.add_sub_cancel_left]
  rfl

/-- **A row round trips when its blocks do.** -/
theorem roundTrips_of_blocks {quad : Bool} {bb : ℕ} (hw : writable desc = .ok quad)
    (hquad : quad = decide (desc.packing = .quad)) (hbb : desc.blockBytes = some bb)
    (hpos : 0 < desc.blockElems) (hdvd : desc.blockElems ∣ src.length) {r : List A.F → List UInt8}
    (henc : ∀ s, s.length = desc.blockElems → ∀ d, d.length = bb →
      encodeBlock A quad desc.bits desc.blockElems s d = .ok (r s))
    (hlen : ∀ s, s.length = desc.blockElems → (r s).length = bb)
    (hdec : ∀ s, s.length = desc.blockElems → ∀ (V : Type) (D : Dequant V) (out : List V),
      out.length = desc.blockElems → unpackBlockViaDescriptor D desc (r s) out =
        .ok (s.map (value A D desc s))) :
    RoundTrips A desc src ((List.range (src.length / desc.blockElems)).flatMap fun i =>
      r (block desc src i)) := by
  have hr : ∀ i < src.length / desc.blockElems, (r (block desc src i)).length = bb :=
    fun i hi => hlen _ (length_block hi)
  have htotal := length_flatMap_range hr
  have hmod : src.length % desc.blockElems = 0 := Nat.mod_eq_zero_of_dvd hdvd
  have hall := Nat.div_mul_cancel hdvd
  refine ⟨?_, fun dst hdst => ?_, fun i hi bb' hbb' d hd => ?_, fun V D out hout => ?_⟩
  · rw [KVLayoutDesc.bytesForElems, hbb, htotal]
    exact if_neg (by omega)
  · rw [htotal] at hdst ⊢
    rw [encodeViaDescriptor, hw, ok_seq, hbb]
    dsimp only
    rw [ok_seq, ensure_of (by omega), ok_seq, ensure_of (by omega), ok_seq]
    refine foldlM_blocks (g := fun i =>
      encodeBlock A quad desc.bits desc.blockElems (block desc src i)) ?_ ?_ hr hdst
    · intro i hi b
      rw [index_block hi, ok_seq]
    · intro i hi
      have hle := row_bound (w := bb) hi
      exact henc _ (length_block hi) _ (length_slice (by omega))
  · obtain rfl : bb = bb' := Option.some.inj (hbb.symm.trans hbb')
    rw [← hquad, henc _ (length_block hi) _ hd, slice_flatMap_range hr hi]
  · have hnb : out.length / desc.blockElems = src.length / desc.blockElems := by rw [hout]
    have hdiv : div (ε := String) out.length desc.blockElems =
      .ok (src.length / desc.blockElems) := by
      rw [div, if_pos (by omega), hnb]
    rw [decodeViaDescriptor, hbb]
    dsimp only
    rw [ok_seq, hdiv, ok_seq]
    rw [foldlM_blocks (w := desc.blockElems)
      (g := fun i => unpackBlockViaDescriptor D desc (r (block desc src i)))
      (r := fun i => (block desc src i).map (value A D desc (block desc src i)))]
    · rw [hall, ← hout, List.drop_length, List.append_nil]
    · intro i hi b
      have hle := row_bound (w := bb) hi
      rw [index_of_le ⟨by rw [Nat.succ_mul]; omega, by rw [htotal, Nat.succ_mul]; omega⟩,
        Nat.succ_mul, Nat.add_sub_cancel_left, slice_flatMap_range hr hi, ok_seq]
    · intro i hi
      have hle := row_bound (w := desc.blockElems) hi
      exact hdec _ (length_block hi) V D _ (length_slice (by omega))
    · intro i hi
      rw [List.length_map, length_block hi]
    · omega

/-! ## Descriptors that pack -/

theorem Accepted.cases (h : Accepted A desc) : 0 < desc.blockElems ∧
    (desc.scaleLayout = .perBlockF16 ∧ desc.packing = .nibble ∨
      desc.scaleLayout = .perBlockF16WithMin ∧ desc.packing = .quad) := by
  obtain ⟨src, dst, h⟩ := h
  unfold encodeViaDescriptor at h
  have hwrite : ∃ quad, writable desc = .ok quad := by
    cases hw : writable desc with
    | ok quad => exact ⟨quad, rfl⟩
    | error e =>
      rw [hw] at h
      unfold writable at hw
      split at hw <;> cases hw
      exact absurd rfl (h _)
  obtain ⟨quad, hw⟩ := hwrite
  rw [hw, ok_seq] at h
  have hlayout : desc.scaleLayout = .perBlockF16 ∧ desc.packing = .nibble ∨
      desc.scaleLayout = .perBlockF16WithMin ∧ desc.packing = .quad := by
    unfold writable at hw
    split at hw
    · exact Or.inl ⟨‹_›, ‹_›⟩
    · exact Or.inr ⟨‹_›, ‹_›⟩
    · cases hw
  refine ⟨Nat.pos_of_ne_zero fun hzero => ?_, hlayout⟩
  have hbb : ∃ bb, desc.blockBytes = some bb := by
    rcases hlayout with ⟨-, hp⟩ | ⟨-, hp⟩ <;> simp [KVLayoutDesc.blockBytes, hp]
  obtain ⟨bb, hbb⟩ := hbb
  rw [hbb] at h
  dsimp only at h
  rw [ok_seq, ensure, if_neg (by simp [hzero])] at h
  exact h _ rfl

theorem blockBytes_nibble (hs : desc.scaleLayout = .perBlockF16) (hp : desc.packing = .nibble) :
    desc.blockBytes = some (2 + desc.blockElems / 2) := by
  simp [KVLayoutDesc.blockBytes, hs, hp]

theorem blockBytes_quad (hs : desc.scaleLayout = .perBlockF16WithMin) (hp : desc.packing = .quad) :
    desc.blockBytes = some (4 + desc.blockElems / 4) := by
  simp [KVLayoutDesc.blockBytes, hs, hp]

theorem symCode_bounds {bits : ℕ} (h₁ : 1 ≤ bits) (h₂ : bits ≤ 4) (s : List A.F) (x : A.F) :
    -2 ^ (bits - 1) ≤ A.symCode (2 ^ (bits - 1)) s x ∧ A.symCode (2 ^ (bits - 1)) s x ≤ 2 ^
      (bits - 1) - 1 := by
  have hpow : 2 ^ (bits - 1) ≤ 2 ^ 3 := Nat.pow_le_pow_right (by decide) (by omega)
  have hone : 1 ≤ 2 ^ (bits - 1) := Nat.one_le_two_pow
  have h := A.toI32_clamp (A.round (A.mul x (A.inverse (A.symScale (2 ^ (bits - 1)) s))))
    (2 ^ (bits - 1)) (2 ^ (bits - 1) - 1) (by omega) (by omega)
  simp only [Nat.cast_sub hone, Nat.cast_pow, Nat.cast_ofNat, Nat.cast_one] at h
  exact h

theorem roundTrips_nibble (hs : desc.scaleLayout = .perBlockF16) (hp : desc.packing = .nibble)
    (h₁ : 1 ≤ desc.bits) (h₂ : desc.bits ≤ 4) (heven : 2 ∣ desc.blockElems)
    (hpos : 0 < desc.blockElems) (hdvd : desc.blockElems ∣ src.length) :
    ∃ bytes, RoundTrips A desc src bytes := by
  have hle := two_pow_le_of_le h₁ (k := 3) h₂
  have hzp : (0 : ℤ) < 2 ^ (desc.bits - 1) := by positivity
  have hw : writable desc = .ok false := by rw [writable, hs, hp]
  refine ⟨_, roundTrips_of_blocks hw (by rw [hp]; rfl) (blockBytes_nibble hs hp) hpos hdvd
    (r := fun s => le16 (A.toF16 (A.symScale (2 ^ (desc.bits - 1)) s)) ++
      nibbles (2 ^ (desc.bits - 1)) desc.blockElems s) ?_ ?_ ?_⟩
  · intro s hlen d hd
    refine encodeBlockPerblockf16Nibble_eq h₁ (by omega) hlen (fun x _ => ?_) hd
    have hb := symCode_bounds h₁ h₂ s x
    omega
  · intro s _
    simp [nibbles]
  · intro s hlen V D out hout
    have hcode : ∀ i < desc.blockElems, 0 ≤ (codes (2 ^ (desc.bits - 1)) s).getD i 0 +
      2 ^ (desc.bits - 1) ∧
        (codes (2 ^ (desc.bits - 1)) s).getD i 0 + 2 ^ (desc.bits - 1) < 16 := by
      intro i hi
      obtain ⟨x, -, -, hx⟩ := get_code (2 ^ (desc.bits - 1)) (hlen ▸ hi)
      have hb := symCode_bounds h₁ h₂ s x
      omega
    have hvalue : ∀ i < desc.blockElems, (s.map (value A D desc s))[i]? = some (D.scaled
        (A.toF16 (A.symScale (2 ^ (desc.bits - 1)) s))
          ((codes (2 ^ (desc.bits - 1)) s).getD i 0)) := by
      intro i hi
      rw [codes, List.getD_eq_getElem _ _ (by simpa [hlen] using hi), List.getElem_map,
        List.getElem?_map, List.getElem?_eq_getElem (by omega)]
      simp [value, hp]
    have hqs : (nibbles (2 ^ (desc.bits - 1)) desc.blockElems s).length = desc.blockElems /
      2 := by simp [nibbles]
    have hpack : ∀ i < (nibbles (2 ^ (desc.bits - 1)) desc.blockElems s).length,
        0 ≤ i ∧ i + desc.blockElems / 2 < desc.blockElems := fun i hi => by omega
    refine unpackBlockViaDescriptor_nibble hs hp h₁ (by omega)
      heven hqs hout (by rw [List.length_map, hlen]) ?_ ?_
    · intro i hi
      have hin := hpack i hi
      obtain ⟨l0, u0⟩ := hcode i (by omega)
      obtain ⟨l1, u1⟩ := hcode _ hin.2
      rw [hvalue i (by omega)]
      simp only [nibbles, List.getElem_map, List.getElem_range, (fields_pack l0 u0 l1 u1).1]
    · intro i hi
      have hin := hpack i hi
      obtain ⟨l0, u0⟩ := hcode i (by omega)
      obtain ⟨l1, u1⟩ := hcode _ hin.2
      rw [hqs, hvalue _ hin.2]
      simp only [nibbles, List.getElem_map, List.getElem_range, (fields_pack l0 u0 l1 u1).2]

theorem roundTrips_quad (hs : desc.scaleLayout = .perBlockF16WithMin) (hp : desc.packing = .quad)
    (hbits : desc.bits = 2) (hfour : 4 ∣ desc.blockElems) (hpos : 0 < desc.blockElems)
    (hdvd : desc.blockElems ∣ src.length) : ∃ bytes, RoundTrips A desc src bytes := by
  have hw : writable desc = .ok true := by rw [writable, hs, hp]
  refine ⟨_, roundTrips_of_blocks hw (by rw [hp]; rfl) (blockBytes_quad hs hp) hpos hdvd
    (r := fun s => le16 (A.toF16 (A.asymScale (2 ^ 2 - 1) s)) ++ le16 (A.toF16 (A.minVal s)) ++
      quads desc.blockElems s) ?_ ?_ ?_⟩
  · intro s hlen d hd
    rw [hbits]
    exact encodeBlockPerblockf16withminQuad_eq hlen hfour hd
  · intro s _
    simp [quads]
    omega
  · intro s hlen V D out hout
    have hqs : (quads desc.blockElems s).length = desc.blockElems / 4 := by simp [quads]
    refine unpackBlockViaDescriptor_quad hs hp hfour hqs hout (by rw [List.length_map, hlen])
      fun i hi j hj => ?_
    have hin : i * 4 + j < s.length := by omega
    have hfield := field_packFour (fun j => (codes₂ s).getD (i * 4 + j) 0) (fun j => code₂_lt _) hj
    have hget : (quads desc.blockElems s)[i] = packFour ((codes₂ s).getD (i * 4 + 0) 0)
      ((codes₂ s).getD (i * 4 + 1) 0)
        ((codes₂ s).getD (i * 4 + 2) 0) ((codes₂ s).getD (i * 4 + 3) 0) := by
      simp only [quads, List.getElem_map, List.getElem_range]
    rw [hget, hfield, codes₂, List.getD_eq_getElem _ _ (by simpa using hin), List.getElem_map,
      List.getElem?_map, List.getElem?_eq_getElem hin]
    simp [value, hp, hbits]

/-! ## Descriptors that do not -/

/-- The decoder that returns the integer codes; `none` is a value that it has not written. -/
def integers : Dequant (Option ℤ) := ⟨fun _ q => some q, fun _ _ q => some q⟩

theorem RoundTrips.one {bytes : List UInt8} (h : RoundTrips A desc src bytes) {bb : ℕ}
    (hbb : desc.blockBytes = some bb) (hpos : 0 < desc.blockElems)
    (hsrc : src.length = desc.blockElems) :
    (∀ d, d.length = bb → encodeBlock A (desc.packing = .quad) desc.bits desc.blockElems src d =
      .ok bytes) ∧
      ∀ out, out.length = desc.blockElems →
        unpackBlockViaDescriptor integers desc bytes out =
          .ok (src.map (value A integers desc src)) := by
  have hdiv : desc.blockElems / desc.blockElems = 1 := Nat.div_self hpos
  have hone : src.length / desc.blockElems = 1 := by rw [hsrc, hdiv]
  have hlen : bytes.length = bb := by
    have hsize := h.size
    rw [KVLayoutDesc.bytesForElems, hbb, hsrc, hdiv] at hsize
    dsimp only at hsize
    rw [if_neg (by rw [Nat.mod_self]; omega), Nat.one_mul] at hsize
    exact (Option.some.inj hsize).symm
  have hblock : block desc src 0 = src := by
    rw [block, slice, Nat.zero_mul, List.drop_zero, ← hsrc, List.take_length]
  refine ⟨fun d hd => ?_, fun out hout => ?_⟩
  · have henc := h.blocks 0 (by omega) bb hbb d hd
    rwa [hblock, slice, Nat.zero_mul, List.drop_zero, ← hlen, List.take_length] at henc
  · have hdec := h.decoded _ integers out (hout.trans hsrc.symm)
    rw [decodeViaDescriptor, hbb] at hdec
    dsimp only at hdec
    rw [ok_seq, hout, div, if_pos (by omega), hdiv, ok_seq, hone] at hdec
    obtain ⟨out', hstep, hlast⟩ := ok_bind.mp hdec
    obtain rfl := Except.ok.inj hlast
    obtain ⟨b, hb, hrange⟩ := ok_bind.mp hstep
    obtain ⟨part, hpart, hrange⟩ := ok_bind.mp hrange
    obtain ⟨part', hunpack, hres⟩ := ok_bind.mp hrange
    obtain ⟨-, rfl⟩ := ok_index.mp hb
    obtain ⟨-, rfl⟩ := ok_index.mp hpart
    have hall : ∀ {α : Type} (l : List α) {w : ℕ}, l.length = w →
      slice l (0 * w) ((0 + 1) * w - 0 * w) = l := by
      intro α l w hl
      rw [slice, Nat.zero_mul, List.drop_zero, Nat.zero_add, Nat.one_mul, Nat.sub_zero,
        ← hl, List.take_length]
    rw [hall bytes hlen, hall out hout] at hunpack
    have hdrop : out.drop ((0 + 1) * desc.blockElems) = [] := by
      rw [Nat.zero_add, Nat.one_mul, ← hout, List.drop_length]
    rw [hunpack]
    have hres := Except.ok.inj hres
    rw [hdrop, Nat.zero_mul, List.take_zero, List.nil_append, List.append_nil] at hres
    rw [hres, show List.range 1 = [0] from rfl]
    simp [hblock]

/-- A value behind the last pair of nibbles is not written. -/
theorem getElem?_unpack_nibble {D : Dequant V} (hp : desc.packing = .nibble) {b : List UInt8}
    {out out' : List V} (h : unpackBlockViaDescriptor D desc b out = .ok out') {p : ℕ}
    (hle : desc.blockElems / 2 * 2 ≤ p) : out'[p]? = out[p]? := by
  unfold unpackBlockViaDescriptor at h
  obtain ⟨-, -, h⟩ := ok_bind.mp h
  obtain ⟨sc, -, h⟩ := ok_bind.mp h
  obtain ⟨⟨mn, qs⟩, -, h⟩ := ok_bind.mp h
  rw [hp] at h
  refine getElem?_foldlM (fun i hi b b' hstep => ?_) h
  have hi := List.mem_range.mp hi
  obtain ⟨q, -, hstep⟩ := ok_bind.mp hstep
  have hputs : ∃ x y b₁, put (ε := String) b i x = .ok b₁ ∧
    put (ε := String) b₁ (i + desc.blockElems / 2) y = .ok b' := by
    dsimp only at hstep
    split_ifs at hstep
    · obtain ⟨k, -, hstep⟩ := ok_bind.mp hstep
      obtain ⟨zp, -, hstep⟩ := ok_bind.mp hstep
      obtain ⟨x, -, hstep⟩ := ok_bind.mp hstep
      obtain ⟨b₁, hput, hstep⟩ := ok_bind.mp hstep
      obtain ⟨y, -, hstep⟩ := ok_bind.mp hstep
      exact ⟨_, _, b₁, hput, hstep⟩
    · obtain ⟨b₁, hput, hstep⟩ := ok_bind.mp hstep
      exact ⟨_, _, b₁, hput, hstep⟩
  obtain ⟨x, y, b₁, hput, hput'⟩ := hputs
  obtain ⟨-, rfl⟩ := ok_put.mp hput
  obtain ⟨-, rfl⟩ := ok_put.mp hput'
  rw [List.getElem?_set_ne (by omega), List.getElem?_set_ne (by omega)]

/-- A value behind the last four codes is not written. -/
theorem getElem?_unpack_quad {D : Dequant V} (hp : desc.packing = .quad) {b : List UInt8}
    {out out' : List V} (h : unpackBlockViaDescriptor D desc b out = .ok out') {p : ℕ}
    (hle : desc.blockElems / 4 * 4 ≤ p) : out'[p]? = out[p]? := by
  unfold unpackBlockViaDescriptor at h
  obtain ⟨-, -, h⟩ := ok_bind.mp h
  obtain ⟨sc, -, h⟩ := ok_bind.mp h
  obtain ⟨⟨mn, qs⟩, -, h⟩ := ok_bind.mp h
  rw [hp] at h
  refine getElem?_foldlM (fun x hx b b' hstep => ?_) h
  have hi : x.2 < desc.blockElems / 4 := by
    have hlt := (List.mem_zipIdx' (x := x.1) (i := x.2) hx).1
    rw [List.length_take] at hlt
    omega
  refine getElem?_foldlM (fun j hj b b' hput => ?_) hstep
  have hj := List.mem_range.mp hj
  obtain ⟨-, rfl⟩ := ok_put.mp hput
  exact List.getElem?_set_ne (by omega)

theorem dvd_of_untouched {w p : ℕ} (hsrc : src.length = desc.blockElems)
    {bytes : List UInt8} (hdec : ∀ out, out.length = desc.blockElems →
      unpackBlockViaDescriptor integers desc bytes out = .ok (src.map (value A integers desc src)))
    (hkeep : ∀ out out', unpackBlockViaDescriptor integers desc bytes out = .ok out' →
      desc.blockElems / w * w ≤ p → out'[p]? = out[p]?) (hp : p + 1 = desc.blockElems) :
      w ∣ desc.blockElems := by
  by_contra hnot
  have hlt : desc.blockElems / w * w < desc.blockElems :=
    Nat.lt_of_le_of_ne (Nat.div_mul_le_self _ _) fun heq =>
      hnot ⟨_, (Nat.mul_comm _ _).trans heq |>.symm⟩
  have hres := hkeep _ _ (hdec (List.replicate desc.blockElems none)
    List.length_replicate) (by omega)
  rw [List.getElem?_map, List.getElem?_eq_getElem (by omega), Option.map_some,
    List.getElem?_replicate, if_pos (by omega)] at hres
  have hsome : ∀ x, value A integers desc src x ≠ none := by
    intro x
    unfold value
    split <;> simp [integers]
  exact hsome _ (Option.some.inj hres)

theorem bits_of_encodeNibble {bits n : ℕ} {d bytes : List UInt8}
    (h : encodeBlockPerblockf16Nibble A bits n src d = .ok bytes) : 1 ≤ bits ∧ bits ≤ 31 := by
  unfold encodeBlockPerblockf16Nibble at h
  obtain ⟨k, hk, h⟩ := ok_bind.mp h
  obtain ⟨zp, hzp, h⟩ := ok_bind.mp h
  obtain ⟨qmax, hqmax, -⟩ := ok_bind.mp h
  obtain ⟨h₁, rfl⟩ := ok_sub.mp hk
  obtain ⟨h₂, rfl⟩ := ok_guard.mp hzp
  obtain ⟨h₃, -⟩ := ok_guard.mp hqmax
  refine ⟨h₁, ?_⟩
  by_contra h32
  rw [if_pos (by omega)] at h₃
  omega

theorem symCode_zero {bits n : ℕ} (hbits : 2 ≤ bits) :
    A.symCode (2 ^ (bits - 1)) (List.replicate n A.zero) A.zero = 0 := by
  have hone : 1 ≤ 2 ^ (bits - 1) := Nat.one_le_two_pow
  have hpos : 0 < 2 ^ (bits - 1) - 1 := Nat.sub_pos_of_lt (Nat.one_lt_two_pow (by omega))
  have hqmax : ((2 ^ (bits - 1) - 1 : ℕ) : ℤ) = 2 ^ (bits - 1) - 1 := by
    rw [Nat.cast_sub hone]
    push_cast
    rfl
  have hscale : A.isZero (A.symScale (2 ^ (bits - 1)) (List.replicate n A.zero)) = true := by
    rw [Arith.symScale, A.maxAbs_zero, ← hqmax]
    exact A.isZero_div _ hpos
  have hbounds := A.toI32_zero (2 ^ (bits - 1)) (2 ^ (bits - 1) - 1)
  rw [hqmax, Nat.cast_pow] at hbounds
  rw [Arith.symCode, Arith.inverse, if_pos hscale, A.mul_zero, A.round_zero]
  exact hbounds

theorem unpack_integers (hs : desc.scaleLayout = .perBlockF16) (hp : desc.packing = .nibble)
    (h₁ : 1 ≤ desc.bits) (h₂ : desc.bits ≤ 31) (heven : 2 ∣ desc.blockElems)
    {sc : UInt16} {qs : List UInt8} (hqs : qs.length = desc.blockElems / 2) {out : List (Option ℤ)}
    (hout : out.length = desc.blockElems) :
    unpackBlockViaDescriptor integers desc (le16 sc ++ qs) out =
      .ok (qs.map (fun q => some ((lo q : ℤ) - 2 ^ (desc.bits - 1))) ++
        qs.map fun q => some ((hi q : ℤ) - 2 ^ (desc.bits - 1))) := by
  refine unpackBlockViaDescriptor_nibble hs hp h₁ h₂ heven hqs hout ?_ (fun i h => ?_)
    (fun i h => ?_)
  · rw [List.length_append, List.length_map, List.length_map]
    omega
  · rw [List.getElem?_append_left (by rwa [List.length_map]), List.getElem?_map,
      List.getElem?_eq_getElem h]
    rfl
  · rw [List.getElem?_append_right (by rw [List.length_map]; omega), List.length_map,
      Nat.add_sub_cancel, List.getElem?_map, List.getElem?_eq_getElem h]
    rfl

/-- **A nibble holds the zero point of at most four bits.** -/
theorem bits_le_of_nibble (hs : desc.scaleLayout = .perBlockF16) (hp : desc.packing = .nibble)
    (hpos : 0 < desc.blockElems) (heven : 2 ∣ desc.blockElems) {bytes : List UInt8}
    (hsrc : src = List.replicate desc.blockElems A.zero)
    (henc : ∀ d, d.length = 2 + desc.blockElems / 2 →
      encodeBlockPerblockf16Nibble A desc.bits desc.blockElems src d = .ok bytes)
    (hdec : ∀ out, out.length = desc.blockElems →
      unpackBlockViaDescriptor integers desc bytes out =
        .ok (src.map (value A integers desc src))) :
    1 ≤ desc.bits ∧ desc.bits ≤ 4 := by
  have hlen : src.length = desc.blockElems := by rw [hsrc, List.length_replicate]
  have henc := henc (List.replicate (2 + desc.blockElems / 2) 0) List.length_replicate
  obtain ⟨h₁, h₂⟩ := bits_of_encodeNibble henc
  refine ⟨h₁, ?_⟩
  by_contra hfive
  -- the code zero is stored as the zero point, whose low nibble is zero
  have hcode : ∀ x ∈ src, A.symCode (2 ^ (desc.bits - 1)) src x = 0 := by
    intro x hx
    rw [hsrc] at hx ⊢
    rw [List.eq_of_mem_replicate hx]
    exact symCode_zero (by omega)
  obtain ⟨k, hk⟩ : ∃ k, desc.bits - 1 = 4 + k := ⟨desc.bits - 5, by omega⟩
  have hzp : (2 : ℤ) ^ (desc.bits - 1) = 16 * 2 ^ k := by
    rw [hk, pow_add]
    norm_num
  have hle := two_pow_le_of_le h₁ (k := 30) h₂
  have hpow : (0 : ℤ) < 2 ^ k := by positivity
  have hbytes := henc.symm.trans (encodeBlockPerblockf16Nibble_eq h₁ h₂ hlen (fun x hx => by
    rw [hcode x hx]
    omega) List.length_replicate)
  obtain rfl := Except.ok.inj hbytes
  have hqs : (nibbles (2 ^ (desc.bits - 1)) desc.blockElems src).length = desc.blockElems /
    2 := by simp [nibbles]
  have hx0 : 0 < src.length := by omega
  have hq0 : 0 < (nibbles (2 ^ (desc.bits - 1)) desc.blockElems src).length := by omega
  have hzero : lo (nibbles (2 ^ (desc.bits - 1)) desc.blockElems src)[0] = 0 := by
    obtain ⟨x, hx, -, hc⟩ := get_code (2 ^ (desc.bits - 1)) hx0
    simp only [nibbles, List.getElem_map, List.getElem_range, lo_pack, hc, hcode x hx]
    have htoNat := toNat_ofInt (0 + 2 ^ (desc.bits - 1))
    unfold lo
    omega
  have hsame := (hdec (List.replicate desc.blockElems none) List.length_replicate).symm.trans
    (unpack_integers hs hp h₁ h₂ heven hqs List.length_replicate)
  have hfirst := congrArg (fun l : List (Option ℤ) => l[0]?) (Except.ok.inj hsame)
  rw [List.getElem?_append_left (by rwa [List.length_map]), List.getElem?_map,
    List.getElem?_eq_getElem hx0, List.getElem?_map, List.getElem?_eq_getElem hq0, Option.map_some,
    Option.map_some, hzero] at hfirst
  have hvalue : value A integers desc src src[0] = some 0 := by
    simp [value, hp, integers, hcode _ (List.getElem_mem hx0)]
  rw [hvalue] at hfirst
  have := Option.some.inj (Option.some.inj hfirst)
  omega

theorem encodeQuad_loop {bits n : ℕ} {d bytes : List UInt8}
    (h : encodeBlockPerblockf16withminQuad A bits n src d = .ok bytes) : bits ≠ 0 ∧ 8 / bits ≠ 0 ∧
      ∃ (d' : List UInt8) (step : List UInt8 → ℕ → Except (Fault String) (List UInt8)),
      d'.length = d.length ∧
        (∀ p, 4 ≤ p → d'[p]? = d[p]?) ∧
        (∀ b i b', step b i = .ok b' → ∃ x, put (ε := String) b (4 + i) x = .ok b') ∧
        (List.range (n / (8 / bits))).foldlM step d' = .ok bytes := by
  have hcopy : ∀ {off : ℕ} {w b b' : List UInt8}, off + w.length ≤ 4 →
    copyAt (ε := String) b off w = .ok b' →
      b'.length = b.length ∧ ∀ p, 4 ≤ p → b'[p]? = b[p]? := by
    intro off w b b' hoff hcopy
    obtain ⟨hroom, rfl⟩ := ok_guard.mp hcopy
    refine ⟨length_blit .., fun p hp => ?_⟩
    rw [getElem?_blit (by omega) _ hroom, if_neg (by omega)]
  unfold encodeBlockPerblockf16withminQuad at h
  obtain ⟨qm, -, h⟩ := ok_bind.mp h
  obtain ⟨perByte, hper, h⟩ := ok_bind.mp h
  obtain ⟨d₁, hd₁, h⟩ := ok_bind.mp h
  obtain ⟨d₂, hd₂, h⟩ := ok_bind.mp h
  obtain ⟨count, hcount, h⟩ := ok_bind.mp h
  obtain ⟨hbits, rfl⟩ := ok_div.mp hper
  obtain ⟨hfull, rfl⟩ := ok_div.mp hcount
  obtain ⟨hlen₁, hkeep₁⟩ := hcopy (by simp) hd₁
  obtain ⟨hlen₂, hkeep₂⟩ := hcopy (by simp) hd₂
  refine ⟨hbits, hfull, d₂, _, hlen₂.trans hlen₁, fun p hp =>
    (hkeep₂ p hp).trans (hkeep₁ p hp), ?_, h⟩
  intro b i b' hstep
  obtain ⟨x, -, hput⟩ := ok_bind.mp hstep
  exact ⟨x, hput⟩

/-- **The quad encoder fills a block exactly when its codes have two bits.** -/
theorem bits_eq_of_quad {n bits : ℕ} (hpos : 0 < n) (hfour : 4 ∣ n) {bytes : List UInt8}
    (henc : ∀ d : List UInt8, d.length = 4 + n / 4 →
    encodeBlockPerblockf16withminQuad A bits n src d = .ok bytes) : bits = 2 := by
  have hbits : bits ≠ 0 ∧ 8 / bits ≠ 0 := by
    obtain ⟨h₁, h₂, -⟩ := encodeQuad_loop (henc (List.replicate _ 0) List.length_replicate)
    exact ⟨h₁, h₂⟩
  have hfits : ∀ i < n / (8 / bits), i < n / 4 := by
    intro i hi
    obtain ⟨-, -, d', step, hlen, -, hstep, hloop⟩ :=
      encodeQuad_loop (henc (List.replicate _ 0) List.length_replicate)
    rw [List.length_replicate] at hlen
    obtain ⟨c, c', hc, hput⟩ := exists_step_of_foldlM (fun i _ b b' hb => by
      obtain ⟨x, hx⟩ := hstep b i b' hb
      obtain ⟨-, rfl⟩ := ok_put.mp hx
      exact List.length_set) hloop (List.mem_range.mpr hi)
    obtain ⟨x, hx⟩ := hstep _ _ _ hput
    have hlt := (ok_put.mp hx).1
    omega
  -- an entry that the loop does not reach keeps what was there
  have hreached : n / 4 ≤ n / (8 / bits) := by
    by_contra hlt
    have hkept : ∀ x : UInt8, bytes[4 + n / (8 / bits)]? = some x := by
      intro x
      obtain ⟨-, -, d', step, -, hkeep, hstep, hloop⟩ :=
        encodeQuad_loop (henc (List.replicate _ x) List.length_replicate)
      rw [getElem?_foldlM (fun i hi b b' hb => ?_) hloop, hkeep _ (Nat.le_add_right _ _),
        List.getElem?_replicate, if_pos (by omega)]
      obtain ⟨y, hy⟩ := hstep b i b' hb
      obtain ⟨-, rfl⟩ := ok_put.mp hy
      have := List.mem_range.mp hi
      exact List.getElem?_set_ne (by omega)
    have hclash := (hkept 0).symm.trans (hkept 1)
    exact absurd (Option.some.inj hclash) (by decide)
  have hle : n / (8 / bits) ≤ n / 4 := by
    by_contra hlt
    exact absurd (hfits (n / 4) (by omega)) (by omega)
  have hwidth : bits ≤ 8 := by
    by_contra hgt
    exact hbits.2 (Nat.div_eq_of_lt (by omega))
  obtain rfl | rfl | rfl | rfl | rfl | rfl | rfl | rfl :
    bits = 1 ∨ bits = 2 ∨ bits = 3 ∨ bits = 4 ∨ bits = 5 ∨ bits = 6 ∨ bits = 7 ∨
    bits = 8 := by omega
  all_goals norm_num at hle hreached ⊢
  all_goals omega

theorem packs_of_roundTrips (hacc : Accepted A desc) {bytes : List UInt8}
    (h : RoundTrips A desc (List.replicate desc.blockElems A.zero) bytes) : Packs desc := by
  obtain ⟨hpos, hlayout⟩ := hacc.cases
  have hlen : (List.replicate desc.blockElems A.zero).length = desc.blockElems :=
    List.length_replicate
  rcases hlayout with ⟨hs, hp⟩ | ⟨hs, hp⟩
  · obtain ⟨henc, hdec⟩ := h.one (blockBytes_nibble hs hp) hpos hlen
    have hdvd : 2 ∣ desc.blockElems := dvd_of_untouched (p := desc.blockElems - 1) hlen hdec
      (fun _ _ hout => getElem?_unpack_nibble hp hout) (by omega)
    have hquad : decide (desc.packing = .quad) = false := by simp [hp]
    rw [hquad] at henc
    exact Or.inl ⟨hp, bits_le_of_nibble hs hp hpos hdvd rfl henc hdec, hdvd⟩
  · obtain ⟨henc, hdec⟩ := h.one (blockBytes_quad hs hp) hpos hlen
    have hdvd : 4 ∣ desc.blockElems := dvd_of_untouched (p := desc.blockElems - 1) hlen hdec
      (fun _ _ hout => getElem?_unpack_quad hp hout) (by omega)
    have hquad : decide (desc.packing = .quad) = true := by simp [hp]
    rw [hquad] at henc
    exact Or.inr ⟨hp, bits_eq_of_quad hpos hdvd henc, hdvd⟩

/-- **The rows of an accepted descriptor round trip exactly when its codes fill its blocks.** -/
theorem roundTrips_iff (hacc : Accepted A desc) :
    (∀ src : List A.F, desc.blockElems ∣ src.length → ∃ bytes, RoundTrips A desc src bytes) ↔
      Packs desc := by
  constructor
  · intro h
    obtain ⟨bytes, hbytes⟩ := h (List.replicate desc.blockElems A.zero)
      (dvd_of_eq List.length_replicate.symm)
    exact packs_of_roundTrips hacc hbytes
  · intro h src hsrc
    obtain ⟨hpos, hlayout⟩ := hacc.cases
    rcases hlayout with ⟨hs, hp⟩ | ⟨hs, hp⟩ <;> rcases h with ⟨hp', hbits, hdvd⟩ |
      ⟨hp', hbits, hdvd⟩
    · exact roundTrips_nibble hs hp hbits.1 hbits.2 hdvd hpos hsrc
    · exact absurd (hp.symm.trans hp') (by decide)
    · exact absurd (hp.symm.trans hp') (by decide)
    · exact roundTrips_quad hs hp hbits hdvd hpos hsrc

/-! ## Exact arithmetic -/

def binary16 : FloatFormat := ⟨10, -24⟩

/-- The bits of the `f16` nearest to `x`. -/
def halfBits (x : ℚ) : UInt16 :=
  let e := binary16.exponent |x|
  let magnitude := ((e + 24) * 1024 + halfEven (|x| / 2 ^ e)).toNat
  if x = 0 then 0 else .ofNat ((if x < 0 then 2 ^ 15 else 0) + min 0x7C00 magnitude)

/-- The integer part, as a cast to an integer takes it. -/
def truncate (x : ℚ) : ℤ := if 0 ≤ x then ⌊x⌋ else -⌊-x⌋

theorem truncate_bounds {x : ℚ} {a b : ℕ} (ha : -(a : ℚ) ≤ x) (hb : x ≤ b) :
    -(a : ℤ) ≤ truncate x ∧ truncate x ≤ b := by
  unfold truncate
  split_ifs with h
  · have hle : ⌊x⌋ ≤ (b : ℤ) := Int.floor_le_iff.mpr (by push_cast; linarith)
    have hnn := Int.floor_nonneg.mpr h
    omega
  · have hle : ⌊-x⌋ ≤ (a : ℤ) := Int.floor_le_iff.mpr (by push_cast; linarith)
    have hnn : 0 ≤ ⌊-x⌋ := Int.floor_nonneg.mpr (by linarith)
    omega

theorem clamp_bounds {x : ℚ} {a b : ℕ} : -(a : ℚ) ≤ max (-(a : ℚ)) (min x b) ∧
    max (-(a : ℚ)) (min x b) ≤ b := by
  have ha : (0 : ℚ) ≤ a := a.cast_nonneg
  have hb : (0 : ℚ) ≤ b := b.cast_nonneg
  exact ⟨le_max_left _ _, max_le (by linarith) (min_le_right _ _)⟩

/-- The arithmetic of the encoders without rounding. -/
def rationals : Arith where
  F := ℚ
  zero := 0
  one := 1
  maxAbs src := src.foldl (fun m v => max m |v|) 0
  minVal src := src.foldl min (src.headD 0)
  maxVal src := src.foldl max (src.headD 0)
  neg x := -x
  sub x y := x - y
  mul x y := x * y
  div x y := x / y
  round x := if 0 ≤ x then ⌊x + 1 / 2⌋ else -⌊-x + 1 / 2⌋
  clamp x lo hi := max lo (min x hi)
  isZero x := x == 0
  ofInt x := x
  toI32 x := max (-2 ^ 31) (min (truncate x) (2 ^ 31 - 1))
  toU8 x := .ofNat (min (truncate x).toNat 255)
  toF16 := halfBits
  toI32_clamp := by
    intro x a b ha hb
    obtain ⟨hlo, hhi⟩ := truncate_bounds (clamp_bounds (x := x) (a := a) (b := b)).1 clamp_bounds.2
    push_cast
    omega
  toU8_clamp := by
    intro x b hb
    have hbounds := clamp_bounds (x := x) (a := 0) (b := b)
    rw [Nat.cast_zero, neg_zero] at hbounds
    have hle := (truncate_bounds (a := 0) (by simp) hbounds.2).2
    rw [UInt8.toNat_ofNat']
    push_cast
    omega
  maxAbs_zero := by
    intro n
    induction n with
    | zero => rfl
    | succ n ih => simp [List.replicate_succ, ih]
  isZero_div := by simp
  mul_zero := by norm_num
  round_zero := by norm_num
  toI32_zero := by
    intro a b
    have hmax : max (-((a : ℤ) : ℚ)) (min 0 ((b : ℤ) : ℚ)) = 0 := by
      rw [min_eq_left (by positivity), max_eq_right (by simp)]
    rw [hmax]
    rfl

/-- `q4_0`: 32 values of four bits. -/
def q4_0 : KVLayoutDesc := ⟨32, 4, .perBlockF16, .nibble⟩

theorem roundTrips_q4_0 : Accepted rationals q4_0 ∧
    ∀ src : List ℚ, 32 ∣ src.length → ∃ bytes, RoundTrips rationals q4_0 src bytes :=
  have hacc : Accepted rationals q4_0 := ⟨[], [], fun _ h => nomatch h⟩
  ⟨hacc, (roundTrips_iff hacc).mpr (by decide)⟩

/-- Values of five bits, in nibbles. -/
def fiveBits : KVLayoutDesc := ⟨32, 5, .perBlockF16, .nibble⟩

/-- A block of zeros in nibbles of five bits does not come back. -/
theorem not_roundTrips_fiveBits :
    Accepted rationals fiveBits ∧ ¬ ∃ bytes,
      RoundTrips rationals fiveBits (List.replicate 32 (0 : ℚ)) bytes := by
  have hacc : Accepted rationals fiveBits := ⟨[], [], fun _ h => nomatch h⟩
  refine ⟨hacc, ?_⟩
  rintro ⟨bytes, hbytes⟩
  exact absurd (packs_of_roundTrips hacc hbytes) (by decide)

end Format

end ArgusEngine
