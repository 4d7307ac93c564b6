import ArgusEngine.Loader.Gguf

/-!
# GGUF files that are read without a panic

Where the parser can panic or ask for more memory than the file holds: the end of a string, the
capacities that the file names, the nesting of arrays, the alignment, and the range of a tensor's
data.

* `StringFits`, `ValueFits`, `KvFits`, `TensorInfoFits`: one item;
* `Parsable`: the whole file, `DataFits`: the data of one tensor;
* `Sound`: parsing ends in a file or an error, and the data of every listed tensor lies in the data
  area;
* **`sound_parse_iff`**: the files that are read so.
-/

namespace ArgusEngine.Gguf

open Checked
open FlatMem (slice ofLe)

/-- The number in the `w` bytes at `p`. -/
def numAt (data : List UInt8) (w p : ℕ) : ℕ := ofLe (slice data p w)

section Fits

variable (bytesFor : Container → ℕ → ℕ) (data : List UInt8)

/-- The string at `p` ends below `2^64`, where its length can be read. -/
def StringFits (p : ℕ) : Prop := p + 8 ≤ data.length → p + 8 + numAt data 8 p < 2 ^ 64

/-- The value at `p` and the values nested in it: strings that end below `2^64`, arrays no longer
than the file and no deeper than the stack. -/
def ValueFits : (stack tag p : ℕ) → Prop
  | 0, _, _ => False
  | stack + 1, tag, p =>
    (tag = GGUF_TYPE_STRING → StringFits data p) ∧
    (tag = GGUF_TYPE_ARRAY → p + 12 ≤ data.length →
      bytesFor .values (numAt data 8 (p + 4)) ≤ data.length ∧
      ∀ i < numAt data 8 (p + 4), ∀ q,
        Reaches (readValue bytesFor data stack (numAt data 4 p)) (p + 12) i q →
        ValueFits stack (numAt data 4 p) q)

/-- The metadata entry at `p`. -/
def KvFits (stack p : ℕ) : Prop :=
  StringFits data p ∧ ∀ key q, readString data p = .ok (key, q) → q + 4 ≤ data.length →
    ValueFits bytesFor data stack (numAt data 4 q) (q + 4)

/-- The tensor entry at `p`. -/
def TensorInfoFits (p : ℕ) : Prop :=
  StringFits data p ∧ ∀ name q, readString data p = .ok (name, q) → q + 4 ≤ data.length →
    bytesFor .dims (numAt data 4 q) ≤ data.length

/-- The padding up to the tensor data. -/
def AlignFits (alignment p : ℕ) : Prop :=
  alignment ≠ 0 ∧ (p % alignment ≠ 0 → p + (alignment - p % alignment) < 2 ^ 64)

/-- A file with the magic number and the version, all of whose items fit. -/
structure Parsable (stack : ℕ) : Prop where
  kvCapacity : bytesFor .metadata (numAt data 8 16) ≤ data.length
  kv : ∀ i < numAt data 8 16, ∀ q, Reaches (readKv bytesFor data stack) 24 i q →
    KvFits bytesFor data stack q
  capacity : ∀ p, Reaches (readKv bytesFor data stack) 24 (numAt data 8 16) p →
    bytesFor .tensors (numAt data 8 8) ≤ data.length ∧
    bytesFor .tensorIndex (numAt data 8 8) ≤ data.length
  tensors : ∀ p, Reaches (readKv bytesFor data stack) 24 (numAt data 8 16) p →
    ∀ i < numAt data 8 8, ∀ q, Reaches (readTensorInfo bytesFor data) p i q →
    TensorInfoFits bytesFor data q
  alignment : ∀ metadata p, reads (readKv bytesFor data stack) (numAt data 8 16) 24 =
    .ok (metadata, p) → ∀ q, Reaches (readTensorInfo bytesFor data) p (numAt data 8 8) q →
    AlignFits (alignmentOf metadata) q

/-- The header is read: 24 bytes with the magic number and the version. -/
def HasHeader : Prop :=
  24 ≤ data.length ∧ numAt data 4 0 = GGUF_MAGIC ∧ numAt data 4 4 = GGUF_VERSION_3

end Fits

/-- The bytes of a tensor of `n` elements. -/
def byteSize (ggmlType n : ℕ) : ℕ := ((blockOf ggmlType).map fun b => n / b.1 * b.2).getD 0

/-- No product of leading dimensions overflows, and the data lies in the file. -/
def DataFits (f : GgufFile) (info : GgufTensorInfo) : Prop :=
  (∀ k ≤ info.dims.length, (info.dims.take k).prod < 2 ^ 64) ∧
  f.tensorDataOffset + info.offset + byteSize info.ggmlType info.dims.prod ≤ f.mmap.length

/-- A tensor's size and data are handed out: a range of the data area. -/
def Served (f : GgufFile) (info : GgufTensorInfo) : Prop :=
  ∃ start size, tensorByteSize info = .ok size ∧ f.tensorData info = .ok (slice f.mmap start size) ∧
    f.tensorDataOffset ≤ start ∧ start + size ≤ f.mmap.length

/-- Parsing ends in a file or an error, and every tensor of the file is handed out. -/
structure Sound (bytesFor : Container → ℕ → ℕ) (stack : ℕ) (data : List UInt8) : Prop where
  parse : NoPanic (GgufFile.parseBytes bytesFor stack data)
  served : ∀ f, GgufFile.parseBytes bytesFor stack data = .ok f → ∀ info ∈ f.tensors, Served f info

/-! ## Readers -/

section Readers

variable {bytesFor : Container → ℕ → ℕ} {data : List UInt8} {stack tag w n p q : ℕ}

theorem noPanic_readBytes : NoPanic (readBytes data n p) ↔ p + n < 2 ^ 64 := by
  simp only [readBytes, noPanic_bind, noPanic_add, ok_add, noPanic_ensure, ok_ensure,
    noPanic_index, noPanic_pure, implies_true, and_true, true_and, and_iff_left_iff_imp]
  rintro - stop ⟨-, rfl⟩ - hle
  exact ⟨Nat.le_add_right _ _, hle⟩

theorem ok_readBytes {b : List UInt8} : readBytes data n p = .ok (b, q) ↔
    p + n < 2 ^ 64 ∧ p + n ≤ data.length ∧ b = slice data p n ∧ q = p + n := by
  simp only [readBytes, ok_bind, ok_add, ok_ensure, ok_index]
  constructor
  · rintro ⟨stop, ⟨hlt, rfl⟩, -, hle, s, ⟨-, rfl⟩, h⟩
    cases h
    exact ⟨hlt, hle, by rw [Nat.add_sub_cancel_left], rfl⟩
  · rintro ⟨hlt, hle, rfl, rfl⟩
    refine ⟨p + n, ⟨hlt, rfl⟩, (), hle, _, ⟨⟨Nat.le_add_right _ _, hle⟩, rfl⟩, ?_⟩
    rw [Nat.add_sub_cancel_left]
    rfl

theorem ok_readLe (hlen : data.length < 2 ^ 63) : readLe data w p = .ok (n, q) ↔
    p + w ≤ data.length ∧ n = numAt data w p ∧ q = p + w := by
  simp only [readLe, ok_bind, Prod.exists, ok_readBytes]
  constructor
  · rintro ⟨b, r, ⟨-, hle, rfl, rfl⟩, h⟩
    cases h
    exact ⟨hle, rfl, rfl⟩
  · rintro ⟨hle, rfl, rfl⟩
    exact ⟨_, _, ⟨by omega, hle, rfl, rfl⟩, rfl⟩

theorem noPanic_readLe (hlen : data.length < 2 ^ 63) (hp : p ≤ data.length) (hw : w ≤ 8) :
    NoPanic (readLe data w p) := by
  simp only [readLe, noPanic_bind, noPanic_readBytes, noPanic_pure, implies_true, and_true]
  omega

theorem readString_le {s : List UInt8} (h : readString data p = .ok (s, q)) : q ≤ data.length := by
  obtain ⟨⟨n, r⟩, -, h⟩ := ok_bind.mp h
  obtain ⟨-, hle, -, rfl⟩ := ok_readBytes.mp h
  exact hle

theorem noPanic_readString (hlen : data.length < 2 ^ 63) (hp : p ≤ data.length) :
    NoPanic (readString data p) ↔ StringFits data p := by
  simp only [readString, noPanic_bind, noPanic_readLe hlen hp le_rfl, true_and, noPanic_readBytes,
    ok_readLe hlen, Prod.forall]
  constructor
  · intro h hle
    exact h _ _ ⟨hle, rfl, rfl⟩
  · rintro h n q ⟨hle, rfl, rfl⟩
    exact h hle

@[simp] theorem noPanic_withCapacity {c : Container} :
    NoPanic (withCapacity bytesFor data c n) ↔ bytesFor c n ≤ data.length :=
  noPanic_guard

theorem width_scalarOf {value : ℕ → GgufValue} (h : scalarOf tag = some (w, value)) : w ≤ 8 := by
  unfold scalarOf at h
  split at h <;> cases h <;> decide

/-! ## Values -/

theorem readLe_le (hlen : data.length < 2 ^ 63) (h : readLe data w p = .ok (n, q)) :
    q ≤ data.length := by
  obtain ⟨hle, -, rfl⟩ := (ok_readLe hlen).mp h
  exact hle

theorem readValue_le (hlen : data.length < 2 ^ 63) {v : GgufValue}
    (h : readValue bytesFor data stack tag p = .ok (v, q)) : q ≤ data.length := by
  induction stack generalizing tag p q v with
  | zero => cases h
  | succ stack ih =>
    unfold readValue at h
    split at h
    · obtain ⟨⟨n, r⟩, hn, h⟩ := ok_bind.mp h
      cases h
      exact readLe_le hlen hn
    · split_ifs at h
      · obtain ⟨⟨s, r⟩, hs, h⟩ := ok_bind.mp h
        cases h
        exact readString_le hs
      · obtain ⟨⟨elem, r₁⟩, -, h⟩ := ok_bind.mp h
        obtain ⟨⟨count, r₂⟩, hcount, h⟩ := ok_bind.mp h
        obtain ⟨-, -, h⟩ := ok_bind.mp h
        obtain ⟨⟨arr, r₃⟩, harr, h⟩ := ok_bind.mp h
        cases h
        exact Reaches.keeps (P := (· ≤ data.length)) (fun p a q _ ha => ih ha)
          (readLe_le hlen hcount) ⟨arr, harr⟩

theorem noPanic_readArray (hlen : data.length < 2 ^ 63) (hp : p ≤ data.length) {fits : ℕ → ℕ → Prop}
    (ih : ∀ tag {p}, p ≤ data.length →
    (NoPanic (readValue bytesFor data stack tag p) ↔ fits tag p)) :
    NoPanic (readArray bytesFor data (readValue bytesFor data stack) p) ↔
    (p + 12 ≤ data.length → bytesFor .values (numAt data 8 (p + 4)) ≤ data.length ∧
      ∀ i < numAt data 8 (p + 4), ∀ q, Reaches (readValue bytesFor data stack (numAt data 4 p))
        (p + 12) i q →
        fits (numAt data 4 p) q) := by
  have hle : ∀ {tag q r i}, q ≤ data.length → Reaches (readValue bytesFor data stack tag) q i r →
    r ≤ data.length :=
    fun hq => Reaches.keeps (P := (· ≤ data.length)) (fun _ _ _ _ ha => readValue_le hlen ha) hq
  simp only [readArray, noPanic_bind, noPanic_readLe hlen hp (by decide : 4 ≤ 8),
    noPanic_withCapacity, noPanic_pure, implies_true, and_true, true_and, ok_readLe hlen,
    Prod.forall, noPanic_reads]
  constructor
  · intro h h12
    obtain ⟨hcap, hall⟩ := (h _ _ ⟨by omega, rfl, rfl⟩).2 _ _ ⟨by omega, rfl, rfl⟩
    refine ⟨hcap, fun i hi q hq => ?_⟩
    exact (ih _ (hle h12 hq)).mp (hall () (if_pos hcap) i hi q hq)
  · rintro h elem q ⟨h4, rfl, rfl⟩
    refine ⟨noPanic_readLe hlen h4 le_rfl, ?_⟩
    rintro count q ⟨h8, rfl, rfl⟩
    obtain ⟨hcap, hall⟩ := h (by omega)
    exact ⟨hcap, fun _ _ i hi q hq => (ih _ (hle h8 hq)).mpr (hall i hi q hq)⟩

/-- **`read_value`**: by induction on the stack. -/
theorem noPanic_readValue (hlen : data.length < 2 ^ 63) (hp : p ≤ data.length) :
    NoPanic (readValue bytesFor data stack tag p) ↔ ValueFits bytesFor data stack tag p := by
  induction stack generalizing tag p with
  | zero => exact ⟨fun h => absurd h (noPanic_panic _), fun h => h.elim⟩
  | succ stack ih =>
    unfold readValue ValueFits
    cases hs : scalarOf tag with
    | some x =>
      have hstring : tag ≠ GGUF_TYPE_STRING := by
        rintro rfl
        cases hs
      have harray : tag ≠ GGUF_TYPE_ARRAY := by
        rintro rfl
        cases hs
      simp only [hstring, harray, false_imp_iff, and_self, iff_true, noPanic_bind,
        noPanic_pure, implies_true, and_true]
      exact noPanic_readLe hlen hp (width_scalarOf hs)
    | none =>
      simp only
      by_cases hstring : tag = GGUF_TYPE_STRING
      · have harray : tag ≠ GGUF_TYPE_ARRAY := by
          rw [hstring]
          decide
        rw [if_pos hstring]
        simp only [noPanic_bind, noPanic_pure, implies_true, and_true, noPanic_readString hlen hp]
        exact ⟨fun h => ⟨fun _ => h, fun ha => absurd ha harray⟩, fun h => h.1 hstring⟩
      rw [if_neg hstring]
      by_cases harray : tag = GGUF_TYPE_ARRAY
      · rw [if_pos harray]
        refine (noPanic_readArray hlen hp fun _ => ih).trans ?_
        exact ⟨fun h => ⟨fun hs => absurd hs hstring, fun _ => h⟩, fun h => h.2 harray⟩
      · rw [if_neg harray]
        exact iff_of_true (noPanic_err _) ⟨fun h => absurd h hstring, fun h => absurd h harray⟩

/-! ## Entries -/

theorem readKv_le (hlen : data.length < 2 ^ 63) {e : List UInt8 × GgufValue}
    (h : readKv bytesFor data stack p = .ok (e, q)) : q ≤ data.length := by
  obtain ⟨⟨key, r₁⟩, -, h⟩ := ok_bind.mp h
  obtain ⟨⟨typeTag, r₂⟩, -, h⟩ := ok_bind.mp h
  obtain ⟨⟨value, r₃⟩, hv, h⟩ := ok_bind.mp h
  cases h
  exact readValue_le hlen hv

theorem noPanic_readKv (hlen : data.length < 2 ^ 63) (hp : p ≤ data.length) :
    NoPanic (readKv bytesFor data stack p) ↔ KvFits bytesFor data stack p := by
  simp only [readKv, KvFits, noPanic_bind, noPanic_readString hlen hp, noPanic_pure,
    implies_true, and_true, Prod.forall]
  refine and_congr_right fun _ => forall_congr' fun key => forall_congr' fun q =>
    forall_congr' fun hs => ?_
  have hq := readString_le hs
  simp only [noPanic_readLe hlen hq (by decide : 4 ≤ 8), true_and, ok_readLe hlen]
  constructor
  · intro h hle
    exact (noPanic_readValue hlen hle).mp (h _ _ ⟨hle, rfl, rfl⟩)
  · rintro h tag r ⟨hle, rfl, rfl⟩
    exact (noPanic_readValue hlen hle).mpr (h hle)

theorem readTensorInfo_le (hlen : data.length < 2 ^ 63) {info : GgufTensorInfo}
    (h : readTensorInfo bytesFor data p = .ok (info, q)) : q ≤ data.length := by
  obtain ⟨⟨name, r₁⟩, -, h⟩ := ok_bind.mp h
  obtain ⟨⟨nDims, r₂⟩, -, h⟩ := ok_bind.mp h
  obtain ⟨-, -, h⟩ := ok_bind.mp h
  obtain ⟨⟨dims, r₃⟩, -, h⟩ := ok_bind.mp h
  obtain ⟨⟨ggmlType, r₄⟩, -, h⟩ := ok_bind.mp h
  obtain ⟨⟨offset, r₅⟩, ho, h⟩ := ok_bind.mp h
  cases h
  exact readLe_le hlen ho

theorem noPanic_readTensorInfo (hlen : data.length < 2 ^ 63) (hp : p ≤ data.length) :
    NoPanic (readTensorInfo bytesFor data p) ↔ TensorInfoFits bytesFor data p := by
  simp only [readTensorInfo, TensorInfoFits, noPanic_bind, noPanic_readString hlen hp,
    noPanic_withCapacity, noPanic_pure, implies_true, and_true, Prod.forall]
  refine and_congr_right fun _ => forall_congr' fun key => forall_congr' fun q =>
    forall_congr' fun hs => ?_
  have hq := readString_le hs
  simp only [noPanic_readLe hlen hq (by decide : 4 ≤ 8), true_and, ok_readLe hlen]
  constructor
  · intro h hle
    exact (h _ _ ⟨hle, rfl, rfl⟩).1
  · rintro h n r ⟨hle, rfl, rfl⟩
    have hdims : ∀ {i r}, Reaches (readLe data 8) (q + 4) i r → r ≤ data.length :=
      fun hr => Reaches.keeps (P := (· ≤ data.length)) (fun _ _ _ _ ha => readLe_le hlen ha) hle hr
    refine ⟨h hle, fun _ _ => ⟨?_, fun dims r hr => ?_⟩⟩
    · exact noPanic_reads.mpr fun i _ r hr => noPanic_readLe hlen (hdims hr) le_rfl
    · refine ⟨noPanic_readLe hlen (hdims ⟨dims, hr⟩) (by decide), ?_⟩
      rintro ty r' ⟨hle', rfl, rfl⟩
      exact noPanic_readLe hlen hle' le_rfl

theorem noPanic_alignTo {alignment : ℕ} : NoPanic (alignTo alignment p) ↔
    AlignFits alignment p := by
  simp only [alignTo, AlignFits, noPanic_bind, noPanic_rem, ok_rem]
  refine and_congr_right fun ha => ?_
  have hlt := Nat.mod_lt p (Nat.pos_of_ne_zero ha)
  constructor
  · intro h hr
    have := h _ ⟨ha, rfl⟩
    rw [if_pos hr] at this
    simpa [hlt.le] using this
  · rintro h r ⟨-, rfl⟩
    by_cases hr : p % alignment ≠ 0
    · rw [if_pos hr]
      simpa [hlt.le] using h hr
    · rw [if_neg hr]
      exact noPanic_ok _

end Readers

/-! ## Files -/

section Files

variable {bytesFor : Container → ℕ → ℕ} {data : List UInt8} {stack : ℕ}

/-- **`parse_bytes` does not panic exactly on a parsable file.** -/
theorem noPanic_parseBytes (hlen : data.length < 2 ^ 63) :
    NoPanic (GgufFile.parseBytes bytesFor stack data) ↔
      (HasHeader data → Parsable bytesFor data stack) := by
  have hkv : ∀ {p i q}, p ≤ data.length → Reaches (readKv bytesFor data stack) p i q →
    q ≤ data.length :=
    fun hp h => h.keeps (P := (· ≤ data.length)) (fun _ _ _ _ ha => readKv_le hlen ha) hp
  have hinfo : ∀ {p i q}, p ≤ data.length → Reaches (readTensorInfo bytesFor data) p i q →
    q ≤ data.length :=
    fun hp h => h.keeps (P := (· ≤ data.length)) (fun _ _ _ _ ha => readTensorInfo_le hlen ha) hp
  unfold GgufFile.parseBytes
  simp only [noPanic_bind, noPanic_readLe hlen (Nat.zero_le _) (by decide : 4 ≤ 8), noPanic_ensure,
    noPanic_withCapacity, noPanic_pure, noPanic_alignTo, noPanic_reads, implies_true, and_true,
    true_and, ok_readLe hlen, ok_ensure, Prod.forall]
  constructor
  · rintro h ⟨h24, hmagic, hversion⟩
    have h4 := h _ _ ⟨by omega, rfl, rfl⟩ () hmagic
    have h8 := h4.2 _ _ ⟨by omega, rfl, rfl⟩ () hversion
    have h16 := h8.2 _ _ ⟨by omega, rfl, rfl⟩
    obtain ⟨hcap, hrest⟩ := h16.2 _ _ ⟨by omega, rfl, rfl⟩
    obtain ⟨hkvs, htensors⟩ := hrest () (if_pos hcap)
    refine ⟨hcap, fun i hi q hq => ?_, fun p hp => ?_, fun p hp i hi q hq => ?_,
      fun metadata p hp q hq => ?_⟩
    · exact (noPanic_readKv hlen (hkv h24 hq)).mp (hkvs i hi q hq)
    · obtain ⟨metadata, hp⟩ := hp
      obtain ⟨hc₁, hrest⟩ := htensors metadata p hp
      exact ⟨hc₁, (hrest () (if_pos hc₁)).1⟩
    · obtain ⟨metadata, hmd⟩ := hp
      obtain ⟨hc₁, hrest⟩ := htensors metadata p hmd
      obtain ⟨hc₂, hrest⟩ := hrest () (if_pos hc₁)
      refine (noPanic_readTensorInfo hlen (hinfo (hkv h24 ⟨metadata, hmd⟩) hq)).mp ?_
      exact (hrest () (if_pos hc₂)).1 i hi q hq
    · obtain ⟨hc₁, hrest⟩ := htensors metadata p hp
      obtain ⟨hc₂, hrest⟩ := hrest () (if_pos hc₁)
      obtain ⟨tensors, hq⟩ := hq
      exact (hrest () (if_pos hc₂)).2 tensors q hq
  · rintro h magic q ⟨h4, rfl, rfl⟩ - hmagic
    refine ⟨noPanic_readLe hlen h4 (by decide), ?_⟩
    rintro version q ⟨h8, rfl, rfl⟩ - hversion
    refine ⟨noPanic_readLe hlen h8 le_rfl, ?_⟩
    rintro tensorCount q ⟨h16, rfl, rfl⟩
    refine ⟨noPanic_readLe hlen h16 le_rfl, ?_⟩
    rintro kvCount q ⟨h24, rfl, rfl⟩
    have hfits := h ⟨h24, hmagic, hversion⟩
    refine ⟨hfits.kvCapacity, fun _ _ => ⟨fun i hi q hq => ?_, fun metadata p hp => ?_⟩⟩
    · exact (noPanic_readKv hlen (hkv h24 hq)).mpr (hfits.kv i hi q hq)
    · have hend := hkv h24 ⟨metadata, hp⟩
      obtain ⟨hc₁, hc₂⟩ := hfits.capacity p ⟨metadata, hp⟩
      refine ⟨hc₁, fun _ _ => ⟨hc₂, fun _ _ => ⟨fun i hi q hq => ?_, fun tensors q hq => ?_⟩⟩⟩
      · exact (noPanic_readTensorInfo hlen (hinfo hend hq)).mpr
          (hfits.tensors p ⟨metadata, hp⟩ i hi q hq)
      · exact hfits.alignment metadata p hp q ⟨tensors, hq⟩

theorem mmap_parseBytes {f : GgufFile} (h : GgufFile.parseBytes bytesFor stack data = .ok f) :
    f.mmap = data := by
  simp only [GgufFile.parseBytes, ok_bind, Prod.exists] at h
  obtain ⟨_, _, -, _, -, _, _, -, _, -, _, _, -, _, _, -, _, -, _, _, -, _, -, _, -,
    _, _, -, _, -, h⟩ := h
  cases h
  rfl

theorem rank_parseBytes {f : GgufFile} (h : GgufFile.parseBytes bytesFor stack data = .ok f) :
    ∀ info ∈ f.tensors, info.dims.length < 2 ^ 32 := by
  simp only [GgufFile.parseBytes, ok_bind, Prod.exists] at h
  obtain ⟨_, _, -, _, -, _, _, -, _, -, _, _, -, _, _, -, _, -, _, _, -, _, -, _, -, _, _,
    htensors, _, -, h⟩ := h
  cases h
  intro info hinfo
  obtain ⟨p, q, hread⟩ := (of_reads htensors).2 info hinfo
  obtain ⟨⟨name, r₁⟩, -, h⟩ := ok_bind.mp hread
  obtain ⟨⟨nDims, r₂⟩, hcount, h⟩ := ok_bind.mp h
  obtain ⟨-, -, h⟩ := ok_bind.mp h
  obtain ⟨⟨dims, r₃⟩, hdims, h⟩ := ok_bind.mp h
  obtain ⟨⟨ggmlType, r₄⟩, -, h⟩ := ok_bind.mp h
  obtain ⟨⟨offset, r₅⟩, -, h⟩ := ok_bind.mp h
  cases h
  obtain ⟨⟨b, r⟩, hb, h⟩ := ok_bind.mp hcount
  cases h
  obtain ⟨-, -, rfl, -⟩ := ok_readBytes.mp hb
  rw [(of_reads hdims).1]
  exact FlatMem.ofLe_slice_lt data _ 4

/-! ## Data -/

theorem ok_product {ds : List ℕ} {n m : ℕ} : (ds.foldlM mul n : Except (Fault String) ℕ) = .ok m ↔
    (∀ k < ds.length, n * (ds.take (k + 1)).prod < 2 ^ 64) ∧ m = n * ds.prod := by
  induction ds generalizing n with
  | nil =>
    simp only [List.foldlM_nil, List.length_nil, Nat.not_lt_zero, false_imp_iff, implies_true,
      true_and, List.prod_nil, Nat.mul_one]
    exact ⟨fun h => (Except.ok.inj h).symm, fun h => h ▸ rfl⟩
  | cons d ds ih =>
    rw [List.foldlM_cons]
    simp only [ok_bind, ok_mul, ih, List.length_cons, List.take_succ_cons, List.prod_cons]
    constructor
    · rintro ⟨_, ⟨hd, rfl⟩, hall, rfl⟩
      refine ⟨fun k hk => ?_, Nat.mul_assoc _ _ _⟩
      cases k with
      | zero => simpa using hd
      | succ k => exact Nat.mul_assoc n d _ ▸ hall k (by omega)
    · rintro ⟨hall, rfl⟩
      refine ⟨_, ⟨?_, rfl⟩, fun k hk => ?_, (Nat.mul_assoc _ _ _).symm⟩
      · simpa using hall 0 (by omega)
      · exact (Nat.mul_assoc n d _).symm ▸ hall (k + 1) (by omega)

theorem ok_tensorByteSize {info : GgufTensorInfo} {size : ℕ} : tensorByteSize info = .ok size ↔
    (∀ k ≤ info.dims.length, (info.dims.take k).prod < 2 ^ 64) ∧
      byteSize info.ggmlType info.dims.prod < 2 ^ 64 ∧
      size = byteSize info.ggmlType info.dims.prod := by
  have hprod : (∀ k < info.dims.length, (info.dims.take (k + 1)).prod < 2 ^ 64) ↔
      ∀ k ≤ info.dims.length, (info.dims.take k).prod < 2 ^ 64 := by
    constructor
    · intro h k hk
      cases k with
      | zero => simp
      | succ k => exact h k hk
    · intro h k hk
      exact h (k + 1) hk
  simp only [tensorByteSize, ok_bind, ok_product, Nat.one_mul, hprod, byteSize]
  cases blockOf info.ggmlType with
  | none =>
    simp only [Option.map_none, Option.getD_none]
    constructor
    · rintro ⟨n, ⟨hall, rfl⟩, h⟩
      cases h
      exact ⟨hall, by decide, rfl⟩
    · rintro ⟨hall, -, rfl⟩
      exact ⟨_, ⟨hall, rfl⟩, rfl⟩
  | some b =>
    simp only [ok_mul, Option.map_some, Option.getD_some]
    constructor
    · rintro ⟨n, ⟨hall, rfl⟩, hlt, rfl⟩
      exact ⟨hall, hlt, rfl⟩
    · rintro ⟨hall, hlt, rfl⟩
      exact ⟨_, ⟨hall, rfl⟩, hlt, rfl⟩

/-- **`tensor_data` serves exactly the tensors whose data fits.** -/
theorem served_iff {f : GgufFile} {info : GgufTensorInfo} (hlen : f.mmap.length < 2 ^ 63) :
    Served f info ↔ DataFits f info := by
  simp only [Served, DataFits, GgufFile.tensorData, ok_bind, ok_add, ok_index, ok_tensorByteSize]
  constructor
  · rintro ⟨start, size, -, ⟨_, ⟨-, rfl⟩, _, ⟨hall, -, rfl⟩, _, ⟨-, rfl⟩, ⟨-, hle⟩, -⟩, -⟩
    exact ⟨hall, hle⟩
  · rintro ⟨hall, hle⟩
    have hsize : byteSize info.ggmlType info.dims.prod < 2 ^ 64 := by omega
    refine ⟨f.tensorDataOffset + info.offset, _, ⟨hall, hsize, rfl⟩,
      ⟨_, ⟨by omega, rfl⟩, _, ⟨hall, hsize, rfl⟩, _,
      ⟨by omega, rfl⟩, ⟨Nat.le_add_right _ _, hle⟩, ?_⟩, Nat.le_add_right _ _, hle⟩
    rw [Nat.add_sub_cancel_left]

/-- **The files that are read without a panic**: a file without the header is rejected; any other is
read where every string that is reached ends below `2^64`, no capacity asked for exceeds the file,
no array is nested deeper than the stack, the alignment is not zero and the padding does not
overflow; and the data of each tensor lies in the file. -/
theorem sound_parse_iff (bytesFor : Container → ℕ → ℕ) (stack : ℕ) {data : List UInt8}
    (hlen : data.length < 2 ^ 63) : Sound bytesFor stack data ↔
    (HasHeader data → Parsable bytesFor data stack) ∧
      ∀ f, GgufFile.parseBytes bytesFor stack data = .ok f → ∀ info ∈ f.tensors,
        DataFits f info := by
  have hserved : ∀ {f}, GgufFile.parseBytes bytesFor stack data = .ok f → ∀ info, Served f info ↔
    DataFits f info :=
    fun hf _ => served_iff (mmap_parseBytes hf ▸ hlen)
  constructor
  · intro h
    exact ⟨(noPanic_parseBytes hlen).mp h.parse, fun f hf info hi =>
      (hserved hf info).mp (h.served f hf info hi)⟩
  · rintro ⟨hparse, hdata⟩
    exact ⟨(noPanic_parseBytes hlen).mpr hparse, fun f hf info hi =>
      (hserved hf info).mpr (hdata f hf info hi)⟩

/-- The sizes of the entries on a 64-bit target. -/
def entryBytes : Container → ℕ → ℕ
  | .metadata, n => n * 56
  | .values, n => n * 32
  | .tensors, n => n * 64
  | .tensorIndex, n => n * 32
  | .dims, n => n * 8

/-- A file with one tensor, a number at offset 0 of the data. -/
def oneTensor : List UInt8 :=
  [0x47, 0x47, 0x55, 0x46, 3, 0, 0, 0, 1, 0, 0, 0, 0, 0, 0, 0, 0, 0, 0, 0, 0, 0, 0, 0] ++
  [1, 0, 0, 0, 0, 0, 0, 0, 119, 1, 0, 0, 0, 1, 0, 0, 0, 0, 0, 0, 0, 0, 0, 0, 0, 0, 0,
    0, 0, 0, 0, 0, 0] ++
  List.replicate 7 0 ++ [0, 0, 128, 63]

theorem sound_oneTensor : Sound entryBytes 64 oneTensor ∧
    (HasHeader oneTensor → Parsable entryBytes oneTensor 64) := by
  have hparse : GgufFile.parseBytes entryBytes 64 oneTensor =
    .ok ⟨oneTensor, 3, [], [⟨[119], [1], 0, 0⟩], 64⟩ := rfl
  have hsound : Sound entryBytes 64 oneTensor := by
    refine ⟨hparse ▸ noPanic_ok _, fun f hf info hi => ?_⟩
    rw [hparse] at hf
    cases hf
    obtain rfl := List.mem_singleton.mp hi
    exact ⟨64, 4, rfl, rfl, le_rfl, le_rfl⟩
  exact ⟨hsound, ((sound_parse_iff entryBytes 64 (by decide)).mp hsound).1⟩

/-- A header that announces `2^64 - 1` metadata entries. -/
def hugeCount : List UInt8 :=
  [0x47, 0x47, 0x55, 0x46, 3, 0, 0, 0] ++ List.replicate 8 0 ++ List.replicate 8 255

theorem not_sound_hugeCount : ¬ Sound entryBytes 64 hugeCount := by
  intro h
  have hfits := (noPanic_parseBytes (by decide)).mp h.parse ⟨by decide, by decide, by decide⟩
  exact absurd hfits.kvCapacity (by decide)

end Files

end ArgusEngine.Gguf
