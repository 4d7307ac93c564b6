import Mathlib.Data.List.Perm.Basic
import Mathlib.Data.Prod.Lex
import ArgusEngine.Auf.Layout
import ArgusEngine.Auf.Q4Soa

/-!
# The weights sections that `auf_tool` builds

`auf_tool` writes the weights of a model once for every variant: `buildVariantPayload` puts the
bytes of all tensors one after another, `buildTensorIndex` keeps a cursor for every variant over the
same tensors, and sorts the entries.

* `buildVariantTensorBytes`, `buildVariantPayload`: the bytes of a variant;
* `tensorNameToLayerKind`, `buildTensorIndex`: the index, without the tensors of unknown names;
* `Describes`: every tensor has one entry, and the entries name the bytes of their tensors in every
  variant;
* **`describes_buildTensorIndex`**: so for the tensors of known names.
-/

namespace ArgusEngine.Auf

open FlatMem Checked

/-- A tensor under its GGUF name, outermost dimension first, with its bytes in one or more types. -/
structure WeightBlob where
  name : String
  shapeLogical : List UInt64
  dtypeBytes : List (TensorDType × List UInt8)
  deriving DecidableEq

def LM_HEAD_SEPARATE_NAME : String := "output.weight"

def QK4_0_LOCAL : UInt64 := 32

/-! ## The bytes of a variant -/

/-- `q4_0_aos_with_align`. -/
def q4_0AosWithAlign (blocks : List UInt8) (alignment : ℕ) :
    Except (Fault String) (List UInt8) := do
  let out ← vec 0 (alignUp blocks.length alignment)
  copyAt out 0 blocks

/-- `build_variant_tensor_bytes`; `expected` is a product of machine words. -/
def buildVariantTensorBytes (name : String) (bytes : List UInt8) (shape : List UInt64)
    (dtype : TensorDType) (tag : String) : Except (Fault String) (List UInt8) :=
  let isLmHead := name == LM_HEAD_SEPARATE_NAME
  if tag = TAG_WEIGHTS_ADRENO_SOA then
    match isLmHead, dtype, shape with
    | false, .q4_0, [ne01, ne00] =>
      let expected := ne01 * ne00 / QK4_0_LOCAL * 18
      if expected.toNat = bytes.length ∧ ne00 % QK4_0_LOCAL = 0 then
        match q4_0AosToAdrenoSoa bytes ne00.toNat ne01.toNat with
        | some (q, d) => .ok (q ++ d)
        | none => .error (.panic "q4_0_aos_to_adreno_soa")
      else .ok bytes
    | _, _, _ => .ok bytes
  else if tag = TAG_WEIGHTS_CUDA_AOS then q4_0AosWithAlign bytes 128
  else if tag = TAG_WEIGHTS_CPU_AOS then q4_0AosWithAlign bytes 64
  else .error (.err s!"Unknown variant tag: {tag}")

/-- `Vec::extend_from_slice`. -/
def extend (out sub : List UInt8) : Except (Fault String) (List UInt8) :=
  if out.length + sub.length < 2 ^ 63 then .ok (out ++ sub) else .error .alloc

/-- `build_variant_payload`. -/
def buildVariantPayload (blobs : List WeightBlob) (tag : String) :
    Except (Fault String) (List UInt8) :=
  blobs.foldlM (fun out blob => blob.dtypeBytes.foldlM (fun out x => do
    let sub ← buildVariantTensorBytes blob.name x.2 blob.shapeLogical x.1 tag
    extend out sub) out) []

/-! ## The index -/

/-- `str::strip_prefix`. -/
def stripPrefix (s pre : List UInt8) : Option (List UInt8) :=
  if pre.isPrefixOf s then some (s.drop pre.length) else none

/-- `str::split_once` at an ASCII character. -/
def splitOnce (s : List UInt8) (c : UInt8) : Option (List UInt8 × List UInt8) :=
  if c ∈ s then some (s.takeWhile (· ≠ c), (s.dropWhile (· ≠ c)).drop 1) else none

/-- `str::parse::<u32>`: decimal digits, a `+` before them allowed. -/
def parseU32 (s : List UInt8) : Option UInt32 :=
  let digits := if s.head? = some 43 then s.tail else s
  if digits ≠ [] ∧ digits.all (fun b => 48 ≤ b ∧ b ≤ 57) then
    let n := digits.foldl (fun n b => n * 10 + (b.toNat - 48)) 0
    if n < 2 ^ 32 then some (.ofNat n) else none
  else none

def subnameKinds : List (String × TensorKind) :=
  [("attn_q.weight", .attnQ), ("attn_k.weight", .attnK), ("attn_v.weight", .attnV),
    ("attn_output.weight", .attnO), ("ffn_gate.weight", .ffnGate), ("ffn_up.weight", .ffnUp),
    ("ffn_down.weight", .ffnDown), ("attn_norm.weight", .attnNorm), ("ffn_norm.weight", .ffnNorm),
    ("attn_q.bias", .attnQBias), ("attn_k.bias", .attnKBias), ("attn_v.bias", .attnVBias)]

/-- `tensor_name_to_layer_kind`. -/
def tensorNameToLayerKind (name : String) : Option (UInt32 × TensorKind) :=
  if name = "token_embd.weight" then some (LAYER_IDX_CROSS, .embedding)
  else if name = "output_norm.weight" then some (LAYER_IDX_CROSS, .finalNorm)
  else if name = "output.weight" then some (LAYER_IDX_CROSS, .lmHead)
  else do
    let rest ← stripPrefix (asBytes name) (asBytes "blk.")
    let (idxStr, kindStr) ← splitOnce rest 46
    let layerIdx ← parseU32 idxStr
    let kind ← subnameKinds.find? fun x => asBytes x.1 = kindStr
    return (layerIdx, kind.2)

/-- `compute_variant_tensor_size`. -/
def computeVariantTensorSize (bytes : List UInt8) (tag : String) : ℕ :=
  if tag = TAG_WEIGHTS_ADRENO_SOA then bytes.length
  else if tag = TAG_WEIGHTS_CUDA_AOS then alignUp bytes.length 128
  else if tag = TAG_WEIGHTS_CPU_AOS then alignUp bytes.length 64
  else bytes.length

/-- The cursors of the variants and the entries so far. -/
structure IndexState where
  variantCursors : List UInt64
  entries : List TensorEntry

/-- The body of the loops of `build_tensor_index`: one type of one blob. -/
def IndexState.register (variantTags : List String) (s : IndexState) (blob : WeightBlob)
    (x : TensorDType × List UInt8) : IndexState :=
  let variantSizes := variantTags.map fun tag => UInt64.ofNat (computeVariantTensorSize x.2 tag)
  let variantOffsets := s.variantCursors
  let variantCursors := s.variantCursors.zipWith (· + ·) variantSizes
  match tensorNameToLayerKind blob.name with
  | none => { s with variantCursors }
  | some (layerIdx, kind) =>
    ⟨variantCursors, s.entries ++
      [⟨layerIdx, kind.asU32, x.1.asU32, blob.shapeLogical, 64, variantOffsets, variantSizes⟩]⟩

/-- `build_tensor_index`'s sort key: by layer and kind, the default type before the others. -/
def sortKey (defaultU32 : Option UInt32) (e : TensorEntry) : ℕ ×ₗ ℕ ×ₗ ℕ ×ₗ ℕ :=
  let notDefault := if defaultU32 = some e.dtype then 0 else 1
  toLex (e.layerIdx.toNat, toLex (e.kind.toNat, toLex (notDefault, e.dtype.toNat)))

/-- `build_tensor_index`. -/
def buildTensorIndex (blobs : List WeightBlob) (variantTags : List String)
    (defaultDtype : Option TensorDType) :
    TensorIndex :=
  let s := blobs.foldl (fun s blob =>
    blob.dtypeBytes.foldl (fun s x => s.register variantTags blob x) s)
      (IndexState.mk (List.replicate variantTags.length 0) [])
  let defaultU32 := defaultDtype.map TensorDType.asU32
  ⟨variantTags.map fun tag => padded 24 (asBytes tag),
    s.entries.mergeSort fun a b => decide (sortKey defaultU32 a ≤ sortKey defaultU32 b)⟩

/-! ## What the index says -/

/-- The tensors with one of their types each, in the order of the payload. -/
def pieces (blobs : List WeightBlob) : List (WeightBlob × TensorDType × List UInt8) :=
  blobs.flatMap fun blob => blob.dtypeBytes.map (blob, ·)

/-- A tensor with a name of the index. -/
def Recognized (x : WeightBlob × TensorDType × List UInt8) : Prop :=
  (tensorNameToLayerKind x.1.name).isSome = true

instance (x : WeightBlob × TensorDType × List UInt8) : Decidable (Recognized x) :=
  inferInstanceAs (Decidable ((tensorNameToLayerKind x.1.name).isSome = true))

/-- The entry of a tensor and type: in every variant it names the bytes of the tensor. -/
structure EntryFor (blobs : List WeightBlob) (tags : List String)
    (x : WeightBlob × TensorDType × List UInt8) (e : TensorEntry) : Prop where
  kind : (tensorNameToLayerKind x.1.name).map (fun k => (k.1, k.2.asU32)) =
    some (e.layerIdx, e.kind)
  dtype : e.dtype = x.2.1.asU32
  shape : e.shape = x.1.shapeLogical
  bytes : ∀ (i : ℕ) tag payload, tags[i]? = some tag → buildVariantPayload blobs tag = .ok payload →
    (e.column i).1.toNat + (e.column i).2.toNat ≤ payload.length ∧
    buildVariantTensorBytes x.1.name x.2.2 x.1.shapeLogical x.2.1 tag =
      .ok (slice payload (e.column i).1.toNat (e.column i).2.toNat)

/-- **The index describes the payloads**: the tensors `xs` have one entry each. -/
structure Describes (blobs : List WeightBlob) (tags : List String)
    (defaultDtype : Option TensorDType) (xs : List (WeightBlob × TensorDType × List UInt8))
    (idx : TensorIndex) : Prop where
  one : ∃ ys, ys.Perm xs ∧ List.Forall₂ (EntryFor blobs tags) ys idx.entries
  defaultFirst : ∀ d, defaultDtype = some d → idx.entries.Pairwise fun e e' =>
    e.layerIdx = e'.layerIdx → e.kind = e'.kind → e'.dtype = d.asU32 → e.dtype = d.asU32
  apart : ∀ (i : ℕ) tag payload, tags[i]? = some tag → buildVariantPayload blobs tag = .ok payload →
    idx.entries.Pairwise fun e e' => (e.column i).1.toNat + (e.column i).2.toNat ≤
      (e'.column i).1.toNat ∨
      (e'.column i).1.toNat + (e'.column i).2.toNat ≤ (e.column i).1.toNat

/-! ## Sizes -/

section Sizes

variable {name tag : String} {bytes sub : List UInt8} {shape : List UInt64} {dtype : TensorDType}

theorem exists_q4_0AosWithAlign {alignment : ℕ} (hsize : alignUp bytes.length alignment < 2 ^ 63) :
    ∃ out, q4_0AosWithAlign bytes alignment = .ok out := by
  have hle := le_alignUp bytes.length alignment
  have hvec : vec (ε := String) 0 (alignUp bytes.length alignment) =
      .ok (List.replicate (alignUp bytes.length alignment) 0) := ok_vec.mpr ⟨hsize, rfl⟩
  unfold q4_0AosWithAlign
  rw [hvec, ok_seq]
  exact ⟨_, copyAt_of_le (by rw [List.length_replicate]; omega)⟩

theorem length_q4_0AosWithAlign {alignment : ℕ} (h : q4_0AosWithAlign bytes alignment = .ok sub) :
    sub.length = alignUp bytes.length alignment := by
  obtain ⟨out, hout, hcopy⟩ := ok_bind.mp h
  rw [length_of_copyAt hcopy, (ok_vec.mp hout).2, List.length_replicate]

theorem length_adrenoSoa {ne00 ne01 : ℕ} {q d : List UInt8}
    (h : q4_0AosToAdrenoSoa bytes ne00 ne01 = some (q, d)) :
    q.length + d.length = bytes.length := by
  have hguard : ne00 % 32 = 0 ∧ bytes.length = ne01 * (ne00 / 32) * 18 := by
    unfold q4_0AosToAdrenoSoa at h
    simp only [Option.bind_eq_bind, Option.bind_eq_some_iff] at h
    obtain ⟨_, h32, _, hlen, _⟩ := h
    exact ⟨(Option.guard_eq_some' _).mp h32, (Option.guard_eq_some' _).mp hlen⟩
  obtain ⟨q', d', h', hsoa⟩ := isSoa_adreno hguard.1 hguard.2
  obtain ⟨rfl, rfl⟩ := Prod.mk.inj (Option.some.inj (h.symm.trans h'))
  rw [hsoa.length_q, hsoa.length_d, hguard.2]
  omega

/-- **The two size accounts agree.** -/
theorem length_buildVariantTensorBytes
    (h : buildVariantTensorBytes name bytes shape dtype tag = .ok sub) :
    sub.length = computeVariantTensorSize bytes tag := by
  unfold buildVariantTensorBytes at h
  unfold computeVariantTensorSize
  dsimp only at h
  split_ifs at h ⊢ with hsoa hcuda hcpu
  · split at h
    · split_ifs at h
      · split at h
        · rename_i q d hq
          rw [← Except.ok.inj h, List.length_append, length_adrenoSoa hq]
        · cases h
      · rw [Except.ok.inj h]
    · rw [Except.ok.inj h]
  · exact length_q4_0AosWithAlign h
  · exact length_q4_0AosWithAlign h

end Sizes

/-! ## The payload -/

/-- The bytes of a tensor and type in a variant. -/
def pieceBytes (tag : String) (x : WeightBlob × TensorDType × List UInt8) :
    Except (Fault String) (List UInt8) :=
  buildVariantTensorBytes x.1.name x.2.2 x.1.shapeLogical x.2.1 tag

/-- The bytes that the index counts for some tensors. -/
def total (tag : String) (xs : List (WeightBlob × TensorDType × List UInt8)) : ℕ :=
  (xs.map fun x => computeVariantTensorSize x.2.2 tag).sum

theorem total_append (tag : String) (xs ys : List (WeightBlob × TensorDType × List UInt8)) :
    total tag (xs ++ ys) = total tag xs + total tag ys := by
  rw [total, List.map_append, List.sum_append]
  rfl

section Payload

variable {blobs : List WeightBlob} {tag : String} {out payload : List UInt8}
  {xs done : List (WeightBlob × TensorDType × List UInt8)}
  {x : WeightBlob × TensorDType × List UInt8}

theorem buildVariantPayload_eq (blobs : List WeightBlob) (tag : String) :
    buildVariantPayload blobs tag =
      (pieces blobs).foldlM (fun out x => pieceBytes tag x >>= extend out) [] := by
  rw [pieces, foldlM_flatMap]
  simp only [List.foldlM_map]
  rfl

theorem ok_extend {sub out' : List UInt8} :
    extend out sub = .ok out' ↔ out.length + sub.length < 2 ^ 63 ∧ out' = out ++ sub :=
  ok_guard

theorem of_foldlM_extend
    (h : xs.foldlM (fun out x => pieceBytes tag x >>= extend out) out = .ok payload)
    (hout : out.length < 2 ^ 63) : payload.length < 2 ^ 63 ∧ ∃ post, payload = out ++ post ∧
    post.length = total tag xs := by
  induction xs generalizing out with
  | nil =>
    cases h
    exact ⟨hout, [], (List.append_nil _).symm, rfl⟩
  | cons x xs ih =>
    rw [List.foldlM_cons] at h
    obtain ⟨out', hx, hrest⟩ := ok_bind.mp h
    obtain ⟨sub, hsub, hext⟩ := ok_bind.mp hx
    obtain ⟨hlt, rfl⟩ := ok_extend.mp hext
    obtain ⟨hpayload, post, rfl, hpost⟩ := ih hrest (by rw [List.length_append]; omega)
    refine ⟨hpayload, sub ++ post, List.append_assoc _ _ _, ?_⟩
    rw [List.length_append, hpost, length_buildVariantTensorBytes hsub]
    rfl

/-- **The bytes of one tensor in the payload.** -/
theorem at_payload (hsplit : pieces blobs = done ++ x :: xs)
    (h : buildVariantPayload blobs tag = .ok payload) : payload.length < 2 ^ 63 ∧ ∃ sub post,
    pieceBytes tag x = .ok sub ∧ At payload (total tag done) (sub ++ post) := by
  rw [buildVariantPayload_eq, hsplit, List.foldlM_append] at h
  obtain ⟨pre, hpre, h⟩ := ok_bind.mp h
  obtain ⟨hprelt, pre', hpre', hprelen⟩ := of_foldlM_extend hpre (by decide)
  rw [List.nil_append] at hpre'
  rw [List.foldlM_cons] at h
  obtain ⟨out, hx, hrest⟩ := ok_bind.mp h
  obtain ⟨sub, hsub, hext⟩ := ok_bind.mp hx
  obtain ⟨hlt, rfl⟩ := ok_extend.mp hext
  obtain ⟨hpayload, post, hpost, -⟩ := of_foldlM_extend hrest (by rw [List.length_append]; omega)
  refine ⟨hpayload, sub, post, hsub, pre, ?_, ?_⟩
  · rw [hpost, List.append_assoc]
  · rw [hpre', hprelen]

/-- A payload is built where its bytes can be. -/
theorem exists_foldlM_extend (hx : ∀ x ∈ xs, ∃ sub, pieceBytes tag x = .ok sub)
    (hlt : out.length + total tag xs < 2 ^ 63) :
    ∃ payload, xs.foldlM (fun out x => pieceBytes tag x >>= extend out) out = .ok payload := by
  induction xs generalizing out with
  | nil => exact ⟨out, rfl⟩
  | cons x xs ih =>
    obtain ⟨sub, hsub⟩ := hx x List.mem_cons_self
    have hlen := length_buildVariantTensorBytes hsub
    have htotal : total tag (x :: xs) = computeVariantTensorSize x.2.2 tag + total tag xs := rfl
    have hext : extend out sub = .ok (out ++ sub) := ok_extend.mpr ⟨by omega, rfl⟩
    have hrest : (out ++ sub).length + total tag xs < 2 ^ 63 := by
      rw [List.length_append]
      omega
    obtain ⟨payload, hpayload⟩ := ih (fun y hy => hx y (List.mem_cons_of_mem _ hy)) hrest
    refine ⟨payload, ?_⟩
    rw [List.foldlM_cons, hsub, ok_seq, hext, ok_seq]
    exact hpayload

/-- The sizes of a variant are those of a machine: a matrix has less than `2 ^ 64` cells, the
payload less than `2 ^ 63` bytes. -/
structure Fits (blobs : List WeightBlob) (tag : String) : Prop where
  shape : ∀ blob ∈ blobs, ∀ ne01 ne00, blob.shapeLogical = [ne01, ne00] →
    ne01.toNat * ne00.toNat < 2 ^ 64
  size : total tag (pieces blobs) < 2 ^ 63

/-- The guard of the SOA conversion lets only whole rows of blocks pass. -/
theorem exists_adrenoSoa {bytes : List UInt8} {ne01 ne00 : UInt64}
    (hfits : ne01.toNat * ne00.toNat < 2 ^ 64)
    (hexpected : (ne01 * ne00 / QK4_0_LOCAL * 18).toNat = bytes.length)
    (h32 : ne00 % QK4_0_LOCAL = 0) :
    ∃ q d, q4_0AosToAdrenoSoa bytes ne00.toNat ne01.toNat = some (q, d) := by
  have hmod : ne00.toNat % 32 = 0 := congrArg UInt64.toNat h32
  have hmul : (ne01 * ne00).toNat = ne01.toNat * ne00.toNat := by
    rw [UInt64.toNat_mul, Nat.mod_eq_of_lt hfits]
  have hdiv : (ne01 * ne00 / QK4_0_LOCAL).toNat = ne01.toNat * (ne00.toNat / 32) := by
    rw [UInt64.toNat_div, hmul]
    exact Nat.mul_div_assoc _ (Nat.dvd_of_mod_eq_zero hmod)
  have hlen : ne01.toNat * (ne00.toNat / 32) * 18 < 2 ^ 64 := by
    have hle : ne01.toNat * (ne00.toNat / 32) * 32 = ne01.toNat * ne00.toNat := by
      rw [Nat.mul_assoc, Nat.div_mul_cancel (Nat.dvd_of_mod_eq_zero hmod)]
    omega
  have hbytes : bytes.length = ne01.toNat * (ne00.toNat / 32) * 18 := by
    rw [← hexpected, UInt64.toNat_mul, hdiv]
    exact Nat.mod_eq_of_lt hlen
  obtain ⟨q, d, h, -⟩ := isSoa_adreno hmod hbytes
  exact ⟨q, d, h⟩

/-- **The payloads of the three variants are built.** -/
theorem exists_buildVariantPayload
    (htag : tag ∈ [TAG_WEIGHTS_ADRENO_SOA, TAG_WEIGHTS_CUDA_AOS, TAG_WEIGHTS_CPU_AOS])
    (hfits : Fits blobs tag) : ∃ payload, buildVariantPayload blobs tag = .ok payload := by
  rw [buildVariantPayload_eq]
  refine exists_foldlM_extend (fun x hx => ?_)
    (by rw [List.length_nil, Nat.zero_add]; exact hfits.size)
  have hblob : x.1 ∈ blobs := by
    obtain ⟨blob, hblob, hx⟩ := List.mem_flatMap.mp hx
    obtain ⟨y, -, rfl⟩ := List.mem_map.mp hx
    exact hblob
  have hsize : computeVariantTensorSize x.2.2 tag < 2 ^ 63 := by
    obtain ⟨done, xs, hsplit⟩ := List.append_of_mem hx
    have htotal := hfits.size
    rw [hsplit, total_append] at htotal
    have hcons : total tag (x :: xs) = computeVariantTensorSize x.2.2 tag + total tag xs := rfl
    omega
  unfold computeVariantTensorSize at hsize
  unfold pieceBytes buildVariantTensorBytes
  dsimp only
  split_ifs at hsize ⊢ with hsoa hcuda hcpu
  · split
    · rename_i ne01 ne00 hshape
      split_ifs with hguard
      · obtain ⟨q, d, hq⟩ := exists_adrenoSoa (hfits.shape _ hblob _ _ hshape) hguard.1 hguard.2
        rw [hq]
        exact ⟨_, rfl⟩
      · exact ⟨_, rfl⟩
    · exact ⟨_, rfl⟩
  · exact exists_q4_0AosWithAlign hsize
  · exact exists_q4_0AosWithAlign hsize
  · simp [hsoa, hcuda, hcpu] at htag

end Payload

/-! ## The entries -/

/-- The entry of a tensor behind the tensors `done`. -/
def entryAt (tags : List String) (done : List (WeightBlob × TensorDType × List UInt8))
    (x : WeightBlob × TensorDType × List UInt8) : Option TensorEntry :=
  (tensorNameToLayerKind x.1.name).map fun k => ⟨k.1, k.2.asU32, x.2.1.asU32, x.1.shapeLogical, 64,
    tags.map fun tag => UInt64.ofNat (total tag done),
    tags.map fun tag => UInt64.ofNat (computeVariantTensorSize x.2.2 tag)⟩

/-- The entries of the tensors `xs` behind the tensors `done`. -/
def registered (tags : List String) :
    (done xs : List (WeightBlob × TensorDType × List UInt8)) → List TensorEntry
  | _, [] => []
  | done, x :: xs => (entryAt tags done x).toList ++ registered tags (done ++ [x]) xs

section Entries

variable {blobs : List WeightBlob} {tags : List String} {tag : String}
  {payload : List UInt8} {i : ℕ} {xs done : List (WeightBlob × TensorDType × List UInt8)}
  {x : WeightBlob × TensorDType × List UInt8} {e : TensorEntry}

theorem register_eq (tags : List String) (done : List (WeightBlob × TensorDType × List UInt8))
    (es : List TensorEntry) (x : WeightBlob × TensorDType × List UInt8) :
    (IndexState.mk (tags.map fun tag => UInt64.ofNat (total tag done)) es).register tags x.1 x.2 =
      ⟨tags.map fun tag => UInt64.ofNat (total tag (done ++ [x])),
      es ++ (entryAt tags done x).toList⟩ := by
  have hcursors : (tags.map fun tag => UInt64.ofNat (total tag done)).zipWith (· + ·)
      (tags.map fun tag => UInt64.ofNat (computeVariantTensorSize x.2.2 tag)) =
      tags.map fun tag => UInt64.ofNat (total tag (done ++ [x])) := by
    rw [List.zipWith_map, List.zipWith_self]
    refine List.map_congr_left fun tag _ => ?_
    rw [total_append, UInt64.ofNat_add]
    congr 2
  unfold IndexState.register entryAt
  dsimp only
  rw [hcursors]
  cases tensorNameToLayerKind x.1.name with
  | none => rw [Option.map_none, Option.toList_none, List.append_nil]
  | some k => rfl

theorem foldl_register (tags : List String) (done xs : List (WeightBlob × TensorDType × List UInt8))
    (es : List TensorEntry) :
    (xs.foldl (fun s x => s.register tags x.1 x.2)
      (IndexState.mk (tags.map fun tag => UInt64.ofNat (total tag done)) es)).entries = es ++
        registered tags done xs := by
  induction xs generalizing done es with
  | nil => exact (List.append_nil es).symm
  | cons x xs ih =>
    rw [List.foldl_cons, register_eq, ih, registered, List.append_assoc]

theorem buildTensorIndex_entries (blobs : List WeightBlob) (tags : List String)
    (defaultDtype : Option TensorDType) : (buildTensorIndex blobs tags defaultDtype).entries =
    (registered tags [] (pieces blobs)).mergeSort fun a b =>
      decide (sortKey (defaultDtype.map TensorDType.asU32) a ≤
        sortKey (defaultDtype.map TensorDType.asU32) b) := by
  have hstart : List.replicate tags.length (0 : UInt64) = tags.map fun tag =>
    UInt64.ofNat (total tag []) :=
    List.map_const'.symm
  unfold buildTensorIndex
  dsimp only
  rw [hstart]
  refine congrArg (fun l => List.mergeSort l _) ?_
  rw [← List.nil_append (registered tags [] (pieces blobs)), ← foldl_register, pieces,
    List.foldl_flatMap]
  simp only [List.foldl_map]

theorem column_entryAt (he : entryAt tags done x = some e) (hi : tags[i]? = some tag) :
    e.column i = (UInt64.ofNat (total tag done),
    UInt64.ofNat (computeVariantTensorSize x.2.2 tag)) := by
  obtain ⟨k, -, rfl⟩ := Option.map_eq_some_iff.mp he
  unfold TensorEntry.column
  rw [List.getD_eq_getElem?_getD, List.getD_eq_getElem?_getD, List.getElem?_map,
    List.getElem?_map, hi]
  rfl

theorem place_entryAt (hsplit : pieces blobs = done ++ x :: xs) (he : entryAt tags done x = some e)
    (hi : tags[i]? = some tag) (h : buildVariantPayload blobs tag = .ok payload) :
    (e.column i).1.toNat = total tag done ∧ (e.column i).1.toNat + (e.column i).2.toNat =
      total tag (done ++ [x]) ∧
      (e.column i).1.toNat + (e.column i).2.toNat ≤ payload.length ∧
      pieceBytes tag x = .ok (slice payload (e.column i).1.toNat (e.column i).2.toNat) := by
  obtain ⟨hlt, sub, post, hsub, hat⟩ := at_payload hsplit h
  have hlen := length_buildVariantTensorBytes hsub
  have hsize := hat.length
  rw [List.length_append] at hsize
  have hone : total tag [x] = computeVariantTensorSize x.2.2 tag := Nat.add_zero _
  rw [column_entryAt he hi, UInt64.toNat_ofNat_of_lt' (by unfold UInt64.size; omega),
    UInt64.toNat_ofNat_of_lt' (by unfold UInt64.size; omega), total_append]
  refine ⟨rfl, by omega, by omega, ?_⟩
  rw [hsub, hat.slice hlen]

theorem entryFor_entryAt (hsplit : pieces blobs = done ++ x :: xs)
    (he : entryAt tags done x = some e) : EntryFor blobs tags x e := by
  have hbytes : ∀ (i : ℕ) tag payload, tags[i]? = some tag →
    buildVariantPayload blobs tag = .ok payload →
      (e.column i).1.toNat + (e.column i).2.toNat ≤ payload.length ∧
      pieceBytes tag x = .ok (slice payload (e.column i).1.toNat (e.column i).2.toNat) :=
    fun i tag payload hi h => (place_entryAt hsplit he hi h).2.2
  obtain ⟨k, hk, rfl⟩ := Option.map_eq_some_iff.mp he
  exact ⟨by rw [hk]; rfl, rfl, rfl, hbytes⟩

/-- **Every tensor of a known name has its entry.** -/
theorem forall₂_registered (hsplit : pieces blobs = done ++ xs) :
    List.Forall₂ (EntryFor blobs tags) (xs.filter Recognized) (registered tags done xs) := by
  induction xs generalizing done with
  | nil => exact .nil
  | cons x xs ih =>
    have hnext : pieces blobs = done ++ [x] ++ xs := by
      rw [hsplit, List.append_assoc]
      rfl
    have hrest := ih hnext
    rw [registered]
    cases hk : tensorNameToLayerKind x.1.name with
    | none =>
      have hnot : ¬ Recognized x := by simp [Recognized, hk]
      rw [List.filter_cons_of_neg (by simpa using hnot), entryAt, hk]
      exact hrest
    | some k =>
      have hrec : Recognized x := by simp [Recognized, hk]
      have he : entryAt tags done x = some _ := congrArg (Option.map _) hk
      rw [List.filter_cons_of_pos (by simpa using hrec), he]
      exact .cons (entryFor_entryAt hsplit he) hrest

theorem stacked_registered (hsplit : pieces blobs = done ++ xs) (hi : tags[i]? = some tag)
    (h : buildVariantPayload blobs tag = .ok payload) :
    (∀ e ∈ registered tags done xs, total tag done ≤ (e.column i).1.toNat) ∧
    (registered tags done xs).Pairwise fun e e' =>
      (e.column i).1.toNat + (e.column i).2.toNat ≤ (e'.column i).1.toNat := by
  induction xs generalizing done with
  | nil => exact ⟨fun e he => absurd he List.not_mem_nil, .nil⟩
  | cons x xs ih =>
    have hnext : pieces blobs = done ++ [x] ++ xs := by
      rw [hsplit, List.append_assoc]
      rfl
    obtain ⟨hle, hpair⟩ := ih hnext
    have hfirst : ∀ e ∈ (entryAt tags done x).toList, entryAt tags done x = some e :=
      fun e he => Option.mem_toList.mp he
    rw [registered]
    refine ⟨fun e he => ?_, List.pairwise_append.mpr ⟨?_, hpair, fun e he e' he' => ?_⟩⟩
    · rcases List.mem_append.mp he with he | he
      · exact (place_entryAt hsplit (hfirst e he) hi h).1.ge
      · exact (Nat.le_add_right _ _).trans ((total_append tag done [x]).symm.trans_le (hle e he))
    · cases entryAt tags done x with
      | none => exact .nil
      | some e => exact List.pairwise_singleton _ e
    · exact (place_entryAt hsplit (hfirst e he) hi h).2.1.trans_le (hle e' he')

theorem mem_registered (he : e ∈ registered tags done xs) :
    ∃ done' x, x ∈ xs ∧ entryAt tags done' x = some e := by
  induction xs generalizing done with
  | nil => cases he
  | cons x xs ih =>
    rw [registered, List.mem_append, Option.mem_toList] at he
    rcases he with he | he
    · exact ⟨done, x, List.mem_cons_self, he⟩
    · obtain ⟨done', x', hx', he'⟩ := ih he
      exact ⟨done', x', List.mem_cons_of_mem _ hx', he'⟩

/-- **The index fits its fields** where its numbers do. -/
theorem fits_buildTensorIndex (defaultDtype : Option TensorDType) (htags : tags.length < 2 ^ 32)
    (hcount : (pieces blobs).length < 2 ^ 32)
    (hrank : ∀ b ∈ blobs, b.shapeLogical.length < 2 ^ 32) :
    (buildTensorIndex blobs tags defaultDtype).Fits := by
  have hperm : (buildTensorIndex blobs tags defaultDtype).entries.Perm
    (registered tags [] (pieces blobs)) :=
    buildTensorIndex_entries blobs tags defaultDtype ▸ List.mergeSort_perm _ _
  have hvariants : (buildTensorIndex blobs tags defaultDtype).variantTags.length = tags.length :=
    List.length_map _
  refine ⟨hvariants ▸ htags, ?_, fun e he => ?_⟩
  · have hall : List.Forall₂ (EntryFor blobs tags) ((pieces blobs).filter Recognized)
        (registered tags [] (pieces blobs)) :=
        forall₂_registered (List.nil_append (pieces blobs)).symm
    have hlen := hall.length_eq
    have hle := List.length_filter_le (fun x => decide (Recognized x)) (pieces blobs)
    rw [hperm.length_eq, ← hlen]
    omega
  · obtain ⟨done, x, hx, hentry⟩ := mem_registered (hperm.mem_iff.mp he)
    obtain ⟨k, -, rfl⟩ := Option.map_eq_some_iff.mp hentry
    obtain ⟨b, hb, hxb⟩ := List.mem_flatMap.mp hx
    obtain ⟨y, -, rfl⟩ := List.mem_map.mp hxb
    rw [hvariants]
    exact ⟨hrank b hb, List.length_map _, List.length_map _⟩

theorem one_buildTensorIndex (blobs : List WeightBlob) (tags : List String)
    (defaultDtype : Option TensorDType) : ∃ ys, ys.Perm ((pieces blobs).filter Recognized) ∧
      List.Forall₂ (EntryFor blobs tags) ys (buildTensorIndex blobs tags defaultDtype).entries := by
  have hperm : (buildTensorIndex blobs tags defaultDtype).entries.Perm
    (registered tags [] (pieces blobs)) :=
    buildTensorIndex_entries blobs tags defaultDtype ▸ List.mergeSort_perm _ _
  have hall : List.Forall₂ (EntryFor blobs tags) ((pieces blobs).filter Recognized)
      (registered tags [] (pieces blobs)) :=
      forall₂_registered (List.nil_append (pieces blobs)).symm
  have hcomp : Relation.Comp (List.Forall₂ (EntryFor blobs tags))
    List.Perm ((pieces blobs).filter Recognized)
      (buildTensorIndex blobs tags defaultDtype).entries := ⟨_, hall, hperm.symm⟩
  rw [List.forall₂_comp_perm_eq_perm_comp_forall₂] at hcomp
  obtain ⟨ys, hys, hforall⟩ := hcomp
  exact ⟨ys, hys.symm, hforall⟩

theorem pairwise_buildTensorIndex (blobs : List WeightBlob) (tags : List String)
    (defaultDtype : Option TensorDType) :
    (buildTensorIndex blobs tags defaultDtype).entries.Pairwise fun e e' =>
      sortKey (defaultDtype.map TensorDType.asU32) e ≤
        sortKey (defaultDtype.map TensorDType.asU32) e' := by
  rw [buildTensorIndex_entries]
  refine (List.pairwise_mergeSort (fun a b c => ?_) (fun a b => ?_) _).imp fun hle =>
    of_decide_eq_true hle
  · simp only [decide_eq_true_eq]
    exact le_trans
  · simp only [Bool.or_eq_true, decide_eq_true_eq]
    exact le_total _ _

theorem mem_of_forall₂ {α β : Type} {R : α → β → Prop} {as : List α} {bs : List β}
    (h : List.Forall₂ R as bs) : (∀ a ∈ as, ∃ b ∈ bs, R a b) ∧ ∀ b ∈ bs, ∃ a ∈ as, R a b := by
  induction h with
  | nil => exact ⟨fun a ha => absurd ha List.not_mem_nil, fun b hb => absurd hb List.not_mem_nil⟩
  | @cons a b as bs hab _ ih =>
    refine ⟨fun a' ha' => ?_, fun b' hb' => ?_⟩
    · rcases List.mem_cons.mp ha' with rfl | ha'
      · exact ⟨b, List.mem_cons_self, hab⟩
      · obtain ⟨b', hb', hr⟩ := ih.1 a' ha'
        exact ⟨b', List.mem_cons_of_mem _ hb', hr⟩
    · rcases List.mem_cons.mp hb' with rfl | hb'
      · exact ⟨a, List.mem_cons_self, hab⟩
      · obtain ⟨a', ha', hr⟩ := ih.2 b' hb'
        exact ⟨a', List.mem_cons_of_mem _ ha', hr⟩

/-- **The entries are those of the tensors** of known names. -/
theorem mem_buildTensorIndex (blobs : List WeightBlob) (tags : List String)
    (defaultDtype : Option TensorDType) :
    (∀ x ∈ pieces blobs, Recognized x → ∃ e ∈ (buildTensorIndex blobs tags defaultDtype).entries,
      EntryFor blobs tags x e) ∧
    ∀ e ∈ (buildTensorIndex blobs tags defaultDtype).entries, ∃ x ∈ pieces blobs,
      EntryFor blobs tags x e := by
  obtain ⟨ys, hperm, hall⟩ := one_buildTensorIndex blobs tags defaultDtype
  obtain ⟨hto, hfrom⟩ := mem_of_forall₂ hall
  refine ⟨fun x hx hrec => hto x ?_, fun e he => ?_⟩
  · rw [hperm.mem_iff, List.mem_filter]
    exact ⟨hx, decide_eq_true hrec⟩
  · obtain ⟨x, hx, hentry⟩ := hfrom e he
    exact ⟨x, (List.mem_filter.mp (hperm.mem_iff.mp hx)).1, hentry⟩

theorem default_of_sortKey_le {d : UInt32} {e e' : TensorEntry}
    (hle : sortKey (some d) e ≤ sortKey (some d) e') (hlayer : e.layerIdx = e'.layerIdx)
    (hkind : e.kind = e'.kind) (hd : e'.dtype = d) : e.dtype = d := by
  unfold sortKey at hle
  rw [hlayer, hkind, hd, if_pos rfl] at hle
  simp only [Prod.Lex.toLex_le_toLex, lt_self_iff_false, true_and, false_or] at hle
  split_ifs at hle with hdefault
  · exact (Option.some.inj hdefault).symm
  · simp at hle

end Entries

/-- **The index describes the payloads** it was built for: each tensor of a known name has its
entry. The payloads of the three variants are built where their sizes are those of a machine. -/
theorem describes_buildTensorIndex (blobs : List WeightBlob) (tags : List String)
    (defaultDtype : Option TensorDType) :
    Describes blobs tags defaultDtype ((pieces blobs).filter Recognized)
      (buildTensorIndex blobs tags defaultDtype) ∧
    ∀ tag ∈ [TAG_WEIGHTS_ADRENO_SOA, TAG_WEIGHTS_CUDA_AOS, TAG_WEIGHTS_CPU_AOS], Fits blobs tag →
      ∃ payload, buildVariantPayload blobs tag = .ok payload := by
  have hsorted := buildTensorIndex_entries blobs tags defaultDtype
  have hperm : (buildTensorIndex blobs tags defaultDtype).entries.Perm
    (registered tags [] (pieces blobs)) :=
    hsorted ▸ List.mergeSort_perm _ _
  refine ⟨⟨one_buildTensorIndex blobs tags defaultDtype, fun d hd => ?_,
    fun i tag payload hi h => ?_⟩, fun tag htag hfits => exists_buildVariantPayload htag hfits⟩
  · have hpair : (buildTensorIndex blobs tags defaultDtype).entries.Pairwise fun e e' =>
        sortKey (some d.asU32) e ≤ sortKey (some d.asU32) e' := by
      have hsort := pairwise_buildTensorIndex blobs tags defaultDtype
      rwa [hd] at hsort ⊢
    exact hpair.imp fun hle => default_of_sortKey_le hle
  · have hstacked := (stacked_registered (List.nil_append (pieces blobs)).symm hi h).2
    exact (hperm.pairwise_iff (fun hor => hor.symm)).mpr (hstacked.imp fun hle => .inl hle)

/-- A tensor that the index has no kind for. -/
def ropeFreqs : WeightBlob := ⟨"rope_freqs.weight", [1], [(.f32, [0, 0, 128, 63])]⟩

/-- A tensor of an unknown name is in the payload, and has no entry. -/
theorem not_describes_ropeFreqs :
    buildVariantPayload [ropeFreqs] TAG_WEIGHTS_ADRENO_SOA = .ok [0, 0, 128, 63] ∧
    ¬ Describes [ropeFreqs] [TAG_WEIGHTS_ADRENO_SOA] none (pieces [ropeFreqs])
      (buildTensorIndex [ropeFreqs] [TAG_WEIGHTS_ADRENO_SOA] none) := by
  refine ⟨rfl, fun h => ?_⟩
  obtain ⟨ys, hperm, hall⟩ := h.one
  have hnone : registered [TAG_WEIGHTS_ADRENO_SOA] [] (pieces [ropeFreqs]) = [] := by decide +kernel
  rw [buildTensorIndex_entries, hnone, List.mergeSort_nil, List.forall₂_nil_right_iff] at hall
  rw [hall] at hperm
  exact absurd hperm.length_eq (by decide)

end ArgusEngine.Auf
