import Mathlib.Data.List.Dedup
import Mathlib.Logic.Function.Basic
import ArgusEngine.Auf.Total
import ArgusEngine.Kv.Tensor

/-!
# Tensors of an opened AUF file

The two readers of the tensor index. `AufSource.materialiseCpuTensor` looks one tensor up and
borrows its bytes from the mapped file; the secondary collects the tensors of every layer in a table
and serves them from the WEIGHTS section. Sums are checked for overflow and the assertion of the
borrowed buffer is on.

* `AufSource`, `AufViewBuffer`: the primary file;
* `AufSecondaryMmap`: the secondary, built by `buildAufSecondaryFromView`, `fromAufSelfSecondary` or
  `openSecondaryF16ForRecall`.
-/

namespace ArgusEngine.Auf

open FlatMem Checked

/-! ## Tensor names -/

inductive LayerWeightKind where
  | wq | wk | wv | wo | wGate | wUp | wDown | attentionNorm | ffnNorm | preFfnNorm |
    postFfnNorm | qNorm | kNorm
  deriving Repr, DecidableEq

inductive LayerBiasKind where
  | bq | bk | bv
  deriving Repr, DecidableEq

inductive TensorId where
  | embed
  | finalNorm
  | lmHead
  | layerWeight (layer : ℕ) (kind : LayerWeightKind)
  | layerBias (layer : ℕ) (kind : LayerBiasKind)
  deriving Repr, DecidableEq

def layerWeightKindToTensorKind : LayerWeightKind → Option TensorKind
  | .wq => some .attnQ
  | .wk => some .attnK
  | .wv => some .attnV
  | .wo => some .attnO
  | .wGate => some .ffnGate
  | .wUp => some .ffnUp
  | .wDown => some .ffnDown
  | .attentionNorm => some .attnNorm
  | .ffnNorm => some .ffnNorm
  | .preFfnNorm | .postFfnNorm | .qNorm | .kNorm => none

def LayerBiasKind.tensorKind : LayerBiasKind → TensorKind
  | .bq => .attnQBias
  | .bk => .attnKBias
  | .bv => .attnVBias

/-- `tensor_id_to_auf`; a layer number is cut to 32 bits. -/
def tensorIdToAuf : TensorId → Option (UInt32 × TensorKind)
  | .embed => some (LAYER_IDX_CROSS, .embedding)
  | .finalNorm => some (LAYER_IDX_CROSS, .finalNorm)
  | .lmHead => some (LAYER_IDX_CROSS, .lmHead)
  | .layerWeight layer kind => (layerWeightKindToTensorKind kind).map fun k => (.ofNat layer, k)
  | .layerBias layer kind => some (.ofNat layer, kind.tensorKind)

/-- `is_dtype_strict_kind`: the matrices. -/
def isDtypeStrictKind : TensorId → Bool
  | .layerWeight _ kind =>
    match kind with
    | .wq | .wk | .wv | .wo | .wGate | .wUp | .wDown => true
    | _ => false
  | _ => false

def aufDtypeToEngine (dtype : UInt32) : Option DType :=
  (TensorDType.fromU32 dtype).map fun
    | .f32 => .f32
    | .f16 => .f16
    | .bf16 => .bf16
    | .q4_0 => .q4_0
    | .q4_1 => .q4_1
    | .q8_0 => .q8_0
    | .u8 => .u8

/-! ## The primary -/

/-- The errors of `materialise_cpu_tensor`, with what their texts name. -/
inductive SourceError where
  | unsupported (id : TensorId)
  | lookup (layerIdx : UInt32) (kind : TensorKind) (dtype : Option TensorDType) (e : AufError)
  | anyVariant
  | lacksVariant (tag : String)
  | offsetMissing (variantIdx : ℕ) (layerIdx : UInt32) (kind : TensorKind)
  | sizeMissing (variantIdx : ℕ) (layerIdx : UInt32) (kind : TensorKind)
  | noPayload (tag : String) (layerIdx : UInt32) (kind : TensorKind)
  | unsupportedDtype (code layerIdx : UInt32) (kind : TensorKind)
  | noWeightsRange

structure AufSource where
  view : AufView
  variantTag : BackendTag
  primaryDtype : Option TensorDType

/-- The bytes `absOffset .. absOffset + size` of the file. -/
structure AufViewBuffer where
  absOffset : ℕ
  size : ℕ
  dtype : DType
  deriving Repr, DecidableEq

/-- `AufViewBuffer::new`, with its assertion. -/
def AufViewBuffer.new {ε : Type} (view : AufView) (absOffset size : ℕ) (dtype : DType) :
    Except (Fault ε) AufViewBuffer := do
  let stop ← add absOffset size
  if stop ≤ view.mmap.length then .ok ⟨absOffset, size, dtype⟩
  else .error (.panic "assertion failed: abs_offset + size <= raw.len()")

structure CpuTensor where
  shape : List ℕ
  buffer : AufViewBuffer
  deriving Repr, DecidableEq

/-- No bytes in a variant: the marks `u64::MAX` and 0. -/
def isAbsent (column : UInt64 × UInt64) : Bool := column.1 == .ofNat (2 ^ 64 - 1) || column.2 == 0

/-- The dtype asked for: the matrices follow `primary_dtype`. -/
def AufSource.lookupDtype (s : AufSource) (id : TensorId) : Option TensorDType :=
  if isDtypeStrictKind id then s.primaryDtype else none

/-- `materialise_cpu_tensor`. -/
def AufSource.materialiseCpuTensor (s : AufSource) (id : TensorId) :
    Except (Fault SourceError) CpuTensor := do
  let (layerIdx, kind) ← okOr (.unsupported id) (tensorIdToAuf id)
  let entry ← liftErr (.lookup layerIdx kind (s.lookupDtype id))
    (s.view.lookupTensor layerIdx kind.asU32 (s.lookupDtype id))
  let weightsTag ← okOr .anyVariant s.variantTag.weightsSectionTag
  let varIdx ← okOr (.lacksVariant weightsTag) (s.view.tensorIndex.variantIndexForTag weightsTag)
  let varOffset ← okOr (.offsetMissing varIdx layerIdx kind) entry.variantOffsets[varIdx]?
  let varSize ← okOr (.sizeMissing varIdx layerIdx kind) entry.variantSizes[varIdx]?
  ensure (¬ isAbsent (varOffset, varSize)) (.noPayload weightsTag layerIdx kind)
  let shape := entry.shape.map UInt64.toNat
  let dtype ← okOr (.unsupportedDtype entry.dtype layerIdx kind) (aufDtypeToEngine entry.dtype)
  let (weightsSectionOffset, _) ← okOr .noWeightsRange s.view.weightsRange
  let absOffset ← add weightsSectionOffset.toNat varOffset.toNat
  let buffer ← AufViewBuffer.new s.view absOffset varSize.toNat dtype
  return ⟨shape, buffer⟩

/-! ## The secondary -/

inductive LoadError where
  | aufInvariantViolation (detail : String)
  | dtypeNotFound (dtype : String)
  | adrenoSoaF16Rejected
  | reverseSwapRejected (primaryDtype secondaryDtype : String)
  deriving Repr, DecidableEq

/-- `TensorKind::from_u32` and `tensor_kind_to_subname`: the tensors of a layer that are swapped. -/
def tensorKindToSubname (kind : UInt32) : Option String :=
  if kind = TensorKind.attnQ.asU32 then some "attn_q.weight"
  else if kind = TensorKind.attnK.asU32 then some "attn_k.weight"
  else if kind = TensorKind.attnV.asU32 then some "attn_v.weight"
  else if kind = TensorKind.attnO.asU32 then some "attn_output.weight"
  else if kind = TensorKind.ffnGate.asU32 then some "ffn_gate.weight"
  else if kind = TensorKind.ffnUp.asU32 then some "ffn_up.weight"
  else if kind = TensorKind.ffnDown.asU32 then some "ffn_down.weight"
  else if kind = TensorKind.attnNorm.asU32 then some "attn_norm.weight"
  else if kind = TensorKind.ffnNorm.asU32 then some "ffn_norm.weight"
  else none

structure SecondaryTensorInfo where
  /-- From the start of the WEIGHTS section. -/
  offset : ℕ
  len : ℕ
  dtype : DType
  /-- Innermost first. -/
  dims : List ℕ
  deriving Repr, DecidableEq

/-- The tensors of one layer by name. -/
abbrev LayerTensorSlice : Type := String → Option SecondaryTensorInfo

structure AufSecondaryMmap where
  view : AufView
  layerIndex : List LayerTensorSlice
  isPreConvertedSoa : Bool

/-- What an entry contributes: its layer, its name and its place, unless the loop skips it. -/
def secondarySlot (variantIdx numLayers : ℕ) (selected : Option TensorDType) (e : TensorEntry) :
    Option (ℕ × String × SecondaryTensorInfo) :=
  if e.layerIdx = LAYER_IDX_CROSS then none
  else if numLayers ≤ e.layerIdx.toNat then none
  else if selected.any (fun d => e.dtype != d.asU32) then none
  else if isAbsent (e.column variantIdx) then none
  else do
    let subname ← tensorKindToSubname e.kind
    let dtype ← aufDtypeToEngine e.dtype
    return (e.layerIdx.toNat, subname,
      ⟨(e.column variantIdx).1.toNat, (e.column variantIdx).2.toNat, dtype,
      (e.shape.map UInt64.toNat).reverse⟩)

/-- One step of the loop over the entries. -/
def insertEntry (variantIdx numLayers : ℕ) (selected : Option TensorDType)
    (layerIndex : List LayerTensorSlice) (e : TensorEntry) : List LayerTensorSlice :=
  match secondarySlot variantIdx numLayers selected e with
  | some (layer, subname, info) =>
    layerIndex.modify layer fun m => Function.update m subname (some info)
  | none => layerIndex

/-- The table of `num_layers` layers; a later entry replaces an earlier one of the same name. -/
def layerIndexOf (idx : TensorIndex) (variantIdx numLayers : ℕ) (selected : Option TensorDType) :
    List LayerTensorSlice :=
  idx.entries.foldl (insertEntry variantIdx numLayers selected)
    (List.replicate numLayers fun _ => none)

/-- The dtypes of the layer tensors with bytes in a variant, `excluded` left out. -/
def availableDtypes (idx : TensorIndex) (variantIdx : ℕ) (excluded : Option TensorDType) :
    List UInt32 :=
  ((idx.entries.filter fun e => e.layerIdx != LAYER_IDX_CROSS &&
    !(excluded.any fun d => e.dtype == d.asU32) && !isAbsent (e.column variantIdx)).map
      (·.dtype)).dedup

/-- `weight_preference`. -/
def weightPreference : List TensorDType := [.q4_0, .f16, .bf16, .q4_1, .q8_0, .f32]

def pickByPreference (available : List UInt32) : Option TensorDType :=
  weightPreference.find? fun d => available.contains d.asU32

inductive SecondaryDtypeChoice where
  | auto | f16 | q4_0 | f32
  deriving Repr, DecidableEq

/-- A dtype that is asked for by name. -/
def requireDtype (available : List UInt32) (d : TensorDType) (name : String) :
    Except (Fault LoadError) (Option TensorDType) := do
  ensure (available.contains d.asU32) (.dtypeNotFound name)
  return some d

/-- The dtype of the secondary: the default of META when it is there, else by preference. -/
def selectDtype (view : AufView) (available : List UInt32) :
    SecondaryDtypeChoice → Except (Fault LoadError) (Option TensorDType)
  | .auto =>
    .ok (match view.aufMeta.defaultDtype.bind dtypeStrToTensorDtype with
      | some d => if available.contains d.asU32 then some d else pickByPreference available
      | none => pickByPreference available)
  | .f16 => requireDtype available .f16 "F16"
  | .q4_0 => requireDtype available .q4_0 "Q4_0"
  | .f32 => requireDtype available .f32 "F32"

/-- The choice of `build_auf_secondary_from_view`, with what it rejects. -/
def selectForView (view : AufView) (variantIdx : ℕ) (backendTag : BackendTag)
    (choice : SecondaryDtypeChoice) : Except (Fault LoadError) (Option TensorDType) := do
  let available := availableDtypes view.tensorIndex variantIdx none
  let selected ← selectDtype view available choice
  ensure (¬ (backendTag = .adrenoSoa ∧ selected = some .f16)) .adrenoSoaF16Rejected
  ensure (¬ (selected = some .f16 ∧ available.length = 1 ∧
    available.contains TensorDType.q4_0.asU32)) (.reverseSwapRejected "Q4_0" "F16")
  return selected

/-- `.expect(text)`. -/
def expect {ε α : Type} (text : String) : Option α → Except (Fault ε) α
  | some a => .ok a
  | none => .error (.panic text)

def buildAufSecondaryFromView (view : AufView) (numLayers : ℕ) (path : String)
    (backendTag : BackendTag) (choice : SecondaryDtypeChoice) :
    Except (Fault LoadError) AufSecondaryMmap := do
  let weightsTag ← expect "detect_backend_tag returns a concrete tag" backendTag.weightsSectionTag
  let variantIdx ← okOr (.aufInvariantViolation
    s!"TENSOR_INDEX does not list variant '{weightsTag}' (file: {path})")
      (view.tensorIndex.variantIndexForTag weightsTag)
  let _ ← expect "AufView::weights_range must be Some after open() with concrete backend_tag"
    view.weightsRange
  let selected ← selectForView view variantIdx backendTag choice
  return ⟨view, layerIndexOf view.tensorIndex variantIdx numLayers selected,
    weightsTag == TAG_WEIGHTS_ADRENO_SOA⟩

/-- The `Debug` text of a dtype. -/
def TensorDType.debug : TensorDType → String
  | f32 => "F32"
  | f16 => "F16"
  | bf16 => "BF16"
  | q4_0 => "Q4_0"
  | q4_1 => "Q4_1"
  | q8_0 => "Q8_0"
  | u8 => "U8"

/-- The `Debug` text of a `BTreeSet` of numbers. -/
def debugSet (s : List UInt32) : String :=
  "\x7b" ++ ", ".intercalate (((s.map UInt32.toNat).mergeSort (· ≤ ·)).map toString) ++ "\x7d"

/-- The choice of `from_auf_self_secondary`: another dtype than the primary's. -/
def selectSelf (view : AufView) (variantIdx : ℕ) (weightsTag : String)
    (primaryVariantTag : BackendTag) (primaryDtype : TensorDType) :
    Except (Fault LoadError) (Option TensorDType) := do
  let available := availableDtypes view.tensorIndex variantIdx (some primaryDtype)
  ensure (available ≠ []) (.aufInvariantViolation
    (s!"AUF self-secondary: no swap candidates (primary dtype={primaryDtype.debug} " ++
      s!"is the only dtype present for variant '{weightsTag}'). " ++
      "Build multi-dtype AUF with `auf_tool build --dtypes` to enable swap."))
  let selected ← okOr (.aufInvariantViolation
    s!"AUF self-secondary: no recognised dtype among candidates {debugSet available}")
      (pickByPreference available)
  ensure (¬ (primaryVariantTag = .adrenoSoa ∧ selected = .f16)) .adrenoSoaF16Rejected
  ensure (¬ (primaryDtype = .q4_0 ∧ selected = .f16)) (.reverseSwapRejected "Q4_0" "F16")
  return some selected

def fromAufSelfSecondary (view : AufView) (primaryVariantTag : BackendTag)
    (primaryDtype : TensorDType) (numLayers : ℕ) : Except (Fault LoadError) AufSecondaryMmap := do
  let weightsTag ← okOr (.aufInvariantViolation
    "AUF self-secondary: BackendTag::Any cannot host tensors (primary_variant_tag invariant)")
    primaryVariantTag.weightsSectionTag
  let variantIdx ← okOr (.aufInvariantViolation
    s!"AUF self-secondary: TENSOR_INDEX missing primary variant '{weightsTag}'")
    (view.tensorIndex.variantIndexForTag weightsTag)
  let _ ← okOr (.aufInvariantViolation
    "AUF self-secondary: weights_range None (BackendTag::Any opened?)") view.weightsRange
  let selected ← selectSelf view variantIdx weightsTag primaryVariantTag primaryDtype
  return ⟨view, layerIndexOf view.tensorIndex variantIdx numLayers selected,
    weightsTag == TAG_WEIGHTS_ADRENO_SOA⟩

/-- `open_secondary_f16_for_recall`. -/
def openSecondaryF16ForRecall (view : AufView) (backendTag : BackendTag) (numLayers : ℕ) :
    Except (Fault LoadError) AufSecondaryMmap := do
  let weightsTag ← okOr (.aufInvariantViolation "recall: BackendTag::Any cannot host tensors")
    backendTag.weightsSectionTag
  ensure (weightsTag ≠ TAG_WEIGHTS_ADRENO_SOA) .adrenoSoaF16Rejected
  let variantIdx ← okOr (.aufInvariantViolation
    s!"recall F16 view: TENSOR_INDEX missing variant '{weightsTag}'")
      (view.tensorIndex.variantIndexForTag weightsTag)
  ensure ((availableDtypes view.tensorIndex variantIdx none).contains TensorDType.f16.asU32)
    (.dtypeNotFound "F16")
  return ⟨view, layerIndexOf view.tensorIndex variantIdx numLayers (some .f16), false⟩

namespace AufSecondaryMmap

/-- `layer_tensor`. -/
def layerTensor (m : AufSecondaryMmap) (layerIdx : ℕ) (subname : String) :
    Option SecondaryTensorInfo :=
  m.layerIndex[layerIdx]?.bind fun slice => slice subname

/-- `tensor_bytes`. -/
def tensorBytes (m : AufSecondaryMmap) (info : SecondaryTensorInfo) : AufResult (List UInt8) := do
  let weightsBytes ← expect "AufSecondaryMmap: weights_bytes() must be Some (invariant)"
    (← m.view.weightsBytes)
  index weightsBytes info.offset (← add info.offset info.len)

end AufSecondaryMmap

end ArgusEngine.Auf
