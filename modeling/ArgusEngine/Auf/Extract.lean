import Mathlib.Data.List.ReduceOption
import ArgusEngine.Auf.Writer
import ArgusEngine.Lib.Decimal
import ArgusEngine.Loader.GgufSource

/-!
# From GGUF to AUF

`auf_tool build` reads a GGUF file, takes out the weights it has a place for, and writes them with
their index and one section for every variant. Without `--dtypes` a tensor keeps the type it has;
the lm_head is quantized to `Q4_0` unless `--include-lm-head` is off.

* `extractWeightBlobs`: the tensors, with their bytes in one or more types;
* `cmdBuild`: the file;
* `tensorIdOf_tensorIdToAuf`: the places of the index tell the tensors apart;
* **`mem_extractWeightBlobs`**: the tensors that are extracted are those of the listed places.
-/

namespace ArgusEngine.Auf

open Checked Gguf

/-! ## What the command is given -/

inductive IncludeLmHeadMode where
  | off | on | auto
  deriving Repr, DecidableEq

/-- What `cmd_build` reads, parsed: `parse_variants` and `parse_dtypes` drop repetitions, and refuse
an empty list. -/
structure BuildArgs where
  variantTags : List String
  variants : variantTags.Nodup ∧
    ∀ tag ∈ variantTags, tag ∈ [TAG_WEIGHTS_ADRENO_SOA, TAG_WEIGHTS_CUDA_AOS, TAG_WEIGHTS_CPU_AOS]
  includeLmHead : IncludeLmHeadMode
  dtypes : Option (List TensorDType)
  candidates : ∀ ds, dtypes = some ds → ds.Nodup ∧ ds ≠ []
  defaultDtype : Option TensorDType
  tokenizer : AufTokenizer
  createdBy : String
  sourceHash : Raw 32
  sourceSize : UInt64
  sourceMtime : UInt64

/-- The default type: it is one of `--dtypes`. -/
def BuildArgs.resolveDefault (args : BuildArgs) : Except (Fault String) (Option TensorDType) :=
  match args.dtypes, args.defaultDtype with
  | some cands, some dd =>
    if dd ∈ cands then .ok (some dd)
    else .error
      (.err s!"--default-dtype {dd.debug} must be one of --dtypes {cands.map TensorDType.debug}")
  | some cands, none => .ok cands.head?
  | none, some _ => .error (.err "--default-dtype requires --dtypes to be specified")
  | none, none => .ok none

/-! ## The tensors -/

section Extract

variable (fl : FloatOps) (gguf : GgufFile) (config : ModelConfig)
  (candidateDtypes : Option (List TensorDType))

/-- `build_dtype_candidates`: a conversion that fails is left out. -/
def buildDtypeCandidates (srcBytes : List UInt8) (srcDtype : TensorDType)
    (shapeLogical : List UInt64) : List (TensorDType × List UInt8) :=
  match candidateDtypes with
  | none => [(srcDtype, srcBytes)]
  | some cands =>
    if shapeLogical.length < 2 then [(srcDtype, srcBytes)]
    else
      let out := cands.filterMap fun dt =>
        if dt = srcDtype then some (dt, srcBytes)
        else (fl.convertTensorDtype srcBytes srcDtype dt shapeLogical).toOption.map (dt, ·)
      if out = [] then [(srcDtype, srcBytes)] else out

/-- `ggml_type_to_tensor_dtype`. -/
def ggmlTypeToTensorDtype (ggmlType : ℕ) : TensorDType :=
  if ggmlType = GGML_TYPE_F32 then .f32
  else if ggmlType = GGML_TYPE_F16 then .f16
  else if ggmlType = GGML_TYPE_Q4_0 then .q4_0
  else .f16 -- placeholder

/-- The dimensions, outermost first. -/
def shapeLogical (info : GgufTensorInfo) : List UInt64 := info.dims.reverse.map UInt64.ofNat

def regularCross : List String := ["token_embd.weight", "output_norm.weight"]

/-- A tensor outside the layers, under its own name. -/
def crossBlob (name : String) : Except (Fault String) (Option WeightBlob) :=
  match gguf.findTensor name with
  | none => .ok none
  | some info => do
    let data ← gguf.tensorData info
    return some ⟨name, shapeLogical info, buildDtypeCandidates fl candidateDtypes data
      (ggmlTypeToTensorDtype info.ggmlType) (shapeLogical info)⟩

def LM_HEAD_TIED_SOURCE_NAME : String := "token_embd.weight"

structure LmHeadSource where
  sourceName : String
  isTied : Bool
  deriving Repr, DecidableEq

def selectLmHeadSource (hasSeparate hasTokenEmbd : Bool) : Option LmHeadSource :=
  if hasSeparate then some ⟨LM_HEAD_SEPARATE_NAME, false⟩
  else if hasTokenEmbd then some ⟨LM_HEAD_TIED_SOURCE_NAME, true⟩
  else none

/-- `quantize_lm_head_to_q4_0`. -/
def quantizeLmHeadToQ40 (raw : List UInt8) (shape : List UInt64) (ggmlType : ℕ) :
    Except (Fault String) (List UInt8) :=
  match shape with
  | [rows, cols] => do
    ensure (cols.toNat % QK4_0 = 0)
      s!"lm_head inner dim ({cols}) is not a multiple of QK4_0 ({QK4_0}); cannot quantize to Q4_0"
    let _ ← mul rows.toNat cols.toNat
    ensure (ggmlType = GGML_TYPE_F16 ∨ ggmlType = GGML_TYPE_F32)
      s!"quantize_lm_head_to_q4_0: unsupported ggml_type={ggmlType} (expected F16 or F32)"
    return fl.quantizeQ40 raw ggmlType rows.toNat cols.toNat
  | _ => .error (.err s!"lm_head must be 2-D (got shape={shape})")

/-- The lm_head in each of `--dtypes`, from its quantized and its own bytes. -/
def lmHeadCandidates (q4Bytes raw : List UInt8) (srcDtype : TensorDType) (shape : List UInt64) :
    Except (Fault String) (List (TensorDType × List UInt8)) :=
  match candidateDtypes with
  | none => .ok [(.q4_0, q4Bytes)]
  | some cands => cands.mapM fun dt =>
    if dt = .q4_0 then .ok (dt, q4Bytes)
    else
      match fl.convertTensorDtype raw srcDtype dt shape with
      | .ok bytes => .ok (dt, bytes)
      | .error e => .error (.err s!"lm_head dtype convert: {e.display}")

/-- The lm_head, and whether it is there as `Q4_0`. A tied one is made from the embedding, under the
name of a separate one. -/
def lmHeadBlob (mode : IncludeLmHeadMode) : Except (Fault String) (Option WeightBlob × Bool) :=
  match selectLmHeadSource (gguf.findTensor LM_HEAD_SEPARATE_NAME).isSome
      (gguf.findTensor LM_HEAD_TIED_SOURCE_NAME).isSome with
  | none => .ok (none, false)
  | some source => do
    let info ← expect "source exists" (gguf.findTensor source.sourceName)
    let srcDtype := ggmlTypeToTensorDtype info.ggmlType
    let shape := shapeLogical info
    if mode = .off then
      if source.isTied then return (none, false)
      else
        let raw ← gguf.tensorData info
        return (some ⟨LM_HEAD_SEPARATE_NAME, shape, [(srcDtype, raw)]⟩, false)
    else
      let raw ← gguf.tensorData info
      let name := source.sourceName
      let rows := config.vocabSize
      let cols := config.hiddenSize
      ensure (source.isTied → shape.map UInt64.toNat = [rows, cols.toNat])
        s!"tied lm_head source '{name}' shape {shape} does not match config [vocab_size={rows}, hidden_dim={cols}]"
      if info.ggmlType = GGML_TYPE_Q4_0 then
        return (some ⟨LM_HEAD_SEPARATE_NAME, shape,
          buildDtypeCandidates fl candidateDtypes raw srcDtype shape⟩, true)
      else if info.ggmlType = GGML_TYPE_F16 ∨ info.ggmlType = GGML_TYPE_F32 then
        ensure (shape.length = 2) s!"lm_head source '{name}' must be 2-D (got shape={shape})"
        let q4Bytes ← quantizeLmHeadToQ40 fl raw shape info.ggmlType
        let dtypeBytes ← lmHeadCandidates fl candidateDtypes q4Bytes raw srcDtype shape
        return (some ⟨LM_HEAD_SEPARATE_NAME, shape, dtypeBytes⟩, true)
      else if source.isTied then return (none, false)
      else return (some ⟨LM_HEAD_SEPARATE_NAME, shape, [(srcDtype, raw)]⟩, false)

def weightKinds : List String :=
  ["attn_q.weight", "attn_k.weight", "attn_v.weight", "attn_output.weight", "ffn_gate.weight",
    "ffn_up.weight", "ffn_down.weight", "attn_norm.weight", "ffn_norm.weight", "attn_q.bias",
    "attn_k.bias", "attn_v.bias"]

/-- `qk_permute_shape_local`, the copy of `auf_tool`. -/
def qkPermuteShapeLocal (name : String) : Option (ℕ × ℕ) :=
  if config.arch ≠ .llama then none
  else do
    let stem ← stripPrefix (asBytes name) (asBytes "blk.")
    let (_, rest) ← splitOnce stem 46
    if rest = asBytes "attn_q.weight" then some (config.numAttentionHeads.toNat, config.headDim)
    else if rest = asBytes "attn_k.weight" then some (config.numKeyValueHeads.toNat, config.headDim)
    else none

/-- The rows of Q and K are put back. -/
def restoreRows (name : String) (raw : List UInt8) : Except (Fault String) (List UInt8) :=
  match qkPermuteShapeLocal config name with
  | some (nHead, headDim) => do
    let totalRows ← mul nHead headDim
    let rowSize ← div raw.length totalRows
    Loader.unpermuteQkRowsLocal raw nHead headDim rowSize
  | none => .ok raw

/-- A tensor of a layer. -/
def layerBlob (name : String) : Except (Fault String) (Option WeightBlob) :=
  match gguf.findTensor name with
  | none => .ok none
  | some info => do
    let raw ← gguf.tensorData info
    let bytes ← restoreRows config name raw
    return some ⟨name, shapeLogical info, buildDtypeCandidates fl candidateDtypes bytes
      (ggmlTypeToTensorDtype info.ggmlType) (shapeLogical info)⟩

/-- The names of the tensors of all layers. -/
def layerNames : List String := (List.range config.numHiddenLayers.toNat).flatMap fun layer =>
  weightKinds.map fun kind => "blk." ++ toString layer ++ "." ++ kind

/-- `extract_weight_blobs`. -/
def extractWeightBlobs (mode : IncludeLmHeadMode) :
    Except (Fault String) (List WeightBlob × Bool) := do
  let cross ← regularCross.mapM (crossBlob fl gguf candidateDtypes)
  let (lmHead, present) ← lmHeadBlob fl gguf config candidateDtypes mode
  let layers ← (layerNames config).mapM (layerBlob fl gguf config candidateDtypes)
  return ((cross ++ lmHead :: layers).reduceOption, present)

end Extract

/-! ## The command -/

/-- The name of an architecture in META. -/
def archName : ModelArch → String
  | .llama => "llama"
  | .qwen2 => "qwen2"
  | .gemma3 => "gemma3"

/-- `build_meta_from_gguf`. -/
def buildMetaFromGguf (fl : FloatOps) (gguf : GgufFile) : Except (Fault String) AufMeta := do
  let config ← mapErr (fun e => s!"failed to parse ModelConfig: {e}") (parseModelConfig fl gguf)
  let archStr := ((gguf.getStr "general.architecture").bind fromUtf8).getD "llama"
  let maxSeqLen := (gguf.getU32 s!"{archStr}.context_length").getD 2048
  return {
    architecture := archName config.arch
    nLayers := config.numHiddenLayers
    nHeadsQ := config.numAttentionHeads
    nKvHeads := config.numKeyValueHeads
    headDim := .ofNat config.headDim
    hiddenDim := config.hiddenSize
    ffnDim := config.intermediateSize
    vocabSize := .ofNat config.vocabSize
    maxSeqLen := maxSeqLen
    ropeTheta := config.ropeTheta
    rotaryDim := .ofNat config.headDim
    ropeScaling := 0x3FF0000000000000
    rmsNormEpsilon := config.rmsNormEps
    defaultDtype := none }

def dtypeToMetaStr : TensorDType → String
  | .f32 => "F32"
  | .f16 => "F16"
  | .bf16 => "BF16"
  | .q4_0 => "Q4_0"
  | .q4_1 => "Q4_1"
  | .q8_0 => "Q8_0"
  | .u8 => "U8"

/-- Whether there are two or more of `--dtypes`. -/
def BuildArgs.multiDtypeEnabled (args : BuildArgs) : Bool :=
  match args.dtypes with
  | some cands => 2 ≤ cands.length
  | none => false

/-- META, with the default type where there are two or more. -/
def BuildArgs.withDefault (args : BuildArgs) (aufMeta : AufMeta)
    (defaultDtype : Option TensorDType) : AufMeta :=
  if args.multiDtypeEnabled then { aufMeta with defaultDtype := defaultDtype.map dtypeToMetaStr }
    else aufMeta

/-- The writer without its sections. -/
def BuildArgs.writer (args : BuildArgs) (aufMeta : AufMeta) (blobs : List WeightBlob)
    (present : Bool) (defaultDtype : Option TensorDType) : AufWriter :=
  let writer := AufWriter.new aufMeta args.tokenizer args.sourceHash
    args.sourceSize args.sourceMtime
  (((writer.withCreatedBy args.createdBy).withLmHeadQ40 present).withMultiDtype
    args.multiDtypeEnabled).withTensorIndex (buildTensorIndex blobs args.variantTags defaultDtype)

/-- `cmd_build`, from the parsed GGUF file to the bytes that are written. -/
def cmdBuild (fl : FloatOps) (json : MetaJson) (args : BuildArgs) (gguf : GgufFile) :
    Except (Fault String) (List UInt8) := do
  let defaultDtype ← args.resolveDefault
  let aufMeta ← mapErr (fun e => s!"failed to extract GGUF metadata: {e}")
    (buildMetaFromGguf fl gguf)
  let aufMeta := args.withDefault aufMeta defaultDtype
  let config ← mapErr (fun e => s!"failed to parse ModelConfig: {e}") (parseModelConfig fl gguf)
  let (blobs, present) ← extractWeightBlobs fl gguf config args.dtypes args.includeLmHead
  let writer ← args.variantTags.foldlM (fun (writer : AufWriter) tag => do
    let payload ← buildVariantPayload blobs tag
    return writer.addWeightsSection tag payload) (args.writer aufMeta blobs present defaultDtype)
  liftErr (fun e => s!"failed to write AUF: {e.display}") (writer.build json)

/-! ## Names -/

theorem parseU32_toString {n : ℕ} (hn : n < 2 ^ 32) :
    parseU32 (asBytes (toString n)) = some (.ofNat n) := by
  obtain ⟨hall, hfold⟩ := digits_toString n
  have hplus : (asBytes (toString n)).head? ≠ some 43 := by
    intro h
    exact absurd (hall 43 (List.mem_of_mem_head? h)).1 (by decide)
  have hdigits : (asBytes (toString n)).all (fun b => 48 ≤ b ∧ b ≤ 57) = true :=
    List.all_eq_true.mpr fun b hb => decide_eq_true (hall b hb)
  unfold parseU32
  dsimp only
  rw [if_neg hplus, if_pos ⟨toString_ne_nil n, hdigits⟩, hfold, if_pos hn]

/-- The name of a tensor of a layer is taken apart. -/
theorem layerKind_name {layer : ℕ} (hlayer : layer < 2 ^ 32) {kind : String} {k : TensorKind}
    (hk : (kind, k) ∈ subnameKinds) :
    tensorNameToLayerKind ("blk." ++ toString layer ++ "." ++ kind) = some (.ofNat layer, k) := by
  have hblk : asBytes "blk." = [98, 108, 107, 46] := by decide +kernel
  have hbytes : asBytes ("blk." ++ toString layer ++ "." ++ kind) =
      asBytes "blk." ++ (asBytes (toString layer) ++ 46 :: asBytes kind) := by
    rw [asBytes_append, asBytes_append, asBytes_append, show asBytes "." = [46] by decide +kernel]
    simp only [List.append_assoc, List.singleton_append]
  have hne : ∀ name, (asBytes name).head? ≠ some 98 →
    "blk." ++ toString layer ++ "." ++ kind ≠ name := by
    rintro name hhead rfl
    refine hhead ?_
    rw [hbytes, hblk]
    rfl
  have hdot : (46 : UInt8) ∉ asBytes (toString layer) := fun h =>
    absurd ((digits_toString layer).1 46 h).1 (by decide)
  have hstrip : stripPrefix (asBytes ("blk." ++ toString layer ++ "." ++ kind)) (asBytes "blk.") =
      some (asBytes (toString layer) ++ 46 :: asBytes kind) := by
    rw [stripPrefix, hbytes,
      if_pos (by rw [List.isPrefixOf_iff_prefix]; exact List.prefix_append _ _),
      List.drop_left]
  have hsplit : splitOnce (asBytes (toString layer) ++ 46 :: asBytes kind) 46 =
      some (asBytes (toString layer), asBytes kind) := by
    have htake : (asBytes (toString layer) ++ 46 :: asBytes kind).takeWhile (· ≠ 46) =
      asBytes (toString layer) := by
      rw [List.takeWhile_append_of_pos fun b hb => decide_eq_true (ne_of_mem_of_not_mem hb hdot)]
      simp
    have hdrop : (asBytes (toString layer) ++ 46 :: asBytes kind).dropWhile (· ≠ 46) =
      46 :: asBytes kind := by
      rw [List.dropWhile_append_of_pos fun b hb => decide_eq_true (ne_of_mem_of_not_mem hb hdot)]
      simp
    rw [splitOnce, if_pos (List.mem_append_right _ List.mem_cons_self), htake, hdrop,
      List.drop_one, List.tail_cons]
  have hfind : subnameKinds.find? (fun x => asBytes x.1 = asBytes kind) = some (kind, k) := by
    have hall : ∀ x ∈ subnameKinds,
      subnameKinds.find? (fun y => asBytes y.1 = asBytes x.1) = some x := by
      decide +kernel
    exact hall (kind, k) hk
  unfold tensorNameToLayerKind
  rw [if_neg (hne _ (by decide +kernel)), if_neg (hne _ (by decide +kernel)),
    if_neg (hne _ (by decide +kernel)),
    hstrip]
  simp only [Option.bind_eq_bind, Option.bind_some, hsplit, parseU32_toString hlayer, hfind]
  rfl

section Names

variable (config : ModelConfig)

/-- The tensors that AUF has a kind for, in the layers of the model. -/
def Listed : TensorId → Prop
  | .layerWeight layer kind =>
    layer < config.numHiddenLayers.toNat ∧ (layerWeightKindToTensorKind kind).isSome = true
  | .layerBias layer _ => layer < config.numHiddenLayers.toNat
  | _ => True

variable {config} {id id' : TensorId}

theorem layerKind_resolveName (h : Listed config id) :
    tensorNameToLayerKind (resolveName id) = tensorIdToAuf id ∧
    (tensorIdToAuf id).isSome = true := by
  have hlayers := config.numHiddenLayers.toNat_lt
  cases id with
  | embed => exact ⟨by decide +kernel, rfl⟩
  | finalNorm => exact ⟨by decide +kernel, rfl⟩
  | lmHead => exact ⟨by decide +kernel, rfl⟩
  | layerWeight layer kind =>
    obtain ⟨hlt, hkind⟩ := h
    obtain ⟨k, hk⟩ := Option.isSome_iff_exists.mp hkind
    have hmem : ∀ kind, ∀ k ∈ layerWeightKindToTensorKind kind,
      (layerWeightSuffix kind, k) ∈ subnameKinds := by
      rintro (_ | _) k hk <;> cases hk <;> decide
    have hauf : tensorIdToAuf (.layerWeight layer kind) = some (.ofNat layer, k) := by
      show (layerWeightKindToTensorKind kind).map _ = _
      rw [hk]
      rfl
    rw [hauf]
    exact ⟨layerKind_name (by omega) (hmem kind k hk), rfl⟩
  | layerBias layer kind =>
    have hmem : (layerBiasSuffix kind, kind.tensorKind) ∈ subnameKinds := by cases kind <;> decide
    have hlt : layer < config.numHiddenLayers.toNat := h
    exact ⟨layerKind_name (by omega) hmem, rfl⟩

theorem TensorKind.asU32_inj {k k' : TensorKind} (h : k.asU32 = k'.asU32) : k = k' := by
  revert h
  cases k <;> cases k' <;> decide

theorem TensorDType.asU32_inj {d d' : TensorDType} (h : d.asU32 = d'.asU32) : d = d' := by
  revert h
  cases d <;> cases d' <;> decide

/-- The tensor at a place of the index. -/
def tensorIdOf (layer : UInt32) : TensorKind → TensorId
  | .attnQ => .layerWeight layer.toNat .wq
  | .attnK => .layerWeight layer.toNat .wk
  | .attnV => .layerWeight layer.toNat .wv
  | .attnO => .layerWeight layer.toNat .wo
  | .ffnGate => .layerWeight layer.toNat .wGate
  | .ffnUp => .layerWeight layer.toNat .wUp
  | .ffnDown => .layerWeight layer.toNat .wDown
  | .attnNorm => .layerWeight layer.toNat .attentionNorm
  | .ffnNorm => .layerWeight layer.toNat .ffnNorm
  | .embedding => .embed
  | .finalNorm => .finalNorm
  | .lmHead => .lmHead
  | .attnQBias => .layerBias layer.toNat .bq
  | .attnKBias => .layerBias layer.toNat .bk
  | .attnVBias => .layerBias layer.toNat .bv

/-- **The places of the index tell the tensors apart.** -/
theorem tensorIdOf_tensorIdToAuf (h : Listed config id) {place : UInt32 × TensorKind}
    (hplace : tensorIdToAuf id = some place) : tensorIdOf place.1 place.2 = id := by
  have hlayers := config.numHiddenLayers.toNat_lt
  cases id with
  | embed => cases hplace; rfl
  | finalNorm => cases hplace; rfl
  | lmHead => cases hplace; rfl
  | layerWeight layer kind =>
    obtain ⟨hlt, -⟩ := h
    obtain ⟨k, hk, rfl⟩ := Option.map_eq_some_iff.mp hplace
    have hlayer : (UInt32.ofNat layer).toNat = layer := toNat_ofNat32 (by omega)
    cases kind <;> cases hk <;> exact congrArg (TensorId.layerWeight · _) hlayer
  | layerBias layer kind =>
    cases hplace
    have hlt : layer < config.numHiddenLayers.toNat := h
    have hlayer : (UInt32.ofNat layer).toNat = layer := toNat_ofNat32 (by omega)
    cases kind <;> exact congrArg (TensorId.layerBias · _) hlayer

end Names

/-! ## What is extracted -/

section Blobs

variable (fl : FloatOps) (gguf : GgufFile) (config : ModelConfig)
  (candidateDtypes : Option (List TensorDType)) (mode : IncludeLmHeadMode)

/-- What is extracted for a tensor. -/
def blobOf (id : TensorId) : Except (Fault String) (Option WeightBlob) :=
  match id with
  | .lmHead => Prod.fst <$> lmHeadBlob fl gguf config candidateDtypes mode
  | .embed | .finalNorm => crossBlob fl gguf candidateDtypes (resolveName id)
  | .layerWeight _ _ | .layerBias _ _ => layerBlob fl gguf config candidateDtypes (resolveName id)

variable {fl gguf config candidateDtypes mode}

theorem mem_of_mapM {α β : Type} {f : α → Except (Fault String) β} {l : List α} {bs : List β}
    (h : l.mapM f = .ok bs) {b : β} : b ∈ bs ↔ ∃ a ∈ l, f a = .ok b := by
  have hall := ok_mapM.mp h
  clear h
  induction hall with
  | nil => simp
  | @cons a b' l bs hab _ ih =>
    rw [List.mem_cons, List.exists_mem_cons_iff, hab, Except.ok.injEq, eq_comm]
    exact or_congr_right ih

theorem exists_of_mapM {α β : Type} {f : α → Except (Fault String) β} {l : List α} {bs : List β}
    (h : l.mapM f = .ok bs) {a : α} (ha : a ∈ l) : ∃ b, f a = .ok b := by
  obtain ⟨b, -, hb⟩ := (mem_of_forall₂ (ok_mapM.mp h)).1 a ha
  exact ⟨b, hb⟩

theorem mem_layerNames {name : String} : name ∈ layerNames config ↔
    (∃ layer kind, Listed config (.layerWeight layer kind) ∧
      name = resolveName (.layerWeight layer kind)) ∨
      ∃ layer kind, Listed config (.layerBias layer kind) ∧
      name = resolveName (.layerBias layer kind) := by
  have hkinds : ∀ kind, kind ∈ weightKinds ↔
      (∃ k, (layerWeightKindToTensorKind k).isSome = true ∧ kind = layerWeightSuffix k) ∨
        ∃ k, kind = layerBiasSuffix k := by
    intro kind
    have hsplit : weightKinds =
      [.wq, .wk, .wv, .wo, .wGate, .wUp, .wDown, .attentionNorm, .ffnNorm].map
        layerWeightSuffix ++ [.bq, .bk, .bv].map layerBiasSuffix := rfl
    constructor
    · intro h
      rw [hsplit, List.mem_append, List.mem_map, List.mem_map] at h
      rcases h with ⟨k, hk, rfl⟩ | ⟨k, -, rfl⟩
      · exact .inl ⟨k, by revert hk; cases k <;> decide, rfl⟩
      · exact .inr ⟨k, rfl⟩
    · rintro (⟨k, hk, rfl⟩ | ⟨k, rfl⟩)
      · revert hk
        cases k <;> decide
      · cases k <;> decide
  unfold layerNames
  rw [List.mem_flatMap]
  simp only [List.mem_range, List.mem_map, hkinds]
  constructor
  · rintro ⟨layer, hlt, kind, ⟨k, hk, rfl⟩ | ⟨k, rfl⟩, rfl⟩
    · exact .inl ⟨layer, k, ⟨hlt, hk⟩, rfl⟩
    · exact .inr ⟨layer, k, hlt, rfl⟩
  · rintro (⟨layer, k, ⟨hlt, hk⟩, rfl⟩ | ⟨layer, k, hlt, rfl⟩)
    · exact ⟨layer, hlt, _, .inl ⟨k, hk, rfl⟩, rfl⟩
    · exact ⟨layer, hlt, _, .inr ⟨k, rfl⟩, rfl⟩

/-- **The tensors that are extracted** are those of the listed places. -/
theorem mem_extractWeightBlobs {blobs : List WeightBlob} {present : Bool}
    (h : extractWeightBlobs fl gguf config candidateDtypes mode = .ok (blobs, present))
    {b : WeightBlob} : b ∈ blobs ↔ ∃ id, Listed config id ∧
    blobOf fl gguf config candidateDtypes mode id = .ok (some b) := by
  obtain ⟨cross, hcross, h⟩ := ok_bind.mp h
  obtain ⟨⟨lmHead, p⟩, hlm, h⟩ := ok_bind.mp h
  obtain ⟨layers, hlayers, h⟩ := ok_bind.mp h
  obtain rfl : (cross ++ lmHead :: layers).reduceOption = blobs :=
    congrArg Prod.fst (Except.ok.inj h)
  have hhead : blobOf fl gguf config candidateDtypes mode .lmHead = .ok lmHead := by
    show Prod.fst <$> lmHeadBlob fl gguf config candidateDtypes mode = _
    rw [hlm]
    rfl
  rw [List.reduceOption_mem_iff, List.mem_append, List.mem_cons, mem_of_mapM hcross,
    mem_of_mapM hlayers]
  constructor
  · rintro (⟨name, hname, hok⟩ | rfl | ⟨name, hname, hok⟩)
    · rw [regularCross, List.mem_pair] at hname
      rcases hname with rfl | rfl
      · exact ⟨.embed, trivial, hok⟩
      · exact ⟨.finalNorm, trivial, hok⟩
    · exact ⟨.lmHead, trivial, hhead⟩
    · rcases mem_layerNames.mp hname with ⟨layer, kind, hlisted, rfl⟩ | ⟨layer, kind, hlisted, rfl⟩
      · exact ⟨_, hlisted, hok⟩
      · exact ⟨_, hlisted, hok⟩
  · rintro ⟨id, hlisted, hok⟩
    cases id with
    | embed => exact .inl ⟨_, by decide, hok⟩
    | finalNorm => exact .inl ⟨_, by decide, hok⟩
    | lmHead => exact .inr (.inl (Except.ok.inj (hok.symm.trans hhead)))
    | layerWeight layer kind =>
      exact .inr (.inr ⟨_, mem_layerNames.mpr (.inl ⟨layer, kind, hlisted, rfl⟩), hok⟩)
    | layerBias layer kind =>
      exact .inr (.inr ⟨_, mem_layerNames.mpr (.inr ⟨layer, kind, hlisted, rfl⟩), hok⟩)

theorem exists_blobOf {blobs : List WeightBlob} {present : Bool}
    (h : extractWeightBlobs fl gguf config candidateDtypes mode = .ok (blobs, present))
    {id : TensorId} (hlisted : Listed config id) :
    ∃ ob, blobOf fl gguf config candidateDtypes mode id = .ok ob := by
  obtain ⟨cross, hcross, h⟩ := ok_bind.mp h
  obtain ⟨⟨lmHead, p⟩, hlm, h⟩ := ok_bind.mp h
  obtain ⟨layers, hlayers, h⟩ := ok_bind.mp h
  cases id with
  | embed => exact exists_of_mapM hcross (by decide)
  | finalNorm => exact exists_of_mapM hcross (by decide)
  | lmHead =>
    refine ⟨lmHead, ?_⟩
    show Prod.fst <$> lmHeadBlob fl gguf config candidateDtypes mode = _
    rw [hlm]
    rfl
  | layerWeight layer kind =>
    exact exists_of_mapM hlayers (mem_layerNames.mpr (.inl ⟨layer, kind, hlisted, rfl⟩))
  | layerBias layer kind =>
    exact exists_of_mapM hlayers (mem_layerNames.mpr (.inr ⟨layer, kind, hlisted, rfl⟩))

end Blobs

end ArgusEngine.Auf
