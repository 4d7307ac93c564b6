import ArgusEngine.Auf.BuildIndex
import ArgusEngine.Loader.AufSource
import ArgusEngine.Loader.Gguf
import ArgusEngine.Loader.QkRows

/-!
# Tensors of an opened GGUF file

`GgufSource` reads the tensors of a model from its GGUF file under the names of llama.cpp. The Q and
K rows of a Llama are put back into their order, and an embedding or lm_head of `F32` is narrowed to
`F16`.

* `FloatOps`: the arithmetic on floats, as functions on their bits;
* `parseModelConfig`: the configuration in the metadata;
* `GgufSource.loadRawCpu`: one tensor.
-/

namespace ArgusEngine.Gguf

open Checked Auf
open FlatMem (slice)

/-- The functions on floats that the loaders and `auf_tool` call, on the bits of their arguments. -/
structure FloatOps where
  /-- `f16::from_f32`. -/
  f16OfF32 : UInt32 → UInt16
  /-- `as f32`. -/
  f32OfF64 : UInt64 → UInt32
  /-- `as f64`. -/
  f64OfF32 : UInt32 → UInt64
  /-- `dequant_q4_k`. -/
  dequantQ4K : List UInt8 → ℕ → Except (Fault String) (List UInt32)
  /-- `convert_tensor_dtype`. -/
  convertTensorDtype : List UInt8 → (src dst : TensorDType) → List UInt64 →
    Except AufError (List UInt8)
  /-- The blocks of `quantize_q4_0` for the floats of a tensor of `F16` or `F32`. -/
  quantizeQ40 : List UInt8 → (ggmlType rows cols : ℕ) → List UInt8

/-! ## The configuration -/

inductive ModelArch where
  | llama | qwen2 | gemma3
  deriving Repr, DecidableEq

/-- `ModelConfig`, as far as GGUF and AUF share it; the floats are their bits. -/
structure ModelConfig where
  arch : ModelArch
  hiddenSize : UInt32
  numHiddenLayers : UInt32
  numAttentionHeads : UInt32
  numKeyValueHeads : UInt32
  headDim : ℕ
  intermediateSize : UInt32
  vocabSize : ℕ
  rmsNormEps : UInt64
  ropeTheta : UInt64
  deriving Repr, DecidableEq

namespace GgufFile

variable (f : GgufFile)

def getStr (key : String) : Option (List UInt8) :=
  match metadataGet f.metadata key with
  | some (.string s) => some s
  | _ => none

def getU32 (key : String) : Option UInt32 :=
  match metadataGet f.metadata key with
  | some (.u32 v) => some v
  | some (.u64 v) => some v.toUInt32
  | some (.i32 v) => some v.toUInt32
  | _ => none

def getF32 (fl : FloatOps) (key : String) : Option UInt32 :=
  match metadataGet f.metadata key with
  | some (.f32 v) => some v
  | some (.f64 v) => some (fl.f32OfF64 v)
  | _ => none

/-- `find_tensor`: a later tensor replaces an earlier one of the same name. -/
def findTensor (name : String) : Option GgufTensorInfo :=
  f.tensors.reverse.find? fun t => t.name == asBytes name

end GgufFile

/-- The architectures, with the names of `general.architecture`. -/
def architectures : List (String × ModelArch) :=
  [("llama", .llama), ("qwen2", .qwen2), ("gemma", .gemma3), ("gemma2", .gemma3),
    ("gemma3", .gemma3)]

/-- The length of the list of tokens. -/
def tokenCount (f : GgufFile) : Option ℕ :=
  match metadataGet f.metadata "tokenizer.ggml.tokens" with
  | some (.array values) => some values.length
  | _ => none

/-- `parse_model_config`. -/
def parseModelConfig (fl : FloatOps) (f : GgufFile) : Except (Fault String) ModelConfig := do
  let archStr ← okOr "GGUF: missing 'general.architecture' metadata"
    (f.getStr "general.architecture")
  let shown := (fromUtf8 archStr).getD ""
  let (name, arch) ← okOr s!"GGUF: unsupported architecture '{shown}'"
    (architectures.find? fun a => asBytes a.1 == archStr)
  let hiddenSize ← okOr s!"GGUF: missing {name}.embedding_length"
    (f.getU32 s!"{name}.embedding_length")
  let numHiddenLayers ← okOr s!"GGUF: missing {name}.block_count" (f.getU32 s!"{name}.block_count")
  let numAttentionHeads ← okOr s!"GGUF: missing {name}.attention.head_count"
    (f.getU32 s!"{name}.attention.head_count")
  let numKeyValueHeads := (f.getU32 s!"{name}.attention.head_count_kv").getD numAttentionHeads
  let intermediateSize ← okOr s!"GGUF: missing {name}.feed_forward_length"
    (f.getU32 s!"{name}.feed_forward_length")
  let vocabSize := (((f.getU32 s!"{name}.vocab_size").map UInt32.toNat).or
    (tokenCount f)).getD 32000
  -- the bits of 1e-5 and of 10000
  let rmsNormEps := fl.f64OfF32
    ((f.getF32 fl s!"{name}.attention.layer_norm_rms_epsilon").getD 0x3727C5AC)
  let ropeTheta := fl.f64OfF32 ((f.getF32 fl s!"{name}.rope.freq_base").getD 0x461C4000)
  -- the default is computed also where it is not needed
  let perHead ← div hiddenSize.toNat numAttentionHeads.toNat
  let headDim :=
    (((f.getU32 s!"{name}.attention.head_dim").or (f.getU32 s!"{name}.attention.key_length")).map
      UInt32.toNat).getD perHead
  return ⟨arch, hiddenSize, numHiddenLayers, numAttentionHeads, numKeyValueHeads, headDim,
    intermediateSize, vocabSize, rmsNormEps, ropeTheta⟩

/-! ## Names and types -/

def GGML_TYPE_F32 : ℕ := 0
def GGML_TYPE_F16 : ℕ := 1
def GGML_TYPE_Q4_0 : ℕ := 2
def GGML_TYPE_Q4_1 : ℕ := 3
def GGML_TYPE_Q8_0 : ℕ := 8
def GGML_TYPE_Q4_K : ℕ := 12

def layerWeightSuffix : LayerWeightKind → String
  | .wq => "attn_q.weight"
  | .wk => "attn_k.weight"
  | .wv => "attn_v.weight"
  | .wo => "attn_output.weight"
  | .wGate => "ffn_gate.weight"
  | .wUp => "ffn_up.weight"
  | .wDown => "ffn_down.weight"
  | .attentionNorm => "attn_norm.weight"
  | .ffnNorm => "ffn_norm.weight"
  | .preFfnNorm => "pre_ffn_norm.weight"
  | .postFfnNorm => "post_ffn_norm.weight"
  | .qNorm => "attn_q_norm.weight"
  | .kNorm => "attn_k_norm.weight"

def layerBiasSuffix : LayerBiasKind → String
  | .bq => "attn_q.bias"
  | .bk => "attn_k.bias"
  | .bv => "attn_v.bias"

/-- `resolve_name`. -/
def resolveName : TensorId → String
  | .embed => "token_embd.weight"
  | .finalNorm => "output_norm.weight"
  | .lmHead => "output.weight"
  | .layerWeight layer kind => "blk." ++ toString layer ++ "." ++ layerWeightSuffix kind
  | .layerBias layer kind => "blk." ++ toString layer ++ "." ++ layerBiasSuffix kind

def needsDequantFallback (ggmlType : ℕ) : Bool := ggmlType == GGML_TYPE_Q4_K

def isEmbedOrLmHead (name : String) : Bool := name == "token_embd.weight" || name == "output.weight"

/-- `ggml_type_to_dtype`. -/
def ggmlTypeToDtype (ggmlType : ℕ) : Except (Fault String) DType :=
  match ggmlType with
  | 0 => .ok .f32
  | 1 => .ok .f16
  | 2 => .ok .q4_0
  | 3 => .ok .q4_1
  | 8 => .ok .q8_0
  | 4 => .error (.err "GGUF: Q4_1 (old) type 4 is not supported")
  | 5 => .error (.err "GGUF: Q4_2 (deprecated) type 5 is not supported")
  | 6 => .error (.err "GGUF: Q5_0 type is not supported. Use Q4_0 or Q8_0 quantization.")
  | 7 => .error (.err "GGUF: Q5_1 type is not supported. Use Q4_0 or Q8_0 quantization.")
  | 10 => .error (.err "GGUF: Q2_K type is not supported. Use Q4_0 or Q8_0 quantization.")
  | 11 => .error (.err "GGUF: Q3_K type is not supported. Use Q4_0 or Q8_0 quantization.")
  | 12 => .error (.err "GGUF: Q4_K type is not supported. Use Q4_0 or Q8_0 quantization.")
  | 13 => .error (.err "GGUF: Q5_K type is not supported. Use Q4_0 or Q8_0 quantization.")
  | 14 => .error (.err "GGUF: Q6_K type is not supported. Use Q4_0 or Q8_0 quantization.")
  | t => .error (.err
      s!"GGUF: unsupported ggml_type {t}. Only F32, F16, Q4_0, Q4_1, and Q8_0 are supported.")

/-- `qk_permute_shape`: the heads and their size, for the Q and K weights of a Llama. -/
def qkPermuteShape (name : String) (config : ModelConfig) : Option (ℕ × ℕ) :=
  if config.arch ≠ .llama then none
  else do
    let stem ← stripPrefix (asBytes name) (asBytes "blk.")
    let (_, rest) ← splitOnce stem 46
    if rest = asBytes "attn_q.weight" then some (config.numAttentionHeads.toNat, config.headDim)
    else if rest = asBytes "attn_k.weight" then some (config.numKeyValueHeads.toNat, config.headDim)
    else none

/-! ## The source -/

/-- A tensor in host memory. -/
structure HostTensor where
  shape : List ℕ
  dtype : DType
  bytes : List UInt8
  deriving Repr, DecidableEq

/-- Every float of `F32` rounded to `F16`. -/
def narrowed (fl : FloatOps) (data : List UInt8) : List UInt8 :=
  (List.range (data.length / 4)).flatMap fun i => le16 (fl.f16OfF32 (ofLe32 (slice data (i * 4) 4)))

/-- `load_f32_as_f16`. -/
def loadF32AsF16 (fl : FloatOps) (name : String) (data : List UInt8) (numElements : ℕ)
    (shape : List ℕ) : Except (Fault String) HostTensor := do
  let expected ← mul numElements 4
  ensure (data.length = expected)
    s!"GGUF: F32 tensor '{name}' has {data.length} bytes but expected {expected} ({numElements} elements × 4)"
  return ⟨shape, .f16, narrowed fl data⟩

/-- `load_with_dequant_as`, for `Q4_K`. -/
def loadWithDequantAs (fl : FloatOps) (data : List UInt8) (numElements : ℕ)
    (shape : List ℕ) (half : Bool) : Except (Fault String) HostTensor := do
  let f32Data ← fl.dequantQ4K data numElements
  if half then return ⟨shape, .f16, f32Data.flatMap fun v => le16 (fl.f16OfF32 v)⟩
  else return ⟨shape, .f32, f32Data.flatMap le32⟩

structure GgufSource where
  gguf : GgufFile
  config : ModelConfig

namespace GgufSource

/-- `GgufSource::open`, behind the parser. -/
def openGguf (fl : FloatOps) (gguf : GgufFile) : Except (Fault String) GgufSource := do
  let config ← parseModelConfig fl gguf
  return ⟨gguf, config⟩

/-- `load_raw_cpu`. -/
def loadRawCpu (fl : FloatOps) (s : GgufSource) (name : String) :
    Except (Fault String) HostTensor := do
  let info ← okOr s!"GGUF: tensor '{name}' not found" (s.gguf.findTensor name)
  let data ← s.gguf.tensorData info
  let shape := info.dims.reverse
  let numElements ← info.dims.foldlM mul 1
  if needsDequantFallback info.ggmlType
    then loadWithDequantAs fl data numElements shape (isEmbedOrLmHead name)
  else
    let dtype ← ggmlTypeToDtype info.ggmlType
    if info.ggmlType = GGML_TYPE_F32 ∧ isEmbedOrLmHead name
      then loadF32AsF16 fl name data numElements shape
    else
      match qkPermuteShape name s.config with
      | some (nHead, headDim) => do
        let totalRows ← get shape 0
        let rowSizeBytes ← div data.length totalRows
        let permuted ← Loader.unpermuteQkRows data nHead headDim rowSizeBytes
        return ⟨shape, dtype, permuted⟩
      | none => return ⟨shape, dtype, data⟩

/-- `load_tensor_cpu`. -/
def loadTensorCpu (fl : FloatOps) (s : GgufSource) (id : TensorId) :
    Except (Fault String) HostTensor :=
  s.loadRawCpu fl (resolveName id)

/-- `has_tensor`. -/
def hasTensor (s : GgufSource) (id : TensorId) : Bool := (s.gguf.findTensor (resolveName id)).isSome

end GgufSource

end ArgusEngine.Gguf
