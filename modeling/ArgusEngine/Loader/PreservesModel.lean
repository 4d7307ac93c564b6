import ArgusEngine.Loader.ReadConverted

/-!
# The conversion preserves the model

* **`preserves_model`**: the AUF file of a model is read as its GGUF file is, where the META that is
  written is parsed back;
* `smallModel`, **`lm_head_requantized`**: a Llama of one layer with a separate lm_head of `F16`,
  which becomes `Q4_0`.
-/

namespace ArgusEngine.Auf

open FlatMem Checked Gguf

/-- **The model is preserved** in the variant of the CPU: the tensors that keep their type, a
quantized lm_head, and which tensors there are. -/
theorem preserves_model {bytesFor : Container → ℕ → ℕ} {stack : ℕ}
    {data out : List UInt8} {fl : FloatOps} {json : MetaJson} {args : BuildArgs} {gguf : GgufFile}
    (hparse : GgufFile.parseBytes bytesFor stack data = .ok gguf)
    (hbuild : cmdBuild fl json args gguf = .ok out) (hjson : MetaReadBack fl json args gguf)
    (htok : args.tokenizer.Fits) (hcpu : TAG_WEIGHTS_CPU_AOS ∈ args.variantTags)
    (hcount : ∀ config blobs present, parseModelConfig fl gguf = .ok config →
      extractWeightBlobs fl gguf config args.dtypes args.includeLmHead = .ok (blobs, present) →
      (pieces blobs).length < 2 ^ 32) :
    ∃ config auf, GgufSource.openGguf fl gguf = .ok ⟨gguf, config⟩ ∧
      AufSource.openFile json out .cpuAos none = .ok auf ∧ Preserved fl args gguf config auf :=
  exists_preserved hbuild hjson htok hcpu (rank_parseBytes hparse) hcount

/-! ## A small model -/

/-- The functions on the floats of the small model: its elements are zeros, and the two defaults of
its configuration are widened. -/
def smallFloats : FloatOps where
  f16OfF32 _ := 0
  f32OfF64 _ := 0
  f64OfF32 b := if b = 0x461C4000 then 0x40C3880000000000 else 0x3EE4F8B580000000
  dequantQ4K _ _ := .error (.err "no Q4_K")
  convertTensorDtype _ _ _ _ := .error (.other "no conversion")
  quantizeQ40 _ _ rows cols :=
    (List.replicate (rows * cols / 32) (0 :: 0 :: List.replicate 16 (0x88 : UInt8))).flatten

def ggufString (s : String) : List UInt8 := toLe 8 (asBytes s).length ++ asBytes s

def ggufU32 (key : String) (n : ℕ) : List UInt8 := ggufString key ++ toLe 4 4 ++ toLe 4 n

def ggufTensor (name : String) (cols rows ggmlType offset : ℕ) : List UInt8 :=
  ggufString name ++ toLe 4 2 ++ toLe 8 cols ++ toLe 8 rows ++ toLe 4 ggmlType ++ toLe 8 offset

/-- A Llama of one layer, with an embedding and a longer lm_head of zeros and the four rows of a Q
weight. -/
def smallModel : List UInt8 :=
  toLe 4 GGUF_MAGIC ++ toLe 4 3 ++ toLe 8 3 ++ toLe 8 7 ++
  (ggufString "general.architecture" ++ toLe 4 8 ++ ggufString "llama") ++
    ggufU32 "llama.embedding_length" 32 ++
  ggufU32 "llama.block_count" 1 ++ ggufU32 "llama.attention.head_count" 1 ++
    ggufU32 "llama.feed_forward_length" 1 ++
  ggufU32 "llama.vocab_size" 2 ++ ggufU32 "llama.attention.head_dim" 4 ++
  ggufTensor "token_embd.weight" 32 2 GGML_TYPE_F16 0 ++
    ggufTensor "output.weight" 32 3 GGML_TYPE_F16 128 ++
  ggufTensor "blk.0.attn_q.weight" 32 4 GGML_TYPE_Q4_0 320 ++ List.replicate 16 0 ++
    List.replicate 320 0 ++
  (List.range 72).map UInt8.ofNat

def smallConfig : ModelConfig :=
  ⟨.llama, 32, 1, 1, 1, 4, 1, 2, 0x3EE4F8B580000000, 0x40C3880000000000⟩

def smallMeta : AufMeta :=
  ⟨"llama", 1, 1, 1, 4, 32, 1, 2, 2048, 0x40C3880000000000, 4, 0x3FF0000000000000,
    0x3EE4F8B580000000, none⟩

/-- The JSON of `smallMeta`. -/
def smallMetaBytes : List UInt8 := asBytes (
  "\x7b\"architecture\":\"llama\",\"n_layers\":1,\"n_heads_q\":1,\"n_kv_heads\":1,\"head_dim\":4,\"hidden_dim\":32," ++
  "\"ffn_dim\":1,\"vocab_size\":2,\"max_seq_len\":2048,\"rope_theta\":10000.0,\"rotary_dim\":4,\"rope_scaling\":1.0," ++
  "\"rms_norm_epsilon\":9.999999747378752e-6\x7d")

def smallJson : MetaJson where
  fromSlice b := if b = smallMetaBytes then .ok smallMeta else .error "expected value"
  toVec _ := .ok smallMetaBytes

/-- The tensors of the model: the second and third row of the head are put back. -/
def smallBlobs : List WeightBlob :=
  let row (i : ℕ) := slice ((List.range 72).map UInt8.ofNat) (i * 18) 18
  [⟨"token_embd.weight", [2, 32], [(.f16, List.replicate 128 0)]⟩,
    ⟨"output.weight", [3, 32], [(.q4_0, smallFloats.quantizeQ40 [] GGML_TYPE_F16 3 32)]⟩,
    ⟨"blk.0.attn_q.weight", [4, 32], [(.q4_0, row 0 ++ row 2 ++ row 1 ++ row 3)]⟩]

/-- `auf_tool build --variants cpu_aos`. -/
def smallArgs : BuildArgs where
  variantTags := [TAG_WEIGHTS_CPU_AOS]
  variants := by decide
  includeLmHead := .auto
  dtypes := none
  candidates := fun _ h => by cases h
  defaultDtype := none
  tokenizer := twoTokens
  createdBy := "auf-tool"
  sourceHash := padded 32 []
  sourceSize := 0
  sourceMtime := 0

/-- The lm_head of the small model. -/
def smallHead : GgufTensorInfo := ⟨asBytes "output.weight", [32, 3], GGML_TYPE_F16, 128⟩

theorem ok_of_toOption {α : Type} {x : Except (Fault String) α} {a : α} (h : x.toOption = some a) :
    x = .ok a := by
  cases x with
  | error e => cases h
  | ok b => exact congrArg Except.ok (Option.some.inj h)

theorem exists_smallModel : ∃ gguf, GgufFile.parseBytes entryBytes 64 smallModel = .ok gguf ∧
    parseModelConfig smallFloats gguf = .ok smallConfig ∧
    buildMetaFromGguf smallFloats gguf = .ok smallMeta ∧
    extractWeightBlobs smallFloats gguf smallConfig none .auto = .ok (smallBlobs, true) ∧
    gguf.findTensor LM_HEAD_SEPARATE_NAME = some smallHead ∧
    gguf.tensorData smallHead = .ok (List.replicate 192 0) := by
  have hmodel : ((GgufFile.parseBytes entryBytes 64 smallModel).toOption.map fun f =>
      ((parseModelConfig smallFloats f).toOption, (buildMetaFromGguf smallFloats f).toOption)) =
      some (some smallConfig, some smallMeta) := by decide +kernel
  have hblobs : ((GgufFile.parseBytes entryBytes 64 smallModel).toOption.map fun f =>
      (extractWeightBlobs smallFloats f smallConfig none .auto).toOption) =
        some (some (smallBlobs, true)) := by
    decide +kernel
  have hhead : ((GgufFile.parseBytes entryBytes 64 smallModel).toOption.map fun f =>
      (f.findTensor LM_HEAD_SEPARATE_NAME, (f.tensorData smallHead).toOption)) =
      some (some smallHead, some (List.replicate 192 0)) := by decide +kernel
  cases hparse : GgufFile.parseBytes entryBytes 64 smallModel with
  | error e =>
    rw [hparse] at hmodel
    cases hmodel
  | ok gguf =>
    rw [hparse] at hmodel hblobs hhead
    obtain ⟨hconfig, hmeta⟩ := Prod.mk.inj (Option.some.inj hmodel)
    obtain ⟨hfind, hraw⟩ := Prod.mk.inj (Option.some.inj hhead)
    exact ⟨gguf, rfl, ok_of_toOption hconfig, ok_of_toOption hmeta,
      ok_of_toOption (Option.some.inj hblobs), hfind, ok_of_toOption hraw⟩

/-- The index of the small model: the layer before the embedding and the lm_head. -/
def smallIndex : TensorIndex where
  variantTags := [padded 24 (asBytes TAG_WEIGHTS_CPU_AOS)]
  entries := [⟨0, TensorKind.attnQ.asU32, TensorDType.q4_0.asU32, [4, 32], 64, [192], [128]⟩,
    ⟨LAYER_IDX_CROSS, TensorKind.embedding.asU32, TensorDType.f16.asU32, [2, 32], 64, [0], [128]⟩,
    ⟨LAYER_IDX_CROSS, TensorKind.lmHead.asU32, TensorDType.q4_0.asU32, [3, 32], 64, [128], [64]⟩]

theorem smallIndex_eq : buildTensorIndex smallBlobs [TAG_WEIGHTS_CPU_AOS] none = smallIndex := by
  have hperm : (buildTensorIndex smallBlobs [TAG_WEIGHTS_CPU_AOS] none).entries.Perm
    smallIndex.entries := by
    rw [buildTensorIndex_entries]
    exact (List.mergeSort_perm _ _).trans (by decide +kernel)
  have hantisymm : ∀ a ∈ smallIndex.entries, ∀ b ∈ smallIndex.entries,
    sortKey none a ≤ sortKey none b →
      sortKey none b ≤ sortKey none a → a = b := by decide +kernel
  have hentries : (buildTensorIndex smallBlobs [TAG_WEIGHTS_CPU_AOS] none).entries =
    smallIndex.entries :=
    hperm.eq_of_pairwise (fun a b ha hb => hantisymm a (hperm.mem_iff.mp ha) b hb)
      (pairwise_buildTensorIndex smallBlobs [TAG_WEIGHTS_CPU_AOS] none) (by decide +kernel)
  have hvariants : (buildTensorIndex smallBlobs [TAG_WEIGHTS_CPU_AOS] none).variantTags =
    smallIndex.variantTags := rfl
  calc buildTensorIndex smallBlobs [TAG_WEIGHTS_CPU_AOS] none
      = ⟨(buildTensorIndex smallBlobs [TAG_WEIGHTS_CPU_AOS] none).variantTags,
          (buildTensorIndex smallBlobs [TAG_WEIGHTS_CPU_AOS] none).entries⟩ := rfl
    _ = smallIndex := by rw [hvariants, hentries]

/-- The section of the CPU: every tensor with the zeros behind it. -/
def smallPayload : List UInt8 :=
  smallBlobs.flatMap fun b => b.dtypeBytes.flatMap fun x => padded64 x.2

theorem exists_smallBuild {gguf : GgufFile}
    (hconfig : parseModelConfig smallFloats gguf = .ok smallConfig)
    (hmeta : buildMetaFromGguf smallFloats gguf = .ok smallMeta)
    (hblobs : extractWeightBlobs smallFloats gguf smallConfig none .auto = .ok (smallBlobs, true)) :
    ∃ out, cmdBuild smallFloats smallJson smallArgs gguf = .ok out := by
  obtain ⟨w, hw⟩ : ∃ w, w = (smallArgs.writer smallMeta smallBlobs true none).addWeightsSection
    TAG_WEIGHTS_CPU_AOS
    smallPayload := ⟨_, rfl⟩
  have hpayload : buildVariantPayload smallBlobs TAG_WEIGHTS_CPU_AOS = .ok smallPayload :=
    ok_of_toOption (by decide +kernel)
  have hindex : w.index = smallIndex := hw ▸ smallIndex_eq
  have htok : w.tokenizer = twoTokens := hw ▸ rfl
  have hsections : w.weightsSections = [(TAG_WEIGHTS_CPU_AOS, smallPayload)] := hw ▸ rfl
  have hsize : w.fileSize smallMetaBytes < 2 ^ 63 := by
    unfold AufWriter.fileSize AufWriter.weightsStart AufWriter.count
    rw [hindex, htok, hsections]
    decide +kernel
  have hjson : smallJson.toJsonBytes w.aufMeta = .ok smallMetaBytes := rfl
  obtain ⟨out, hout, -, -⟩ :=
    exists_build hjson (by rw [hsections]; decide) (by rw [hsections]; decide +kernel) hsize
  refine ⟨out, ?_⟩
  unfold cmdBuild
  simp only [ok_bind, ok_mapErr, ok_liftErr]
  refine ⟨none, rfl, smallMeta, hmeta, smallConfig, hconfig, (smallBlobs, true),
    hblobs, w, ?_, hout⟩
  rw [show smallArgs.variantTags = [TAG_WEIGHTS_CPU_AOS] from rfl, List.foldlM_cons]
  simp only [ok_bind]
  exact ⟨w, ⟨smallPayload, hpayload, congrArg Except.ok hw.symm⟩, rfl⟩

theorem metaReadBack_small {gguf : GgufFile}
    (hmeta : buildMetaFromGguf smallFloats gguf = .ok smallMeta) :
    MetaReadBack smallFloats smallJson smallArgs gguf := by
  intro aufMeta defaultDtype b hmeta' hdefault hb
  obtain rfl : smallMeta = aufMeta := Except.ok.inj (hmeta.symm.trans hmeta')
  have hbytes : b = smallMetaBytes := (Except.ok.inj hb).symm
  unfold smallJson
  dsimp only
  rw [if_pos hbytes]
  rfl

theorem length_pieces_small {gguf : GgufFile}
    (hconfig : parseModelConfig smallFloats gguf = .ok smallConfig)
    (hblobs : extractWeightBlobs smallFloats gguf smallConfig none .auto = .ok (smallBlobs, true))
    {config : ModelConfig} {blobs : List WeightBlob} {present : Bool}
    (hconfig' : parseModelConfig smallFloats gguf = .ok config)
    (hblobs' : extractWeightBlobs smallFloats gguf config smallArgs.dtypes smallArgs.includeLmHead =
      .ok (blobs, present)) : (pieces blobs).length < 2 ^ 32 := by
  obtain rfl : smallConfig = config := Except.ok.inj (hconfig.symm.trans hconfig')
  obtain ⟨rfl, -⟩ := Prod.mk.inj (Except.ok.inj (hblobs.symm.trans hblobs'))
  exact show 3 < 2 ^ 32 by decide

/-- The small model and its file. -/
theorem preserves_smallModel :
    ∃ gguf out config auf, GgufFile.parseBytes entryBytes 64 smallModel = .ok gguf ∧
    cmdBuild smallFloats smallJson smallArgs gguf = .ok out ∧
    GgufSource.openGguf smallFloats gguf = .ok ⟨gguf, config⟩ ∧
    AufSource.openFile smallJson out .cpuAos none = .ok auf ∧
    Preserved smallFloats smallArgs gguf config auf := by
  obtain ⟨gguf, hparse, hconfig, hmeta, hblobs, -, -⟩ := exists_smallModel
  obtain ⟨out, hout⟩ := exists_smallBuild hconfig hmeta hblobs
  obtain ⟨config, auf, hopen, hauf, hpreserved⟩ :=
    preserves_model hparse hout (metaReadBack_small hmeta) fits_twoTokens (by decide) fun _ _ _ =>
    length_pieces_small hconfig hblobs
  exact ⟨gguf, out, config, auf, hparse, hout, hopen, hauf, hpreserved⟩

/-- **The lm_head of the small model** is `F16` in its GGUF file and `Q4_0` in its AUF file. -/
theorem lm_head_requantized : ∃ gguf out source auf t u,
    GgufFile.parseBytes entryBytes 64 smallModel = .ok gguf ∧
    cmdBuild smallFloats smallJson smallArgs gguf = .ok out ∧
    GgufSource.openGguf smallFloats gguf = .ok source ∧
    AufSource.openFile smallJson out .cpuAos none = .ok auf ∧
    source.loadTensorCpu smallFloats .lmHead = .ok t ∧ auf.materialiseCpuTensor .lmHead = .ok u ∧
    t.dtype = .f16 ∧ u.buffer.dtype = .q4_0 ∧ t.bytes.length = 192 ∧
    (auf.bytesOf u).length = 64 := by
  obtain ⟨gguf, hparse, hconfig, hmeta, hblobs, hfind, hraw⟩ := exists_smallModel
  obtain ⟨out, hout⟩ := exists_smallBuild hconfig hmeta hblobs
  obtain ⟨config, auf, hopen, hauf, hpreserved⟩ :=
    exists_preserved hout (metaReadBack_small hmeta) fits_twoTokens (by decide)
      (rank_parseBytes hparse) fun _ _ _ => length_pieces_small hconfig hblobs
  have hrows : RowsMatch config LM_HEAD_SEPARATE_NAME smallHead := by
    intro heads h
    have hnone : qkPermuteShapeLocal config LM_HEAD_SEPARATE_NAME = none :=
      qkPermuteShapeLocal_cross (by decide +kernel)
    cases hnone.symm.trans h
  obtain ⟨d, hd, hload⟩ :=
    loadRawCpu_eq smallFloats hfind (List.mem_cons_of_mem _ List.mem_cons_self)
      hraw restoreRows_lmHead hrows (fun h => absurd h.1 (by decide))
  obtain ⟨t, raw, q4Bytes, ht, hraw', hq4, hread⟩ :=
    hpreserved.lmHead _ hfind ⟨by decide, .inl rfl⟩ (.inl rfl)
  obtain rfl : List.replicate 192 0 = raw := Except.ok.inj (hraw.symm.trans hraw')
  have hquantized : quantizeLmHeadToQ40 smallFloats (List.replicate 192 0) (shapeLogical smallHead)
    smallHead.ggmlType =
      .ok (smallFloats.quantizeQ40 [] GGML_TYPE_F16 3 32) := ok_of_toOption (by decide +kernel)
  have hq4Bytes : q4Bytes = smallFloats.quantizeQ40 [] GGML_TYPE_F16 3 32 :=
    Except.ok.inj (hq4.symm.trans hquantized)
  obtain ⟨u, hu, -, hudtype, hubytes⟩ := hread (by decide) (by rw [hq4Bytes]; decide)
  refine ⟨gguf, out, _, auf, _, u, hparse, hout, hopen, hauf, hload, hu,
    (Except.ok.inj hd).symm, hudtype, List.length_replicate, ?_⟩
  rw [hubytes, hq4Bytes]
  decide +kernel

end ArgusEngine.Auf
