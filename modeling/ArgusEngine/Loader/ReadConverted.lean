import ArgusEngine.Loader.Converted
import ArgusEngine.Loader.GgufTotal

/-!
# Reading a converted model

The tensors of a GGUF file and of the AUF file that is built of it, in the variant of the CPU.

* `BuildArgs.Serves`: the type that the AUF file hands out for a tensor is the one of the GGUF file;
* **`loadRawCpu_eq`**: the loader puts the rows of Q and K back as `auf_tool` does;
* **`hasTensor_lmHead`**: a separate lm_head is found in both files or in none, one of another shape
  than the embedding;
* **`exists_readAlike`**, **`exists_requantized`**: a tensor in its own type, and an lm_head that
  becomes `Q4_0`;
* `Preserved`: what the two sources read of one model, all in all.
-/

namespace ArgusEngine.Auf

open FlatMem Checked Gguf

/-! ## The types of a tensor -/

section Types

variable {fl : FloatOps} {candidateDtypes : Option (List TensorDType)} {bytes : List UInt8}
  {src : TensorDType} {shape : List UInt64}

theorem buildDtypeCandidates_ne_nil :
    buildDtypeCandidates fl candidateDtypes bytes src shape ≠ [] := by
  unfold buildDtypeCandidates
  cases candidateDtypes with
  | none => exact List.cons_ne_nil _ _
  | some cands =>
    dsimp only
    split_ifs with hrank hout
    · exact List.cons_ne_nil _ _
    · exact List.cons_ne_nil _ _
    · exact hout

/-- **A tensor keeps its bytes in its own type.** -/
theorem eq_of_mem_candidates {y : TensorDType × List UInt8}
    (hy : y ∈ buildDtypeCandidates fl candidateDtypes bytes src shape) (hown : y.1 = src) :
    y = (src, bytes) := by
  unfold buildDtypeCandidates at hy
  cases candidateDtypes with
  | none => exact List.mem_singleton.mp hy
  | some cands =>
    dsimp only at hy
    split_ifs at hy with hrank hout
    · exact List.mem_singleton.mp hy
    · exact List.mem_singleton.mp hy
    · obtain ⟨dt, -, hdt⟩ := List.mem_filterMap.mp hy
      split_ifs at hdt with hsrc
      · rw [← Option.some.inj hdt, hsrc]
      · obtain ⟨b, -, rfl⟩ := Option.map_eq_some_iff.mp hdt
        exact absurd hown hsrc

theorem candidates_single (h : candidateDtypes = none ∨ shape.length < 2 ∨
    candidateDtypes = some [src]) : buildDtypeCandidates fl candidateDtypes bytes src shape =
    [(src, bytes)] := by
  unfold buildDtypeCandidates
  rcases h with rfl | hrank | rfl
  · rfl
  · cases candidateDtypes with
    | none => rfl
    | some cands => exact if_pos hrank
  · simp

theorem own_mem_candidates {cands : List TensorDType} (h : src ∈ cands) :
    (src, bytes) ∈ buildDtypeCandidates fl (some cands) bytes src shape := by
  unfold buildDtypeCandidates
  dsimp only
  have hmem : (src, bytes) ∈ cands.filterMap fun dt => if dt = src then some (dt, bytes)
      else (fl.convertTensorDtype bytes src dt shape).toOption.map (dt, ·) :=
    List.mem_filterMap.mpr ⟨src, h, if_pos rfl⟩
  split_ifs with hrank hout
  · exact List.mem_cons_self
  · exact List.mem_cons_self
  · exact hmem

end Types

/-- A tensor of the type `d` is served in that type: it is the only one, or the default one. -/
def BuildArgs.Serves (args : BuildArgs) (d : TensorDType) (rank : ℕ) : Prop :=
  args.dtypes = none ∨ rank < 2 ∨ args.resolveDefault = .ok (some d)

/-- The default type is one of `--dtypes`; it is written to META unless it is the only one. -/
theorem resolveDefault_cases {args : BuildArgs} {d : TensorDType}
    (h : args.resolveDefault = .ok (some d)) : args.dtypes = some [d] ∨ ∃ cands,
    args.dtypes = some cands ∧ d ∈ cands ∧ args.multiDtypeEnabled = true := by
  unfold BuildArgs.resolveDefault at h
  cases hdtypes : args.dtypes with
  | none =>
    rw [hdtypes] at h
    cases hdd : args.defaultDtype with
    | none =>
      rw [hdd] at h
      cases h
    | some dd =>
      rw [hdd] at h
      cases h
  | some cands =>
    have hmem : d ∈ cands := by
      rw [hdtypes] at h
      cases hdd : args.defaultDtype with
      | none =>
        rw [hdd] at h
        exact List.mem_of_mem_head? (Except.ok.inj h)
      | some dd =>
        rw [hdd] at h
        dsimp only at h
        split_ifs at h with hin
        exact Option.some.inj (Except.ok.inj h) ▸ hin
    by_cases hmulti : 2 ≤ cands.length
    · refine .inr ⟨cands, rfl, hmem, ?_⟩
      rw [BuildArgs.multiDtypeEnabled, hdtypes]
      exact decide_eq_true hmulti
    · left
      obtain ⟨c, rfl⟩ := List.length_eq_one_iff.mp
        (show cands.length = 1 by have := List.length_pos_of_mem hmem; omega)
      rw [List.mem_singleton.mp hmem]

/-! ## Loading a tensor of the GGUF file -/

section Load

variable {fl : FloatOps} {gguf : GgufFile} {config : ModelConfig} {name : String}
  {info : GgufTensorInfo} {raw bytes : List UInt8}

/-- The types that are loaded as they are, or narrowed. -/
def Supported (info : GgufTensorInfo) : Prop :=
  info.ggmlType ∈ [GGML_TYPE_F32, GGML_TYPE_F16, GGML_TYPE_Q4_0, GGML_TYPE_Q4_1, GGML_TYPE_Q8_0]

/-- A Q or K weight has the rows of its heads, as the loader asserts. -/
def RowsMatch (config : ModelConfig) (name : String) (info : GgufTensorInfo) : Prop :=
  ∀ heads, qkPermuteShape name config = some heads →
    info.dims.reverse.head? = some (heads.1 * heads.2)

/-- An embedding or lm_head of `F32`. -/
def IsNarrowed (name : String) (info : GgufTensorInfo) : Prop :=
  info.ggmlType = GGML_TYPE_F32 ∧ isEmbedOrLmHead name = true

theorem ok_tensorData (h : gguf.tensorData info = .ok raw) :
    (info.dims.foldlM mul 1 : Except (Fault String) ℕ) = .ok info.dims.prod ∧
      info.dims.prod < 2 ^ 64 ∧
      raw.length = byteSize info.ggmlType info.dims.prod ∧ raw.length < 2 ^ 64 := by
  simp only [GgufFile.tensorData, ok_bind, ok_add, ok_index, ok_tensorByteSize] at h
  obtain ⟨start, -, size, ⟨hall, hsize, rfl⟩, stop, ⟨-, rfl⟩, ⟨hle, hin⟩, rfl⟩ := h
  have hlen : (slice gguf.mmap start
    (start + byteSize info.ggmlType info.dims.prod - start)).length =
      byteSize info.ggmlType info.dims.prod := by
    rw [length_slice (by omega), Nat.add_sub_cancel_left]
  refine ⟨ok_product.mpr ⟨fun k hk => ?_, (Nat.one_mul _).symm⟩, ?_, hlen, hlen.trans_lt hsize⟩
  · rw [Nat.one_mul]
    exact hall (k + 1) hk
  · have h := hall info.dims.length le_rfl
    rwa [List.take_length] at h

theorem shape_of_tensorData (h : gguf.tensorData info = .ok raw) (hne : raw ≠ []) :
    (shapeLogical info).map UInt64.toNat = info.dims.reverse := by
  obtain ⟨-, hlt, hlen, -⟩ := ok_tensorData h
  have hprod : info.dims.prod ≠ 0 := by
    intro h0
    refine hne (List.eq_nil_of_length_eq_zero ?_)
    rw [hlen, h0, byteSize]
    cases blockOf info.ggmlType with
    | none => rfl
    | some b => rw [Option.map_some, Option.getD_some, Nat.zero_div, Nat.zero_mul]
  rw [shapeLogical, List.map_map]
  refine (List.map_congr_left fun d hd => ?_).trans (List.map_id _)
  have hle := Nat.le_of_dvd (Nat.pos_of_ne_zero hprod) (List.dvd_prod (List.mem_reverse.mp hd))
  exact toNat_ofNat64 (hle.trans_lt hlt)

variable (fl) in
/-- **The rows are put back alike** by the loader and by `auf_tool`. -/
theorem loadRawCpu_eq (hfind : gguf.findTensor name = some info) (htype : Supported info)
    (hraw : gguf.tensorData info = .ok raw) (hbytes : restoreRows config name raw = .ok bytes)
    (hrows : RowsMatch config name info) (hfloats : ¬ IsNarrowed name info) :
    ∃ d, ggmlTypeToDtype info.ggmlType = .ok d ∧
      GgufSource.loadRawCpu fl ⟨gguf, config⟩ name = .ok ⟨info.dims.reverse, d, bytes⟩ := by
  have htypes :
    ∀ t ∈ [GGML_TYPE_F32, GGML_TYPE_F16, GGML_TYPE_Q4_0, GGML_TYPE_Q4_1, GGML_TYPE_Q8_0],
      needsDequantFallback t = false ∧ ∃ d, ggmlTypeToDtype t = .ok d := by
    simp only [List.forall_mem_cons]
    exact ⟨⟨rfl, _, rfl⟩, ⟨rfl, _, rfl⟩, ⟨rfl, _, rfl⟩, ⟨rfl, _, rfl⟩, ⟨rfl, _, rfl⟩,
      fun t ht => absurd ht List.not_mem_nil⟩
  obtain ⟨hfallback, d, hd⟩ := htypes _ htype
  refine ⟨d, hd, ?_⟩
  unfold GgufSource.loadRawCpu
  simp only [ok_bind, ok_okOr]
  refine ⟨info, hfind, raw, hraw, _, (ok_tensorData hraw).1, ?_⟩
  rw [hfallback, if_neg Bool.false_ne_true, hd, ok_seq,
    if_neg (show ¬ (info.ggmlType = GGML_TYPE_F32 ∧ isEmbedOrLmHead name = true) from hfloats)]
  unfold restoreRows at hbytes
  rw [show qkPermuteShapeLocal config name = qkPermuteShape name config from rfl] at hbytes
  cases hheads : qkPermuteShape name config with
  | none =>
    rw [hheads] at hbytes
    rw [Except.ok.inj hbytes]
    rfl
  | some heads =>
    rw [hheads] at hbytes
    simp only [ok_bind, ok_mul] at hbytes
    obtain ⟨_, ⟨-, rfl⟩, rowSize, hdiv, hlocal⟩ := hbytes
    have hget : (Checked.get info.dims.reverse 0 : Except (Fault String) ℕ) =
      .ok (heads.1 * heads.2) := by
      have hhead := hrows heads hheads
      rw [List.head?_eq_getElem?] at hhead
      rw [Checked.get, hhead]
    simp only [ok_bind]
    exact ⟨_, hget, rowSize, hdiv, bytes, hlocal, rfl⟩

theorem loadRawCpu_narrowed (hfind : gguf.findTensor name = some info)
    (hraw : gguf.tensorData info = .ok raw) (hfloats : IsNarrowed name info) :
    GgufSource.loadRawCpu fl ⟨gguf, config⟩ name =
      .ok ⟨info.dims.reverse, .f16, narrowed fl raw⟩ := by
  obtain ⟨hcount, -, hlen, hlt⟩ := ok_tensorData hraw
  have hsize : raw.length = info.dims.prod * 4 := by
    rw [hlen, hfloats.1, byteSize, show blockOf GGML_TYPE_F32 = some (1, 4) from rfl,
      Option.map_some, Option.getD_some, Nat.div_one]
  unfold GgufSource.loadRawCpu
  simp only [ok_bind, ok_okOr]
  refine ⟨info, hfind, raw, hraw, _, hcount, ?_⟩
  rw [hfloats.1, show needsDequantFallback GGML_TYPE_F32 = false from rfl,
    if_neg Bool.false_ne_true, show ggmlTypeToDtype GGML_TYPE_F32 = .ok .f32 from rfl, ok_seq,
    if_pos ⟨rfl, hfloats.2⟩]
  unfold loadF32AsF16
  simp only [ok_bind, ok_mul, ok_ensure]
  exact ⟨_, ⟨by omega, rfl⟩, (), hsize, rfl⟩

end Load

/-! ## Reading a tensor of the AUF file -/

theorem exists_variantIndex {blobs : List WeightBlob} {tags : List String}
    {defaultDtype : Option TensorDType} {tag : String} (hfits : ∀ t ∈ tags, TagFits t)
    (htag : tag ∈ tags) : ∃ i, (buildTensorIndex blobs tags defaultDtype).variantIndexForTag tag =
    some i ∧ tags[i]? = some tag := by
  have htext : ∀ t ∈ tags, nulText (padded 24 (asBytes t)) = some t :=
    fun t ht => nulText_padded (hfits t ht).1 (hfits t ht).2
  have hexists : ∃ raw ∈ tags.map fun t => padded 24 (asBytes t),
    (nulText raw == some tag) = true :=
    ⟨_, List.mem_map_of_mem htag, by rw [htext tag htag]; exact beq_self_eq_true _⟩
  have hsome : ((tags.map fun t => padded 24 (asBytes t)).findIdx? fun raw =>
    nulText raw == some tag).isSome = true := by
    rw [List.findIdx?_isSome, List.any_eq_true]
    exact hexists
  obtain ⟨i, hi⟩ := Option.isSome_iff_exists.mp hsome
  refine ⟨i, hi, ?_⟩
  obtain ⟨hlt, heq, -⟩ := List.findIdx?_eq_some_iff_getElem.mp hi
  rw [List.length_map] at hlt
  rw [List.getElem_map, htext _ (List.getElem_mem hlt), beq_iff_eq] at heq
  rw [List.getElem?_eq_getElem hlt, Option.some.inj heq]

section Served

variable {fl : FloatOps} {args : BuildArgs} {gguf : GgufFile} {config : ModelConfig}
  {blobs : List WeightBlob} {present : Bool} {defaultDtype : Option TensorDType}
  {payload : List UInt8} {v : AufView} {id : TensorId} {b : WeightBlob}
  {x : TensorDType × List UInt8} {d : DType}

/-- **A tensor is read in a type it is served in.** -/
theorem exists_materialised (hconv : ConvertedTo args blobs defaultDtype payload v)
    (hblobs : extractWeightBlobs fl gguf config args.dtypes args.includeLmHead =
    .ok (blobs, present)) (hcpu : TAG_WEIGHTS_CPU_AOS ∈ args.variantTags)
      (hlisted : Listed config id)
    (hb : blobOf fl gguf config args.dtypes args.includeLmHead id = .ok (some b))
    (hx : x ∈ b.dtypeBytes) (hown : (∀ y ∈ b.dtypeBytes, y = x) ∨
      v.aufMeta.defaultDtype = some (dtypeToMetaStr x.1) ∧ ∀ y ∈ b.dtypeBytes, y.1 = x.1 → y = x)
    (hne : x.2 ≠ []) (hd : aufDtypeToEngine x.1.asU32 = some d) :
    ∃ t, (AufSource.mk v .cpuAos none).materialiseCpuTensor id = .ok t ∧
      t.shape = b.shapeLogical.map UInt64.toNat ∧ t.buffer.dtype = d ∧
      (AufSource.mk v .cpuAos none).bytesOf t = padded64 x.2 := by
  obtain ⟨place, hplace⟩ := Option.isSome_iff_exists.mp (layerKind_resolveName hlisted).2
  obtain ⟨e, hlookup, hentry⟩ := lookup_own hblobs hlisted hplace hconv.index hb hx hown
  have hknown : ∀ tag ∈ [TAG_WEIGHTS_ADRENO_SOA, TAG_WEIGHTS_CUDA_AOS, TAG_WEIGHTS_CPU_AOS],
    TagFits tag := by
    decide +kernel
  obtain ⟨i, hi, htag⟩ : ∃ i, v.tensorIndex.variantIndexForTag TAG_WEIGHTS_CPU_AOS = some i ∧
      args.variantTags[i]? = some TAG_WEIGHTS_CPU_AOS := by
    rw [hconv.index]
    exact exists_variantIndex (fun t ht => hknown t (args.variants.2 t ht)) hcpu
  obtain ⟨hin, hpiece⟩ := hentry.bytes i _ _ htag hconv.payload
  have hslice : slice payload (e.column i).1.toNat (e.column i).2.toNat = padded64 x.2 :=
    padded64_of_ok hpiece
  have hlen := congrArg List.length hslice
  rw [length_slice hin, padded64, List.length_append] at hlen
  have hbytesPos : 0 < x.2.length := List.length_pos_iff.mpr hne
  have hpos : 0 < (e.column i).2.toNat := by omega
  obtain ⟨offset, size, hrange⟩ := hconv.range
  obtain ⟨t, ht, hshape, hdtype, hbytes⟩ :=
    materialise_of_lookup hplace hlookup hi hrange hconv.bytes hconv.file hin
      hpos (hentry.dtype ▸ hd)
  exact ⟨t, ht, hentry.shape ▸ hshape, hdtype, hbytes.trans hslice⟩

theorem served_candidates {src : TensorDType} {bytes : List UInt8} {shape : List UInt64}
    (hconv : ConvertedTo args blobs defaultDtype payload v)
    (hdefault : args.resolveDefault = .ok defaultDtype) (hserves : args.Serves src shape.length) :
    (src, bytes) ∈ buildDtypeCandidates fl args.dtypes bytes src shape ∧
      ((∀ y ∈ buildDtypeCandidates fl args.dtypes bytes src shape, y = (src, bytes)) ∨
        v.aufMeta.defaultDtype = some (dtypeToMetaStr src) ∧
          ∀ y ∈ buildDtypeCandidates fl args.dtypes bytes src shape, y.1 = src →
          y = (src, bytes)) := by
  have hone : (args.dtypes = none ∨ shape.length < 2 ∨ args.dtypes = some [src]) →
      (src, bytes) ∈ buildDtypeCandidates fl args.dtypes bytes src shape ∧
        ∀ y ∈ buildDtypeCandidates fl args.dtypes bytes src shape, y = (src, bytes) := by
    intro h
    rw [candidates_single h]
    exact ⟨List.mem_singleton_self _, fun y hy => List.mem_singleton.mp hy⟩
  rcases hserves with hnone | hrank | hres
  · exact ⟨(hone (.inl hnone)).1, .inl (hone (.inl hnone)).2⟩
  · exact ⟨(hone (.inr (.inl hrank))).1, .inl (hone (.inr (.inl hrank))).2⟩
  · rcases resolveDefault_cases hres with hsingle | ⟨cands, hcands, hmem, hmulti⟩
    · exact ⟨(hone (.inr (.inr hsingle))).1, .inl (hone (.inr (.inr hsingle))).2⟩
    · refine ⟨?_, .inr ⟨?_, fun y hy hown => eq_of_mem_candidates hy hown⟩⟩
      · rw [hcands]
        exact own_mem_candidates hmem
      · rw [hconv.default, hmulti, if_pos rfl, Except.ok.inj (hdefault.symm.trans hres),
          Option.map_some]

/-- The pieces of an lm_head that is quantized. -/
theorem served_lmHead {src : TensorDType} {q4Bytes raw : List UInt8} {shape : List UInt64}
    {dtypeBytes : List (TensorDType × List UInt8)}
    (hconv : ConvertedTo args blobs defaultDtype payload v)
    (hdefault : args.resolveDefault = .ok defaultDtype) (hserves : args.Serves .q4_0 2)
    (hdtypes : lmHeadCandidates fl args.dtypes q4Bytes raw src shape = .ok dtypeBytes) :
    (.q4_0, q4Bytes) ∈ dtypeBytes ∧ ((∀ y ∈ dtypeBytes, y = (.q4_0, q4Bytes)) ∨
      v.aufMeta.defaultDtype = some (dtypeToMetaStr .q4_0) ∧ ∀ y ∈ dtypeBytes, y.1 = .q4_0 →
      y = (.q4_0, q4Bytes)) := by
  unfold lmHeadCandidates at hdtypes
  have hown : ∀ cands, args.dtypes = some cands →
    (∀ y ∈ dtypeBytes, y.1 ∈ cands ∧ (y.1 = .q4_0 → y = (.q4_0, q4Bytes))) ∧
      (.q4_0 ∈ cands → (.q4_0, q4Bytes) ∈ dtypeBytes) := by
    intro cands hcands
    rw [hcands] at hdtypes
    obtain ⟨hto, hfrom⟩ := mem_of_forall₂ (ok_mapM.mp hdtypes)
    constructor
    · intro y hy
      obtain ⟨dt, hdt, hpiece⟩ := hfrom y hy
      split_ifs at hpiece with hq4
      · cases hpiece
        exact ⟨hdt, fun _ => by rw [hq4]⟩
      · split at hpiece
        · cases hpiece
          exact ⟨hdt, fun h => absurd h hq4⟩
        · cases hpiece
    · intro hmem
      obtain ⟨y, hy, hpiece⟩ := hto _ hmem
      rw [if_pos rfl] at hpiece
      exact Except.ok.inj hpiece ▸ hy
  rcases hserves with hnone | hrank | hres
  · rw [hnone] at hdtypes
    cases hdtypes
    exact ⟨List.mem_singleton_self _, .inl fun y hy => List.mem_singleton.mp hy⟩
  · exact absurd hrank (Nat.lt_irrefl 2)
  · rcases resolveDefault_cases hres with hsingle | ⟨cands, hcands, hmem, hmulti⟩
    · obtain ⟨hall, hin⟩ := hown _ hsingle
      exact ⟨hin (List.mem_singleton_self _), .inl fun y hy =>
        (hall y hy).2 (List.mem_singleton.mp (hall y hy).1)⟩
    · obtain ⟨hall, hin⟩ := hown _ hcands
      refine ⟨hin hmem, .inr ⟨?_, fun y hy => (hall y hy).2⟩⟩
      rw [hconv.default, hmulti, if_pos rfl, Except.ok.inj (hdefault.symm.trans hres),
        Option.map_some]

end Served

/-! ## Which tensors there are -/

section Presence

variable {fl : FloatOps} {args : BuildArgs} {gguf : GgufFile} {config : ModelConfig}
  {blobs : List WeightBlob} {present : Bool} {defaultDtype : Option TensorDType}
  {payload : List UInt8} {v : AufView} {id : TensorId} {b : WeightBlob} {info : GgufTensorInfo}

theorem dtypeBytes_of_taken {isTied : Bool}
    (h : LmHeadTaken fl gguf args.dtypes args.includeLmHead isTied info (some b)) :
    b.dtypeBytes ≠ [] := by
  cases h with
  | own raw hraw hsep hown => exact List.cons_ne_nil _ _
  | quantized raw hraw hmode htype => exact buildDtypeCandidates_ne_nil
  | requantized raw q4Bytes dtypeBytes hraw hmode htype hq4 hdtypes =>
    intro hnil
    unfold lmHeadCandidates at hdtypes
    cases hcands : args.dtypes with
    | none =>
      rw [hcands] at hdtypes
      cases hdtypes
      cases hnil
    | some cands =>
      rw [hcands] at hdtypes
      have hlen := (ok_mapM.mp hdtypes).length_eq
      rw [show dtypeBytes = [] from hnil] at hlen
      exact (args.candidates cands hcands).2 (List.eq_nil_of_length_eq_zero hlen)

theorem dtypeBytes_ne_nil
    (hb : blobOf fl gguf config args.dtypes args.includeLmHead id = .ok (some b)) :
    b.dtypeBytes ≠ [] := by
  by_cases hid : id = .lmHead
  · subst hid
    obtain ⟨present, hlm⟩ := ok_blobOf_lmHead.mp hb
    rcases exists_taken hlm with ⟨info, -, htaken⟩ | ⟨-, hnone | ⟨info, -, htaken⟩⟩
    · exact dtypeBytes_of_taken htaken
    · cases hnone
    · exact dtypeBytes_of_taken htaken
  · rw [blobOf_eq hid] at hb
    cases hfind : gguf.findTensor (resolveName id) with
    | none =>
      unfold layerBlob at hb
      rw [hfind] at hb
      cases hb
    | some info =>
      obtain ⟨raw, bytes, -, -, hblob⟩ := (ok_layerBlob hfind).mp hb
      exact (Option.some.inj hblob) ▸ buildDtypeCandidates_ne_nil

theorem find_cross (idx : TensorIndex) (kind : UInt32) :
    (idx.entries.find? fun e => e.kind == kind && e.layerIdx == LAYER_IDX_CROSS) =
      (idx.entriesFor LAYER_IDX_CROSS kind).head? := by
  rw [TensorIndex.entriesFor, List.head?_filter]
  congr 1
  funext e
  exact Bool.and_comm _ _

section Entries

variable (defaultDtype)
  (hblobs : extractWeightBlobs fl gguf config args.dtypes args.includeLmHead = .ok (blobs, present))

include hblobs

/-- **A tensor that is extracted has entries**, with its shape. -/
theorem entriesFor_some {place : UInt32 × TensorKind} (hlisted : Listed config id)
    (hplace : tensorIdToAuf id = some place)
    (hb : blobOf fl gguf config args.dtypes args.includeLmHead id = .ok (some b)) : ∃ e rest,
      (buildTensorIndex blobs args.variantTags defaultDtype).entriesFor place.1
        place.2.asU32 = e :: rest ∧
      e.shape = b.shapeLogical := by
  obtain ⟨x, hx⟩ := List.exists_mem_of_ne_nil _ (dtypeBytes_ne_nil hb)
  obtain ⟨e₀, he₀, -⟩ :
    ∃ e ∈ (buildTensorIndex blobs args.variantTags defaultDtype).entriesFor place.1 place.2.asU32,
      EntryFor blobs args.variantTags (b, x) e := exists_entryFor hblobs hlisted hplace hb hx
  obtain ⟨e, rest, heq⟩ := List.exists_cons_of_ne_nil (List.ne_nil_of_mem he₀)
  obtain ⟨b', y, hb', -, hentry⟩ := entryFor_of_mem hblobs hlisted hplace (heq ▸ List.mem_cons_self)
  obtain rfl : b' = b := Option.some.inj (Except.ok.inj (hb'.symm.trans hb))
  exact ⟨e, rest, heq, hentry.shape⟩

theorem entriesFor_none {place : UInt32 × TensorKind} (hlisted : Listed config id)
    (hplace : tensorIdToAuf id = some place)
    (hb : blobOf fl gguf config args.dtypes args.includeLmHead id = .ok none) :
    (buildTensorIndex blobs args.variantTags defaultDtype).entriesFor place.1
      place.2.asU32 = [] := by
  refine List.eq_nil_iff_forall_not_mem.mpr fun e he => ?_
  obtain ⟨b, x, hb', -, -⟩ := entryFor_of_mem hblobs hlisted hplace he
  cases hb.symm.trans hb'

theorem isEmpty_entriesFor {place : UInt32 × TensorKind} (hid : id ≠ .lmHead)
    (hlisted : Listed config id) (hplace : tensorIdToAuf id = some place) :
    (!((buildTensorIndex blobs args.variantTags defaultDtype).entriesFor place.1
      place.2.asU32).isEmpty) = (gguf.findTensor (resolveName id)).isSome := by
  obtain ⟨ob, hb⟩ := exists_blobOf hblobs hlisted
  have hlayer := hb
  rw [blobOf_eq hid] at hlayer
  cases hfind : gguf.findTensor (resolveName id) with
  | none =>
    unfold layerBlob at hlayer
    rw [hfind] at hlayer
    rw [entriesFor_none defaultDtype hblobs hlisted hplace (Except.ok.inj hlayer ▸ hb)]
    rfl
  | some info =>
    obtain ⟨raw, bytes, -, -, rfl⟩ := (ok_layerBlob hfind).mp hlayer
    obtain ⟨e, rest, heq, -⟩ := entriesFor_some defaultDtype hblobs hlisted hplace hb
    rw [heq]
    rfl

theorem entriesFor_embed :
    (gguf.findTensor LM_HEAD_TIED_SOURCE_NAME = none ∧
    (buildTensorIndex blobs args.variantTags defaultDtype).entriesFor
      LAYER_IDX_CROSS TensorKind.embedding.asU32 = []) ∨
    ∃ embed e rest, gguf.findTensor LM_HEAD_TIED_SOURCE_NAME = some embed ∧
      (buildTensorIndex blobs args.variantTags defaultDtype).entriesFor LAYER_IDX_CROSS
        TensorKind.embedding.asU32 = e :: rest ∧ e.shape = shapeLogical embed := by
  have hlisted : Listed config .embed := trivial
  have hplace : tensorIdToAuf .embed = some (LAYER_IDX_CROSS, .embedding) := rfl
  obtain ⟨ob, hb⟩ := exists_blobOf hblobs hlisted
  have hlayer : layerBlob fl gguf config args.dtypes LM_HEAD_TIED_SOURCE_NAME = .ok ob :=
    (blobOf_eq (by decide)).symm.trans hb
  cases hfind : gguf.findTensor LM_HEAD_TIED_SOURCE_NAME with
  | none =>
    unfold layerBlob at hlayer
    rw [hfind] at hlayer
    exact .inl ⟨rfl, entriesFor_none defaultDtype hblobs hlisted hplace (Except.ok.inj hlayer ▸ hb)⟩
  | some embed =>
    obtain ⟨raw, bytes, -, -, rfl⟩ := (ok_layerBlob hfind).mp hlayer
    obtain ⟨e, rest, heq, hshape⟩ := entriesFor_some defaultDtype hblobs hlisted hplace hb
    exact .inr ⟨embed, e, rest, rfl, heq, hshape⟩

section Tie

variable (hconv : ConvertedTo args blobs defaultDtype payload v)

include hconv

omit hblobs

theorem tied_of_none (hhead : (buildTensorIndex blobs args.variantTags defaultDtype).entriesFor
    LAYER_IDX_CROSS TensorKind.lmHead.asU32 = []) : inferTieWordEmbeddings v = true := by
  unfold inferTieWordEmbeddings TensorIndex.findLmHeadEntry
  rw [hconv.index, find_cross, hhead]
  rfl

theorem untied_of_none {e : TensorEntry} {rest : List TensorEntry}
    (hhead : (buildTensorIndex blobs args.variantTags defaultDtype).entriesFor LAYER_IDX_CROSS
      TensorKind.lmHead.asU32 = e :: rest)
    (hembed : (buildTensorIndex blobs args.variantTags defaultDtype).entriesFor LAYER_IDX_CROSS
      TensorKind.embedding.asU32 = []) : inferTieWordEmbeddings v = false := by
  unfold inferTieWordEmbeddings TensorIndex.findLmHeadEntry
  rw [hconv.index, find_cross, find_cross, hhead, hembed]
  rfl

theorem tied_of_shapes {e em : TensorEntry} {rest rest' : List TensorEntry}
    (hhead : (buildTensorIndex blobs args.variantTags defaultDtype).entriesFor LAYER_IDX_CROSS
      TensorKind.lmHead.asU32 = e :: rest)
    (hembed : (buildTensorIndex blobs args.variantTags defaultDtype).entriesFor LAYER_IDX_CROSS
      TensorKind.embedding.asU32 = em :: rest') :
      inferTieWordEmbeddings v = (em.shape == e.shape) := by
  unfold inferTieWordEmbeddings TensorIndex.findLmHeadEntry
  rw [hconv.index, find_cross, find_cross, hhead, hembed]
  rfl

end Tie

/-- **The lm_head is there alike**, unless it is a separate one of the shape of the embedding. -/
theorem hasTensor_lmHead (hconv : ConvertedTo args blobs defaultDtype payload v)
    (happart : ∀ head embed, gguf.findTensor LM_HEAD_SEPARATE_NAME = some head →
      gguf.findTensor LM_HEAD_TIED_SOURCE_NAME = some embed →
      shapeLogical head ≠ shapeLogical embed) :
    (AufSource.mk v .cpuAos none).hasTensor .lmHead =
      (gguf.findTensor LM_HEAD_SEPARATE_NAME).isSome := by
  have hlisted : Listed config .lmHead := trivial
  have hplace : tensorIdToAuf .lmHead = some (LAYER_IDX_CROSS, .lmHead) := rfl
  obtain ⟨ob, hb⟩ := exists_blobOf hblobs hlisted
  obtain ⟨present', hlm⟩ := ok_blobOf_lmHead.mp hb
  have habsent : inferTieWordEmbeddings v = true →
    (AufSource.mk v .cpuAos none).hasTensor .lmHead = false :=
    fun h => if_pos ⟨rfl, h⟩
  rcases exists_taken hlm with ⟨head, hfind, htaken⟩ | ⟨hnone, hob⟩
  · obtain ⟨b, rfl⟩ : ∃ b, ob = some b := by
      cases htaken with
      | left htied => exact absurd htied Bool.false_ne_true
      | own => exact ⟨_, rfl⟩
      | quantized => exact ⟨_, rfl⟩
      | requantized => exact ⟨_, rfl⟩
    obtain ⟨e, rest, heq, hshape⟩ := entriesFor_some defaultDtype hblobs hlisted hplace hb
    rw [(name_of_taken htaken).2] at hshape
    have hsep : inferTieWordEmbeddings v = false := by
      rcases entriesFor_embed defaultDtype hblobs with ⟨-, hnil⟩ |
        ⟨embed, em, rest', hembed, hcons, hemshape⟩
      · exact untied_of_none defaultDtype hconv heq hnil
      · rw [tied_of_shapes defaultDtype hconv heq hcons, beq_eq_false_iff_ne, hshape, hemshape]
        exact (happart head embed hfind hembed).symm
    rw [hfind, AufSource.hasTensor, if_neg (by rw [hsep]; rintro ⟨-, h⟩; cases h), hplace]
    show (!(v.tensorIndex.entriesFor LAYER_IDX_CROSS TensorKind.lmHead.asU32).isEmpty) = true
    rw [hconv.index, show (buildTensorIndex blobs args.variantTags defaultDtype).entriesFor
      LAYER_IDX_CROSS TensorKind.lmHead.asU32 = e :: rest from heq]
    rfl
  · rw [hnone]
    refine habsent ?_
    cases ob with
    | none =>
      exact tied_of_none defaultDtype hconv (entriesFor_none defaultDtype hblobs hlisted hplace hb)
    | some b =>
      rcases hob with h | ⟨info, hfind, htaken⟩
      · cases h
      · obtain ⟨e, rest, heq, hshape⟩ := entriesFor_some defaultDtype hblobs hlisted hplace hb
        rw [(name_of_taken htaken).2] at hshape
        rcases entriesFor_embed defaultDtype hblobs with ⟨habs, -⟩ |
          ⟨embed, em, rest', hembed, hcons, hemshape⟩
        · cases hfind.symm.trans habs
        · obtain rfl : info = embed := Option.some.inj (hfind.symm.trans hembed)
          rw [tied_of_shapes defaultDtype hconv heq hcons, beq_iff_eq, hshape, hemshape]

end Entries

end Presence

/-! ## Reading alike -/

/-- A separate lm_head of `F16` or `F32` is written as `Q4_0`. -/
def BuildArgs.Requantizes (args : BuildArgs) (info : GgufTensorInfo) : Prop :=
  args.includeLmHead ≠ .off ∧ (info.ggmlType = GGML_TYPE_F16 ∨ info.ggmlType = GGML_TYPE_F32)

/-- **A tensor read from both files**: the one of the AUF file has the bytes of the other, with
zeros behind them up to a multiple of 64. Floats that the loader narrows are those of the GGUF
file. -/
structure ReadAlike (fl : FloatOps) (gguf : GgufFile) (name : String) (info : GgufTensorInfo)
    (t : HostTensor) (auf : AufSource) (u : CpuTensor) : Prop where
  shape : u.shape = t.shape
  bytes : ¬ IsNarrowed name info → auf.bytesOf u = padded64 t.bytes
  dtype : ¬ IsNarrowed name info → info.ggmlType ∈ [GGML_TYPE_F32, GGML_TYPE_F16, GGML_TYPE_Q4_0] →
    u.buffer.dtype = t.dtype
  floats : IsNarrowed name info → t.dtype = .f16 ∧ u.buffer.dtype = .f32 ∧ ∃ raw,
    gguf.tensorData info = .ok raw ∧ t.bytes = narrowed fl raw ∧ auf.bytesOf u = padded64 raw

section Alike

variable {fl : FloatOps} {args : BuildArgs} {gguf : GgufFile} {config : ModelConfig}
  {blobs : List WeightBlob} {present : Bool} {defaultDtype : Option TensorDType}
  {payload : List UInt8} {v : AufView} {id : TensorId} {b : WeightBlob} {info : GgufTensorInfo}
  {raw bytes : List UInt8}

theorem restoreRows_lmHead : restoreRows config LM_HEAD_SEPARATE_NAME raw = .ok raw := by
  unfold restoreRows
  rw [qkPermuteShapeLocal_cross (by decide +kernel)]

theorem exists_own (hblobs : extractWeightBlobs fl gguf config args.dtypes args.includeLmHead =
    .ok (blobs, present)) (hlisted : Listed config id) (hfind :
    gguf.findTensor (resolveName id) = some info) (hkept : id = .lmHead → ¬ args.Requantizes info) :
    ∃ raw bytes b, gguf.tensorData info = .ok raw ∧
      restoreRows config (resolveName id) raw = .ok bytes ∧
      blobOf fl gguf config args.dtypes args.includeLmHead id = .ok (some b) ∧
      b.shapeLogical = shapeLogical info ∧
      (b.dtypeBytes = [(ggmlTypeToTensorDtype info.ggmlType, bytes)] ∨
      b.dtypeBytes = buildDtypeCandidates fl args.dtypes
        bytes (ggmlTypeToTensorDtype info.ggmlType) (shapeLogical info)) := by
  obtain ⟨ob, hb⟩ := exists_blobOf hblobs hlisted
  by_cases hid : id = .lmHead
  · subst hid
    obtain ⟨present', hlm⟩ := ok_blobOf_lmHead.mp hb
    rcases exists_taken hlm with ⟨head, hhead, htaken⟩ | ⟨hnone, -⟩
    · obtain rfl : info = head := Option.some.inj (hfind.symm.trans hhead)
      cases htaken with
      | left htied => exact absurd htied Bool.false_ne_true
      | own raw hraw hsep hown => exact ⟨raw, raw, _, hraw, restoreRows_lmHead, hb, rfl, .inl rfl⟩
      | quantized raw hraw hmode htype =>
        exact ⟨raw, raw, _, hraw, restoreRows_lmHead, hb, rfl, .inr rfl⟩
      | requantized raw q4Bytes dtypeBytes hraw hmode htype hq4 hdtypes =>
        exact absurd ⟨hmode, htype⟩ (hkept rfl)
    · cases hfind.symm.trans hnone
  · have hlayer := hb
    rw [blobOf_eq hid] at hlayer
    obtain ⟨raw, bytes, hraw, hbytes, rfl⟩ := (ok_layerBlob hfind).mp hlayer
    exact ⟨raw, bytes, _, hraw, hbytes, hb, rfl, .inr rfl⟩

theorem restoreRows_narrowed {name : String} (h : IsNarrowed name info)
    (hbytes : restoreRows config name raw = .ok bytes) : bytes = raw := by
  have hstem : stripPrefix (asBytes name) (asBytes "blk.") = none := by
    have hname := h.2
    rw [isEmbedOrLmHead, Bool.or_eq_true, beq_iff_eq, beq_iff_eq] at hname
    rcases hname with rfl | rfl <;> decide +kernel
  unfold restoreRows at hbytes
  rw [qkPermuteShapeLocal_cross hstem] at hbytes
  exact (Except.ok.inj hbytes).symm

theorem length_restoreRows {name : String} (h : restoreRows config name raw = .ok bytes) :
    bytes.length = raw.length := by
  unfold restoreRows at h
  cases hheads : qkPermuteShapeLocal config name with
  | none =>
    rw [hheads] at h
    rw [Except.ok.inj h]
  | some heads =>
    rw [hheads] at h
    simp only [ok_bind] at h
    obtain ⟨_, -, _, -, hrows⟩ := h
    exact Loader.length_unpermuteQkRowsLocal hrows

theorem engineDtype_eq {k : ℕ} (hk : k ∈ [GGML_TYPE_F32, GGML_TYPE_F16, GGML_TYPE_Q4_0])
    {d d' : DType} (hd : aufDtypeToEngine (ggmlTypeToTensorDtype k).asU32 = some d)
    (hd' : ggmlTypeToDtype k = .ok d') : d = d' := by
  simp only [List.mem_cons, List.not_mem_nil, or_false] at hk
  rcases hk with rfl | rfl | rfl
  all_goals
    cases hd
    cases hd'
    rfl

/-- **A tensor that keeps its type** is read alike. -/
theorem exists_readAlike (hconv : ConvertedTo args blobs defaultDtype payload v)
    (hblobs : extractWeightBlobs fl gguf config args.dtypes args.includeLmHead =
    .ok (blobs, present)) (hdefault : args.resolveDefault = .ok defaultDtype) (hcpu :
    TAG_WEIGHTS_CPU_AOS ∈ args.variantTags) (hlisted : Listed config id) (hfind :
    gguf.findTensor (resolveName id) = some info) (htype : Supported info) (hrows :
    RowsMatch config (resolveName id) info) (hkept : id = .lmHead → ¬ args.Requantizes info)
      (hserves : args.Serves (ggmlTypeToTensorDtype info.ggmlType) info.dims.length) :
    ∃ t, GgufSource.loadTensorCpu fl ⟨gguf, config⟩ id = .ok t ∧ (t.bytes ≠ [] → ∃ u,
      (AufSource.mk v .cpuAos none).materialiseCpuTensor id = .ok u ∧
      ReadAlike fl gguf (resolveName id) info t (AufSource.mk v .cpuAos none) u) := by
  obtain ⟨raw, bytes, b, hraw, hbytes, hb, hshape, hpieces⟩ := exists_own hblobs hlisted hfind hkept
  have hrank : (shapeLogical info).length = info.dims.length := by
    rw [shapeLogical, List.length_map, List.length_reverse]
  obtain ⟨hmem, hown⟩ : (ggmlTypeToTensorDtype info.ggmlType, bytes) ∈ b.dtypeBytes ∧
      ((∀ y ∈ b.dtypeBytes, y = (ggmlTypeToTensorDtype info.ggmlType, bytes)) ∨
        v.aufMeta.defaultDtype = some (dtypeToMetaStr (ggmlTypeToTensorDtype info.ggmlType)) ∧
        ∀ y ∈ b.dtypeBytes,
          y.1 = ggmlTypeToTensorDtype info.ggmlType →
          y = (ggmlTypeToTensorDtype info.ggmlType, bytes)) := by
    rcases hpieces with hone | hcands
    · rw [hone]
      exact ⟨List.mem_singleton_self _, .inl fun y hy => List.mem_singleton.mp hy⟩
    · rw [hcands]
      exact served_candidates hconv hdefault (hrank.symm ▸ hserves)
  obtain ⟨d, hd⟩ : ∃ d, aufDtypeToEngine (ggmlTypeToTensorDtype info.ggmlType).asU32 = some d := by
    cases ggmlTypeToTensorDtype info.ggmlType <;> exact ⟨_, rfl⟩
  have hread : bytes ≠ [] → ∃ u, (AufSource.mk v .cpuAos none).materialiseCpuTensor id = .ok u ∧
      u.shape = (shapeLogical info).map UInt64.toNat ∧ u.buffer.dtype = d ∧
      (AufSource.mk v .cpuAos none).bytesOf u = padded64 bytes := by
    intro hne
    rw [← hshape]
    exact exists_materialised hconv hblobs hcpu hlisted hb hmem hown hne hd
  by_cases hfloats : IsNarrowed (resolveName id) info
  · obtain rfl := restoreRows_narrowed hfloats hbytes
    refine ⟨_, loadRawCpu_narrowed hfind hraw hfloats, fun hne => ?_⟩
    have hsome : bytes ≠ [] := by
      rintro rfl
      exact hne rfl
    obtain ⟨u, hu, hushape, hudtype, hubytes⟩ := hread hsome
    refine ⟨u, hu, ⟨hushape.trans (shape_of_tensorData hraw hsome), fun h => absurd hfloats h,
      fun h => absurd hfloats h, fun _ => ⟨rfl, ?_, bytes, hraw, rfl, hubytes⟩⟩⟩
    rw [hfloats.1] at hd
    exact hudtype.trans (Option.some.inj hd).symm
  · obtain ⟨d', hd', hload⟩ := loadRawCpu_eq fl hfind htype hraw hbytes hrows hfloats
    refine ⟨_, hload, fun hne => ?_⟩
    obtain ⟨u, hu, hushape, hudtype, hubytes⟩ := hread hne
    have hsome : raw ≠ [] := by
      rintro rfl
      exact hne (List.eq_nil_of_length_eq_zero (length_restoreRows hbytes))
    refine ⟨u, hu, ⟨hushape.trans (shape_of_tensorData hraw hsome), fun _ => hubytes,
      fun _ hkind => ?_, fun h => absurd h hfloats⟩⟩
    exact hudtype.trans (engineDtype_eq hkind hd hd')

/-- **An lm_head that is quantized** is read as `Q4_0`. -/
theorem exists_requantized (hconv : ConvertedTo args blobs defaultDtype payload v)
    (hblobs : extractWeightBlobs fl gguf config args.dtypes args.includeLmHead =
    .ok (blobs, present)) (hdefault : args.resolveDefault = .ok defaultDtype) (hcpu :
    TAG_WEIGHTS_CPU_AOS ∈ args.variantTags) (hfind :
    gguf.findTensor LM_HEAD_SEPARATE_NAME = some info) (hre : args.Requantizes info) (hserves :
    args.Serves .q4_0 2) : ∃ t raw q4Bytes,
      GgufSource.loadTensorCpu fl ⟨gguf, config⟩ .lmHead = .ok t ∧ gguf.tensorData info = .ok raw ∧
      quantizeLmHeadToQ40 fl raw (shapeLogical info) info.ggmlType = .ok q4Bytes ∧
      (raw ≠ [] → q4Bytes ≠ [] → ∃ u,
        (AufSource.mk v .cpuAos none).materialiseCpuTensor .lmHead = .ok u ∧ u.shape = t.shape ∧
        u.buffer.dtype = .q4_0 ∧ (AufSource.mk v .cpuAos none).bytesOf u = padded64 q4Bytes) := by
  have hlisted : Listed config .lmHead := trivial
  obtain ⟨ob, hb⟩ := exists_blobOf hblobs hlisted
  obtain ⟨present', hlm⟩ := ok_blobOf_lmHead.mp hb
  rcases exists_taken hlm with ⟨head, hhead, htaken⟩ | ⟨hnone, -⟩
  · obtain rfl : info = head := Option.some.inj (hfind.symm.trans hhead)
    cases htaken with
    | left htied => exact absurd htied Bool.false_ne_true
    | own raw hraw hsep hown =>
      rcases hown with hoff | ⟨hhalf, hfull⟩
      · exact absurd hoff hre.1
      · exact absurd hre.2 (not_or.mpr ⟨hhalf, hfull⟩)
    | quantized raw hraw hmode htype =>
      rcases hre.2 with h | h <;> exact absurd (htype.symm.trans h) (by decide)
    | requantized raw q4Bytes dtypeBytes hraw hmode htype hq4 hdtypes =>
      obtain ⟨hmem, hown⟩ := served_lmHead hconv hdefault hserves hdtypes
      have hload : ∃ t, GgufSource.loadTensorCpu fl ⟨gguf, config⟩ .lmHead = .ok t ∧
        t.shape = info.dims.reverse := by
        by_cases hfloats : IsNarrowed LM_HEAD_SEPARATE_NAME info
        · exact ⟨_, loadRawCpu_narrowed hfind hraw hfloats, rfl⟩
        · have hsupported : Supported info := by
            rcases htype with h | h <;> rw [Supported, h] <;> decide
          have hrows : RowsMatch config LM_HEAD_SEPARATE_NAME info := by
            intro heads h
            have hnone : qkPermuteShapeLocal config LM_HEAD_SEPARATE_NAME = none :=
              qkPermuteShapeLocal_cross (by decide +kernel)
            cases hnone.symm.trans h
          obtain ⟨d, -, hload⟩ :=
            loadRawCpu_eq fl hfind hsupported hraw restoreRows_lmHead hrows hfloats
          exact ⟨_, hload, rfl⟩
      obtain ⟨t, ht, hshape⟩ := hload
      refine ⟨t, raw, q4Bytes, ht, hraw, hq4, fun hsome hne => ?_⟩
      obtain ⟨u, hu, hushape, hudtype, hubytes⟩ :=
        exists_materialised hconv hblobs hcpu hlisted hb hmem hown hne
          (show aufDtypeToEngine TensorDType.q4_0.asU32 = some .q4_0 from rfl)
      exact ⟨u, hu, (hushape.trans (shape_of_tensorData hraw hsome)).trans hshape.symm,
        hudtype, hubytes⟩
  · cases hfind.symm.trans hnone

end Alike

/-- **The model is preserved**: what the two sources read of the same model. -/
structure Preserved (fl : FloatOps) (args : BuildArgs) (gguf : GgufFile) (config : ModelConfig)
    (auf : AufSource) : Prop where
  tensors : ∀ id info, Listed config id → gguf.findTensor (resolveName id) = some info →
    Supported info → RowsMatch config (resolveName id) info →
    (id = .lmHead → ¬ args.Requantizes info) → args.Serves (ggmlTypeToTensorDtype info.ggmlType)
      info.dims.length → ∃ t, GgufSource.loadTensorCpu fl ⟨gguf, config⟩ id = .ok t ∧
      (t.bytes ≠ [] → ∃ u,
        auf.materialiseCpuTensor id = .ok u ∧ ReadAlike fl gguf (resolveName id) info t auf u)
  /-- A separate lm_head that is quantized. -/
  lmHead : ∀ info, gguf.findTensor LM_HEAD_SEPARATE_NAME = some info → args.Requantizes info →
    args.Serves .q4_0 2 → ∃ t raw q4Bytes, GgufSource.loadTensorCpu fl ⟨gguf, config⟩ .lmHead =
    .ok t ∧ gguf.tensorData info = .ok raw ∧
      quantizeLmHeadToQ40 fl raw (shapeLogical info) info.ggmlType = .ok q4Bytes ∧
      (raw ≠ [] → q4Bytes ≠ [] → ∃ u,
        auf.materialiseCpuTensor .lmHead = .ok u ∧ u.shape = t.shape ∧ u.buffer.dtype = .q4_0 ∧
        auf.bytesOf u = padded64 q4Bytes)
  /-- AUF has no place for some norms. -/
  refused : ∀ id, tensorIdToAuf id = none → auf.materialiseCpuTensor id =
    .error (.err (.unsupported id))
  presence : ∀ id, Listed config id →
    (id = .lmHead → ∀ head embed, gguf.findTensor LM_HEAD_SEPARATE_NAME = some head →
      gguf.findTensor LM_HEAD_TIED_SOURCE_NAME = some embed →
      shapeLogical head ≠ shapeLogical embed) →
    auf.hasTensor id = (GgufSource.mk gguf config).hasTensor id

section Main

variable {bytesFor : Container → ℕ → ℕ} {stack : ℕ} {data out : List UInt8}
  {fl : FloatOps} {json : MetaJson} {args : BuildArgs} {gguf : GgufFile} {config : ModelConfig}
  {blobs : List WeightBlob} {present : Bool}

theorem exists_preserved (hbuild : cmdBuild fl json args gguf = .ok out)
    (hjson : MetaReadBack fl json args gguf) (htok : args.tokenizer.Fits)
    (hcpu : TAG_WEIGHTS_CPU_AOS ∈ args.variantTags)
    (hrank : ∀ t ∈ gguf.tensors, t.dims.length < 2 ^ 32)
    (hcount : ∀ config blobs present, parseModelConfig fl gguf = .ok config →
      extractWeightBlobs fl gguf config args.dtypes args.includeLmHead = .ok (blobs, present) →
      (pieces blobs).length < 2 ^ 32) :
    ∃ config auf, GgufSource.openGguf fl gguf = .ok ⟨gguf, config⟩ ∧
      AufSource.openFile json out .cpuAos none = .ok auf ∧ Preserved fl args gguf config auf := by
  obtain ⟨config, blobs, present, defaultDtype, payload, v, hconfig, hblobs,
    hdefault, hopen, hconv⟩ :=
    exists_converted hbuild hjson htok hcpu hrank hcount
  refine ⟨config, _, ?_, hopen, ⟨fun id info hlisted hfind htype hrows hkept hserves => ?_,
    fun info hfind hre hserves => exists_requantized hconv hblobs hdefault hcpu hfind hre hserves,
    fun id hid => ?_, fun id hlisted happart => ?_⟩⟩
  · unfold GgufSource.openGguf
    rw [hconfig]
    rfl
  · exact exists_readAlike hconv hblobs hdefault hcpu hlisted hfind htype hrows hkept hserves
  · unfold AufSource.materialiseCpuTensor
    rw [hid]
    rfl
  · by_cases hid : id = .lmHead
    · subst hid
      exact hasTensor_lmHead defaultDtype hblobs hconv (happart rfl)
    · obtain ⟨place, hplace⟩ := Option.isSome_iff_exists.mp (layerKind_resolveName hlisted).2
      rw [AufSource.hasTensor, if_neg fun h => hid h.1, hplace]
      show (!(v.tensorIndex.entriesFor place.1 place.2.asU32).isEmpty) =
        (gguf.findTensor (resolveName id)).isSome
      rw [hconv.index]
      exact isEmpty_entriesFor defaultDtype hblobs hid hlisted hplace

end Main

end ArgusEngine.Auf
