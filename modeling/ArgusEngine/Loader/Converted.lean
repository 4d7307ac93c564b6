import ArgusEngine.Auf.Extract
import ArgusEngine.Auf.RoundTrip
import ArgusEngine.Loader.AufInside

/-!
# A converted model

The same model read from its GGUF file and from the AUF file that `auf_tool` builds of it.

* `AufSource.openFile`, `AufSource.hasTensor`: the AUF side; whether the lm_head is tied is inferred
  from the index;
* **`blobOf_eq`**, **`exists_taken`**: what is extracted for a tensor, and for the lm_head;
* **`entryFor_of_mem`**, **`lookup_own`**: the entries of the index for a tensor, and the one that
  is looked up;
* **`materialise_of_lookup`**: what is read of that entry;
* **`exists_converted`**: the file that is built is opened, with this index.
-/

namespace ArgusEngine.Auf

open FlatMem Checked Gguf

/-! ## The source -/

/-- `parse_arch_str`. -/
def parseArchStr (s : String) : Except (Fault String) ModelArch :=
  let lower := s.toLower
  if lower = "llama" then .ok .llama
  else if lower = "qwen2" ∨ lower = "qwen2.5" then .ok .qwen2
  else if lower = "gemma3" then .ok .gemma3
  else .error (.err s!"AUF: unsupported architecture '{lower}' (expected llama / qwen2 / gemma3)")

/-- `infer_tie_word_embeddings`. -/
def inferTieWordEmbeddings (view : AufView) : Bool :=
  match view.tensorIndex.findLmHeadEntry with
  | none => true
  | some lmHead =>
    match view.tensorIndex.entries.find? fun e =>
        e.kind == TensorKind.embedding.asU32 && e.layerIdx == LAYER_IDX_CROSS with
    | none => false
    | some embed => embed.shape == lmHead.shape

namespace AufSource

/-- `AufSource::open` with a variant of its own, on the bytes of the file. -/
def openFile (json : MetaJson) (bytes : List UInt8) (variantTag : BackendTag)
    (primaryDtype : Option TensorDType) : Except (Fault String) AufSource := do
  let view ← liftErr (fun e => s!"AUF open failed: {e.display}")
    (openFromMmap json bytes variantTag)
  let _ ← parseArchStr view.aufMeta.architecture
  return ⟨view, variantTag, primaryDtype⟩

/-- `has_tensor`. -/
def hasTensor (s : AufSource) (id : TensorId) : Bool :=
  if id = .lmHead ∧ inferTieWordEmbeddings s.view then false
  else
    match tensorIdToAuf id with
    | none => false
    | some (layerIdx, kind) => !(s.view.tensorIndex.entriesFor layerIdx kind.asU32).isEmpty

/-- The bytes of a tensor that was read. -/
def bytesOf (s : AufSource) (t : CpuTensor) : List UInt8 :=
  slice s.view.mmap t.buffer.absOffset t.buffer.size

end AufSource

/-! ## The entries of a tensor -/

section Entries

variable {fl : FloatOps} {gguf : GgufFile} {config : ModelConfig}
  {candidateDtypes : Option (List TensorDType)} {mode : IncludeLmHeadMode} {id : TensorId}
  {b : WeightBlob} {info : GgufTensorInfo} {blobs : List WeightBlob} {present : Bool}
  {tags : List String} {defaultDtype : Option TensorDType} {place : UInt32 × TensorKind}
  {e : TensorEntry} {x : TensorDType × List UInt8}

theorem qkPermuteShapeLocal_cross {name : String}
    (hstem : stripPrefix (asBytes name) (asBytes "blk.") = none) :
    qkPermuteShapeLocal config name = none := by
  unfold qkPermuteShapeLocal
  split_ifs
  · rfl
  · rw [hstem]
    rfl

theorem crossBlob_eq {name : String} (hname : name ∈ regularCross) :
    crossBlob fl gguf candidateDtypes name = layerBlob fl gguf config candidateDtypes name := by
  have hstem : ∀ name ∈ regularCross, stripPrefix (asBytes name) (asBytes "blk.") =
    none := by decide +kernel
  unfold crossBlob layerBlob restoreRows
  rw [qkPermuteShapeLocal_cross (hstem name hname)]
  cases gguf.findTensor name with
  | none => rfl
  | some info => rfl

/-- **A tensor other than the lm_head** is extracted with its rows restored. -/
theorem blobOf_eq (hid : id ≠ .lmHead) :
    blobOf fl gguf config candidateDtypes mode id = layerBlob fl gguf config candidateDtypes
      (resolveName id) := by
  cases id with
  | embed => exact crossBlob_eq (by decide)
  | finalNorm => exact crossBlob_eq (by decide)
  | lmHead => exact absurd rfl hid
  | layerWeight layer kind => rfl
  | layerBias layer kind => rfl

theorem ok_layerBlob {name : String} {ob : Option WeightBlob}
    (hfind : gguf.findTensor name = some info) :
    layerBlob fl gguf config candidateDtypes name = .ok ob ↔ ∃ raw bytes,
      gguf.tensorData info = .ok raw ∧
      restoreRows config name raw = .ok bytes ∧ ob = some ⟨name, shapeLogical info,
        buildDtypeCandidates fl candidateDtypes bytes (ggmlTypeToTensorDtype info.ggmlType)
          (shapeLogical info)⟩ := by
  unfold layerBlob
  rw [hfind]
  simp only [ok_bind]
  constructor
  · rintro ⟨raw, hraw, bytes, hbytes, h⟩
    exact ⟨raw, bytes, hraw, hbytes, (Except.ok.inj h).symm⟩
  · rintro ⟨raw, bytes, hraw, hbytes, rfl⟩
    exact ⟨raw, hraw, bytes, hbytes, rfl⟩

theorem mem_pieces {x : WeightBlob × TensorDType × List UInt8} :
    x ∈ pieces blobs ↔ x.1 ∈ blobs ∧ x.2 ∈ x.1.dtypeBytes := by
  rw [pieces, List.mem_flatMap]
  constructor
  · rintro ⟨b, hb, hx⟩
    obtain ⟨y, hy, rfl⟩ := List.mem_map.mp hx
    exact ⟨hb, hy⟩
  · rintro ⟨hb, hy⟩
    exact ⟨x.1, hb, List.mem_map.mpr ⟨x.2, hy, rfl⟩⟩

/-- The ways an lm_head is taken out of the tensor `info`. -/
inductive LmHeadTaken (fl : FloatOps) (gguf : GgufFile)
    (candidateDtypes : Option (List TensorDType)) (mode : IncludeLmHeadMode) (isTied : Bool)
    (info : GgufTensorInfo) : Option WeightBlob → Prop
  | left (htied : isTied = true) : LmHeadTaken fl gguf candidateDtypes mode isTied info none
  | own (raw : List UInt8) (hraw : gguf.tensorData info = .ok raw) (hsep : isTied = false)
      (hown : mode = .off ∨ info.ggmlType ≠ GGML_TYPE_F16 ∧ info.ggmlType ≠ GGML_TYPE_F32) :
      LmHeadTaken fl gguf candidateDtypes mode isTied info
        (some ⟨LM_HEAD_SEPARATE_NAME, shapeLogical info,
        [(ggmlTypeToTensorDtype info.ggmlType, raw)]⟩)
  | quantized (raw : List UInt8) (hraw : gguf.tensorData info = .ok raw) (hmode : mode ≠ .off)
      (htype : info.ggmlType = GGML_TYPE_Q4_0) :
      LmHeadTaken fl gguf candidateDtypes mode isTied info
        (some ⟨LM_HEAD_SEPARATE_NAME, shapeLogical info, buildDtypeCandidates fl candidateDtypes raw
          (ggmlTypeToTensorDtype info.ggmlType) (shapeLogical info)⟩)
  | requantized (raw q4Bytes : List UInt8) (dtypeBytes : List (TensorDType × List UInt8))
      (hraw : gguf.tensorData info = .ok raw) (hmode : mode ≠ .off)
      (htype : info.ggmlType = GGML_TYPE_F16 ∨ info.ggmlType = GGML_TYPE_F32)
      (hq4 : quantizeLmHeadToQ40 fl raw (shapeLogical info) info.ggmlType = .ok q4Bytes)
      (hdtypes : lmHeadCandidates fl candidateDtypes q4Bytes raw
        (ggmlTypeToTensorDtype info.ggmlType) (shapeLogical info) = .ok dtypeBytes) :
        LmHeadTaken fl gguf candidateDtypes mode isTied info
          (some ⟨LM_HEAD_SEPARATE_NAME, shapeLogical info, dtypeBytes⟩)

theorem taken_lmHeadBlob {ob : Option WeightBlob} {source : LmHeadSource}
    (hsource : selectLmHeadSource (gguf.findTensor LM_HEAD_SEPARATE_NAME).isSome
      (gguf.findTensor LM_HEAD_TIED_SOURCE_NAME).isSome = some source)
    (hfind : gguf.findTensor source.sourceName = some info)
    (h : lmHeadBlob fl gguf config candidateDtypes mode = .ok (ob, present)) :
    LmHeadTaken fl gguf candidateDtypes mode source.isTied info ob := by
  unfold lmHeadBlob at h
  rw [hsource] at h
  dsimp only at h
  rw [hfind, show expect "source exists" (some info) = .ok info from rfl, ok_seq] at h
  by_cases hoff : mode = .off
  · rw [if_pos hoff] at h
    cases htied : source.isTied with
    | true =>
      rw [htied, if_pos rfl] at h
      cases h
      exact .left rfl
    | false =>
      rw [htied, if_neg Bool.false_ne_true] at h
      obtain ⟨raw, hraw, h⟩ := ok_bind.mp h
      cases h
      exact .own raw hraw rfl (.inl hoff)
  · rw [if_neg hoff] at h
    obtain ⟨raw, hraw, h⟩ := ok_bind.mp h
    obtain ⟨-, -, h⟩ := ok_bind.mp h
    by_cases hq4 : info.ggmlType = GGML_TYPE_Q4_0
    · rw [if_pos hq4] at h
      cases h
      exact .quantized raw hraw hoff hq4
    · rw [if_neg hq4] at h
      by_cases hhalf : info.ggmlType = GGML_TYPE_F16 ∨ info.ggmlType = GGML_TYPE_F32
      · rw [if_pos hhalf] at h
        obtain ⟨-, -, h⟩ := ok_bind.mp h
        obtain ⟨q4Bytes, hq4Bytes, h⟩ := ok_bind.mp h
        obtain ⟨dtypeBytes, hdtypes, h⟩ := ok_bind.mp h
        cases h
        exact .requantized raw q4Bytes dtypeBytes hraw hoff hhalf hq4Bytes hdtypes
      · rw [if_neg hhalf] at h
        cases htied : source.isTied with
        | true =>
          rw [htied, if_pos rfl] at h
          cases h
          exact .left rfl
        | false =>
          rw [htied, if_neg Bool.false_ne_true] at h
          cases h
          exact .own raw hraw rfl (.inr (not_or.mp hhalf))

theorem selectLmHeadSource_cases (gguf : GgufFile) :
    (∃ info, gguf.findTensor LM_HEAD_SEPARATE_NAME = some info ∧ selectLmHeadSource
      (gguf.findTensor LM_HEAD_SEPARATE_NAME).isSome
        (gguf.findTensor LM_HEAD_TIED_SOURCE_NAME).isSome = some ⟨LM_HEAD_SEPARATE_NAME, false⟩) ∨
    gguf.findTensor LM_HEAD_SEPARATE_NAME = none ∧
      ((∃ info, gguf.findTensor LM_HEAD_TIED_SOURCE_NAME = some info ∧ selectLmHeadSource
        (gguf.findTensor LM_HEAD_SEPARATE_NAME).isSome
          (gguf.findTensor LM_HEAD_TIED_SOURCE_NAME).isSome =
          some ⟨LM_HEAD_TIED_SOURCE_NAME, true⟩) ∨
      selectLmHeadSource (gguf.findTensor LM_HEAD_SEPARATE_NAME).isSome
        (gguf.findTensor LM_HEAD_TIED_SOURCE_NAME).isSome = none) := by
  cases hsep : gguf.findTensor LM_HEAD_SEPARATE_NAME with
  | some info => exact .inl ⟨info, rfl, rfl⟩
  | none =>
    cases htied : gguf.findTensor LM_HEAD_TIED_SOURCE_NAME with
    | some info => exact .inr ⟨rfl, .inl ⟨info, rfl, rfl⟩⟩
    | none => exact .inr ⟨rfl, .inr rfl⟩

/-- **The lm_head that is extracted**: of a separate one or of the embedding. -/
theorem exists_taken {ob : Option WeightBlob}
    (h : lmHeadBlob fl gguf config candidateDtypes mode = .ok (ob, present)) :
    (∃ info, gguf.findTensor LM_HEAD_SEPARATE_NAME = some info ∧
      LmHeadTaken fl gguf candidateDtypes mode false info ob) ∨
    gguf.findTensor LM_HEAD_SEPARATE_NAME = none ∧ (ob = none ∨ ∃ info,
      gguf.findTensor LM_HEAD_TIED_SOURCE_NAME = some info ∧
        LmHeadTaken fl gguf candidateDtypes mode true info ob) := by
  rcases selectLmHeadSource_cases gguf with ⟨info, hfind, hsource⟩ |
    ⟨hnone, ⟨info, hfind, hsource⟩ | hsource⟩
  · exact .inl ⟨info, hfind, taken_lmHeadBlob hsource hfind h⟩
  · exact .inr ⟨hnone, .inr ⟨info, hfind, taken_lmHeadBlob hsource hfind h⟩⟩
  · unfold lmHeadBlob at h
    rw [hsource] at h
    cases h
    exact .inr ⟨hnone, .inl rfl⟩

theorem name_of_taken {isTied : Bool}
    (h : LmHeadTaken fl gguf candidateDtypes mode isTied info (some b)) :
    b.name = LM_HEAD_SEPARATE_NAME ∧ b.shapeLogical = shapeLogical info := by
  cases h <;> exact ⟨rfl, rfl⟩

theorem ok_blobOf_lmHead {ob : Option WeightBlob} :
    blobOf fl gguf config candidateDtypes mode .lmHead = .ok ob ↔
      ∃ present, lmHeadBlob fl gguf config candidateDtypes mode = .ok (ob, present) := by
  show Prod.fst <$> lmHeadBlob fl gguf config candidateDtypes mode = .ok ob ↔ _
  cases lmHeadBlob fl gguf config candidateDtypes mode with
  | error e =>
    constructor
    · intro h
      cases h
    · rintro ⟨present, h⟩
      cases h
  | ok r =>
    constructor
    · intro h
      cases h
      exact ⟨r.2, rfl⟩
    · rintro ⟨present, h⟩
      cases h
      rfl

theorem name_blobOf (h : blobOf fl gguf config candidateDtypes mode id = .ok (some b)) :
    b.name = resolveName id := by
  by_cases hid : id = .lmHead
  · subst hid
    obtain ⟨present, hlm⟩ := ok_blobOf_lmHead.mp h
    rcases exists_taken hlm with ⟨info, -, htaken⟩ | ⟨-, hnone | ⟨info, -, htaken⟩⟩
    · exact (name_of_taken htaken).1
    · cases hnone
    · exact (name_of_taken htaken).1
  · rw [blobOf_eq hid] at h
    cases hfind : gguf.findTensor (resolveName id) with
    | none =>
      unfold layerBlob at h
      rw [hfind] at h
      cases h
    | some info =>
      obtain ⟨raw, bytes, -, -, hb⟩ := (ok_layerBlob hfind).mp h
      exact (Option.some.inj hb) ▸ rfl

theorem mem_of_findTensor {name : String} (h : gguf.findTensor name = some info) :
    info ∈ gguf.tensors :=
  List.mem_reverse.mp (List.mem_of_find?_eq_some h)

theorem shape_blobOf (h : blobOf fl gguf config candidateDtypes mode id = .ok (some b)) :
    ∃ name info, gguf.findTensor name = some info ∧ b.shapeLogical = shapeLogical info := by
  by_cases hid : id = .lmHead
  · subst hid
    obtain ⟨present, hlm⟩ := ok_blobOf_lmHead.mp h
    rcases exists_taken hlm with ⟨info, hfind, htaken⟩ | ⟨-, hnone | ⟨info, hfind, htaken⟩⟩
    · exact ⟨_, info, hfind, (name_of_taken htaken).2⟩
    · cases hnone
    · exact ⟨_, info, hfind, (name_of_taken htaken).2⟩
  · rw [blobOf_eq hid] at h
    cases hfind : gguf.findTensor (resolveName id) with
    | none =>
      unfold layerBlob at h
      rw [hfind] at h
      cases h
    | some info =>
      obtain ⟨raw, bytes, -, -, hb⟩ := (ok_layerBlob hfind).mp h
      exact ⟨_, info, hfind, (Option.some.inj hb) ▸ rfl⟩

section Index

variable (hblobs : extractWeightBlobs fl gguf config candidateDtypes mode = .ok (blobs, present))

include hblobs

/-- **The entries at the place of a tensor** are those of its types. -/
theorem entryFor_of_mem (hlisted : Listed config id) (hplace : tensorIdToAuf id = some place)
    (he : e ∈ (buildTensorIndex blobs tags defaultDtype).entriesFor place.1 place.2.asU32) :
    ∃ b x, blobOf fl gguf config candidateDtypes mode id = .ok (some b) ∧ x ∈ b.dtypeBytes ∧
      EntryFor blobs tags (b, x) e := by
  obtain ⟨hmem, hkey⟩ := List.mem_filter.mp he
  rw [Bool.and_eq_true, beq_iff_eq, beq_iff_eq] at hkey
  obtain ⟨⟨b, x⟩, hx, hentry⟩ := (mem_buildTensorIndex blobs tags defaultDtype).2 e hmem
  obtain ⟨hb, hxb⟩ := mem_pieces.mp hx
  obtain ⟨id', hlisted', hok⟩ := (mem_extractWeightBlobs hblobs).mp hb
  obtain ⟨hname, hsome⟩ := layerKind_resolveName hlisted'
  obtain ⟨place', hplace'⟩ := Option.isSome_iff_exists.mp hsome
  have hkind := hentry.kind
  rw [name_blobOf hok, hname, hplace', Option.map_some, Option.some.injEq, Prod.mk.injEq] at hkind
  have hsame : place' = place :=
    Prod.ext (hkind.1.trans hkey.1) (TensorKind.asU32_inj (hkind.2.trans hkey.2))
  have hid : id' = id := by
    rw [← tensorIdOf_tensorIdToAuf hlisted' hplace', hsame, tensorIdOf_tensorIdToAuf hlisted hplace]
  exact ⟨b, x, hid ▸ hok, hxb, hentry⟩

theorem exists_entryFor (hlisted : Listed config id) (hplace : tensorIdToAuf id = some place)
    (hb : blobOf fl gguf config candidateDtypes mode id = .ok (some b)) (hx : x ∈ b.dtypeBytes) :
    ∃ e ∈ (buildTensorIndex blobs tags defaultDtype).entriesFor place.1 place.2.asU32,
      EntryFor blobs tags (b, x) e := by
  obtain ⟨hname, -⟩ := layerKind_resolveName hlisted
  rw [← name_blobOf hb, hplace] at hname
  have hmem : b ∈ blobs := (mem_extractWeightBlobs hblobs).mpr ⟨id, hlisted, hb⟩
  obtain ⟨e, he, hentry⟩ := (mem_buildTensorIndex blobs tags defaultDtype).1 (b, x)
    (mem_pieces.mpr ⟨hmem, hx⟩)
      (show (tensorNameToLayerKind b.name).isSome = true by rw [hname]; rfl)
  have hkind := hentry.kind
  rw [hname, Option.map_some, Option.some.injEq, Prod.mk.injEq] at hkind
  exact ⟨e, List.mem_filter.mpr ⟨he,
    by rw [hkind.1, hkind.2, beq_self_eq_true, beq_self_eq_true]; rfl⟩, hentry⟩

/-- **The entry of a type is looked up** where there is no other type, or where it is the default
one. -/
theorem lookup_own (hlisted : Listed config id) (hplace : tensorIdToAuf id = some place)
    {v : AufView} (hindex : v.tensorIndex = buildTensorIndex blobs tags defaultDtype)
    (hb : blobOf fl gguf config candidateDtypes mode id = .ok (some b)) (hx : x ∈ b.dtypeBytes)
    (hown : (∀ y ∈ b.dtypeBytes, y = x) ∨
      v.aufMeta.defaultDtype = some (dtypeToMetaStr x.1) ∧ ∀ y ∈ b.dtypeBytes, y.1 = x.1 → y = x) :
    ∃ e, v.lookupTensor place.1 place.2.asU32 none = .ok e ∧ EntryFor blobs tags (b, x) e := by
  obtain ⟨e₀, he₀, hentry₀⟩ :
    ∃ e ∈ (buildTensorIndex blobs tags defaultDtype).entriesFor place.1 place.2.asU32,
      EntryFor blobs tags (b, x) e := exists_entryFor hblobs hlisted hplace hb hx
  have hall : ∀ e ∈ (buildTensorIndex blobs tags defaultDtype).entriesFor place.1 place.2.asU32,
      ∃ y ∈ b.dtypeBytes, EntryFor blobs tags (b, y) e := by
    intro e he
    obtain ⟨b', y, hb', hy, hentry⟩ := entryFor_of_mem hblobs hlisted hplace he
    obtain rfl : b' = b := Option.some.inj (Except.ok.inj (hb'.symm.trans hb))
    exact ⟨y, hy, hentry⟩
  have hfound : ∀ d e, (buildTensorIndex blobs tags defaultDtype).findEntryByDtype place.1
    place.2.asU32 d = some e →
      e ∈ (buildTensorIndex blobs tags defaultDtype).entriesFor place.1 place.2.asU32 ∧
      e.dtype = d := by
    intro d e he
    have hkey := List.find?_some he
    rw [Bool.and_eq_true, beq_iff_eq] at hkey
    exact ⟨List.mem_filter.mpr ⟨List.mem_of_find?_eq_some he, hkey.1⟩, hkey.2⟩
  obtain ⟨first, rest, hfirst⟩ := List.exists_cons_of_ne_nil (List.ne_nil_of_mem he₀)
  obtain ⟨preferred, hpreferred⟩ : ∃ preferred, (do
      let dtype ← dtypeStrToTensorDtype (← v.aufMeta.defaultDtype)
      (buildTensorIndex blobs tags defaultDtype).findEntryByDtype place.1 place.2.asU32 dtype.asU32)
        = preferred :=
    ⟨_, rfl⟩
  have hlookup : v.lookupTensor place.1 place.2.asU32 none = .ok (preferred.getD first) := by
    unfold AufView.lookupTensor
    rw [hindex, hfirst, ← hpreferred]
  rw [hlookup]
  have hmem : preferred.getD first ∈ (buildTensorIndex blobs tags defaultDtype).entriesFor
    place.1 place.2.asU32 := by
    cases preferred with
    | none => exact hfirst ▸ List.mem_cons_self
    | some e =>
      obtain ⟨s, -, h⟩ := Option.bind_eq_some_iff.mp hpreferred
      obtain ⟨d, -, he⟩ := Option.bind_eq_some_iff.mp h
      exact (hfound _ e he).1
  obtain ⟨y, hy, hentry⟩ := hall _ hmem
  refine ⟨_, rfl, ?_⟩
  rcases hown with hall | ⟨hmeta, hdtype⟩
  · exact hall y hy ▸ hentry
  · -- the default type has an entry, and it is preferred
    have hstr : dtypeStrToTensorDtype (dtypeToMetaStr x.1) = some x.1 := by cases x.1 <;> rfl
    rw [hmeta] at hpreferred
    simp only [Option.bind_eq_bind, Option.bind_some, hstr] at hpreferred
    have hsome : preferred.isSome = true := by
      rw [← hpreferred, TensorIndex.findEntryByDtype, List.find?_isSome]
      obtain ⟨hmem₀, hkey₀⟩ := List.mem_filter.mp he₀
      exact ⟨e₀, hmem₀, by rw [hkey₀, hentry₀.dtype]; exact beq_self_eq_true _⟩
    obtain ⟨e, rfl⟩ := Option.isSome_iff_exists.mp hsome
    have hsame : y.1 = x.1 :=
      TensorDType.asU32_inj (hentry.dtype.symm.trans (hfound _ e hpreferred).2)
    exact hdtype y hy hsame ▸ hentry

end Index

end Entries

/-! ## Reading an entry -/

section Read

variable {v : AufView} {id : TensorId} {place : UInt32 × TensorKind} {e : TensorEntry}
  {i : ℕ} {d : DType} {offset size : UInt64} {payload : List UInt8}

theorem ok_weightsBytes (hrange : v.weightsRange = some (offset, size))
    (h : v.weightsBytes = .ok (some payload)) : offset.toNat + payload.length ≤ v.mmap.length ∧
    payload = slice v.mmap offset.toNat payload.length := by
  unfold AufView.weightsBytes sectionBytes at h
  rw [hrange] at h
  simp only [ok_bind, ok_indexFrom, ok_index] at h
  obtain ⟨b, ⟨rest, ⟨hle, rfl⟩, hsize, rfl⟩, h⟩ := h
  obtain rfl := Option.some.inj (Except.ok.inj h)
  rw [List.length_drop] at hsize
  have hlen : (slice (v.mmap.drop offset.toNat) 0 (size.toNat - 0)).length = size.toNat := by
    rw [length_slice (by rw [List.length_drop]; omega), Nat.sub_zero]
  rw [hlen]
  exact ⟨by omega, by rw [slice, List.drop_zero, Nat.sub_zero]; rfl⟩

/-- **An entry is read** from the section that was opened. -/
theorem materialise_of_lookup (hplace : tensorIdToAuf id = some place)
    (hlookup : v.lookupTensor place.1 place.2.asU32 none = .ok e)
    (hi : v.tensorIndex.variantIndexForTag TAG_WEIGHTS_CPU_AOS = some i)
    (hrange : v.weightsRange = some (offset, size)) (hbytes : v.weightsBytes = .ok (some payload))
    (hfile : v.mmap.length < 2 ^ 63)
    (hin : (e.column i).1.toNat + (e.column i).2.toNat ≤ payload.length)
    (hpos : 0 < (e.column i).2.toNat) (hd : aufDtypeToEngine e.dtype = some d) :
    ∃ t, (AufSource.mk v .cpuAos none).materialiseCpuTensor id = .ok t ∧
      t.shape = e.shape.map UInt64.toNat ∧
      t.buffer.dtype = d ∧
      (AufSource.mk v .cpuAos none).bytesOf t = slice payload (e.column i).1.toNat
        (e.column i).2.toNat := by
  obtain ⟨hend, hslice⟩ := ok_weightsBytes hrange hbytes
  have hpresent : ¬ isAbsent (e.column i) := by
    rw [isAbsent, Bool.or_eq_true, beq_iff_eq, beq_iff_eq, not_or]
    refine ⟨fun h => ?_, fun h => ?_⟩
    · rw [h, toNat_ofNat64 (by decide)] at hin
      omega
    · rw [h] at hpos
      exact absurd hpos (by decide)
  obtain ⟨ho, hs⟩ := getElem?_of_present hpresent
  have hdtype : (AufSource.mk v .cpuAos none).lookupDtype id = none := ite_self _
  have hstop : offset.toNat + (e.column i).1.toNat + (e.column i).2.toNat ≤
    v.mmap.length := by omega
  refine ⟨⟨e.shape.map UInt64.toNat,
    ⟨offset.toNat + (e.column i).1.toNat, (e.column i).2.toNat, d⟩⟩, ?_, rfl, rfl, ?_⟩
  · unfold AufSource.materialiseCpuTensor
    rw [hplace]
    simp only [ok_bind, ok_okOr, ok_liftErr, ok_ensure, ok_add, ok_newBuffer, hdtype]
    exact ⟨place, rfl, e, hlookup, _, rfl, i, hi, _, ho, _, hs, (), hpresent, d, hd,
      (offset, size), hrange, _, ⟨show offset.toNat + _ < 2 ^ 64 by omega, rfl⟩, _,
      ⟨show offset.toNat + _ + _ < 2 ^ 64 by omega, hstop, rfl⟩, rfl⟩
  · rw [hslice, slice_slice _ _ hin]
    rfl

end Read

/-! ## The file that is built -/

/-- The bytes of a tensor in the variant of the CPU: zeros behind them, up to a multiple of 64. -/
def padded64 (bytes : List UInt8) : List UInt8 :=
  bytes ++ List.replicate (alignUp bytes.length 64 - bytes.length) 0

theorem padded64_of_ok {name : String} {bytes out : List UInt8} {shape : List UInt64}
    {dtype : TensorDType} (h : buildVariantTensorBytes name bytes shape dtype TAG_WEIGHTS_CPU_AOS =
    .ok out) : out = padded64 bytes := by
  have hcpu : buildVariantTensorBytes name bytes shape dtype TAG_WEIGHTS_CPU_AOS =
    q4_0AosWithAlign bytes 64 := by
    unfold buildVariantTensorBytes
    rw [if_neg (by decide), if_neg (by decide), if_pos rfl]
  have hle : bytes.length ≤ alignUp bytes.length 64 := le_alignUp _ _
  rw [hcpu, q4_0AosWithAlign] at h
  obtain ⟨zeros, hzeros, h⟩ := ok_bind.mp h
  obtain ⟨-, rfl⟩ := ok_vec.mp hzeros
  have hroom : 0 + bytes.length ≤
    (List.replicate (alignUp bytes.length 64) (0 : UInt8)).length := by
    rw [List.length_replicate, Nat.zero_add]
    exact hle
  rw [copyAt_of_le hroom] at h
  obtain rfl := Except.ok.inj h
  refine List.ext_getElem? fun i => ?_
  rw [getElem?_blit (Nat.zero_add _).le i hroom, padded64, List.getElem?_append,
    List.getElem?_replicate, List.getElem?_replicate]
  by_cases hi : i < bytes.length
  · rw [if_pos ⟨Nat.zero_le _, by omega⟩, if_pos hi, Nat.zero_add, Nat.sub_zero]
  · rw [if_neg (by omega), if_neg hi]
    exact if_congr (by omega) rfl rfl

section Built

variable {fl : FloatOps} {json : MetaJson} {args : BuildArgs} {gguf : GgufFile} {out : List UInt8}

theorem sections_of_foldlM {blobs : List WeightBlob} {tags : List String} {w w' : AufWriter}
    (h : tags.foldlM (fun (writer : AufWriter) tag => do
      let payload ← buildVariantPayload blobs tag
      return writer.addWeightsSection tag payload) w = .ok w') :
    ∃ sections, w' = { w with weightsSections := w.weightsSections ++ sections } ∧
      sections.map Prod.fst = tags ∧ ∀ s ∈ sections, buildVariantPayload blobs s.1 = .ok s.2 := by
  induction tags generalizing w with
  | nil =>
    cases h
    exact ⟨[], by rw [List.append_nil], rfl, fun s hs => absurd hs List.not_mem_nil⟩
  | cons tag tags ih =>
    rw [List.foldlM_cons] at h
    obtain ⟨_, hstep, h⟩ := ok_bind.mp h
    obtain ⟨payload, hpayload, hw⟩ := ok_bind.mp hstep
    cases hw
    obtain ⟨sections, rfl, htags, hall⟩ := ih h
    refine ⟨(tag, payload) :: sections, ?_,
      by rw [List.map_cons, htags], List.forall_mem_cons.mpr ⟨hpayload, hall⟩⟩
    rw [AufWriter.addWeightsSection, List.append_assoc, List.singleton_append]

/-- **A file with a section for the CPU** is opened at that section. -/
theorem exists_cpuView {w : AufWriter} {payload : List UInt8}
    (hjson : ∀ b, json.toVec w.aufMeta = .ok b → json.fromSlice b = .ok w.aufMeta)
    (hbuild : w.build json = .ok out) (htok : w.tokenizer.Fits) (hindex : w.index.Fits)
    (htags : (w.weightsSections.map Prod.fst).Nodup ∧ ∀ tag ∈ w.weightsSections.map Prod.fst,
      tag ∈ [TAG_WEIGHTS_ADRENO_SOA, TAG_WEIGHTS_CUDA_AOS, TAG_WEIGHTS_CPU_AOS])
    (hcpu : (TAG_WEIGHTS_CPU_AOS, payload) ∈ w.weightsSections) :
    ∃ v, openFromMmap json out .cpuAos = .ok v ∧ v.tensorIndex = w.index ∧ v.aufMeta = w.aufMeta ∧
      (∃ offset size, v.weightsRange = some (offset, size)) ∧ v.weightsBytes = .ok (some payload) ∧
      v.mmap.length < 2 ^ 63 := by
  have hfew : w.weightsSections.length ≤ 3 := by
    rw [← List.length_map (f := Prod.fst)]
    exact (htags.1.subperm htags.2).length_le
  obtain ⟨metaBytes, hmeta⟩ : ∃ metaBytes, json.toVec w.aufMeta = .ok metaBytes := by
    unfold AufWriter.build MetaJson.toJsonBytes at hbuild
    cases hvec : json.toVec w.aufMeta with
    | ok metaBytes => exact ⟨metaBytes, rfl⟩
    | error e =>
      rw [hvec] at hbuild
      cases hbuild
  have hknown : ∀ tag ∈ [TAG_WEIGHTS_ADRENO_SOA, TAG_WEIGHTS_CUDA_AOS, TAG_WEIGHTS_CPU_AOS],
      TagFits tag ∧ tag ∉ [TAG_META, TAG_TOKENIZER, TAG_TENSOR_INDEX] := by decide +kernel
  have hw : w.WellFormed json metaBytes := ⟨hmeta, hjson _ hmeta, htok, hindex, by omega, htags.1,
    fun s hs => hknown s.1 (htags.2 s.1 (List.mem_map_of_mem hs))⟩
  obtain ⟨-, htagLen, hsize, -⟩ := (ok_build (toJsonBytes_of hw)).mp hbuild
  obtain ⟨out', hout', hlen, hfile⟩ := exists_build (toJsonBytes_of hw) hw.nodup htagLen hsize
  obtain rfl : out = out' := Except.ok.inj (hbuild.symm.trans hout')
  have hcount : w.count < 2 ^ 32 := by
    unfold AufWriter.count
    omega
  obtain ⟨e, -, -, hopen, hbytes⟩ := exists_view hw ⟨hcount, hsize, hlen, hfile⟩ hcpu
    (show BackendTag.cpuAos.weightsSectionTag = some TAG_WEIGHTS_CPU_AOS from rfl)
  exact ⟨_, hopen, rfl, rfl, ⟨_, _, rfl⟩, hbytes, hlen.trans_lt hsize⟩

/-- The view of the file that is built for the blobs, opened for the CPU. -/
structure ConvertedTo (args : BuildArgs) (blobs : List WeightBlob)
    (defaultDtype : Option TensorDType) (payload : List UInt8) (v : AufView) : Prop where
  index : v.tensorIndex = buildTensorIndex blobs args.variantTags defaultDtype
  default : v.aufMeta.defaultDtype = if args.multiDtypeEnabled
    then defaultDtype.map dtypeToMetaStr else none
  range : ∃ offset size, v.weightsRange = some (offset, size)
  bytes : v.weightsBytes = .ok (some payload)
  payload : buildVariantPayload blobs TAG_WEIGHTS_CPU_AOS = .ok payload
  file : v.mmap.length < 2 ^ 63

theorem meta_of_build {config : ModelConfig} {aufMeta : AufMeta}
    (h : buildMetaFromGguf fl gguf = .ok aufMeta)
    (hconfig : parseModelConfig fl gguf = .ok config) :
    aufMeta.architecture = archName config.arch ∧ aufMeta.defaultDtype = none := by
  obtain ⟨config', hconfig', h⟩ := ok_bind.mp h
  obtain rfl : config' = config := Except.ok.inj ((ok_mapErr.mp hconfig').symm.trans hconfig)
  exact Except.ok.inj h ▸ ⟨rfl, rfl⟩

/-- The META of the model is parsed back from its JSON. -/
def MetaReadBack (fl : FloatOps) (json : MetaJson) (args : BuildArgs) (gguf : GgufFile) : Prop :=
  ∀ aufMeta defaultDtype b, buildMetaFromGguf fl gguf = .ok aufMeta →
    args.resolveDefault = .ok defaultDtype →
    json.toVec (args.withDefault aufMeta defaultDtype) = .ok b →
      json.fromSlice b = .ok (args.withDefault aufMeta defaultDtype)

/-- **The file that is built is opened**, with its index and its section for the CPU. -/
theorem exists_converted (hbuild : cmdBuild fl json args gguf = .ok out)
    (hjson : MetaReadBack fl json args gguf) (htok : args.tokenizer.Fits)
    (hcpu : TAG_WEIGHTS_CPU_AOS ∈ args.variantTags)
    (hrank : ∀ t ∈ gguf.tensors, t.dims.length < 2 ^ 32)
    (hcount : ∀ config blobs present, parseModelConfig fl gguf = .ok config →
      extractWeightBlobs fl gguf config args.dtypes args.includeLmHead = .ok (blobs, present) →
      (pieces blobs).length < 2 ^ 32) :
    ∃ config blobs present defaultDtype payload v, parseModelConfig fl gguf = .ok config ∧
      extractWeightBlobs fl gguf config args.dtypes args.includeLmHead = .ok (blobs, present) ∧
      args.resolveDefault = .ok defaultDtype ∧
      AufSource.openFile json out .cpuAos none = .ok ⟨v, .cpuAos, none⟩ ∧
      ConvertedTo args blobs defaultDtype payload v := by
  obtain ⟨defaultDtype, hdefault, h⟩ := ok_bind.mp hbuild
  obtain ⟨aufMeta, hmeta, h⟩ := ok_bind.mp h
  obtain ⟨config, hconfig, h⟩ := ok_bind.mp h
  obtain ⟨⟨blobs, present⟩, hblobs, h⟩ := ok_bind.mp h
  obtain ⟨w, hw, h⟩ := ok_bind.mp h
  rw [ok_mapErr] at hmeta hconfig
  rw [ok_liftErr] at h
  obtain ⟨sections, hwriter, htags, hsections⟩ := sections_of_foldlM hw
  have hsec : w.weightsSections = sections := hwriter ▸ rfl
  have hindex : w.index = buildTensorIndex blobs args.variantTags defaultDtype := hwriter ▸ rfl
  have hwmeta : w.aufMeta = args.withDefault aufMeta defaultDtype := hwriter ▸ rfl
  have htok' : w.tokenizer.Fits := hwriter ▸ htok
  have hlen : args.variantTags.length ≤ 3 := (args.variants.1.subperm args.variants.2).length_le
  have hfits : w.index.Fits := by
    rw [hindex]
    refine fits_buildTensorIndex defaultDtype (by omega)
      (hcount config blobs present hconfig hblobs) fun b hb => ?_
    obtain ⟨id, -, hok⟩ := (mem_extractWeightBlobs hblobs).mp hb
    obtain ⟨name, info, hfind, hshape⟩ := shape_blobOf hok
    rw [hshape, shapeLogical, List.length_map, List.length_reverse]
    exact hrank info (mem_of_findTensor hfind)
  obtain ⟨payload, hpayload⟩ : ∃ payload, (TAG_WEIGHTS_CPU_AOS, payload) ∈ sections := by
    rw [← htags] at hcpu
    obtain ⟨s, hs, htag⟩ := List.mem_map.mp hcpu
    exact ⟨s.2, htag ▸ hs⟩
  obtain ⟨v, hopen, hvindex, hvmeta, hrange, hbytes, hfile⟩ := exists_cpuView
    (fun b hb => hwmeta ▸ hjson aufMeta defaultDtype b hmeta hdefault (hwmeta ▸ hb)) h htok' hfits
    (by rw [hsec, htags]; exact args.variants) (hsec ▸ hpayload)
  refine ⟨config, blobs, present, defaultDtype, payload, v, hconfig, hblobs, hdefault, ?_,
    ⟨hvindex.trans hindex, ?_, hrange, hbytes, hsections _ hpayload, hfile⟩⟩
  · have harch : v.aufMeta.architecture = archName config.arch := by
      rw [hvmeta, hwmeta, BuildArgs.withDefault]
      split_ifs <;> exact (meta_of_build hmeta hconfig).1
    have hparse : ∃ a, parseArchStr v.aufMeta.architecture = .ok a := by
      rw [harch]
      cases config.arch with
      | llama => exact ⟨.llama, by decide +kernel⟩
      | qwen2 => exact ⟨.qwen2, by decide +kernel⟩
      | gemma3 => exact ⟨.gemma3, by decide +kernel⟩
    obtain ⟨a, ha⟩ := hparse
    unfold AufSource.openFile
    rw [hopen]
    show (parseArchStr v.aufMeta.architecture >>= _) = _
    rw [ha]
    rfl
  · rw [hvmeta, hwmeta, BuildArgs.withDefault]
    split_ifs
    · rfl
    · exact (meta_of_build hmeta hconfig).2

end Built

end ArgusEngine.Auf
