import ArgusEngine.Loader.AufSource

/-!
# Reads inside the WEIGHTS section

Opening an AUF file checks its sections, not the offsets and sizes of its tensor index. Which files
are read inside the WEIGHTS section that was opened, tensor by tensor, and with as many bytes as
shape and dtype take.

* `DType.bytesOf`: the bytes of a tensor;
* `layerTensor_layerIndexOf`: the table of a secondary holds the last entry of each name;
* `ReadsInside`: every read of the primary and of a secondary lies in the section;
* **`readsInside_iff`**: exactly where the entries that are picked fit.
-/

namespace ArgusEngine

/-- The bytes of `n` values. -/
def DType.bytesOf : DType → ℕ → ℕ
  | .f32, n => n * 4
  | .f16, n | .bf16, n => n * 2
  | .u8, n => n
  | .q4_0, n => n / 32 * 18
  | .q4_1, n => n / 32 * 20
  | .q8_0, n => n / 32 * 34

namespace Auf

open FlatMem Checked

/-! ## What is asked -/

/-- The bytes of a variant lie in a section of `size` bytes and are those of the shape and the
dtype. -/
def TensorEntry.InSection (e : TensorEntry) (variantIdx size : ℕ) : Prop :=
  (e.column variantIdx).1.toNat + (e.column variantIdx).2.toNat ≤ size ∧
    ∀ d ∈ aufDtypeToEngine e.dtype, (e.column variantIdx).2.toNat =
      d.bytesOf (e.shape.map UInt64.toNat).prod

/-- A tensor of the primary lies in the section and has the bytes of its shape and dtype. -/
def CpuTensor.Inside (t : CpuTensor) (offset size : ℕ) : Prop :=
  offset ≤ t.buffer.absOffset ∧ t.buffer.absOffset + t.buffer.size ≤ offset + size ∧
    t.buffer.size = t.buffer.dtype.bytesOf t.shape.prod

/-- A secondary of the view, opened on one of the three ways. -/
inductive BuiltFrom (v : AufView) (backend : BackendTag) (m : AufSecondaryMmap) : Prop where
  | build (n : ℕ) (path : String) (choice : SecondaryDtypeChoice)
      (h : buildAufSecondaryFromView v n path backend choice = .ok m)
  | self (n : ℕ) (dtype : TensorDType) (h : fromAufSelfSecondary v backend dtype n = .ok m)
  | recallF16 (n : ℕ) (h : openSecondaryF16ForRecall v backend n = .ok m)

/-- **Every read lies in the WEIGHTS section** `offset .. offset + size`. -/
structure ReadsInside (v : AufView) (backend : BackendTag) : Prop where
  primary : ∀ primaryDtype id,
    NoPanic ((AufSource.mk v backend primaryDtype).materialiseCpuTensor id) ∧ ∀ t,
    (AufSource.mk v backend primaryDtype).materialiseCpuTensor id = .ok t →
      ∃ offset size, v.weightsRange = some (offset, size) ∧ t.Inside offset.toNat size.toNat
  secondary : ∀ m, BuiltFrom v backend m → ∀ layer subname info,
    m.layerTensor layer subname = some info → ∃ offset size, v.weightsRange = some (offset, size) ∧
    info.offset + info.len ≤ size.toNat ∧
      m.tensorBytes info = .ok (slice v.mmap (offset.toNat + info.offset) info.len) ∧
      info.len = info.dtype.bytesOf info.dims.prod

/-- The dtypes a secondary can be opened with. -/
inductive Selects (v : AufView) (backend : BackendTag) (tag : String) (variantIdx : ℕ)
    (selected : Option TensorDType) : Prop where
  | build (choice : SecondaryDtypeChoice)
    (h : selectForView v variantIdx backend choice = .ok selected)
  | self (primary : TensorDType) (h : selectSelf v variantIdx tag backend primary = .ok selected)
  | recallF16 (hsoa : tag ≠ TAG_WEIGHTS_ADRENO_SOA)
      (havailable : (availableDtypes v.tensorIndex variantIdx none).contains TensorDType.f16.asU32)
      (h : selected = some .f16)

/-- The layer and the name under which an entry is put in the table. -/
def slotName (variantIdx numLayers : ℕ) (selected : Option TensorDType) (e : TensorEntry) :
    Option (ℕ × String) :=
  (secondarySlot variantIdx numLayers selected e).map fun x => (x.1, x.2.1)

/-- The last entry of a name. -/
def lastEntry (idx : TensorIndex) (variantIdx numLayers : ℕ)
    (selected : Option TensorDType) (layer : ℕ) (subname : String) : Option TensorEntry :=
  idx.entries.reverse.find? fun e => slotName variantIdx numLayers selected e ==
    some (layer, subname)

/-- The entries that are picked have their bytes in the section: those the primary looks up, and the
last ones of each name for a secondary. -/
structure PickedInSection (v : AufView) (tag : String) (backend : BackendTag)
    (variantIdx size : ℕ) : Prop where
  primary : ∀ primaryDtype id layerIdx kind e, tensorIdToAuf id = some (layerIdx, kind) →
    v.lookupTensor layerIdx kind.asU32
      ((AufSource.mk v backend primaryDtype).lookupDtype id) = .ok e →
    ¬ isAbsent (e.column variantIdx) → aufDtypeToEngine e.dtype ≠ none → e.InSection variantIdx size
  secondary : ∀ selected, Selects v backend tag variantIdx selected → ∀ n layer subname e,
    lastEntry v.tensorIndex variantIdx n selected layer subname = some e →
    e.InSection variantIdx size

/-! ## The primary -/

section Primary

variable {json : MetaJson} {bytes : List UInt8} {backend : BackendTag} {v : AufView}

theorem noPanic_lookupTensor {layerIdx kind : UInt32} {dtype : Option TensorDType} :
    NoPanic (v.lookupTensor layerIdx kind dtype) := by
  unfold AufView.lookupTensor
  cases dtype with
  | some d => exact noPanic_okOr
  | none =>
    simp only
    split
    · exact noPanic_err _
    · exact noPanic_ok _

theorem column_eq {e : TensorEntry} {i : ℕ} {o s : UInt64} (ho : e.variantOffsets[i]? = some o)
    (hs : e.variantSizes[i]? = some s) : e.column i = (o, s) := by
  rw [TensorEntry.column, List.getD_eq_getElem?_getD, List.getD_eq_getElem?_getD, ho, hs]
  rfl

theorem getElem?_of_present {e : TensorEntry} {i : ℕ} (h : ¬ isAbsent (e.column i)) :
    e.variantOffsets[i]? = some (e.column i).1 ∧ e.variantSizes[i]? = some (e.column i).2 := by
  simp only [isAbsent, TensorEntry.column, List.getD_eq_getElem?_getD, Bool.or_eq_true,
    beq_iff_eq, not_or] at h ⊢
  constructor
  · cases ho : e.variantOffsets[i]? with
    | none => exact absurd (by rw [ho]; rfl) h.1
    | some o => rfl
  · cases hs : e.variantSizes[i]? with
    | none => exact absurd (by rw [hs]; rfl) h.2
    | some s => rfl

theorem ok_newBuffer {ε : Type} {a n : ℕ} {d : DType} {b : AufViewBuffer} :
    AufViewBuffer.new (ε := ε) v a n d = .ok b ↔ a + n < 2 ^ 64 ∧ a + n ≤ v.mmap.length ∧
    b = ⟨a, n, d⟩ := by
  simp only [AufViewBuffer.new, ok_bind, ok_add]
  constructor
  · rintro ⟨_, ⟨hlt, rfl⟩, h⟩
    obtain ⟨hle, rfl⟩ := ok_guard.mp h
    exact ⟨hlt, hle, rfl⟩
  · rintro ⟨hlt, hle, rfl⟩
    exact ⟨_, ⟨hlt, rfl⟩, ok_guard.mpr ⟨hle, rfl⟩⟩

theorem noPanic_newBuffer {ε : Type} {a n : ℕ} {d : DType} :
    NoPanic (AufViewBuffer.new (ε := ε) v a n d) ↔ a + n < 2 ^ 64 ∧ a + n ≤ v.mmap.length := by
  simp only [AufViewBuffer.new, noPanic_bind, noPanic_add, ok_add]
  refine and_congr_right fun hlt => ⟨fun h => noPanic_guard.mp (h _ ⟨hlt, rfl⟩), ?_⟩
  rintro hle _ ⟨-, rfl⟩
  exact noPanic_guard.mpr hle

/-- **One tensor of the primary**: given the column and the section, the tensor is read inside the
section exactly where the entry that is looked up fits. -/
theorem primary_iff {tag : String} {i : ℕ} {offset size : UInt64}
    (htag : backend.weightsSectionTag = some tag)
    (hi : v.tensorIndex.variantIndexForTag tag = some i)
    (hrange : v.weightsRange = some (offset, size))
    (hle : offset.toNat + size.toNat ≤ v.mmap.length) (hlen : v.mmap.length < 2 ^ 63)
    (primaryDtype : Option TensorDType) (id : TensorId) :
    (NoPanic ((AufSource.mk v backend primaryDtype).materialiseCpuTensor id) ∧
      ∀ t, (AufSource.mk v backend primaryDtype).materialiseCpuTensor id = .ok t →
        ∃ offset size, v.weightsRange = some (offset, size) ∧ t.Inside offset.toNat size.toNat) ↔
    ∀ layerIdx kind e, tensorIdToAuf id = some (layerIdx, kind) →
      v.lookupTensor layerIdx kind.asU32
        ((AufSource.mk v backend primaryDtype).lookupDtype id) = .ok e →
      ¬ isAbsent (e.column i) → aufDtypeToEngine e.dtype ≠ none → e.InSection i size.toNat := by
  simp only [AufSource.materialiseCpuTensor, noPanic_bind, noPanic_okOr, noPanic_liftErr,
    noPanic_lookupTensor, noPanic_ensure, noPanic_add, noPanic_newBuffer, noPanic_pure, ok_bind,
    ok_okOr, ok_liftErr, ok_ensure, ok_add, ok_newBuffer, htag, hi, hrange, true_and, implies_true,
    and_true, Prod.forall, Prod.exists, Option.some.injEq, Prod.mk.injEq,
    forall_eq', exists_eq_left']
  constructor
  · rintro ⟨hno, hok⟩ layerIdx kind e hid he hpresent hdtype
    obtain ⟨d, hd⟩ := Option.ne_none_iff_exists'.mp hdtype
    obtain ⟨ho, hs⟩ := getElem?_of_present hpresent
    obtain ⟨habs, hfile⟩ := hno layerIdx kind hid e he _ ho _ hs () hpresent d hd
    obtain ⟨hlt, hend⟩ := hfile _ ⟨habs, rfl⟩
    obtain ⟨_, _, ⟨rfl, rfl⟩, -, hstop, hbytes⟩ :=
      hok _ ⟨layerIdx, kind, hid, e, he, _, ho, _, hs, (), hpresent, d, hd, _, ⟨habs, rfl⟩, _,
      ⟨hlt, hend, rfl⟩, rfl⟩
    refine ⟨by simp only at hstop; omega, fun d' hd' => ?_⟩
    rw [Option.mem_def, hd] at hd'
    exact Option.some.inj hd' ▸ hbytes
  · intro h
    refine ⟨fun layerIdx kind hid e he o ho n hn _ hpresent d hd => ?_, ?_⟩
    · have hcol := column_eq ho hn
      obtain ⟨hin, -⟩ := h layerIdx kind e hid he (hcol ▸ hpresent) (hd ▸ Option.some_ne_none d)
      simp only [hcol] at hin
      refine ⟨by omega, ?_⟩
      rintro _ ⟨-, rfl⟩
      exact ⟨by omega, by omega⟩
    · rintro t ⟨layerIdx, kind, hid, e, he, o, ho, n, hn, -, hpresent, d, hd, _, ⟨-, rfl⟩,
        _, ⟨-, -, rfl⟩, ht⟩
      cases ht
      have hcol := column_eq ho hn
      obtain ⟨hin, hbytes⟩ := h layerIdx kind e hid he (hcol ▸ hpresent)
        (hd ▸ Option.some_ne_none d)
      simp only [hcol] at hin hbytes
      exact ⟨offset, size, ⟨rfl, rfl⟩, Nat.le_add_right _ _, by simp only; omega, hbytes d hd⟩

theorem primary_rejected (hno : ∀ tag i, backend.weightsSectionTag = some tag →
    v.tensorIndex.variantIndexForTag tag ≠ some i) (primaryDtype : Option TensorDType)
      (id : TensorId) :
    NoPanic ((AufSource.mk v backend primaryDtype).materialiseCpuTensor id) ∧
      ∀ t, (AufSource.mk v backend primaryDtype).materialiseCpuTensor id ≠ .ok t := by
  simp only [AufSource.materialiseCpuTensor, noPanic_bind, noPanic_okOr, noPanic_liftErr,
    noPanic_lookupTensor, ne_eq, ok_bind, ok_okOr, true_and]
  constructor
  · rintro x hx e he tag htag i hi
    exact absurd hi (hno tag i htag)
  · rintro t ⟨x, -, e, -, tag, htag, i, hi, -⟩
    exact hno tag i htag hi

end Primary

/-! ## The secondary -/

section Secondary

variable {v : AufView} {backend : BackendTag} {i n : ℕ} {selected : Option TensorDType}

theorem layer_lt_of_slot {e : TensorEntry} {x : ℕ × String × SecondaryTensorInfo}
    (h : secondarySlot i n selected e = some x) : x.1 < n := by
  unfold secondarySlot at h
  split_ifs at h with h₁ h₂
  simp only [Option.bind_eq_bind, Option.bind_eq_some_iff] at h
  obtain ⟨_, -, _, -, h⟩ := h
  cases h
  exact Nat.lt_of_not_le h₂

theorem info_of_slot {e : TensorEntry} {x : ℕ × String × SecondaryTensorInfo}
    (h : secondarySlot i n selected e = some x) : ∃ d, aufDtypeToEngine e.dtype = some d ∧
      x.2.2 = ⟨(e.column i).1.toNat, (e.column i).2.toNat, d,
      (e.shape.map UInt64.toNat).reverse⟩ := by
  unfold secondarySlot at h
  split_ifs at h
  simp only [Option.bind_eq_bind, Option.bind_eq_some_iff] at h
  obtain ⟨_, -, d, hd, h⟩ := h
  cases h
  exact ⟨d, hd, rfl⟩

@[simp] theorem ok_expect {ε α : Type} {text : String} {o : Option α} {a : α} :
    expect (ε := ε) text o = .ok a ↔ o = some a := by
  cases o <;> simp [expect]

/-- The loop over the entries: the last entry of a name counts, else what was there. -/
theorem foldl_insertEntry (es : List TensorEntry) :
    ∀ (init : List LayerTensorSlice), init.length = n → ∀ layer subname,
    ((es.foldl (insertEntry i n selected) init)[layer]?.bind fun m => m subname) =
      ((es.reverse.find? fun e => slotName i n selected e == some (layer, subname)).bind fun e =>
        (secondarySlot i n selected e).map (·.2.2)).or (init[layer]?.bind fun m => m subname) := by
  induction es with
  | nil => intro init _ layer subname; rfl
  | cons e es ih =>
    intro init hinit layer subname
    have hlen : (insertEntry i n selected init e).length = n := by
      unfold insertEntry
      split
      · rw [List.length_modify, hinit]
      · exact hinit
    rw [List.foldl_cons, ih _ hlen, List.reverse_cons, List.find?_append]
    cases hlast : es.reverse.find? fun e => slotName i n selected e == some (layer, subname) with
    | some e' =>
      have hname : slotName i n selected e' = some (layer, subname) := by
        simpa using List.find?_some hlast
      obtain ⟨x, hx, -⟩ := Option.map_eq_some_iff.mp hname
      simp [hx]
    | none =>
      simp only [Option.bind_none, Option.none_or, List.find?_cons, List.find?_nil]
      unfold insertEntry slotName
      cases hslot : secondarySlot i n selected e with
      | none => simp
      | some x =>
        have hx := layer_lt_of_slot hslot
        by_cases hname : (x.1, x.2.1) = (layer, subname)
        · cases hname
          simp [hslot, hinit, hx]
        · have hne : (some (x.1, x.2.1) == some (layer, subname)) = false := by simpa using hname
          simp only [Option.map_some, hne, Option.bind_none, Option.none_or, List.getElem?_modify]
          cases init[layer]? with
          | none => rfl
          | some m =>
            by_cases hl : x.1 = layer
            · have hs : subname ≠ x.2.1 := fun h => hname (by rw [hl, h])
              simp [hl, Function.update_of_ne hs]
            · simp [hl]

/-- **The table holds the last entry of each name.** -/
theorem layerTensor_layerIndexOf {m : AufSecondaryMmap} {idx : TensorIndex}
    (hm : m.layerIndex = layerIndexOf idx i n selected) (layer : ℕ) (subname : String) :
    m.layerTensor layer subname =
      (lastEntry idx i n selected layer subname).bind fun e =>
        (secondarySlot i n selected e).map (·.2.2) := by
  unfold AufSecondaryMmap.layerTensor
  rw [hm, layerIndexOf, foldl_insertEntry _ _ List.length_replicate, lastEntry]
  have hnone : ((List.replicate n (fun _ => none : LayerTensorSlice))[layer]?.bind fun m =>
    m subname) = none := by
    rw [List.getElem?_replicate]
    split_ifs <;> rfl
  rw [hnone, Option.or_none]

/-- What a secondary was built with: the column of the backend and a dtype. -/
theorem selects_of_built {m : AufSecondaryMmap} (h : BuiltFrom v backend m) : ∃ tag i n selected,
    backend.weightsSectionTag = some tag ∧ v.tensorIndex.variantIndexForTag tag = some i ∧
    Selects v backend tag i selected ∧ m.view = v ∧
    m.layerIndex = layerIndexOf v.tensorIndex i n selected := by
  cases h with
  | build n path choice h =>
    simp only [buildAufSecondaryFromView, ok_bind, ok_okOr, ok_expect] at h
    obtain ⟨tag, htag, i, hi, _, -, selected, hsel, h⟩ := h
    cases h
    exact ⟨tag, i, n, selected, htag, hi, .build choice hsel, rfl, rfl⟩
  | self n dtype h =>
    simp only [fromAufSelfSecondary, ok_bind, ok_okOr] at h
    obtain ⟨tag, htag, i, hi, _, -, selected, hsel, h⟩ := h
    cases h
    exact ⟨tag, i, n, selected, htag, hi, .self dtype hsel, rfl, rfl⟩
  | recallF16 n h =>
    simp only [openSecondaryF16ForRecall, ok_bind, ok_okOr, ok_ensure] at h
    obtain ⟨tag, htag, -, hsoa, i, hi, -, havail, h⟩ := h
    cases h
    exact ⟨tag, i, n, _, htag, hi, .recallF16 hsoa havail rfl, rfl, rfl⟩

theorem exists_built {tag : String} {offset size : UInt64}
    (htag : backend.weightsSectionTag = some tag)
    (hi : v.tensorIndex.variantIndexForTag tag = some i)
    (hrange : v.weightsRange = some (offset, size))
    (hsel : Selects v backend tag i selected) (n : ℕ) : ∃ m, BuiltFrom v backend m ∧ m.view = v ∧
    m.layerIndex = layerIndexOf v.tensorIndex i n selected := by
  cases hsel with
  | build choice h =>
    refine ⟨⟨v, layerIndexOf v.tensorIndex i n selected, tag == TAG_WEIGHTS_ADRENO_SOA⟩,
      .build n "" choice ?_, rfl, rfl⟩
    simp only [buildAufSecondaryFromView, ok_bind, ok_okOr, ok_expect]
    exact ⟨tag, htag, i, hi, (offset, size), hrange, selected, h, rfl⟩
  | self primary h =>
    refine ⟨⟨v, layerIndexOf v.tensorIndex i n selected, tag == TAG_WEIGHTS_ADRENO_SOA⟩,
      .self n primary ?_, rfl, rfl⟩
    simp only [fromAufSelfSecondary, ok_bind, ok_okOr]
    exact ⟨tag, htag, i, hi, (offset, size), hrange, selected, h, rfl⟩
  | recallF16 hsoa havail h =>
    refine ⟨⟨v, layerIndexOf v.tensorIndex i n selected, false⟩, .recallF16 n ?_, rfl, rfl⟩
    simp only [openSecondaryF16ForRecall, ok_bind, ok_okOr, ok_ensure, h]
    exact ⟨tag, htag, (), hsoa, i, hi, (), havail, rfl⟩

theorem ok_tensorBytes {m : AufSecondaryMmap} {info : SecondaryTensorInfo} {offset size : UInt64}
    {b : List UInt8} (hrange : m.view.weightsRange = some (offset, size))
    (hle : offset.toNat + size.toNat ≤ m.view.mmap.length) (hlen : m.view.mmap.length < 2 ^ 63) :
    m.tensorBytes info = .ok b ↔
      info.offset + info.len ≤ size.toNat ∧
      b = slice m.view.mmap (offset.toNat + info.offset) info.len := by
  have hw : m.view.weightsBytes = .ok (some (slice m.view.mmap offset.toNat size.toNat)) := by
    unfold AufView.weightsBytes
    rw [hrange]
    simp only
    rw [bind_of_ok (ok_sectionBytes.mpr ⟨hle, rfl⟩)]
    rfl
  unfold AufSecondaryMmap.tensorBytes
  rw [hw, ok_seq]
  simp only [ok_expect, ok_bind, ok_add, ok_index]
  constructor
  · rintro ⟨_, h, _, ⟨-, rfl⟩, ⟨-, hin⟩, rfl⟩
    cases h
    rw [length_slice hle] at hin
    rw [Nat.add_sub_cancel_left, slice_slice _ _ hin]
    exact ⟨hin, rfl⟩
  · rintro ⟨hin, rfl⟩
    refine ⟨_, rfl, _, ⟨by omega, rfl⟩, ⟨Nat.le_add_right _ _, ?_⟩, ?_⟩
    · rw [length_slice hle]
      exact hin
    · rw [Nat.add_sub_cancel_left, slice_slice _ _ hin]

end Secondary

/-! ## Files -/

section Files

variable {json : MetaJson} {bytes : List UInt8} {backend : BackendTag} {v : AufView}

/-- The entries that are picked in the column of the opened section. -/
def IndexFits (v : AufView) (backend : BackendTag) : Prop :=
  ∀ tag i offset size, backend.weightsSectionTag = some tag →
    v.tensorIndex.variantIndexForTag tag = some i → v.weightsRange = some (offset, size) →
    PickedInSection v tag backend i size.toNat

theorem exists_weightsRange (hv : openFromMmap json bytes backend = .ok v) {tag : String}
    (htag : backend.weightsSectionTag = some tag) :
    ∃ offset size, v.weightsRange = some (offset, size) ∧
      offset.toNat + size.toNat ≤ v.mmap.length := by
  obtain ⟨s, ho, -, -, -, hview⟩ := ok_openFromMmap.mp hv
  have hw := ho.weights
  unfold findWeights at hw
  rw [htag] at hw
  obtain ⟨e, -, hr⟩ := ok_bind.mp hw
  have hrange : v.weightsRange = some (e.offset, e.size) := by
    rw [hview]
    exact (Except.ok.inj hr).symm
  obtain ⟨-, -, -, -, -, hle⟩ := weightsRange_le hv hrange
  exact ⟨e.offset, e.size, hrange, mmap_of_open hv ▸ hle⟩

theorem info_fits_iff {e : TensorEntry} {i n size : ℕ} {selected : Option TensorDType}
    {x : ℕ × String × SecondaryTensorInfo} (h : secondarySlot i n selected e = some x) :
    e.InSection i size ↔
      x.2.2.offset + x.2.2.len ≤ size ∧ x.2.2.len = x.2.2.dtype.bytesOf x.2.2.dims.prod := by
  obtain ⟨d, hd, hinfo⟩ := info_of_slot h
  have hprod : ((e.shape.map UInt64.toNat).reverse).prod = (e.shape.map UInt64.toNat).prod :=
    (List.reverse_perm _).prod_eq
  rw [hinfo]
  simp only [TensorEntry.InSection, hd, Option.mem_def, Option.some.injEq, forall_eq', hprod]

/-- **Reads inside the section**: a file that is opened for a backend is read inside the WEIGHTS
section, each tensor with the bytes of its shape and dtype, exactly where the entries that are
picked fit. -/
theorem readsInside_iff (hv : openFromMmap json bytes backend = .ok v)
    (hlen : bytes.length < 2 ^ 63) : ReadsInside v backend ↔ IndexFits v backend := by
  have hlen' : v.mmap.length < 2 ^ 63 := mmap_of_open hv ▸ hlen
  constructor
  · intro h tag i offset size htag hi hrange
    obtain ⟨_, _, hrange', hle⟩ := exists_weightsRange hv htag
    obtain ⟨rfl, rfl⟩ := Prod.ext_iff.mp (Option.some.inj (hrange.symm.trans hrange'))
    refine ⟨fun primaryDtype id layerIdx kind e => ?_, fun selected hsel n layer subname e he => ?_⟩
    · exact (primary_iff htag hi hrange hle hlen' primaryDtype id).mp (h.primary primaryDtype id)
        layerIdx kind e
    · obtain ⟨m, hm, hview, hidx⟩ := exists_built htag hi hrange hsel n
      have hname : slotName i n selected e = some (layer, subname) := by
        simpa using List.find?_some he
      obtain ⟨x, hx, -⟩ := Option.map_eq_some_iff.mp hname
      have hinfo : m.layerTensor layer subname = some x.2.2 := by
        rw [layerTensor_layerIndexOf hidx, he, Option.bind_some, hx]
        rfl
      obtain ⟨o, s, hr, hin, -, hbytes⟩ := h.secondary m hm layer subname _ hinfo
      obtain ⟨rfl, rfl⟩ := Prod.ext_iff.mp (Option.some.inj (hrange.symm.trans hr))
      exact (info_fits_iff hx).mpr ⟨hin, hbytes⟩
  · intro h
    refine ⟨fun primaryDtype id => ?_, fun m hm layer subname info hinfo => ?_⟩
    · by_cases hcolumn : ∃ tag i, backend.weightsSectionTag = some tag ∧
        v.tensorIndex.variantIndexForTag tag = some i
      · obtain ⟨tag, i, htag, hi⟩ := hcolumn
        obtain ⟨offset, size, hrange, hle⟩ := exists_weightsRange hv htag
        refine (primary_iff htag hi hrange hle hlen' primaryDtype id).mpr ?_
        exact (h tag i offset size htag hi hrange).primary primaryDtype id
      · have hno := primary_rejected (fun tag i htag hi => hcolumn ⟨tag, i, htag, hi⟩)
          primaryDtype id
        exact ⟨hno.1, fun t ht => absurd ht (hno.2 t)⟩
    · obtain ⟨tag, i, n, selected, htag, hi, hsel, hview, hidx⟩ := selects_of_built hm
      obtain ⟨offset, size, hrange, hle⟩ := exists_weightsRange hv htag
      rw [layerTensor_layerIndexOf hidx] at hinfo
      obtain ⟨e, he, hinfo⟩ := Option.bind_eq_some_iff.mp hinfo
      obtain ⟨x, hx, rfl⟩ := Option.map_eq_some_iff.mp hinfo
      have hfits := (h tag i offset size htag hi hrange).secondary selected hsel
        n layer subname e he
      obtain ⟨hin, hbytes⟩ := (info_fits_iff hx).mp hfits
      refine ⟨offset, size, hrange, hin, ?_, hbytes⟩
      rw [← hview] at hrange hle hlen' ⊢
      exact (ok_tensorBytes hrange hle hlen').mpr ⟨hin, rfl⟩

/-! ## Two files -/

theorem mem_of_lookupTensor {layerIdx kind : UInt32} {dtype : Option TensorDType} {e : TensorEntry}
    (h : v.lookupTensor layerIdx kind dtype = .ok e) : e ∈ v.tensorIndex.entries := by
  unfold AufView.lookupTensor at h
  cases dtype with
  | some d => exact List.mem_of_find?_eq_some (ok_okOr.mp h)
  | none =>
    simp only at h
    split at h
    · cases h
    · rename_i first rest hfirst
      cases h
      cases hp : (do
          let dtype ← dtypeStrToTensorDtype (← v.aufMeta.defaultDtype)
          v.tensorIndex.findEntryByDtype layerIdx kind dtype.asU32) with
      | none =>
        exact List.mem_of_mem_filter (hfirst ▸ List.mem_cons_self : first ∈
          v.tensorIndex.entriesFor layerIdx kind)
      | some e =>
        simp only [Option.bind_eq_bind, Option.bind_eq_some_iff] at hp
        obtain ⟨_, -, _, -, he⟩ := hp
        exact List.mem_of_find?_eq_some he

/-- A query matrix of one number, four bytes at `offset` of the section. -/
def oneEntry (offset : UInt64) : TensorEntry :=
  ⟨0, TensorKind.attnQ.asU32, TensorDType.f32.asU32, [1], 64, [offset], [4]⟩

/-- A file with four bytes of weights, followed by the tensor index. -/
def weightsFile (offset : UInt64) : List UInt8 :=
  let tok := emptyTokenizer 64
  let tidx := (TensorIndex.mk [padded 24 (asBytes TAG_WEIGHTS_CPU_AOS)] [oneEntry offset]).toBytes
  let entries : List SectionEntry := [
    ⟨padded 24 (asBytes TAG_META), 448, 0, SECTION_REQUIRED, 1⟩,
    ⟨padded 24 (asBytes TAG_TOKENIZER), 448, 80, SECTION_REQUIRED, 1⟩,
    ⟨padded 24 (asBytes TAG_WEIGHTS_CPU_AOS), 528, 4, SECTION_REQUIRED, 1⟩,
    ⟨padded 24 (asBytes TAG_TENSOR_INDEX), 532, .ofNat tidx.length, SECTION_REQUIRED, 1⟩]
  (AufHeader.newV01 "argus_engine" (padded 32 []) 0 0 4 256 448).toBytes ++
    (SectionTable.mk entries).toBytes ++ tok ++ [0, 0, 128, 63] ++ tidx

theorem opened_weightsFile : ∃ v, openFromMmap zeroJson (weightsFile 0) .cpuAos = .ok v ∧
    v.weightsRange = some (528, 4) ∧ v.tensorIndex.entries = [oneEntry 0] ∧
    v.tensorIndex.variantIndexForTag TAG_WEIGHTS_CPU_AOS = some 0 := by
  have h : ((openFromMmap zeroJson (weightsFile 0) .cpuAos).toOption.any fun v =>
    v.weightsRange = some (528, 4) ∧
      v.tensorIndex.entries = [oneEntry 0] ∧ v.tensorIndex.variantIndexForTag TAG_WEIGHTS_CPU_AOS =
        some 0) = true := by
    decide +kernel
  cases hv : openFromMmap zeroJson (weightsFile 0) .cpuAos with
  | error e => rw [hv] at h; cases h
  | ok v =>
    rw [hv] at h
    exact ⟨v, rfl, of_decide_eq_true h⟩

theorem readsInside_weightsFile :
    ∃ v, openFromMmap zeroJson (weightsFile 0) .cpuAos = .ok v ∧ ReadsInside v .cpuAos := by
  obtain ⟨v, hv, hrange, hentries, hi⟩ := opened_weightsFile
  refine ⟨v, hv, (readsInside_iff hv (by decide +kernel)).mpr
    fun tag i offset size htag hi' hrange' => ?_⟩
  obtain rfl := Option.some.inj htag
  obtain rfl := Option.some.inj (hi.symm.trans hi')
  obtain ⟨-, rfl⟩ := Prod.ext_iff.mp (Option.some.inj (hrange.symm.trans hrange'))
  have hfits : ∀ e ∈ v.tensorIndex.entries, e.InSection 0 (4 : UInt64).toNat := by
    intro e he
    rw [hentries, List.mem_singleton] at he
    rw [he]
    exact ⟨by decide, fun d hd => by cases hd; rfl⟩
  refine ⟨fun _ _ _ _ e _ he _ _ => hfits e (mem_of_lookupTensor he),
    fun _ _ _ _ _ e he => hfits e ?_⟩
  exact List.mem_reverse.mp (List.mem_of_find?_eq_some he)

/-- Four bytes behind the section are read from the tensor index. -/
theorem reads_behind_section :
    ∃ v, openFromMmap zeroJson (weightsFile 4) .cpuAos = .ok v ∧ ¬ ReadsInside v .cpuAos := by
  have h : ((openFromMmap zeroJson (weightsFile 4) .cpuAos).toOption.any fun v =>
    v.weightsRange = some (528, 4) ∧
      ((AufSource.mk v .cpuAos none).materialiseCpuTensor (.layerWeight 0 .wq)).toOption =
        some ⟨[1], ⟨532, 4, .f32⟩⟩) = true := by
    decide +kernel
  cases hv : openFromMmap zeroJson (weightsFile 4) .cpuAos with
  | error e => rw [hv] at h; cases h
  | ok v =>
    rw [hv] at h
    obtain ⟨hrange, hread⟩ : v.weightsRange = some (528, 4) ∧
        ((AufSource.mk v .cpuAos none).materialiseCpuTensor (.layerWeight 0 .wq)).toOption =
          some ⟨[1], ⟨532, 4, .f32⟩⟩ := of_decide_eq_true h
    refine ⟨v, rfl, fun hin => ?_⟩
    cases hmat : (AufSource.mk v .cpuAos none).materialiseCpuTensor (.layerWeight 0 .wq) with
    | error e => rw [hmat] at hread; cases hread
    | ok t =>
      rw [hmat] at hread
      obtain rfl := Option.some.inj hread
      obtain ⟨offset, size, hr, hinside⟩ := (hin.primary none (.layerWeight 0 .wq)).2 _ hmat
      obtain ⟨rfl, rfl⟩ := Prod.ext_iff.mp (Option.some.inj (hrange.symm.trans hr))
      exact absurd hinside.2.1 (by decide)

end Files

end Auf

end ArgusEngine
