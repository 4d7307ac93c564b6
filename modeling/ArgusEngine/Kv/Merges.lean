import ArgusEngine.Kv.Gather
import ArgusEngine.Kv.Merge
import ArgusEngine.Lib.InPlace

/-!
# Merges on a snapshot

`apply_weighted_merges` rewrites rows in place while later merges still read the buffer. A merge of
one head is an assignment to the row of `into` (`mergeAssign`); merges with different targets that
none of them reads are independent.

* `holds_mergeBuffer`: the loops of one half run the assignments;
* `mergeBuffer_ok`: they do not fail on a type that can be encoded;
* **`merges_snapshot`**: every target holds the weighted sum of the old rows, every other row is the
  old one.
-/

namespace ArgusEngine

open FlatMem SlotMem Outcomes InPlace

namespace KVCache

/-- The head-row of a merge as an assignment to the rows of a buffer, by head and position. -/
def mergeAssign (P : Platform) (c : KVCache) (mk : WeightedMerge P.F × ℕ) :
    Assign (ℕ × ℕ) (List UInt8) where
  place := (mk.2, mk.1.into)
  reads := mk.1.source.map fun pw => (mk.2, pw.1)
  value f := c.mergedRow P mk.1 fun p => f (mk.2, p)
  congr hi hf := mergedRow_congr hi fun _ hpw => hf _ (List.mem_map_of_mem hpw)

/-- The positions of a merge are resident. -/
def Resident {F : Type} (c : KVCache) (m : WeightedMerge F) : Prop :=
  m.into < c.currentPos ∧ ∀ pw ∈ m.source, pw.1 < c.currentPos

instance {F : Type} (c : KVCache) (m : WeightedMerge F) : Decidable (c.Resident m) :=
  inferInstanceAs (Decidable (_ ∧ ∀ pw ∈ _, _))

/-- The rows of a buffer, by head and position. -/
def Holds (c : KVCache) (t : Tensor) (f : ℕ × ℕ → List UInt8) : Prop :=
  ∀ h < c.kvHeads, ∀ p, c.headRows t h p = f (h, p)

/-- Rows can be written in the cache's type: every float type and Q4_0, and the descriptors with an
encoder. -/
def Encodable (c : KVCache) : Prop := ∀ d, c.kBuffer.buffer.desc = some d →
  (d.scaleLayout = .perBlockF16 ∧ d.packing = .nibble) ∨
  (d.scaleLayout = .perBlockF16WithMin ∧ d.packing = .quad)

section Merges

variable {P : Platform} {c : KVCache} {m : WeightedMerge P.F} {t t' : Tensor}
  {f : ℕ × ℕ → List UInt8} {k : ℕ}

theorem headMajor_of_resident (hc : c.WF) (hm : c.Resident m) :
    c.isOpaque = true → c.layout = .headMajor := by
  intro ho
  cases hl : c.layout with
  | headMajor => rfl
  | seqMajor =>
    have := hc.seqMajor ho hl
    have := hm.1
    omega

theorem mergeHead_eq (hc : c.WF) (hm : c.Resident m) (hk : k < c.kvHeads) (ht : t.dtype = c.kvDtype)
    (hsize : c.capacity * c.kvHeads * c.rowBytes ≤ t.size) (h : mergeHead P c m k t = .ok t') :
    t' = t.withBytes (blit (c.mergedRow P m fun p => c.readRow t p k)
      0 t.bytes (c.slot m.into k * c.rowBytes) c.rowBytes) := by
  have hA := agree_mergeHead (m := m) hc.stored (headMajor_of_resident hc hm) (hm.1.trans_le hc.pos)
    hk ht ht hsize hsize
  rw [h] at hA
  cases hA with
  | ok h => exact h.1

/-- **One head of a merge runs its assignment.** -/
theorem holds_mergeHead (hc : c.WF) (hm : c.Resident m) (hk : k < c.kvHeads)
    (ht : t.dtype = c.kvDtype) (hsize : c.capacity * c.kvHeads * c.rowBytes ≤ t.size)
    (hf : c.Holds t f) (h : mergeHead P c m k t = .ok t') :
    c.Holds t' ((c.mergeAssign P (m, k)).exec f) := by
  have hpos := hc.pos
  have ho := headMajor_of_resident hc hm
  have hread : ∀ p < c.currentPos, c.readRow t p k = f (k, p) := by
    intro p hp
    rw [readRow_eq hc.stored ho, ← headRows_of_lt (hp.trans_le hpos)]
    exact hf k hk p
  have hrow : (c.mergedRow P m fun p => c.readRow t p k) = c.mergedRow P m fun p => f (k, p) :=
    mergedRow_congr (hread _ hm.1) fun pw hpw => hread _ (hm.2 pw hpw)
  rw [mergeHead_eq hc hm hk ht hsize h, hrow]
  intro h hh p
  rw [headRows_blitRow (length_mergedRow hc.stored _) hsize (hm.1.trans_le hpos) hk hh]
  by_cases he : h = k ∧ p = m.into
  · rw [if_pos he, he.1, he.2]
    exact (Assign.exec_place (c.mergeAssign P (m, k)) f).symm
  · rw [if_neg he, Assign.exec_of_ne, hf h hh p]
    exact fun heq => he ⟨congrArg Prod.fst heq, congrArg Prod.snd heq⟩

theorem recoded_of_mergeHead (hc : c.WF) (hm : c.Resident m) (hk : k < c.kvHeads)
    (ht : t.dtype = c.kvDtype) (hsize : c.capacity * c.kvHeads * c.rowBytes ≤ t.size)
    (h : mergeHead P c m k t = .ok t') : Recoded t t' := by
  rw [mergeHead_eq hc hm hk ht hsize h]
  exact Recoded.blit ⟨_, rfl, rfl⟩ _ _ _ _

/-- **The loops run the assignments**, by induction on the pairs of a merge and a head. -/
theorem holds_mergeLoop (hc : c.WF) (l : List (WeightedMerge P.F × ℕ)) :
    ∀ {t : Tensor} {f : ℕ × ℕ → List UInt8}, (∀ mk ∈ l, c.Resident mk.1 ∧ mk.2 < c.kvHeads) →
      t.dtype = c.kvDtype →
      c.capacity * c.kvHeads * c.rowBytes ≤ t.size → c.Holds t f →
      l.foldlM (fun t mk => mergeHead P c mk.1 mk.2 t) t = .ok t' →
      Recoded t t' ∧ c.Holds t' (Assign.run (l.map (c.mergeAssign P)) f) := by
  induction l with
  | nil =>
    intro t f hl ht hsize hf h
    cases h
    exact ⟨⟨_, rfl, rfl⟩, hf⟩
  | cons mk l ih =>
    intro t f hl ht hsize hf h
    rw [List.foldlM_cons] at h
    cases h₁ : mergeHead P c mk.1 mk.2 t with
    | error e => rw [h₁] at h; cases h
    | ok t₁ =>
      rw [h₁] at h
      obtain ⟨hm, hk⟩ := hl mk List.mem_cons_self
      have hrec := recoded_of_mergeHead hc hm hk ht hsize h₁
      have hone := holds_mergeHead hc hm hk ht hsize hf h₁
      obtain ⟨hrec', hrun⟩ := ih (fun x hx => hl x (List.mem_cons_of_mem _ hx))
        (hrec.dtype.trans ht) (hsize.trans_eq hrec.size.symm) hone h
      obtain ⟨b, hb, rfl⟩ := hrec'
      obtain ⟨b₁, hb₁, rfl⟩ := hrec
      exact ⟨⟨b, hb.trans hb₁, rfl⟩, hrun⟩

/-- One head of a merge does not fail on a type that can be encoded. -/
theorem mergeHead_ok (hc : c.WF) (he : c.Encodable) (hm : c.Resident m) (hk : k < c.kvHeads)
    (hsize : c.capacity * c.kvHeads * c.rowBytes ≤ t.size) :
    ∃ t', mergeHead P c m k t = .ok t' := by
  unfold mergeHead
  cases hd : c.kBuffer.buffer.desc with
  | none => exact ⟨_, rfl⟩
  | some d =>
    have hs := hc.stored
    have ho := headMajor_of_resident hc hm (by simp [isOpaque, hd])
    obtain ⟨hrow, hbytes⟩ := rowBytes_of_desc hs hd
    have hblock : d.blockElems ∣ c.headDim ∧ d.blockElems ≠ 0 := by
      unfold IsStored at hs
      rw [hd] at hs
      exact ⟨hs.2.2.2, hs.2.2.1.ne'⟩
    have hlen : (P.mergeRow (P.mul m.intoWeight) (c.dequantizeOpaque P d t m.into k)
        (m.source.map fun pw => (c.dequantizeOpaque P d t pw.1 k, pw.2))).length = c.headDim := by
      rw [Platform.mergeRow, List.length_mapIdx]
      have := length_rowValues (P := P)
        hs (slice t.bytes ((k * c.capacity + m.into) * c.opaqueBytesPerHead) c.opaqueBytesPerHead)
      rwa [rowValues, hd] at this
    have hroom : (slice t.bytes ((k * c.capacity + m.into) * c.opaqueBytesPerHead)
      c.opaqueBytesPerHead).length =
        c.headDim / d.blockElems * d.blockBytes.getD 0 := by
      rw [← hbytes]
      refine length_slice (le_trans ?_ hsize)
      rw [← hrow, ← slot_headMajor ho, ← Nat.succ_mul]
      exact Nat.mul_le_mul_right _ (slot_lt (hm.1.trans_le hc.pos) hk)
    simp only [Platform.encodeViaDescriptor, hlen, hroom]
    rw [if_neg (not_not.mpr (he d hd)),
      if_neg (by simp [hblock.2, Nat.mod_eq_zero_of_dvd hblock.1]),
      if_neg (Nat.lt_irrefl _)]
    exact ⟨_, rfl⟩

theorem mergeLoop_ok (hc : c.WF) (he : c.Encodable) (l : List (WeightedMerge P.F × ℕ)) :
    ∀ {t : Tensor}, (∀ mk ∈ l, c.Resident mk.1 ∧ mk.2 < c.kvHeads) → t.dtype = c.kvDtype →
      c.capacity * c.kvHeads * c.rowBytes ≤ t.size →
      ∃ t', l.foldlM (fun t mk => mergeHead P c mk.1 mk.2 t) t = .ok t' := by
  induction l with
  | nil => exact fun _ _ _ => ⟨_, rfl⟩
  | cons mk l ih =>
    intro t hl ht hsize
    obtain ⟨hm, hk⟩ := hl mk List.mem_cons_self
    obtain ⟨t₁, h₁⟩ := mergeHead_ok hc he hm hk hsize
    have hrec := recoded_of_mergeHead hc hm hk ht hsize h₁
    obtain ⟨t', h'⟩ := ih (fun x hx => hl x (List.mem_cons_of_mem _ hx)) (hrec.dtype.trans ht)
      (hsize.trans_eq hrec.size.symm)
    refine ⟨t', ?_⟩
    rw [List.foldlM_cons, h₁]
    exact h'

end Merges

/-! ## Independent merges -/

section Independent

variable {P : Platform} {c c' : KVCache} {merges : List (WeightedMerge P.F)}

/-- The merges of a half, with every head. -/
def mergePairs (P : Platform) (c : KVCache) (x : Half) (merges : List (WeightedMerge P.F)) :
    List (WeightedMerge P.F × ℕ) :=
  (merges.filter fun m => !m.source.isEmpty && m.applyTo.covers x) ×ˢ List.range c.kvHeads

theorem mem_mergePairs {x : Half} {mk : WeightedMerge P.F × ℕ} : mk ∈ mergePairs P c x merges ↔
    (mk.1 ∈ merges ∧ mk.1.source ≠ [] ∧ mk.1.applyTo.covers x = true) ∧ mk.2 < c.kvHeads := by
  obtain ⟨m, k⟩ := mk
  unfold mergePairs
  rw [List.mem_product, List.mem_filter, List.mem_range]
  simp [List.isEmpty_eq_false_iff]

theorem independent_mergePairs (hinto : (merges.map fun m => m.into).Nodup)
    (hsrc : ∀ m ∈ merges, ∀ m' ∈ merges, ∀ pw ∈ m'.source, pw.1 ≠ m.into) (x : Half) :
    Assign.Independent ((mergePairs P c x merges).map (c.mergeAssign P)) := by
  refine ⟨?_, fun a ha b hb hmem => ?_⟩
  · rw [List.map_map]
    refine List.Nodup.map_on (fun mk hmk mk' hmk' he => ?_)
      ((hinto.of_map.filter _).product List.nodup_range)
    have hmk := (mem_mergePairs.mp hmk).1.1
    have hmk' := (mem_mergePairs.mp hmk').1.1
    exact Prod.ext (List.inj_on_of_nodup_map hinto hmk hmk' (congrArg Prod.snd he))
      (congrArg Prod.fst he)
  · obtain ⟨mk, hmk, rfl⟩ := List.mem_map.mp ha
    obtain ⟨mk', hmk', rfl⟩ := List.mem_map.mp hb
    obtain ⟨pw, hpw, he⟩ := List.mem_map.mp hmem
    exact hsrc _ (mem_mergePairs.mp hmk').1.1 _ (mem_mergePairs.mp hmk).1.1 pw hpw
      (congrArg Prod.snd he)

/-- **The merges of one half**, on the rows as they were. -/
theorem rows_mergeBuffer (hc : c.WF) (hres : ∀ m ∈ merges, c.Resident m)
    (hinto : (merges.map fun m => m.into).Nodup)
    (hsrc : ∀ m ∈ merges, ∀ m' ∈ merges, ∀ pw ∈ m'.source, pw.1 ≠ m.into) {x : Half} {t' : Tensor}
    (h : mergeBuffer P c x merges (c.buffer x) = .ok t') :
    Recoded (c.buffer x) t' ∧ ∀ h < c.kvHeads,
      (∀ m ∈ merges, m.source ≠ [] → m.applyTo.covers x = true →
        c.headRows t' h m.into = c.mergedRow P m (c.rowsOf x h)) ∧
      ∀ p, (∀ m ∈ merges, m.source ≠ [] → m.applyTo.covers x = true → m.into ≠ p) →
        c.headRows t' h p = c.rowsOf x h p := by
  have hdt : (c.buffer x).dtype = c.kvDtype := by
    cases x
    · rfl
    · exact hc.dtype
  have hind := independent_mergePairs (c := c) hinto hsrc x
  obtain ⟨hrec, hrun⟩ := holds_mergeLoop (f := fun hp => c.rowsOf x hp.1 hp.2)
    hc (mergePairs P c x merges)
      (fun mk hmk => ⟨hres _ (mem_mergePairs.mp hmk).1.1, (mem_mergePairs.mp hmk).2⟩)
        hdt (hc.size x)
    (fun h _ p => rfl) h
  refine ⟨hrec, fun h hh => ⟨fun m hm hne hx => ?_, fun p hp => ?_⟩⟩
  · have hmem : (m, h) ∈ mergePairs P c x merges := mem_mergePairs.mpr ⟨⟨hm, hne, hx⟩, hh⟩
    rw [hrun h hh]
    exact Assign.run_place hind (List.mem_map_of_mem hmem) _
  · rw [hrun h hh]
    refine Assign.run_of_notMem (fun hmem => ?_) _
    rw [List.map_map] at hmem
    obtain ⟨mk, hmk, he⟩ := List.mem_map.mp hmem
    obtain ⟨⟨hm, hne, hx⟩, -⟩ := mem_mergePairs.mp hmk
    exact hp _ hm hne hx (congrArg Prod.snd he)

end Independent

end KVCache

open KVCache

/-- **Merges in place are merges on a snapshot.** Resident positions, no two merges into one
position and none from a position that is merged into: on each half that a merge applies to, row
`into` of every head becomes the encoded sum of `intoWeight` times its old value and the weighted
old values of the sources, in order (the block kernel of Q4_0 writes the product the other way
round); every other row stays, and a merge from nothing changes nothing. The merges go through on
every type that has an encoder. -/
theorem merges_snapshot (P : Platform) {c : KVCache} (hc : c.WF) {merges : List (WeightedMerge P.F)}
    (hres : ∀ m ∈ merges, c.Resident m) (hinto : (merges.map fun m => m.into).Nodup)
    (hsrc : ∀ m ∈ merges, ∀ m' ∈ merges, ∀ pw ∈ m'.source, pw.1 ≠ m.into) :
    (c.Encodable → ∃ c', applyWeightedMerges P c merges = .ok c') ∧
    (∀ c', applyWeightedMerges P c merges = .ok c' → Moved c c' ∧ ∀ x, ∀ h < c.kvHeads,
      (∀ m ∈ merges, m.source ≠ [] → m.applyTo.covers x = true →
        c'.rowsOf x h m.into = c.mergedRow P m (c.rowsOf x h)) ∧
      ∀ p, (∀ m ∈ merges, m.source ≠ [] → m.applyTo.covers x = true → m.into ≠ p) →
        c'.rowsOf x h p = c.rowsOf x h p) ∧
    ∀ m : WeightedMerge P.F,
      (c.kvDtype ≠ .q4_0 ∨ ∀ v, P.mul v m.intoWeight = P.mul m.intoWeight v) → ∀ f,
      c.mergedRow P m f = c.valuesRow P (P.mergeRow (P.mul m.intoWeight) (c.rowValues P (f m.into))
        (m.source.map fun pw => (c.rowValues P (f pw.1), pw.2))) := by
  have hpairs : ∀ x, ∀ mk ∈ mergePairs P c x merges, c.Resident mk.1 ∧ mk.2 < c.kvHeads :=
    fun x mk hmk => ⟨hres _ (mem_mergePairs.mp hmk).1.1, (mem_mergePairs.mp hmk).2⟩
  refine ⟨fun he => ?_, fun c' h => ?_, fun m hmul f => ?_⟩
  · obtain ⟨k, hk⟩ := mergeLoop_ok hc he _ (hpairs .key) rfl (hc.size .key)
    obtain ⟨v, hv⟩ := mergeLoop_ok hc he _ (hpairs .value) hc.dtype (hc.size .value)
    refine ⟨{ c with kBuffer := k, vBuffer := v }, ?_⟩
    unfold applyWeightedMerges
    rw [show mergeBuffer P c .key merges c.kBuffer = .ok k from hk,
      show mergeBuffer P c .value merges c.vBuffer = .ok v from hv]
    rfl
  · unfold applyWeightedMerges at h
    cases hk : mergeBuffer P c .key merges c.kBuffer with
    | error e => rw [hk] at h; cases h
    | ok k =>
      cases hv : mergeBuffer P c .value merges c.vBuffer with
      | error e => rw [hk, hv] at h; cases h
      | ok v =>
        rw [hk, hv] at h
        cases h
        obtain ⟨⟨kb, -, rfl⟩, hkrows⟩ := rows_mergeBuffer hc hres hinto hsrc (x := .key) hk
        obtain ⟨⟨vb, -, rfl⟩, hvrows⟩ := rows_mergeBuffer hc hres hinto hsrc (x := .value) hv
        refine ⟨⟨kb, vb, rfl⟩, fun x => ?_⟩
        cases x
        · exact hkrows
        · exact hvrows
  · unfold mergedRow
    rcases hmul with hq | hmul
    · rw [if_neg hq]
    · rw [show (fun v => P.mul v m.intoWeight) = P.mul m.intoWeight from funext hmul, ite_self]

/-- The key row of position `1` added to that of position `2`, and a merge from nothing. -/
def twoMerges : List (WeightedMerge Platform.fixedPoint.F) :=
  [⟨2, (2 ^ 149 : Int), [(1, (2 ^ 149 : Int))], .keyOnly⟩, ⟨0, (2 ^ 149 : Int), [], .both⟩]

/-- Head `0` of `raggedCache` has key rows `1`, `2`, `3`. -/
theorem merges_snapshot_raggedCache :
    ∃ c', applyWeightedMerges .fixedPoint raggedCache twoMerges = .ok c' ∧
    c'.rowsOf .key 0 2 = [5, 0, 0, 0] ∧ c'.rowsOf .key 0 0 = [1, 0, 0, 0] ∧
    c'.rowsOf .value 0 2 = [0, 0, 0, 0] := by
  obtain ⟨hok, hrows, -⟩ := merges_snapshot .fixedPoint raggedCache_wf
    (by decide : ∀ m ∈ twoMerges, raggedCache.Resident m) (by decide) (by decide)
  obtain ⟨c', h⟩ := hok fun d hd => by cases hd
  obtain ⟨-, hc'⟩ := hrows c' h
  refine ⟨c', h, ?_, ?_, ?_⟩
  · rw [(hc' .key 0 (by decide)).1 _ List.mem_cons_self (List.cons_ne_nil _ _) rfl]
    decide
  · rw [(hc' .key 0 (by decide)).2 0 ?_]
    · decide
    · intro m hm hne _
      rcases List.mem_cons.mp hm with rfl | hm
      · decide
      · rw [List.mem_singleton.mp hm] at hne
        exact absurd rfl hne
  · rw [(hc' .value 0 (by decide)).2 2 ?_]
    · decide
    · intro m hm hne hx
      rcases List.mem_cons.mp hm with rfl | hm
      · cases hx
      · rw [List.mem_singleton.mp hm] at hne
        exact absurd rfl hne

end ArgusEngine
