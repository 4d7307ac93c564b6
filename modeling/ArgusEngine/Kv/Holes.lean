import ArgusEngine.Kv.Dump
import ArgusEngine.Kv.Merge
import ArgusEngine.Kv.Staged
import ArgusEngine.Lib.Runs

/-!
# Holes and non-interference

A slot below the start of its head is a hole: its bytes are no token. Two caches are `Equivalent`
when they have one geometry and the same resident rows, whatever their holes hold. The operations of
a cache take equivalent caches to equivalent caches, with two exceptions that `HoleOp.Clean` names:
a merge that sums a hole row into a resident row, and a recall that puts hole rows back as tokens
(on a cache with holes, or from a dump of one).

* `Equivalent.update`, `Equivalent.commit`, `Twins.offload`, `Twins.recallLayer`: one operation;
* **`equivalent_run`**: every run whose merges and recalls are clean;
* `merge_reads_hole`: a merge that is not.
-/

namespace ArgusEngine

open FlatMem SlotMem Outcomes Runs KVCache

/-! ## Equivalent caches -/

/-- Two HeadMajor caches of one geometry with the same resident rows. -/
structure Equivalent (c d : KVCache) : Prop where
  left : c.WF
  right : d.WF
  headMajor : c.layout = .headMajor
  geometry : c.geometry = d.geometry
  rows : ∀ x, ∀ h < c.kvHeads, ∀ p, c.headStartOf h ≤ p → p < c.currentPos →
    c.rowsOf x h p = d.rowsOf x h p

namespace Equivalent

variable {P : Platform} {c d c' d' : KVCache}

theorem kvHeads (h : Equivalent c d) : c.kvHeads = d.kvHeads :=
  congrArg Format.kvHeads (frame_eq h.geometry).1

theorem of_keepBoth (h : Equivalent c d) (hk : KeepBoth c d c' d') : Equivalent c' d' := by
  obtain ⟨hc, hd, hg⟩ := hk
  have hfmt : c'.format = c.format := congrArg Frame.format hc.frame
  have hpos : c'.currentPos = c.currentPos := congrArg Frame.currentPos hc.frame
  have hstart : ∀ k, c'.headStartOf k = c.headStartOf k := by
    intro k
    unfold headStartOf
    rw [show c'.headStart = c.headStart from congrArg Frame.headStart hc.frame]
  have hheads : c'.kvHeads = c.kvHeads := congrArg Format.kvHeads hfmt
  refine ⟨hc.wf, hd.wf, (congrArg Format.layout hfmt).trans h.headMajor, hg,
    fun x k hk p hlo hp => ?_⟩
  rw [hheads] at hk
  rw [hstart] at hlo
  rw [hpos] at hp
  rw [hc.rows x k hk p hlo hp, h.rows x k hk p hlo hp, hd.rows x k (h.kvHeads ▸ hk) p]
  · rwa [← headStartOf_of_geometry h.geometry]
  · rwa [← (frame_eq h.geometry).2.1]

theorem of_pruneBoth (h : Equivalent c d) {n : ℕ} (hp : PruneBoth n c d c' d') :
    Equivalent c' d' := by
  obtain ⟨hc, hd, hg⟩ := hp
  have hheads : c'.kvHeads = c.kvHeads := congrArg Format.kvHeads hc.format
  refine ⟨hc.wf, hd.wf, (congrArg Format.layout hc.format).trans h.headMajor, hg,
    fun x k hk p hlo hp => ?_⟩
  have hk' := hk
  rw [hheads] at hk'
  rw [hc.rows x k hk' p hlo hp, hd.rows x k (h.kvHeads ▸ hk') p (headStartOf_of_geometry hg k ▸ hlo)
    ((frame_eq hg).2.1 ▸ hp)]
  have hstart := hc.starts k hk'
  have hpos := hc.pos
  refine h.rows x k hk' (p + n) (by omega) (by omega)

theorem withContents (h : Equivalent c d) {kb vb kb' vb' : List UInt8}
    (hk : kb.length = c.kBuffer.size) (hv : vb.length = c.vBuffer.size)
    (hk' : kb'.length = d.kBuffer.size) (hv' : vb'.length = d.vBuffer.size)
    (hrows : ∀ x, ∀ k < c.kvHeads, ∀ p, c.headStartOf k ≤ p → p < c.currentPos →
      (c.withContents kb vb).rowsOf x k p = (d.withContents kb' vb').rowsOf x k p) :
    Equivalent (c.withContents kb vb) (d.withContents kb' vb') := by
  have hwf : ∀ {c : KVCache} {kb vb}, c.WF → kb.length = c.kBuffer.size →
    vb.length = c.vBuffer.size →
      (c.withContents kb vb).WF := by
    intro c kb vb hc hk hv
    refine ⟨hc.stored, hc.dtype, hc.desc, ?_, hc.pos, hc.hwm, hc.cap, hc.starts, hc.seqMajor⟩
    rintro (_ | _)
    · exact (hc.size .key).trans_eq hk.symm
    · exact (hc.size .value).trans_eq hv.symm
  exact ⟨hwf h.left hk hv, hwf h.right hk' hv', h.headMajor, h.geometry, hrows⟩

theorem headRows_eq (h : c.geometry = d.geometry) (t : Tensor) (k p : ℕ) :
    c.headRows t k p = d.headRows t k p := by
  obtain ⟨hf, -, -, -, hcap, -⟩ := frame_eq h
  unfold headRows
  rw [hcap, rowBytes_of_format hf, slot_of_geometry h]

end Equivalent

/-! ## `update` -/

section Update

variable {P : Platform} {c d : KVCache}

theorem appendOpaque_of_geometry (h : c.geometry = d.geometry) (dsc : KVLayoutDesc)
    (src : List UInt8) (l : List (ℕ × ℕ)) :
    ∀ t, c.appendOpaque P dsc src l t = d.appendOpaque P dsc src l t := by
  obtain ⟨hf, hpos, -, -, hcap, -⟩ := frame_eq h
  simp only [format, Format.mk.injEq] at hf
  obtain ⟨-, hdesc, hheads, hdim, -⟩ := hf
  have hbph : c.opaqueBytesPerHead = d.opaqueBytesPerHead := by
    simp only [opaqueBytesPerHead, hdesc, hdim]
  induction l with
  | nil => exact fun t => rfl
  | cons x l ih =>
    intro t
    obtain ⟨s, k⟩ := x
    simp only [appendOpaque, hpos, hcap, hbph, hheads, hdim, ih]

/-- **The encode loop** fails or not whatever the buffer holds, and writes behind the cursor
only. -/
theorem appendOpaque_agree {dsc : KVLayoutDesc} (hs : c.IsStored)
    (hd : c.kBuffer.buffer.desc = some dsc) (hl : c.layout = .headMajor) (src : List UInt8)
    (l : List (ℕ × ℕ)) (hmem : ∀ x ∈ l, x.2 < c.kvHeads) :
    ∀ t u : Tensor, c.capacity * c.kvHeads * c.rowBytes ≤ t.size →
      c.capacity * c.kvHeads * c.rowBytes ≤ u.size →
      (c.appendOpaque P dsc src l t).1 = (c.appendOpaque P dsc src l u).1 ∧
      Recoded t (c.appendOpaque P dsc src l t).2 ∧
      ∀ k < c.kvHeads, ∀ p < c.currentPos,
        c.headRows (c.appendOpaque P dsc src l t).2 k p = c.headRows t k p := by
  obtain ⟨hrow, hbytes⟩ := rowBytes_of_desc hs hd
  induction l with
  | nil => exact fun t u _ _ => ⟨rfl, ⟨_, rfl, rfl⟩, fun _ _ _ _ => rfl⟩
  | cons x l ih =>
    obtain ⟨s, k⟩ := x
    intro t u hst hsu
    have hk : k < c.kvHeads := hmem (s, k) List.mem_cons_self
    rw [appendOpaque, appendOpaque]
    split_ifs with hcap
    · exact ⟨rfl, ⟨_, rfl, rfl⟩, fun _ _ _ _ => rfl⟩
    have hslot : k * (c.capacity * c.opaqueBytesPerHead) + (c.currentPos + s) *
      c.opaqueBytesPerHead =
        c.slot (c.currentPos + s) k * c.rowBytes := by rw [slot_headMajor hl, hrow]; ring
    set vals := P.f32s src (s * (c.kvHeads * c.headDim) + k * c.headDim) c.headDim with hvals
    have hlen : vals.length = c.headDim := P.length_f32s _ _ _
    have hslice : ∀ {t : Tensor}, c.capacity * c.kvHeads * c.rowBytes ≤ t.size →
        (slice t.bytes (c.slot (c.currentPos + s) k * c.rowBytes) c.rowBytes).length =
          vals.length / dsc.blockElems * dsc.blockBytes.getD 0 := by
      intro t hsize
      rw [hlen, ← hbytes, ← hrow]
      refine length_slice (le_trans ?_ hsize)
      rw [← Nat.succ_mul]
      exact Nat.mul_le_mul_right _ (slot_lt (Nat.not_le.mp hcap) hk)
    rw [hslot, ← hrow]
    have hE := P.agree_encodeViaDescriptor dsc (show vals.length = vals.length from rfl)
      (hslice hst) (hslice hsu)
    generalize P.encodeViaDescriptor dsc vals (slice t.bytes _ _) = a at hE
    generalize P.encodeViaDescriptor dsc vals (slice u.bytes _ _) = b at hE
    cases hE with
    | error e => exact ⟨rfl, ⟨_, rfl, rfl⟩, fun _ _ _ _ => rfl⟩
    | ok h =>
      obtain ⟨rfl, rfl⟩ := h
      have hrowlen : (P.encodeRow dsc vals).length = c.rowBytes := by
        rw [P.length_encodeRow, hlen, hrow, hbytes]
      obtain ⟨h₁, h₂, h₃⟩ := ih (fun y hy => hmem y (List.mem_cons_of_mem _ hy))
        (t.withBytes (blit (P.encodeRow dsc vals)
          0 t.bytes (c.slot (c.currentPos + s) k * c.rowBytes) c.rowBytes))
        (u.withBytes (blit (P.encodeRow dsc vals)
          0 u.bytes (c.slot (c.currentPos + s) k * c.rowBytes) c.rowBytes))
        (hst.trans_eq (length_blit _ _ _ _ _).symm) (hsu.trans_eq (length_blit _ _ _ _ _).symm)
      refine ⟨h₁, ?_, fun k' hk' p hp => ?_⟩
      · obtain ⟨b, hb, he⟩ := h₂
        exact ⟨b, hb.trans (length_blit _ _ _ _ _), he⟩
      · rw [h₃ k' hk' p hp, headRows_blitRow hrowlen hst (Nat.not_le.mp hcap) hk hk', if_neg]
        rintro ⟨-, rfl⟩
        omega

/-- **`update_opaque` on equivalent caches**: it fails on both and leaves them equivalent, or it
appends to both. -/
theorem updateOpaque_agree (h : Equivalent c d) (ho : c.isOpaque = true) (newK newV : Tensor) :
    (∃ e c' d', c.updateOpaque P newK newV = (.error e, c') ∧
      d.updateOpaque P newK newV = (.error e, d') ∧
      Equivalent c' d') ∨
    ∃ kb vb kb' vb',
      c.updateOpaque P newK newV =
        (.ok (), (c.withContents kb vb).advancePos (newK.shape.getD 1 0)) ∧
      d.updateOpaque P newK newV =
        (.ok (), (d.withContents kb' vb').advancePos (newK.shape.getD 1 0)) := by
  have hf := (frame_eq h.geometry).1
  obtain ⟨dsc, hd⟩ := Option.isSome_iff_exists.mp ho
  have hd' : d.kBuffer.buffer.desc = some dsc := (congrArg Format.desc hf).symm.trans hd
  have hl' : d.layout = .headMajor := (congrArg Format.layout hf).symm.trans h.headMajor
  have hrb := rowBytes_of_format hf
  have hsize : ∀ x, c.capacity * c.kvHeads * c.rowBytes ≤ (d.buffer x).size := by
    intro x
    rw [h.kvHeads, (frame_eq h.geometry).2.2.2.2.1, hrb]
    exact h.right.size x
  set l := List.range (newK.shape.getD 1 0) ×ˢ List.range c.kvHeads with hlist
  have hmem : ∀ x ∈ l, x.2 < c.kvHeads := fun x hx => List.mem_range.mp (List.mem_product.mp hx).2
  have key := fun (src : List UInt8) (x : Half) =>
    appendOpaque_agree (P := P) h.left.stored hd h.headMajor src l hmem
  obtain ⟨hk₁, ⟨kb, hkb, hk⟩, hkr⟩ :=
    key newK.bytes .key c.kBuffer d.kBuffer (h.left.size .key) (hsize .key)
  obtain ⟨-, ⟨kb', hkb', hk'⟩, hkr'⟩ :=
    key newK.bytes .key d.kBuffer d.kBuffer (hsize .key) (hsize .key)
  obtain ⟨hv₁, ⟨vb, hvb, hv⟩, hvr⟩ := key newV.bytes .value c.vBuffer d.vBuffer (h.left.size .value)
    (hsize .value)
  obtain ⟨-, ⟨vb', hvb', hv'⟩, hvr'⟩ :=
    key newV.bytes .value d.vBuffer d.vBuffer (hsize .value) (hsize .value)
  rw [hk] at hkr
  rw [hk'] at hkr'
  rw [hv] at hvr
  rw [hv'] at hvr'
  have hrowsK : ∀ k < c.kvHeads, ∀ p, c.headStartOf k ≤ p → p < c.currentPos →
      c.headRows (c.kBuffer.withBytes kb) k p = d.headRows (d.kBuffer.withBytes kb') k p := by
    intro k hk p hlo hp
    rw [hkr k hk p hp, ← Equivalent.headRows_eq h.geometry (d.kBuffer.withBytes kb'),
      hkr' k hk p hp, Equivalent.headRows_eq h.geometry d.kBuffer]
    exact h.rows .key k hk p hlo hp
  have hrowsV : ∀ k < c.kvHeads, ∀ p, c.headStartOf k ≤ p → p < c.currentPos →
      c.headRows (c.vBuffer.withBytes vb) k p = d.headRows (d.vBuffer.withBytes vb') k p := by
    intro k hk p hlo hp
    rw [hvr k hk p hp, ← Equivalent.headRows_eq h.geometry (d.vBuffer.withBytes vb'),
      hvr' k hk p hp, Equivalent.headRows_eq h.geometry d.vBuffer]
    exact h.rows .value k hk p hlo hp
  have hdev : ∀ src t, d.appendOpaque P dsc src
    (List.range (newK.shape.getD 1 0) ×ˢ List.range d.kvHeads) t =
      c.appendOpaque P dsc src l t := by
    intro src t
    rw [← h.kvHeads, appendOpaque_of_geometry h.geometry]
  unfold updateOpaque
  rw [hd, hd']
  simp only
  rw [if_neg (not_not.mpr h.headMajor), if_neg (not_not.mpr hl'), hdev, hdev, ← hlist]
  generalize c.appendOpaque P dsc newK.bytes l c.kBuffer = rk at hk₁ hk
  generalize c.appendOpaque P dsc newK.bytes l d.kBuffer = rk' at hk₁ hk'
  generalize c.appendOpaque P dsc newV.bytes l c.vBuffer = rv at hv₁ hv
  generalize c.appendOpaque P dsc newV.bytes l d.vBuffer = rv' at hv₁ hv'
  obtain ⟨ek, tk⟩ := rk
  obtain ⟨ek', tk'⟩ := rk'
  obtain ⟨ev, tv⟩ := rv
  obtain ⟨ev', tv'⟩ := rv'
  simp only at hk₁ hv₁ hk hk' hv hv'
  subst hk₁ hv₁ hk hk' hv hv'
  cases ek with
  | error e =>
    refine .inl ⟨e, _, _, rfl, rfl, ?_⟩
    refine h.withContents hkb (show c.vBuffer.bytes.length = _ from rfl) hkb'
      (show d.vBuffer.bytes.length = _ from rfl) fun x k hk p hlo hp => ?_
    cases x
    · exact hrowsK k hk p hlo hp
    · exact h.rows .value k hk p hlo hp
  | ok _ =>
    cases ev with
    | error e =>
      refine .inl ⟨e, _, _, rfl, rfl, h.withContents hkb hvb hkb' hvb' fun x k hk p hlo hp => ?_⟩
      cases x
      · exact hrowsK k hk p hlo hp
      · exact hrowsV k hk p hlo hp
    | ok _ => exact .inr ⟨kb, vb, kb', vb', rfl, rfl⟩

theorem Equivalent.of_appends (h : Equivalent c d) {c' d' : KVCache} {n : ℕ}
    {row row' : Half → ℕ → ℕ → List UInt8} (hc : Appends c c' n row) (hd : Appends d d' n row')
    (hg : c'.geometry = d'.geometry)
    (hrow : ∀ x, ∀ k < c.kvHeads, ∀ s < n, row x s k = row' x s k) : Equivalent c' d' := by
  have hfmt : c'.format = c.format := congrArg Frame.format hc.frame
  have hpos : c'.currentPos = c.currentPos + n := congrArg Frame.currentPos hc.frame
  have hpos' := (frame_eq h.geometry).2.1
  have hheads : c'.kvHeads = c.kvHeads := congrArg Format.kvHeads hfmt
  refine ⟨hc.wf, hd.wf, (congrArg Format.layout hfmt).trans h.headMajor, hg,
    fun x k hk p hlo hp => ?_⟩
  rw [hheads] at hk
  rw [headStartOf, show c'.headStart = c.headStart from congrArg Frame.headStart hc.frame] at hlo
  rcases Nat.lt_or_ge p c.currentPos with hlt | hge
  · rw [hc.old x k hk p hlo hlt, hd.old x k (h.kvHeads ▸ hk) p
      ((headStartOf_of_geometry h.geometry k).symm.trans_le hlo) (hpos' ▸ hlt)]
    exact h.rows x k hk p hlo hlt
  · obtain ⟨s, rfl⟩ := Nat.exists_eq_add_of_le hge
    rw [hc.new x k hk s (by omega), hpos', hd.new x k (h.kvHeads ▸ hk) s (by omega)]
    exact hrow x k hk s (by omega)

/-- **`update` keeps caches equivalent.** -/
theorem Equivalent.update (h : Equivalent c d) {newK newV : Tensor}
    (hin : c.Input newK newV (newK.shape.getD 1 0)) :
    Equivalent (c.update P newK newV).2 (d.update P newK newV).2 := by
  have hf := (frame_eq h.geometry).1
  have hin' : d.Input newK newV (newK.shape.getD 1 0) := hin.of_format hf.symm
  have happ : ∀ {c' d' : KVCache}, c.update P newK newV = (.ok (), c') →
    d.update P newK newV = (.ok (), d') →
      c'.geometry = d'.geometry → Equivalent c' d' := by
    intro c' d' hc hd hg
    refine h.of_appends (appends_update h.left hin hc) (appends_update h.right hin' hd)
      hg fun x k _ s _ => ?_
    exact inputRow_of_format P hf _ _ _
  have hroom := agree_makeRoom h.left h.right h.geometry (newK.shape.getD 1 0)
  unfold KVCache.update at happ ⊢
  simp only at happ ⊢
  generalize c.makeRoom (newK.shape.getD 1 0) = a at hroom happ ⊢
  generalize d.makeRoom (newK.shape.getD 1 0) = b at hroom happ ⊢
  cases hroom with
  | error e => exact h
  | @ok c₁ d₁ hk =>
    have h₁ := h.of_keepBoth hk
    have hop : c₁.isOpaque = d₁.isOpaque := isOpaque_of_format (frame_eq h₁.geometry).1
    have hadv :
      ({ c₁.geometry with currentPos := c₁.currentPos + newK.shape.getD 1 0 } : Geometry) =
        { d₁.geometry with currentPos := d₁.currentPos + newK.shape.getD 1 0 } := by
      rw [h₁.geometry, (frame_eq h₁.geometry).2.1]
    simp only at happ ⊢
    rw [← hop] at happ ⊢
    split_ifs at happ ⊢ with ho
    · rcases updateOpaque_agree (P := P) h₁ ho newK newV with ⟨e, c', d', hc, hd, hE⟩ |
        ⟨kb, vb, kb', vb', hc, hd⟩
      · rw [hc, hd]; exact hE
      · rw [hc, hd]
        refine happ hc hd ?_
        exact hadv
    · refine happ rfl rfl ?_
      obtain ⟨kb, -, hkb⟩ := c₁.appendTyped_eq (c₁.canDirectCopy newK)
        (newK.shape.getD 1 0) newK c₁.kBuffer
      obtain ⟨kb', -, hkb'⟩ := d₁.appendTyped_eq (d₁.canDirectCopy newK)
        (newK.shape.getD 1 0) newK d₁.kBuffer
      rw [hkb, hkb']
      exact hadv

end Update

/-! ## Committed transactions -/

section Commit

variable {P : Platform} {c d : KVCache}

theorem Equivalent.agree_merges (h : Equivalent c d) {ms : List (WeightedMerge P.F)}
    (hlt : ∀ m ∈ ms, m.into < c.currentPos ∧ ∀ pw ∈ m.source, pw.1 < c.currentPos)
    (hsafe : ∀ m ∈ ms, c.HoleSafe m) :
    Agree (fun c' d' => Equivalent c' d' ∧ Moved c c')
      (applyWeightedMerges P c ms) (applyWeightedMerges P d ms) := by
  obtain ⟨hf, hpos, -, -, hcap, -⟩ := frame_eq h.geometry
  have hdt : d.kvDtype = c.kvDtype := (congrArg Format.dtype hf).symm
  have hbuf := fun (x : Half) => agree_mergeBuffer (P := P) h.left.stored (fun _ => h.headMajor)
    h.left.pos x hlt hsafe (h.left.dtype_buffer x) ((h.right.dtype_buffer x).trans hdt)
      (h.left.size x)
    (by rw [h.kvHeads, hcap, rowBytes_of_format hf]; exact h.right.size x)
    (fun k hk p hlo hp => by
      rw [Equivalent.headRows_eq h.geometry (d.buffer x)]
      exact h.rows x k hk p hlo hp)
  unfold ArgusEngine.applyWeightedMerges
  rw [← mergeBuffer_of_geometry h.geometry, ← mergeBuffer_of_geometry h.geometry]
  refine (hbuf .key).bind fun k k' hk => (hbuf .value).bind fun v v' hv => ?_
  obtain ⟨⟨kb, hkb, rfl⟩, ⟨kb', hkb', rfl⟩, hK⟩ := hk
  obtain ⟨⟨vb, hvb, rfl⟩, ⟨vb', hvb', rfl⟩, hV⟩ := hv
  refine .ok ⟨h.withContents hkb hvb hkb' hvb' fun x k hk p hlo hp => ?_, ⟨kb, vb, rfl⟩⟩
  cases x
  · exact (hK k hk p hlo hp).trans (Equivalent.headRows_eq h.geometry _ k p)
  · exact (hV k hk p hlo hp).trans (Equivalent.headRows_eq h.geometry _ k p)

theorem Equivalent.of_gathers (h : Equivalent c d) {c' d' : KVCache} {n : ℕ} {L : ℕ → List ℕ}
    (hc : Gathers c c' n L) (hd : Gathers d d' n L) (hg : c'.geometry = d'.geometry)
    (hres : ∀ k < c.kvHeads, ∀ p ∈ L k, c.headStartOf k ≤ p ∧ p < c.currentPos) :
    Equivalent c' d' := by
  have hheads : c'.kvHeads = c.kvHeads := congrArg Format.kvHeads hc.format
  refine ⟨hc.wf, hd.wf, (congrArg Format.layout hc.format).trans h.headMajor, hg,
    fun x k hk p hlo hp => ?_⟩
  rw [hheads] at hk
  rw [hc.starts k hk] at hlo
  rw [hc.pos] at hp
  have hi : p - (n - (L k).length) < (L k).length := by omega
  have h₁ := hc.rows x k hk _ hi
  have h₂ := hd.rows x k (h.kvHeads ▸ hk) _ hi
  rw [Nat.add_sub_cancel' hlo] at h₁ h₂
  rw [h₁, h₂]
  obtain ⟨hlo', hp'⟩ := hres k hk _ (List.getElem_mem hi)
  exact h.rows x k hk _ hlo' hp'

theorem Equivalent.keep (h : Equivalent c d) {keep : List ℕ}
    (hacc : (KeepCall.keep keep).Accepted c) : ∃ c' d', c.compactKeepPositions keep 0 = .ok c' ∧
    d.compactKeepPositions keep 0 = .ok d' ∧
      Equivalent (c'.setCurrentPos keep.length).clearHeadStarts
        (d'.setCurrentPos keep.length).clearHeadStarts := by
  obtain ⟨hasc, hlt, hres⟩ := hacc
  have hpos := (frame_eq h.geometry).2.1
  obtain ⟨c', hc, hG⟩ := gathers_commitKeep h.left hasc hlt
  obtain ⟨d', hd, hG'⟩ := gathers_commitKeep h.right hasc (hpos ▸ hlt)
  refine ⟨c', d', hc, hd, h.of_gathers hG hG' ?_ fun k hk p hp => ⟨hres k hk p hp, hlt p hp⟩⟩
  obtain ⟨kb, vb, rfl⟩ := moved_compactKeepPositions hc
  obtain ⟨kb', vb', rfl⟩ := moved_compactKeepPositions hd
  have hgeo : ∀ e : KVCache, (e.setCurrentPos keep.length).clearHeadStarts.geometry =
      { e.geometry with currentPos := keep.length, headStart := [] } := by
    intro e
    change ({ (e.setCurrentPos keep.length).geometry with headStart := [] } : Geometry) = _
    rw [geometry_setCurrentPos]
  rw [hgeo, hgeo]
  exact congrArg (fun g : Geometry => { g with currentPos := keep.length,
                                               headStart := [] }) h.geometry

theorem Equivalent.keepPerHead (h : Equivalent c d) {heads : List (List ℕ)}
    (hacc : (KeepCall.keepPerHead heads).Accepted c) :
    ∃ c' d', commitPerHeadKeep c heads = .ok c' ∧ commitPerHeadKeep d heads = .ok d' ∧
    Equivalent c' d' := by
  obtain ⟨hl, hlen, hall, -⟩ := hacc
  obtain ⟨hf, hpos, -⟩ := frame_eq h.geometry
  have hmem : ∀ l ∈ heads, l.Pairwise (· < ·) ∧ ∀ p ∈ l, p < c.currentPos := by
    intro l hl
    obtain ⟨i, hi, rfl⟩ := List.getElem_of_mem hl
    exact ⟨(hall i hi).2.1, (hall i hi).1⟩
  obtain ⟨c', hc, hG⟩ := gathers_commitPerHeadKeep h.left hl hlen (fun l hl => (hmem l hl).1)
    fun l hl => (hmem l hl).2
  obtain ⟨d', hd, hG'⟩ :=
    gathers_commitPerHeadKeep h.right ((congrArg Format.layout hf).symm.trans hl) (h.kvHeads ▸ hlen)
      (fun l hl => (hmem l hl).1) fun l hl => hpos ▸ (hmem l hl).2
  refine ⟨c', d', hc, hd, h.of_gathers hG hG' ?_ fun k hk p hp => ?_⟩
  · obtain ⟨c₁, ⟨kb, vb, rfl⟩, rfl⟩ := commitPerHeadKeep_eq hc
    obtain ⟨d₁, ⟨kb', vb', rfl⟩, rfl⟩ := commitPerHeadKeep_eq hd
    set n := (heads.map List.length).foldl max 0
    set starts := heads.map fun l => n - l.length
    have hgeo : ∀ e : KVCache, ((e.setCurrentPos n).setHeadStarts starts).geometry =
      { e.geometry with
        currentPos := n
        headStart := if starts.all (· = 0) then [] else starts.map (min · n) } := by
      intro e
      change ({ (e.setCurrentPos n).geometry with
        headStart := if starts.all (· = 0) then []
          else starts.map (min · (e.setCurrentPos n).currentPos) } : Geometry) = _
      rw [geometry_setCurrentPos, (setCurrentPos_same e n).1]
    rw [hgeo, hgeo]
    exact congrArg (fun g : Geometry => { g with
      currentPos := n
      headStart := if starts.all (· = 0) then [] else starts.map (min · n) }) h.geometry
  · have hk' : k < heads.length := hlen ▸ hk
    rw [List.getD_eq_getElem _ _ hk'] at hp
    exact ⟨(hall k hk').2.2 p hp, (hall k hk').1 p hp⟩

theorem KeepCall.Accepted.of_geometry {k : KeepCall} (hk : k.Accepted c)
    (hg : d.geometry = c.geometry) : k.Accepted d := by
  obtain ⟨hf, hpos, -, hstart, -⟩ := frame_eq hg
  have hsup : d.supportsRagged = c.supportsRagged := by
    have ho := isOpaque_of_format hf
    simp only [format, Format.mk.injEq] at hf
    unfold supportsRagged
    rw [ho, hf.1, hf.2.2.2.2]
  simp only [format, Format.mk.injEq] at hf
  cases k with
  | keep positions =>
    simp only [KeepCall.Accepted, headStartOf_of_geometry hg, hpos, hf.2.2.1]
    exact hk
  | keepPerHead positions =>
    simp only [KeepCall.Accepted, headStartOf_of_geometry hg, hpos, hf.2.2.1, hf.2.2.2.2, hsup]
    exact hk

/-- **A committed transaction keeps caches equivalent** when its merges read no hole. -/
theorem Equivalent.commit (h : Equivalent c d) (layerIdx nLayers : ℕ) {calls : List (HandleCall P)}
    (hre : ∀ target, HandleCall.reencode target ∉ calls)
    (hsafe : ∀ ms, HandleCall.merge ms ∈
      accepted (EngineCacheHandle.new c layerIdx nLayers none) calls → ∀ m ∈ ms, c.HoleSafe m) :
    Equivalent (runCalls (EngineCacheHandle.new c layerIdx nLayers none) calls).commit.2.1
      (runCalls (EngineCacheHandle.new d layerIdx nLayers none) calls).commit.2.1 := by
  have hst := staged_runCalls c layerIdx nLayers none calls
  have hswap := (runCalls_cache calls (EngineCacheHandle.new c layerIdx nLayers none)).2
  have hms := fun ms => @merges_runCalls P calls (EngineCacheHandle.new c layerIdx nLayers none) ms
  have hreenc : (runCalls (EngineCacheHandle.new c layerIdx nLayers none)
    calls).reencode = none := by
    have hnil : (accepted (EngineCacheHandle.new c layerIdx nLayers none) calls).filterMap
      HandleCall.target? = [] := by
      refine List.filterMap_eq_nil_iff.mpr fun call hcall => ?_
      cases call with
      | reencode target => exact absurd (mem_of_mem_accepted _ _ hcall) (hre target)
      | _ => rfl
    rw [reencode_runCalls, hnil]
    rfl
  have hd : runCalls (EngineCacheHandle.new d layerIdx nLayers none) calls =
      { runCalls (EngineCacheHandle.new c layerIdx nLayers none : EngineCacheHandle P)
          calls with cache := d } := by
    have := runCalls_withCache calls (EngineCacheHandle.new c layerIdx nLayers none) h.geometry
    rw [← this, EngineCacheHandle.new, EngineCacheHandle.new, (frame_eq h.geometry).2.1]
  rw [hd]
  generalize runCalls (EngineCacheHandle.new c layerIdx nLayers none) calls =
    hc at hst hswap hms hreenc
  have hswap : hc.swap = none := hswap
  have hcomp : ∀ {c' d' : KVCache} (m : Bool), Equivalent c' d' → Moved c c' →
      Equivalent (hc.commitCompaction c' m).2.1
        (({ hc with cache := d } : EngineCacheHandle P).commitCompaction d' m).2.1 := by
    intro c' d' m hE hM
    have hg : c'.geometry = c.geometry := by
      obtain ⟨kb, vb, rfl⟩ := hM
      rfl
    have hkeep := hst.keep
    unfold EngineCacheHandle.commitCompaction
    simp only [hswap]
    cases hk : hc.compaction with
    | none => exact hE
    | some comp =>
      rw [hk] at hkeep
      cases comp with
      | keep keep =>
        obtain ⟨c₁, d₁, h₁, h₂, hE'⟩ := hE.keep ((hkeep (.keep keep) rfl).of_geometry hg)
        simp only [h₁, h₂]
        exact hE'
      | keepPerHead heads =>
        obtain ⟨c₁, d₁, h₁, h₂, hE'⟩ :=
          hE.keepPerHead ((hkeep (.keepPerHead heads) rfl).of_geometry hg)
        simp only [h₁, h₂]
        exact hE'
      | offload n => exact hE
      | recallLayer => exact hE
  unfold EngineCacheHandle.commit EngineCacheHandle.commitValues EngineCacheHandle.commitReencode
    EngineCacheHandle.commitMerges
  simp only [hreenc, hst.cache]
  cases hmerges : hc.merges with
  | none => exact hcomp _ h (.refl c)
  | some ms =>
    simp only
    split_ifs with hempty
    · exact hcomp _ h (.refl c)
    · have hA := h.agree_merges (hst.merges ms hmerges)
        (hsafe ms ((hms ms hmerges).resolve_left fun hnil => by cases hnil))
      generalize applyWeightedMerges P c ms = a at hA
      generalize applyWeightedMerges P d ms = b at hA
      cases hA with
      | error e => exact h
      | ok hE => exact hcomp _ hE.1 hE.2

end Commit

/-! ## The swap handler -/

/-- A cache and its swap handler. `holed` is history: the sequence numbers of the dumps that were
taken while the cache had holes. -/
structure World where
  cache : KVCache
  swap : SwapHandler
  holed : List ℕ

/-- Two worlds that differ in the holes only: in the caches, and in the dumps that hold some. -/
structure Twins (w w' : World) : Prop where
  cache : Equivalent w.cache w'.cache
  records : w.swap.records = w'.swap.records
  nextSeq : w.swap.nextSeq = w'.swap.nextSeq
  swapDir : w.swap.swapDir = w'.swap.swapDir
  dirOk : w.swap.disk.dirOk = w'.swap.disk.dirOk
  writeOk : w.swap.disk.writeOk = w'.swap.disk.writeOk
  holed : w.holed = w'.holed
  files : ∀ path : SwapPath, path.seq ∉ w.holed → w.swap.disk.files path = w'.swap.disk.files path
  float : ∀ rec ∈ w.swap.records, rec.dtype = .f32 ∨ rec.dtype = .f16

namespace World

variable (P : Platform)

/-- The history after a call that leaves the swap handler `s`. -/
def noted (w : World) (s : SwapHandler) : List ℕ :=
  if w.cache.isRagged ∧ s.nextSeq ≠ w.swap.nextSeq then w.swap.nextSeq :: w.holed else w.holed

/-- `offload_prefix`, with the history of the dumps. -/
def offload (layerIdx count : ℕ) (w : World) : World :=
  let r := w.swap.offloadPrefix P layerIdx w.cache count
  ⟨r.2.2, r.2.1, w.noted r.2.1⟩

/-- `recall_layer`. -/
def recallLayer (layerIdx : ℕ) (w : World) : World :=
  let r := w.swap.recallLayer layerIdx w.cache
  ⟨r.2.2, r.2.1, w.holed⟩

end World

section Swap

variable {P : Platform} {w w' : World}

theorem mem_noted {s : SwapHandler} {k : ℕ} (hk : k ∉ w.noted s) : k ∉ w.holed ∧
    (w.cache.isRagged = true → s.nextSeq ≠ w.swap.nextSeq → k ≠ w.swap.nextSeq) := by
  unfold World.noted at hk
  split_ifs at hk with hr
  · rw [List.mem_cons, not_or] at hk
    exact ⟨hk.2, fun _ _ => hk.1⟩
  · exact ⟨hk, fun h₁ h₂ => absurd ⟨h₁, h₂⟩ hr⟩

theorem Twins.settle (h : Twins w w') {s s' : SwapHandler} (n : ℕ) (hrec : s.records = s'.records)
    (hseq : s.nextSeq = s'.nextSeq) (hdir : s.swapDir = s'.swapDir)
    (hdirOk : s.disk.dirOk = s'.disk.dirOk) (hwrite : s.disk.writeOk = s'.disk.writeOk)
    (hfiles : ∀ path : SwapPath, path.seq ∉ w.noted s → s.disk.files path = s'.disk.files path)
    (hfloat : ∀ rec ∈ s.records, rec.dtype = .f32 ∨ rec.dtype = .f16) :
    let r := s.pruneOnly P w.cache n
    let r' := s'.pruneOnly P w'.cache n
    Twins ⟨r.2.2, r.2.1, w.noted r.2.1⟩ ⟨r'.2.2, r'.2.1, w'.noted r'.2.1⟩ := by
  have hA := agree_prunePrefix (P := P) h.cache.left h.cache.right h.cache.geometry n
  have hrag : w.cache.isRagged = w'.cache.isRagged := by
    unfold isRagged
    rw [(frame_eq h.cache.geometry).2.2.2.1]
  have hnoted : w.noted s = w'.noted s' := by
    unfold World.noted
    rw [hrag, hseq, h.nextSeq, h.holed]
  intro r r'
  have hr : r.2.1 = s ∧ r'.2.1 = s' ∧ Equivalent r.2.2 r'.2.2 := by
    simp only [r, r', SwapHandler.pruneOnly]
    generalize w.cache.prunePrefix P n = a at hA
    generalize w'.cache.prunePrefix P n = b at hA
    cases hA with
    | error e => exact ⟨rfl, rfl, h.cache⟩
    | ok hp => exact ⟨rfl, rfl, h.cache.of_pruneBoth hp⟩
  rw [hr.1, hr.2.1]
  exact ⟨hr.2.2, hrec, hseq, hdir, hdirOk, hwrite, hnoted, hfiles, hfloat⟩

theorem dumpPrefix_of_geometry {c d : KVCache} (h : c.geometry = d.geometry) (t : Tensor) (n : ℕ) :
    SwapHandler.dumpPrefix c t n = SwapHandler.dumpPrefix d t n := by
  obtain ⟨hf, -, -, -, hcap, -⟩ := frame_eq h
  simp only [format, Format.mk.injEq] at hf
  simp only [SwapHandler.dumpPrefix, hf.1, hf.2.2.1, hf.2.2.2.1, hcap]

theorem Equivalent.dumpPrefix_eq {c d : KVCache} (h : Equivalent c d) (hr : c.isRagged = false)
    (hf : c.kvDtype = .f16 ∨ c.kvDtype = .f32) (x : Half) {n : ℕ} (hn : n ≤ c.currentPos) :
    SwapHandler.dumpPrefix c (c.buffer x) n = SwapHandler.dumpPrefix d (d.buffer x) n := by
  rw [← dumpPrefix_of_geometry h.geometry]
  refine SwapHandler.dumpPrefix_congr h.left.stored h.headMajor hf (hn.trans h.left.pos)
    fun k hk p hp => ?_
  rw [Equivalent.headRows_eq h.geometry (d.buffer x)]
  refine h.rows x k hk p ?_ (hp.trans_le hn)
  rw [headStartOf_eq_zero hr]
  exact Nat.zero_le _

/-- **An offload keeps worlds twins**: a dump of a cache with holes is noted. -/
theorem Twins.offload (h : Twins w w') (layerIdx n : ℕ) :
    Twins (w.offload P layerIdx n) (w'.offload P layerIdx n) := by
  obtain ⟨hf, hpos, -, hstart, -⟩ := frame_eq h.cache.geometry
  simp only [format, Format.mk.injEq] at hf
  obtain ⟨hdt, -, hheads, hdim, hlay⟩ := hf
  have hsame : ∀ path : SwapPath, path.seq ∉ w.noted w.swap →
    w.swap.disk.files path = w'.swap.disk.files path :=
    fun path hp => h.files path (mem_noted hp).1
  have hstay := h.settle (P := P) n h.records h.nextSeq h.swapDir h.dirOk h.writeOk hsame h.float
  unfold World.offload SwapHandler.offloadPrefix
  simp only [← hpos, ← hdt, ← hlay, ← hheads, ← hdim, ← h.swapDir, ← h.dirOk,
    ← h.writeOk, ← h.nextSeq]
  split_ifs with h₀ h₁ h₂ h₃ h₄ h₅ h₆
  · refine ⟨h.cache, h.records, h.nextSeq, h.swapDir, h.dirOk, h.writeOk, ?_, hsame, h.float⟩
    simp [World.noted, h.holed]
  · exact hstay
  · exact hstay
  · exact hstay
  · exact hstay
  · exact h.settle n h.records rfl rfl h.dirOk h.writeOk (fun path hp =>
      h.files path (mem_noted hp).1) h.float
  · refine h.settle n h.records rfl rfl h.dirOk h.writeOk (fun path hp => ?_) h.float
    simp only [Disk.write, Disk.remove, Function.update_apply]
    split_ifs
    · rfl
    · exact h.files path (mem_noted hp).1
  · refine h.settle n (by rw [h.records]) rfl rfl h.dirOk h.writeOk (fun path hp => ?_)
      fun rec hrec => ?_
    · obtain ⟨hp₁, hp₂⟩ := mem_noted hp
      have hseq : w.cache.isRagged = true → path.seq ≠ w.swap.nextSeq := fun hr => hp₂ hr (by simp)
      have hfl : w.cache.kvDtype = .f16 ∨ w.cache.kvDtype = .f32 := by
        by_contra hne
        rw [not_or] at hne
        exact h₂ ⟨hne.2, hne.1⟩
      have hn : n ≤ w.cache.currentPos := by omega
      simp only [Disk.write, Function.update_apply]
      split_ifs with hv hk
      · cases hr : w.cache.isRagged with
        | true => exact absurd (congrArg SwapPath.seq hv) (hseq hr)
        | false => exact congrArg some (h.cache.dumpPrefix_eq hr hfl .value hn)
      · cases hr : w.cache.isRagged with
        | true => exact absurd (congrArg SwapPath.seq hk) (hseq hr)
        | false => exact congrArg some (h.cache.dumpPrefix_eq hr hfl .key hn)
      · exact h.files path hp₁
    · rcases List.mem_append.mp hrec with hrec | hrec
      · exact h.float rec hrec
      · rw [List.mem_singleton.mp hrec]
        simp only
        by_contra hne
        rw [not_or] at hne
        exact h₂ hne

theorem agree_recallRoom {c d : KVCache} (h : Equivalent c d) (n : ℕ) :
    Agree (fun r s => KeepBoth c d r.2 s.2) (SwapHandler.recallRoom c n)
      (SwapHandler.recallRoom d n) := by
  obtain ⟨-, hpos, -, -, hcap, -⟩ := frame_eq h.geometry
  unfold SwapHandler.recallRoom
  rw [hpos, hcap]
  split_ifs
  · exact (agree_ensureCapacity h.left h.right h.geometry _).mono fun _ _ hr => hr.2
  · exact .ok ⟨Keeps.refl h.left, Keeps.refl h.right, h.geometry⟩

theorem Equivalent.of_shifted {c d c' d' : KVCache} {n : ℕ} (h : Equivalent c d)
    (hr : c.isRagged = false) (hc : SwapHandler.Shifted c c' n) (hd : SwapHandler.Shifted d d' n)
    (hg : c'.geometry = d'.geometry) : Equivalent c' d' := by
  have hfmt : c'.format = c.format := congrArg Frame.format hc.frame
  have hpos : c'.currentPos = c.currentPos := congrArg Frame.currentPos hc.frame
  have hpos' := (frame_eq h.geometry).2.1
  have hzero : ∀ k p, c.headStartOf k ≤ p ∧ d.headStartOf k ≤ p := by
    intro k p
    rw [← headStartOf_of_geometry h.geometry, headStartOf_eq_zero hr]
    exact ⟨Nat.zero_le _, Nat.zero_le _⟩
  refine ⟨hc.wf, hd.wf, (congrArg Format.layout hfmt).trans h.headMajor, hg,
    fun x k hk p _ hp => ?_⟩
  rw [show c'.kvHeads = c.kvHeads from congrArg Format.kvHeads hfmt] at hk
  rw [hpos] at hp
  have hk' := h.kvHeads ▸ hk
  rcases Nat.lt_or_ge p n with hlt | hge
  · rw [hc.low x k hk p (hzero k p).1 hp hlt, hd.low x k hk' p (hzero k p).2 (hpos' ▸ hp) hlt]
    exact h.rows x k hk p (hzero k p).1 hp
  · obtain ⟨q, rfl⟩ := Nat.exists_eq_add_of_le' hge
    rw [hc.high x k hk q (hzero k q).1 (by omega), hd.high x k hk' q (hzero k q).2 (by omega)]
    exact h.rows x k hk q (hzero k q).1 (by omega)

/-- Without holes the same dump loaded in front keeps caches equivalent. -/
theorem Equivalent.of_loads {c d c₂ d₂ c' d' : KVCache} {n : ℕ} {dump : Half → List UInt8}
    (h : Equivalent c d) (hr : c.isRagged = false) (hc : SwapHandler.Shifted c c₂ n)
    (hd : SwapHandler.Shifted d d₂ n) (hg : c₂.geometry = d₂.geometry)
    (hlc : SwapHandler.Loads c₂ c' n dump) (hld : SwapHandler.Loads d₂ d' n dump) :
    Equivalent c' d' := by
  have hfmt : c₂.format = c.format := congrArg Frame.format hc.frame
  have hfmt' : c'.format = c.format := (congrArg Frame.format hlc.frame).trans hfmt
  have hpos₂ : c₂.currentPos = c.currentPos := congrArg Frame.currentPos hc.frame
  have hpos : c'.currentPos = c₂.currentPos + n := congrArg Frame.currentPos hlc.frame
  obtain ⟨hf₂, hpos₃, -, -, hcap, -⟩ := frame_eq hg
  have hheads : c₂.kvHeads = c.kvHeads := congrArg Format.kvHeads hfmt
  have hzero : ∀ k p, c.headStartOf k ≤ p ∧ d.headStartOf k ≤ p := by
    intro k p
    rw [← headStartOf_of_geometry h.geometry, headStartOf_eq_zero hr]
    exact ⟨Nat.zero_le _, Nat.zero_le _⟩
  refine ⟨hlc.wf, hld.wf, (congrArg Format.layout hfmt').trans h.headMajor, ?_,
    fun x k hk p _ hp => ?_⟩
  · rw [hlc.geometry, hld.geometry, hg, hpos₃]
  rw [show c'.kvHeads = c.kvHeads from congrArg Format.kvHeads hfmt'] at hk
  have hk' := h.kvHeads ▸ hk
  have hd₂ : k < d₂.kvHeads := by
    rw [← show c₂.kvHeads = d₂.kvHeads from congrArg Format.kvHeads hf₂, hheads]
    exact hk
  have hp' : p < c₂.capacity := by
    have := hc.room
    omega
  rw [hlc.rows x k (hheads ▸ hk) p hp', hld.rows x k hd₂ p (hcap ▸ hp'), rowBytes_of_format hf₂]
  split_ifs with hpn
  · rfl
  · obtain ⟨q, rfl⟩ := Nat.exists_eq_add_of_le' (Nat.not_lt.mp hpn)
    have hq : q < c.currentPos := by omega
    rw [hc.high x k hk q (hzero k q).1 hq,
      hd.high x k hk' q (hzero k q).2 ((frame_eq h.geometry).2.1 ▸ hq)]
    exact h.rows x k hk q (hzero k q).1 hq

theorem Twins.recallOne (h : Twins w w') {rec : SwapRecord} (hrec : rec ∈ w.swap.records)
    (hclean : SwapHandler.Takes w.cache rec → w.cache.isRagged = false ∧ rec.kPath.seq ∉ w.holed ∧
      rec.vPath.seq ∉ w.holed) :
    Equivalent (SwapHandler.recallOne w.swap.disk w.cache rec).2
      (SwapHandler.recallOne w'.swap.disk w'.cache rec).2 := by
  have hE := h.cache
  obtain ⟨hf, -, -, -, -, -⟩ := frame_eq hE.geometry
  have hl' : w'.cache.layout = .headMajor := (congrArg Format.layout hf).symm.trans hE.headMajor
  by_cases hfit : SwapHandler.Fits w.cache rec
  swap
  · obtain ⟨e, he⟩ := SwapHandler.recallOne_of_not_fits hE.headMajor hfit hE.geometry
    rw [(he w.swap.disk w'.swap.disk).1, (he w.swap.disk w'.swap.disk).2]
    exact hE
  have hfit' : SwapHandler.Fits w'.cache rec := by
    simp only [format, Format.mk.injEq] at hf
    exact ⟨hf.2.2.2.1 ▸ hfit.1, hf.2.2.1 ▸ hfit.2.1, hf.1 ▸ hfit.2.2⟩
  rw [SwapHandler.recallOne_of_fits hE.headMajor hfit, SwapHandler.recallOne_of_fits hl' hfit']
  have hroom := agree_recallRoom hE rec.tokenCount
  by_cases htakes : SwapHandler.Takes w.cache rec
  swap
  · obtain ⟨e, he⟩ := SwapHandler.recallRoom_of_not_takes hfit htakes
    rw [he] at hroom ⊢
    generalize SwapHandler.recallRoom w'.cache rec.tokenCount = b at hroom
    cases hroom
    exact hE
  obtain ⟨hr, hsk, hsv⟩ := hclean htakes
  cases ha : SwapHandler.recallRoom w.cache rec.tokenCount with
  | error e =>
    rw [ha] at hroom
    generalize SwapHandler.recallRoom w'.cache rec.tokenCount = b at hroom
    cases hroom
    exact hE
  | ok a =>
    cases hb : SwapHandler.recallRoom w'.cache rec.tokenCount with
    | error e => rw [ha, hb] at hroom; cases hroom
    | ok b =>
      rw [ha, hb] at hroom
      obtain ⟨ba, c₁⟩ := a
      obtain ⟨bb, d₁⟩ := b
      cases hroom with
      | ok hk =>
        obtain ⟨c₂, hc₂, hcs, hcg⟩ := SwapHandler.shifted_recallShift hE.headMajor hk.1
          (SwapHandler.keeps_recallRoom hE.left ha).2
        obtain ⟨d₂, hd₂, hds, hdg⟩ := SwapHandler.shifted_recallShift hl' hk.2.1
          (SwapHandler.keeps_recallRoom hE.right hb).2
        have hg : c₂.geometry = d₂.geometry := by rw [hcg, hdg]; exact hk.2.2
        simp only [hc₂, hd₂]
        rw [SwapHandler.loadRecord_congr (h.files _ hsk).symm (h.files _ hsv).symm]
        by_cases hread : ∃ dump, SwapHandler.Readable w.swap.disk rec dump
        swap
        · obtain ⟨e, he⟩ := SwapHandler.loadRecord_of_not_readable (not_exists.mp hread)
          rw [he, he]
          exact hE.of_shifted hr hcs hds hg
        obtain ⟨dump, hread⟩ := hread
        have hload : ∀ {c c₂ : KVCache}, c.WF → c.layout = .headMajor → SwapHandler.Fits c rec →
            SwapHandler.Shifted c c₂ rec.tokenCount → ∃ c',
              SwapHandler.loadRecord w.swap.disk c₂ rec = (.ok rec.tokenCount, c') ∧
              SwapHandler.Loads c₂ c' rec.tokenCount dump := by
          intro c c₂ hc hl hfit hs
          have hfmt : c₂.format = c.format := congrArg Frame.format hs.frame
          have hpos : c₂.currentPos = c.currentPos := congrArg Frame.currentPos hs.frame
          have hroom := hs.room
          simp only [format, Format.mk.injEq] at hfmt
          have hfit₂ : SwapHandler.Fits c₂ rec :=
            ⟨hfmt.2.2.2.1.trans hfit.1, hfmt.2.2.1.trans hfit.2.1, hfmt.1.trans hfit.2.2⟩
          have hfl : c₂.kvDtype = .f16 ∨ c₂.kvDtype = .f32 := by
            rw [hfit₂.2.2]
            exact (h.float rec hrec).symm
          exact SwapHandler.loads_loadRecord hs.wf (hfmt.2.2.2.2.trans hl) hfit₂ hfl (by omega)
            hread.1 hread.2.1 (hread.length_eq hs.wf.stored hfit₂ hfl)
        obtain ⟨c', hc', hlc⟩ := hload hE.left hE.headMajor hfit hcs
        obtain ⟨d', hd', hld⟩ := hload hE.right hl' hfit' hds
        rw [hc', hd']
        exact hE.of_loads hr hcs hds hg hlc hld

/-- **A clean recall keeps worlds twins.** -/
theorem Twins.recallLayer (h : Twins w w') {layerIdx : ℕ}
    (hclean : ∀ rec, (w.swap.records.find? fun r => r.layerIdx = layerIdx) = some rec →
      SwapHandler.Takes w.cache rec → w.cache.isRagged = false ∧ rec.kPath.seq ∉ w.holed ∧
        rec.vPath.seq ∉ w.holed) : Twins (w.recallLayer layerIdx) (w'.recallLayer layerIdx) := by
  unfold World.recallLayer SwapHandler.recallLayer
  rw [← h.records]
  cases hfind : w.swap.records.find? fun r => r.layerIdx = layerIdx with
  | none => exact h
  | some rec =>
    have hE := h.recallOne (List.mem_of_find?_eq_some hfind) (hclean rec hfind)
    refine ⟨hE, rfl, h.nextSeq, h.swapDir, h.dirOk, h.writeOk, h.holed, fun path hp => ?_,
      fun r hr => h.float r (List.mem_of_mem_eraseP hr)⟩
    simp only [Disk.remove, Function.update_apply, h.files path hp]

end Swap

/-! ## Runs -/

/-- The operations that read or move rows. -/
inductive HoleOp (P : Platform) where
  | update (newK newV : Tensor)
  | commit (layerIdx nLayers : ℕ) (calls : List (HandleCall P))
  | prunePrefix (count : ℕ)
  | offloadPrefix (layerIdx count : ℕ)
  | recallLayer (layerIdx : ℕ)

namespace HoleOp

variable {P : Platform}

/-- The operation, whether it succeeds or not. -/
def apply : HoleOp P → World → World
  | update newK newV, w => { w with cache := (w.cache.update P newK newV).2 }
  | commit layerIdx nLayers calls, w =>
    { w with cache := (runCalls (EngineCacheHandle.new w.cache layerIdx nLayers none)
               calls).commit.2.1 }
  | prunePrefix count, w => match w.cache.prunePrefix P count with
    | .ok c => { w with cache := c }
    | .error _ => w
  | offloadPrefix layerIdx count, w => w.offload P layerIdx count
  | recallLayer layerIdx, w => w.recallLayer layerIdx

/-- What the callers pass: tensors in the cache's type, keeps and merges. -/
def Admissible (w : World) : HoleOp P → Prop
  | update newK newV => w.cache.Input newK newV (newK.shape.getD 1 0)
  | commit _ _ calls => ∀ target, HandleCall.reencode target ∉ calls
  | _ => True

/-- No accepted merge reads a hole into a resident row; a record is put back only where no head has
a hole, and only if none had one when it was dumped. -/
def Clean (w : World) : HoleOp P → Prop
  | commit layerIdx nLayers calls =>
    ∀ ms, HandleCall.merge ms ∈
      accepted (EngineCacheHandle.new w.cache layerIdx nLayers none) calls →
      ∀ m ∈ ms, w.cache.HoleSafe m
  | recallLayer layerIdx =>
    ∀ rec, (w.swap.records.find? fun r => r.layerIdx = layerIdx) = some rec →
      SwapHandler.Takes w.cache rec →
        w.cache.isRagged = false ∧ rec.kPath.seq ∉ w.holed ∧ rec.vPath.seq ∉ w.holed
  | _ => True

/-- A clean step. -/
def Step (op : HoleOp P) (w w' : World) : Prop := op.Admissible w ∧ op.Clean w ∧ op.apply w = w'

/-- **One clean operation keeps worlds twins.** -/
theorem twins_apply {w w' : World} (op : HoleOp P) (h : Twins w w') (hadm : op.Admissible w)
    (hclean : op.Clean w) : Twins (op.apply w) (op.apply w') := by
  have hcache : ∀ {c c' : KVCache}, Equivalent c c' → Twins { w with cache := c }
    { w' with cache := c' } :=
    fun hE => ⟨hE, h.records, h.nextSeq, h.swapDir, h.dirOk, h.writeOk, h.holed, h.files, h.float⟩
  cases op with
  | update newK newV => exact hcache (h.cache.update hadm)
  | commit layerIdx nLayers calls => exact hcache (h.cache.commit layerIdx nLayers hadm hclean)
  | prunePrefix count =>
    have hA := agree_prunePrefix (P := P) h.cache.left h.cache.right h.cache.geometry count
    simp only [apply]
    generalize w.cache.prunePrefix P count = a at hA
    generalize w'.cache.prunePrefix P count = b at hA
    cases hA with
    | error e => exact h
    | ok hp => exact hcache (h.cache.of_pruneBoth hp)
  | offloadPrefix layerIdx count => exact h.offload layerIdx count
  | recallLayer layerIdx => exact h.recallLayer hclean

end HoleOp

/-- **Hole non-interference.** From equivalent caches and one swap handler, every run of the
operations in which merges and recalls are clean leaves equivalent caches. -/
theorem equivalent_run (P : Platform) {c d : KVCache} (h : Equivalent c d) {s : SwapHandler}
    (hs : ∀ rec ∈ s.records, rec.dtype = .f32 ∨ rec.dtype = .f16)
    {ops : List (HoleOp P)} {w w' : World} (hrun : Run HoleOp.Step ⟨c, s, []⟩ ops w)
    (hrun' : Run (fun (op : HoleOp P) v v' => op.apply v = v') ⟨d, s, []⟩ ops w') :
    Equivalent w.cache w'.cache := by
  have hR : Twins w w' := by
    refine hrun.related (R := Twins) (fun op s s' t t' hT hstep hstep' => ?_) hrun'
      ⟨h, rfl, rfl, rfl, rfl, rfl, rfl, fun _ _ => rfl, hs⟩
    obtain ⟨hadm, hclean, rfl⟩ := hstep
    subst hstep'
    exact HoleOp.twins_apply op hT hadm hclean
  exact hR.cache

/-! ## A hole that is read -/

/-- `raggedCache` with another hole. -/
def otherHole : KVCache :=
  raggedCache.withContents [1, 0, 0, 0, 2, 0, 0, 0, 3, 0, 0, 0, 0, 0, 0, 0, 5, 0, 0, 0, 6, 0, 0, 0]
    (List.replicate 24 0)

theorem equivalent_otherHole : Equivalent raggedCache otherHole := by
  have hrows : ∀ h < 2, ∀ p < 3, raggedCache.headStartOf h ≤ p → ∀ x ∈ [Half.key, Half.value],
      raggedCache.rowsOf x h p = otherHole.rowsOf x h p := by decide
  refine ⟨raggedCache_wf, ?_, rfl, rfl, fun x h hh p hlo hp =>
    hrows h hh p hp hlo x (by cases x <;> simp)⟩
  refine ⟨by decide, rfl, rfl, ?_, by decide, by decide, by
    decide, raggedCache_wf.starts, by decide⟩
  rintro (_ | _) <;> decide

/-- No swap directory. -/
def noSwap : SwapHandler := ⟨fun n => n, none, [], 0, ⟨fun _ => none, true, fun _ => true⟩⟩

/-- Position `p` with weight one, added to position `into` with weight one. -/
def addInto (into p : ℕ) : WeightedMerge Platform.fixedPoint.F :=
  ⟨into, (2 ^ 149 : Int), [(p, (2 ^ 149 : Int))], .both⟩

/-- A clean merge and a ragged keep, then a prune. -/
def cleanOps : List (HoleOp .fixedPoint) :=
  [.commit 0 1 [.merge [addInto 1 2], .keepPerHead [[0, 1], [1]]], .prunePrefix 1]

/-- Caches that differ in their holes. -/
theorem equivalent_merge_keepPerHead :
    ∃ w w', Run HoleOp.Step ⟨raggedCache, noSwap, []⟩ cleanOps w ∧
    Run (fun op v v' => op.apply v = v') ⟨otherHole, noSwap, []⟩ cleanOps w' ∧
    w.cache.headStarts = [0, 0] ∧ Equivalent w.cache w'.cache := by
  have hrun : ∃ w, w.cache.headStarts = [0, 0] ∧
    Run HoleOp.Step ⟨raggedCache, noSwap, []⟩ cleanOps w := by
    refine ⟨_, ?_, .cons ⟨fun target h => (by simp at h), fun ms hms m hm => ?_, rfl⟩
      (.cons ⟨trivial, trivial, rfl⟩ (.nil _))⟩
    · decide
    · have hms := mem_of_mem_accepted _ _ hms
      simp only [List.mem_cons, HandleCall.merge.injEq, reduceCtorEq, List.not_mem_nil,
        or_false] at hms
      subst hms
      rw [List.mem_singleton.mp hm]
      decide
  have hrun' : ∃ w', Run (fun op v v' => op.apply v = v') ⟨otherHole, noSwap, []⟩ cleanOps w' :=
    ⟨_, .cons rfl (.cons rfl (.nil _))⟩
  obtain ⟨w, hstarts, hrun⟩ := hrun
  obtain ⟨w', hrun'⟩ := hrun'
  exact ⟨w, w', hrun, hrun', hstarts, equivalent_run .fixedPoint equivalent_otherHole
    (fun _ h => absurd h List.not_mem_nil) hrun hrun'⟩

/-- **A merge reads a hole.** Two caches that differ in the hole of head `1` only; the accepted
merge of position `0` into position `1` leaves different rows at the resident position `1` of that
head. -/
theorem merge_reads_hole : Equivalent raggedCache otherHole ∧
    ((HandleCall.merge [addInto 1 0]).apply (EngineCacheHandle.new raggedCache 0 1 none)).1 =
    .ok () ∧ ¬ Equivalent
      ((HoleOp.commit (P := .fixedPoint) 0 1 [.merge [addInto 1 0]]).apply
        ⟨raggedCache, noSwap, []⟩).cache
      ((HoleOp.commit (P := .fixedPoint) 0 1 [.merge [addInto 1 0]]).apply ⟨otherHole,
      noSwap, []⟩).cache := by
  refine ⟨equivalent_otherHole, by decide, fun h => ?_⟩
  exact absurd (h.rows .key 1 (by decide) 1 (by decide) (by decide)) (by decide)

end ArgusEngine
