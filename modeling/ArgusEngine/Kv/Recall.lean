import ArgusEngine.Kv.Frames
import ArgusEngine.Kv.Ledger

/-!
# What a recall restores

* `Recalls`: a record back in front of the resident rows; **`recalls_recallOne`**;
* **`swap_loses_starts`**: an offload of a ragged cache and its recall bring back the cursor and the
  resident rows, but not the starts.
-/

namespace ArgusEngine

open FlatMem KVCache

namespace SwapHandler

/-! ## A successful recall -/

/-- `c'` is `c` with the rows of a dump in front of every head; the starts are those of `c`. -/
structure Recalls (c c' : KVCache) (n : ℕ) (dump : Half → List UInt8) : Prop where
  wf : c'.WF
  frame : c'.frame = { c.frame with currentPos := c.currentPos + n }
  low : ∀ x, ∀ h < c.kvHeads, ∀ p < n, c'.rowsOf x h p = rows c.rowBytes (dump x) (h * n + p)
  high : ∀ x, ∀ h < c.kvHeads, ∀ p, c.headStartOf h ≤ p → p < c.currentPos →
    c'.rowsOf x h (p + n) = c.rowsOf x h p

section Recall

variable {c : KVCache} {rec : SwapRecord} {disk : Disk} {dump : Half → List UInt8}

theorem recallRoom_of_takes (hc : c.WF) (ht : Takes c rec) :
    ∃ r, recallRoom c rec.tokenCount = .ok r := by
  unfold recallRoom
  split_ifs with hcap
  · rcases ht.2 with h | ⟨hm, hmax⟩
    · omega
    · obtain ⟨b, c', h⟩ := ensureCapacity_ok hc hm hmax
      exact ⟨_, h⟩
  · exact ⟨_, rfl⟩

/-- **A recall with room and readable files.** -/
theorem recalls_recallOne (hc : c.WF) (hl : c.layout = .headMajor)
    (hf : c.kvDtype = .f16 ∨ c.kvDtype = .f32) (ht : Takes c rec) (hread : Readable disk rec dump) :
    ∃ c', recallOne disk c rec = (.ok rec.tokenCount, c') ∧ Recalls c c' rec.tokenCount dump := by
  obtain ⟨⟨b, c₁⟩, hroom⟩ := recallRoom_of_takes hc ht
  obtain ⟨hk, hle⟩ := keeps_recallRoom hc hroom
  obtain ⟨c₂, hshift, hS, -⟩ := shifted_recallShift hl hk hle
  have hfmt₂ : c₂.format = c.format := congrArg Frame.format hS.frame
  have hpos₂ : c₂.currentPos = c.currentPos := congrArg Frame.currentPos hS.frame
  have hdt₂ : c₂.kvDtype = c.kvDtype := congrArg Format.dtype hfmt₂
  have hheads₂ : c₂.kvHeads = c.kvHeads := congrArg Format.kvHeads hfmt₂
  have hfit₂ : Fits c₂ rec :=
    ⟨(congrArg Format.headDim hfmt₂).trans ht.1.1, hheads₂.trans ht.1.2.1, hdt₂.trans ht.1.2.2⟩
  have hfl₂ : c₂.kvDtype = .f16 ∨ c₂.kvDtype = .f32 := hdt₂ ▸ hf
  obtain ⟨c', hload, hL⟩ :=
    loads_loadRecord hS.wf ((congrArg Format.layout hfmt₂).trans hl)
      hfit₂ hfl₂ (by rw [hpos₂]; exact hS.room)
        hread.1 hread.2.1 (hread.length_eq hS.wf.stored hfit₂ hfl₂)
  have hroom₂ := hS.room
  refine ⟨c', ?_, hL.wf, ?_, fun x h hh p hp => ?_, fun x h hh p hlo hp => ?_⟩
  · rw [recallOne_of_fits hl ht.1, hroom]
    simp only [hshift, hload]
  · rw [hL.frame, hS.frame, hpos₂]
  · rw [hL.rows x h (hheads₂ ▸ hh) p (by omega), if_pos hp, rowBytes_of_format hfmt₂]
  · rw [hL.rows x h (hheads₂ ▸ hh) (p + rec.tokenCount) (by omega), if_neg (by omega),
      hS.high x h hh p hlo hp]

end Recall

/-! ## An offload and its recall -/

/-- `c'` has the cursor, the starts and the resident rows of `c`. -/
structure Restored (c c' : KVCache) : Prop where
  currentPos : c'.currentPos = c.currentPos
  starts : ∀ h < c.kvHeads, c'.headStartOf h = c.headStartOf h
  rows : ∀ x, ∀ h < c.kvHeads, ∀ p, c.headStartOf h ≤ p → p < c.currentPos →
    c'.rowsOf x h p = c.rowsOf x h p

section RoundTrip

variable {P : Platform} {s : SwapHandler} {c c' : KVCache} {layerIdx n : ℕ}

theorem room_prunePrefix (hc : c.WF) (hn : n < c.currentPos) (hprune : c.prunePrefix P n = .ok c')
    (hp : Prunes c c' n) : c'.currentPos + n ≤ c'.capacity ∨
    (c'.memory.isSome ∧ c'.currentPos + n ≤ c'.maxSeqLen) := by
  have hpos := hc.pos
  have hcap := hc.cap
  rw [hp.pos, hp.maxSeqLen, hp.memory, Nat.sub_add_cancel hn.le]
  cases hm : c.memory with
  | some m => exact .inr ⟨rfl, hpos.trans hcap⟩
  | none =>
    refine .inl ?_
    have hfixed : c.geometry.allocator = none := by simp [geometry, hm]
    have hg := geometry_prunePrefix hc.stored hprune
    rw [if_neg (show ¬ c.currentPos - n = 0 by omega)] at hg
    split_ifs at hg
    · rw [show c'.capacity = c.capacity from congrArg Geometry.capacity hg]
      exact hpos
    · rw [show c'.capacity = c.capacity from
        congrArg Geometry.capacity (hg.trans (Geometry.released_of_fixed hfixed))]
      exact hpos
    · rw [show c'.capacity = c.capacity from
        congrArg Geometry.capacity (hg.trans (Geometry.released_of_fixed hfixed))]
      exact hpos

/-- The layer's only record is the one a recall takes. -/
theorem recallLayer_dumped (hnone : ∀ rec ∈ s.records, rec.layerIdx ≠ layerIdx) (d : KVCache) :
    ∃ s', (s.dumped layerIdx c n).recallLayer layerIdx d =
      let r := recallOne (s.dumped layerIdx c n).disk d (s.dumpRecord layerIdx c n)
      (r.1, s', r.2) := by
  have hfind : (s.dumped layerIdx c n).records.find? (fun r => r.layerIdx = layerIdx) =
      some (s.dumpRecord layerIdx c n) := by
    have hpre : s.records.find? (fun r => r.layerIdx = layerIdx) = none :=
      List.find?_eq_none.mpr fun rec hrec => by simpa using hnone rec hrec
    unfold SwapHandler.dumped
    rw [List.find?_append, hpre]
    simp [dumpRecord]
  unfold SwapHandler.recallLayer
  rw [hfind]
  exact ⟨_, rfl⟩

/-- **Rows out and back.** The recall of the dump restores the cursor and the resident rows. -/
theorem recall_dumped (s : SwapHandler) (layerIdx : ℕ) (hc : c.WF) (hl : c.layout = .headMajor)
    (hf : c.kvDtype = .f16 ∨ c.kvDtype = .f32) (hn : n < c.currentPos)
    (hprune : c.prunePrefix P n = .ok c') (hp : Prunes c c' n) :
    ∃ d, recallOne (s.dumped layerIdx c n).disk c' (s.dumpRecord layerIdx c n) = (.ok n, d) ∧
      d.currentPos = c.currentPos ∧
      ∀ x, ∀ h < c.kvHeads, ∀ p, c.headStartOf h ≤ p → p < c.currentPos →
      d.rowsOf x h p = c.rowsOf x h p := by
  have hcap : n ≤ c.capacity := hn.le.trans hc.pos
  have hdt : c'.kvDtype = c.kvDtype := congrArg Format.dtype hp.format
  have hheads : c'.kvHeads = c.kvHeads := congrArg Format.kvHeads hp.format
  have hfit : Fits c' (s.dumpRecord layerIdx c n) :=
    ⟨congrArg Format.headDim hp.format, hheads, hdt⟩
  obtain ⟨d, hok, hR⟩ :=
    recalls_recallOne hp.wf ((congrArg Format.layout hp.format).trans hl) (hdt ▸ hf)
      ⟨hfit, room_prunePrefix hc hn hprune hp⟩ (readable_dumped s layerIdx hc hf hcap)
  have hpos : d.currentPos = c'.currentPos + n := congrArg Frame.currentPos hR.frame
  refine ⟨d, hok, by rw [hpos, hp.pos, Nat.sub_add_cancel hn.le], fun x h hh p hlo hp' => ?_⟩
  by_cases hpn : p < n
  · rw [hR.low x h (hheads ▸ hh) p hpn, rowBytes_of_format hp.format]
    exact rows_dumpPrefix hc.stored hl hf (hc.size x) hcap hh hpn
  · have hstart := hp.starts h hh
    have hcur := hp.pos
    have hhigh := hR.high x h (hheads ▸ hh) (p - n) (by omega) (by omega)
    rw [hp.rows x h hh (p - n) (by omega) (by omega)] at hhigh
    simp only [dumpRecord, Nat.sub_add_cancel (Nat.not_lt.mp hpn)] at hhigh
    exact hhigh

end RoundTrip

end SwapHandler

open SwapHandler

/-- **A ragged cache does not come back from the disk.** An offload pulls the starts down and no
recall lifts them: whatever the disk does, every start is back lower by the tokens offloaded, and
the holes read as resident rows. With a disk that takes every write and no older record of the
layer, the cursor and the resident rows are all restored. -/
theorem swap_loses_starts (P : Platform) {c : KVCache} (hc : c.WF) (hl : c.layout = .headMajor)
    (hf : c.kvDtype = .f16 ∨ c.kvDtype = .f32) (hragged : ∃ h < c.kvHeads, 0 < c.headStartOf h)
    {n : ℕ} (h0 : 0 < n) (hn : n < c.currentPos) (s : SwapHandler) (layerIdx : ℕ) :
    let r := s.offloadPrefix P layerIdx c n
    let q := r.2.1.recallLayer layerIdx r.2.2
    ¬ Restored c q.2.2 ∧ (∀ h < c.kvHeads, q.2.2.headStartOf h = c.headStartOf h - n) ∧
      (s.Ready → (∀ rec ∈ s.records, rec.layerIdx ≠ layerIdx) →
        r.1 = .ok n ∧ q.1 = .ok n ∧ q.2.2.currentPos = c.currentPos ∧ ∀ x, ∀ h < c.kvHeads, ∀ p,
          c.headStartOf h ≤ p → p < c.currentPos → q.2.2.rowsOf x h p = c.rowsOf x h p) := by
  intro r q
  obtain ⟨c', hprune, hp⟩ := prunes_prunePrefix (P := P) hc hn.le
  have hcache : r.2.2 = c' := by
    rcases offloadPrefix_cache (P := P) s layerIdx c n with ⟨hno, -⟩ |
      ⟨-, -, ⟨c₁, hok, he⟩ | ⟨e, herr, -⟩⟩
    · omega
    · rw [hprune] at hok
      cases hok
      exact he
    · rw [hprune] at herr
      cases herr
  have hstarts : ∀ h < c.kvHeads, q.2.2.headStartOf h = c.headStartOf h - n := by
    intro h hh
    obtain ⟨m, hg⟩ := grows_recallLayer r.2.1 layerIdx r.2.2
    rw [← hp.starts h hh, ← hcache]
    exact congrArg (fun l => l.getD h 0) (congrArg Frame.headStart hg)
  refine ⟨fun hR => ?_, hstarts, fun hs hnone => ?_⟩
  · obtain ⟨h, hh, hpos⟩ := hragged
    have hback := hR.starts h hh
    rw [hstarts h hh] at hback
    omega
  · have hr : r = (.ok n, s.dumped layerIdx c n, c') := by
      refine (offloadPrefix_eq hs hl hf h0 hn).trans ?_
      unfold pruneOnly
      rw [hprune]
    obtain ⟨d, hok, hpos, hrows⟩ := recall_dumped s layerIdx hc hl hf hn hprune hp
    obtain ⟨s', hrec⟩ := recallLayer_dumped (c := c) (n := n) hnone c'
    have hq : q = (.ok n, s', d) := by
      show r.2.1.recallLayer layerIdx r.2.2 = _
      rw [hr, hrec]
      simp only [hok]
    rw [hr, hq]
    exact ⟨rfl, rfl, hpos, hrows⟩

/-- One token of `raggedCache` out and back: head `1` starts at slot `0`, over the junk of its
hole. -/
theorem swap_loses_starts_raggedCache : raggedCache.WF ∧ diskSwap.Ready ∧
    let r := diskSwap.offloadPrefix .fixedPoint 0 raggedCache 1
    let q := r.2.1.recallLayer 0 r.2.2
    ¬ Restored raggedCache q.2.2 ∧ q.1 = .ok 1 := by
  have hs : diskSwap.Ready := ⟨rfl, rfl, fun _ => rfl⟩
  have h := swap_loses_starts .fixedPoint raggedCache_wf rfl (.inr rfl) ⟨1, by decide, by decide⟩
    (n := 1) (by decide) (by decide) diskSwap 0
  exact ⟨raggedCache_wf, hs, h.1, (h.2.2 hs fun rec hrec => absurd hrec List.not_mem_nil).2.1⟩

/-- **The start of head `1` is lost**: it was `1` before the offload of one token and is `0` after
the recall. -/
theorem swap_moves_start : raggedCache.WF ∧ raggedCache.isRagged = true ∧ diskSwap.Ready ∧
    let r := diskSwap.offloadPrefix .fixedPoint 0 raggedCache 1
    let q := r.2.1.recallLayer 0 r.2.2
    (r.1.toOption, q.1.toOption) = (some 1, some 1) ∧ raggedCache.headStartOf 1 = 1 ∧
      q.2.2.headStartOf 1 = 0 ∧ ¬ Restored raggedCache q.2.2 := by
  have hone : ((diskSwap.offloadPrefix .fixedPoint 0 raggedCache 1).2.1.recallLayer 0
      (diskSwap.offloadPrefix .fixedPoint 0 raggedCache 1).2.2).2.2.headStartOf 1 = 0 := by decide
  exact ⟨raggedCache_wf, rfl, ⟨rfl, rfl, fun _ => rfl⟩, by decide, rfl, hone, fun h =>
    absurd ((h.starts 1 (by decide)).symm.trans hone) (by decide)⟩

end ArgusEngine
