import ArgusEngine.Kv.ChooserApplies
import ArgusEngine.Lib.Runs

/-!
# The capture follows its keys

Between two decisions tokens are appended; a decision renumbers the slots of every layer and hands
back the capture gathered through the lists it applied. Column `j` of a row is meant for slot `j`.
The gather takes the width of every layer from the cursor of layer 0, so it is right where no layer
ends on a lower cursor.

* `RowFollows`, `Follows`: every column is the captured attention to the token in its slot;
* `carryStep`: an append or a decision;
* `NoLayerShorter`: no answer of a candidate leaves a layer with fewer slots than layer 0;
* **`follows_of_run`**: the capture follows its keys through every run of such decisions.
-/

namespace ArgusEngine

open KVCache FlatMem

/-! ## Tokens and captures -/

section Follow

variable {Token : Type} {F : Type} [Zero F]

/-- The rows of the slots that head by head hold a token are the rows written for it. -/
def Sitting (content : Half → ℕ → Token → List UInt8) (c : KVCache)
    (owner : ℕ → ℕ → Token) : Prop :=
  ∀ h < c.kvHeads, ∀ j, c.headStartOf h ≤ j → j < c.currentPos → ∀ x,
    c.rowsOf x h j = content x h (owner h j)

/-- The row of a layer: for query head `q` and column `j` the captured attention of `q` to the token
in slot `j` of its KV head, and zero exactly in the holes. -/
structure RowFollows (nHeadsQ nKvHeads : ℕ) (captured : ℕ → Token → F) (c : KVCache)
    (owner : ℕ → ℕ → Token) (row : List F) : Prop where
  length : row.length = nHeadsQ * (row.length / nHeadsQ)
  width : row.length / nHeadsQ ≤ c.currentPos
  entry : ∀ q < nHeadsQ, ∀ j < row.length / nHeadsQ, row.getD (q * (row.length / nHeadsQ) + j) 0 =
    if j < c.headStartOf (q / (nHeadsQ / nKvHeads)) then 0
      else captured q (owner (q / (nHeadsQ / nKvHeads)) j)
  zero : (∀ q t, captured q t ≠ 0) → ∀ q < nHeadsQ, ∀ j < row.length / nHeadsQ,
    (row.getD (q * (row.length / nHeadsQ) + j) 0 = 0 ↔ j < c.headStartOf (q / (nHeadsQ / nKvHeads)))

theorem rowFollows_of_entry {nHeadsQ nKvHeads : ℕ} {captured : ℕ → Token → F} {c : KVCache}
    {owner : ℕ → ℕ → Token} {row : List F} (hlen : row.length = nHeadsQ * (row.length / nHeadsQ))
    (hwidth : row.length / nHeadsQ ≤ c.currentPos)
    (hentry : ∀ q < nHeadsQ, ∀ j < row.length / nHeadsQ,
      row.getD (q * (row.length / nHeadsQ) + j) 0 =
      if j < c.headStartOf (q / (nHeadsQ / nKvHeads)) then 0
      else captured q (owner (q / (nHeadsQ / nKvHeads)) j)) :
    RowFollows nHeadsQ nKvHeads captured c owner row := by
  refine ⟨hlen, hwidth, hentry, fun hne q hq j hj => ?_⟩
  rw [hentry q hq j hj]
  split_ifs with hhole
  · exact ⟨fun _ => hhole, fun _ => rfl⟩
  · exact ⟨fun h => absurd h (hne _ _), fun h => absurd h hhole⟩

/-- The layers and the capture that is to be shown to the next decision. -/
structure CarryState (F : Type) where
  caches : List KVCache
  attn : Option (PrefillAttn F)

/-- The tokens of every layer sit in its slots, and the capture follows them. -/
structure Follows (nHeadsQ nKvHeads : ℕ) (content : ℕ → Half → ℕ → Token → List UInt8)
    (captured : ℕ → ℕ → Token → F) (s : CarryState F) : Prop where
  wf : ∀ c ∈ s.caches, c.WF
  heads : ∀ c ∈ s.caches, c.kvHeads = nKvHeads
  follows : ∃ owner : ℕ → ℕ → ℕ → Token, ∀ (l : ℕ) c, s.caches[l]? = some c →
    Sitting (content l) c (owner l) ∧ ∀ attn row, s.attn = some attn → attn.rows[l]? = some row →
      RowFollows nHeadsQ nKvHeads (captured l) c (owner l) row

/-! ## One layer -/

variable {content : Half → ℕ → Token → List UInt8} {captured : ℕ → Token → F} {c c' : KVCache}
  {owner : ℕ → ℕ → Token}

/-- The token in a slot after the lists `L` are gathered onto the cursor `n`. -/
def gathered (owner : ℕ → ℕ → Token) (n : ℕ) (L : ℕ → List ℕ) (h j : ℕ) : Token :=
  owner h ((L h).getD (j - (n - (L h).length)) 0)

theorem Sitting.gather {n : ℕ} {L : ℕ → List ℕ} (hs : Sitting content c owner)
    (hG : Gathers c c' n L)
    (hlists : ∀ h < c.kvHeads, (L h).length ≤ n ∧ ∀ p ∈ L h, c.headStartOf h ≤ p ∧
    p < c.currentPos) : Sitting content c' (gathered owner n L) := by
  have hheads : c'.kvHeads = c.kvHeads := congrArg Format.kvHeads hG.format
  intro h hh j hlo hhi x
  rw [hheads] at hh
  obtain ⟨hlen, hres⟩ := hlists h hh
  rw [hG.starts h hh] at hlo
  rw [hG.pos] at hhi
  have hi : j - (n - (L h).length) < (L h).length := by omega
  have hrow := hG.rows x h hh _ hi
  rw [show n - (L h).length + (j - (n - (L h).length)) = j by omega] at hrow
  obtain ⟨hstart, hpos⟩ := hres _ (List.getElem_mem hi)
  rw [hrow, hs h hh _ hstart hpos x, gathered, List.getD_eq_getElem _ _ hi]

/-- **A carried row follows its keys**, where the layer ends on the occupancy of the gather. -/
theorem RowFollows.carried {nHeadsQ nKvHeads n newPrefix : ℕ} {L : ℕ → List ℕ}
    {keep : ℕ → Option (List ℕ)} {row next : List F}
    (hrow : RowFollows nHeadsQ nKvHeads captured c owner row) (hG : Gathers c c' n L)
    (hheads : c.kvHeads = nKvHeads) (hkeep : ∀ h < nKvHeads, keep h = some (L h))
    (hres : ∀ h < nKvHeads, ∀ p ∈ L h, c.headStartOf h ≤ p)
    (hC : CarriedRow n nHeadsQ nKvHeads keep row next newPrefix) :
    RowFollows nHeadsQ nKvHeads captured c' (gathered owner n L) next := by
  rcases Nat.eq_zero_or_pos nHeadsQ with hq0 | hq
  · -- without query heads a row is empty
    have hnil : next.length = 0 := by rw [hC.length, hq0, Nat.zero_mul]
    refine rowFollows_of_entry ?_ ?_ fun q hq => by omega
    · rw [hnil, Nat.zero_div, Nat.mul_zero]
    · rw [hnil, Nat.zero_div]
      exact Nat.zero_le _
  have hwidth : next.length / nHeadsQ = newPrefix := by rw [hC.length, Nat.mul_div_cancel_left _ hq]
  refine rowFollows_of_entry (by rw [hwidth, hC.length]) ?_ fun q hq j hj => ?_
  · obtain ⟨full, -, -, hsplit, -⟩ := hC.lists _ (hC.head 0 hq)
    rw [hwidth, hG.pos]
    omega
  rw [hwidth] at hj ⊢
  set h := q / (nHeadsQ / nKvHeads) with hdef
  have hh : h < nKvHeads := hC.head q hq
  obtain ⟨full, hfull, -, hsplit, hfit⟩ := hC.lists h hh
  obtain rfl : L h = full := Option.some.inj ((hkeep h hh).symm.trans hfull)
  have hentry := hC.entry q hq (L h) hfull j hj
  set prompt := promptPart (row.length / nHeadsQ) (L h) with hprompt
  have hpre : prompt.length ≤ (L h).length := by
    rw [hprompt]
    exact (List.takeWhile_prefix _).length_le
  -- the slots in front of the head are the columns in front of its prompt positions
  have hstart : c'.headStartOf h = newPrefix - prompt.length := by
    rw [hG.starts h (hheads ▸ hh)]
    omega
  rw [hentry, hstart]
  split_ifs with hhole
  · rfl
  have hi : j - (newPrefix - prompt.length) < prompt.length := by omega
  have hget : prompt.getD (j - (newPrefix - prompt.length)) 0 =
    (L h).getD (j - (newPrefix - prompt.length)) 0 := by
    obtain ⟨rest, hrest⟩ : prompt <+: L h := List.takeWhile_prefix _
    rw [← hrest, List.getD_append _ _ _ _ hi]
  have hmem : prompt.getD (j - (newPrefix - prompt.length)) 0 ∈ prompt := by
    rw [List.getD_eq_getElem _ _ hi]
    exact List.getElem_mem hi
  have hlt := lt_of_mem_promptPart hmem
  have hlow := hres h hh _ ((List.takeWhile_prefix _).subset hmem)
  rw [hrow.entry q hq _ hlt, if_neg (Nat.not_lt.mpr hlow), gathered, hget]
  congr 3
  omega

/-- The token in a slot after `tokens` are appended behind the cursor. -/
def appended (owner : ℕ → ℕ → Token) (pos : ℕ) (tokens : List Token) (h j : ℕ) : Token :=
  if j < pos then owner h j else tokens.getD (j - pos) (owner h j)

theorem Sitting.append {tokens : List Token} {row : Half → ℕ → ℕ → List UInt8}
    (hs : Sitting content c owner) (hA : Appends c c' tokens.length row)
    (hrow : ∀ x, ∀ h < c.kvHeads, ∀ i (hi : i < tokens.length), row x i h = content x h tokens[i]) :
    Sitting content c' (appended owner c.currentPos tokens) := by
  have hheads : c'.kvHeads = c.kvHeads := congrArg (fun f => f.format.kvHeads) hA.frame
  have hpos : c'.currentPos = c.currentPos + tokens.length := congrArg Frame.currentPos hA.frame
  intro h hh j hlo hhi x
  rw [hheads] at hh
  rw [headStartOf, show c'.headStart = c.headStart from congrArg Frame.headStart hA.frame] at hlo
  by_cases hold : j < c.currentPos
  · rw [hA.old x h hh j hlo hold, appended, if_pos hold]
    exact hs h hh j hlo hold x
  · have hi : j - c.currentPos < tokens.length := by omega
    have hnew := hA.new x h hh _ hi
    rw [show c.currentPos + (j - c.currentPos) = j by omega] at hnew
    rw [hnew, hrow x h hh _ hi, appended, if_neg hold, List.getD_eq_getElem _ _ hi]

theorem RowFollows.append {nHeadsQ nKvHeads : ℕ} {row : List F} {tokens : List Token}
    {new : Half → ℕ → ℕ → List UInt8} (hrow : RowFollows nHeadsQ nKvHeads captured c owner row)
    (hA : Appends c c' tokens.length new) :
    RowFollows nHeadsQ nKvHeads captured c' (appended owner c.currentPos tokens) row := by
  have hpos : c'.currentPos = c.currentPos + tokens.length := congrArg Frame.currentPos hA.frame
  have hwidth := hrow.width
  refine rowFollows_of_entry hrow.length (by omega) fun q hq j hj => ?_
  have hstart : c'.headStartOf = c.headStartOf := by
    funext h
    rw [headStartOf, show c'.headStart = c.headStart from congrArg Frame.headStart hA.frame]
    rfl
  rw [hrow.entry q hq j hj, hstart, appended, if_pos (hj.trans_le hwidth)]

end Follow

/-! ## Steps -/

section Steps

variable {P : Platform} {Token : Type}

/-- What happens to a session between two captures. -/
inductive CarryLabel (P : Platform) (Token : Type) where
  | append (tokens : List Token)
  | decide (ratio : Ratio) (qRows : QRowCapture) (signals : Signals P)

/-- A step: `tokens` are written to every layer, `content` being what is written for a token; or a
decision, which replaces the capture where it ends in a choice. -/
def carryStep (sel : Selector P) (content : ℕ → Half → ℕ → Token → List UInt8) :
    CarryLabel P Token → CarryState P.F → CarryState P.F → Prop
  | .append tokens, s, s' => s'.attn = s.attn ∧ s'.caches.length = s.caches.length ∧
    ∀ (l : ℕ) c c', s.caches[l]? = some c → s'.caches[l]? = some c' → ∃ newK newV,
      c.Input newK newV tokens.length ∧ c.update P newK newV = (.ok (), c') ∧
      ∀ x, ∀ h < c.kvHeads, ∀ i (hi : i < tokens.length),
        c.inputRow P (input newK newV x) i h = content l x h tokens[i]
  | .decide ratio qRows signals, s, s' =>
    let out := sel.chooseAndApply (fun _ => none)
      s.caches ratio qRows { signals with prefillAttn := s.attn }
    (∃ choice, out.result = .ok (.ok choice) ∧ s' = ⟨out.caches, choice.prefillAttn⟩) ∨
      ((∃ no, out.result = .ok (.error no)) ∨ ∃ text, out.result = .error (.err text)) ∧
      s' = ⟨out.caches, s.attn⟩

/-- No answer of a candidate leaves a layer with fewer slots than layer 0. -/
def NoLayerShorter (sel : Selector P) (caches : List KVCache) : Prop :=
  ∀ (p : Planned P) signals nKvHeads, p.cand ∈ sel.candidates →
    OwnAnswer sel.nHeadsQ signals caches nKvHeads p → ∀ first, p.plans[0]? = some first →
    ∀ plan ∈ p.plans,
      first.cursor (sharedCursorOf p.plans caches) ≤ plan.cursor (sharedCursorOf p.plans caches)

/-! ## The lists of a layer -/

variable {c : KVCache} {plan : PlannedKeep}

theorem KeepCall.resident {keep : KeepCall} (hacc : keep.Accepted c) {h : ℕ} (hh : h < c.kvHeads) :
    ∀ p ∈ keep.list h, c.headStartOf h ≤ p ∧ p < c.currentPos := by
  intro p hp
  cases keep with
  | keep positions => exact ⟨hacc.2.2 h hh p hp, hacc.2.1 p hp⟩
  | keepPerHead positions =>
    have hh' : h < positions.length := hacc.2.1 ▸ hh
    simp only [KeepCall.list, List.getD_eq_getElem _ _ hh'] at hp
    exact ⟨(hacc.2.2.1 h hh').2.2 p hp, (hacc.2.2.1 h hh').1 p hp⟩

theorem KeepCall.longest_le_of_lists {keep : KeepCall} (hacc : keep.Accepted c)
    (hpos : 0 < c.kvHeads) {n : ℕ} (hall : ∀ h < c.kvHeads, (keep.list h).length ≤ n) :
    keep.longest ≤ n := by
  cases keep with
  | keep positions => exact hall 0 hpos
  | keepPerHead positions =>
    refine foldl_max_le.mpr ⟨Nat.zero_le _, fun m hm => ?_⟩
    obtain ⟨l, hl, rfl⟩ := List.mem_map.mp hm
    obtain ⟨i, hi, rfl⟩ := List.getElem_of_mem hl
    have hlist := hall i (hacc.2.1 ▸ hi)
    simpa only [KeepCall.list, List.getD_eq_getElem _ _ hi] using hlist

theorem PlannedKeep.head_eq_list (hacc : plan.call.Accepted c) {h : ℕ} (hh : h < c.kvHeads) :
    plan.head h = some (plan.call.list h) := by
  cases plan with
  | layerWide positions => rfl
  | perHead positions =>
    have hh' : h < positions.length := hacc.2.1 ▸ hh
    simp only [PlannedKeep.head, PlannedKeep.call, KeepCall.list, List.getD_eq_getElem _ _ hh',
      List.getElem?_eq_getElem hh']

theorem PlannedKeep.longest_le_cursor {shared : Option ℕ} (hfits : CursorFits c plan shared) :
    plan.call.longest ≤ plan.cursor shared := by
  cases plan with
  | layerWide positions => exact le_rfl
  | perHead positions =>
    cases shared with
    | none => exact le_rfl
    | some cursor => exact (hfits cursor rfl positions rfl).1

/-- Where no layer is left shorter than layer 0, a layer that fits the cursor of layer 0 ends on
it. -/
theorem cursor_eq_first {plans : List PlannedKeep} {caches : List KVCache} {first : PlannedKeep}
    (hfirst : plans[0]? = some first) (hplan : plan ∈ plans)
    (hshort : first.cursor (sharedCursorOf plans caches) ≤
    plan.cursor (sharedCursorOf plans caches)) (hlong :
    plan.call.longest ≤ first.cursor (sharedCursorOf plans caches)) :
    plan.cursor (sharedCursorOf plans caches) = first.cursor (sharedCursorOf plans caches) := by
  cases hshared : sharedCursorOf plans caches with
  | none =>
    rw [hshared] at hshort hlong
    refine le_antisymm ?_ hshort
    cases plan <;> exact hlong
  | some cursor =>
    obtain ⟨hper, -⟩ := fits_of_sharedCursorOf hshared
    obtain ⟨heads, rfl, -⟩ := hper plan hplan
    obtain ⟨heads', rfl, -⟩ := hper first (List.mem_of_getElem? hfirst)
    rfl

theorem gather_of_carry {sel : Selector P} {signals : Signals P}
    {nKvHeads currentPos cursorAfter : ℕ} {plans : List PlannedKeep} {out : PrefillAttn P.F}
    (h : sel.carry signals nKvHeads currentPos cursorAfter plans = .ok (some out)) : ∃ attn,
      signals.prefillAttn = some attn ∧ attn.gather cursorAfter sel.nHeadsQ nKvHeads
        (fun l h => plans[l]?.bind fun p => p.head h) = .ok (some out) := by
  unfold Selector.carry at h
  split at h
  · cases h
  rename_i attn hattn
  split_ifs at h
  · exact ⟨attn, hattn, h⟩
  · cases h

end Steps

section Follows

variable {P : Platform} {Token : Type} {sel : Selector P} {nKvHeads : ℕ}
  {content : ℕ → Half → ℕ → Token → List UInt8} {captured : ℕ → ℕ → Token → P.F}
  {s s' : CarryState P.F}

theorem Follows.append {tokens : List Token} (hs : Follows sel.nHeadsQ nKvHeads content captured s)
    (hstep : carryStep sel content (.append tokens) s s') :
    Follows sel.nHeadsQ nKvHeads content captured s' := by
  obtain ⟨hattn, hlen, hlayers⟩ := hstep
  obtain ⟨hwf, hheads, owner, hfollows⟩ := hs
  have hbefore : ∀ {l : ℕ} {c' : KVCache}, s'.caches[l]? = some c' → ∃ c,
    s.caches[l]? = some c ∧ ∃ row,
      Appends c c' tokens.length row ∧ ∀ x, ∀ h < c.kvHeads, ∀ i (hi : i < tokens.length),
        row x i h = content l x h tokens[i] := by
    intro l c' hc'
    have hl : l < s.caches.length := hlen ▸ (List.getElem?_eq_some_iff.mp hc').1
    have hc : s.caches[l]? = some s.caches[l] := List.getElem?_eq_getElem hl
    obtain ⟨newK, newV, hin, hupdate, hrow⟩ := hlayers l _ c' hc hc'
    exact ⟨_, hc, _, appends_update (hwf _ (List.getElem_mem hl)) hin hupdate, hrow⟩
  refine ⟨fun c' hc' => ?_, fun c' hc' => ?_, fun l => appended (owner l)
    ((s.caches[l]?.map KVCache.currentPos).getD 0) tokens, fun l c' hc' => ?_⟩
  · obtain ⟨l, hl⟩ := List.mem_iff_getElem?.mp hc'
    obtain ⟨c, -, row, hA, -⟩ := hbefore hl
    exact hA.wf
  · obtain ⟨l, hl⟩ := List.mem_iff_getElem?.mp hc'
    obtain ⟨c, hc, row, hA, -⟩ := hbefore hl
    exact (congrArg (fun f => f.format.kvHeads) hA.frame : c'.kvHeads = c.kvHeads).trans
      (hheads c (List.mem_of_getElem? hc))
  · obtain ⟨c, hc, row, hA, hrow⟩ := hbefore hc'
    obtain ⟨hsit, hrows⟩ := hfollows l c hc
    dsimp only
    rw [hc]
    refine ⟨hsit.append hA hrow, fun attn r hattn' hr => ?_⟩
    exact (hrows attn r (hattn ▸ hattn') hr).append hA

/-- **A decision carries the capture along with its keys.** -/
theorem Follows.decide {ratio : Ratio} {qRows : QRowCapture} {signals : Signals P}
    (hs : Follows sel.nHeadsQ nKvHeads content captured s)
    (hstep : carryStep sel content (.decide ratio qRows signals) s s')
    (hshort : NoLayerShorter sel s.caches) : Follows sel.nHeadsQ nKvHeads content captured s' := by
  rcases sel.chooseAndApply_cases ratio qRows { signals with prefillAttn := s.attn } hs.wf with
    ⟨r, hr, hout⟩ | ⟨c₀, v, after, hafter, hcaches, hresult⟩
  · -- without a choice nothing moves
    simp only [carryStep, hout] at hstep
    rcases hstep with ⟨choice, hchoice, -⟩ | ⟨-, rfl⟩
    · exact absurd hchoice (hr choice)
    · exact hs
  rcases hresult with ⟨text, hresult⟩ | ⟨attn', hcarry, hresult⟩
  · simp only [carryStep, hresult] at hstep
    rcases hstep with ⟨choice, h, -⟩ | ⟨⟨no, h⟩ | ⟨text', h⟩, -⟩ <;> cases h
  have hs' : s' = ⟨after, attn'⟩ := by
    simp only [carryStep, hresult, hcaches] at hstep
    rcases hstep with ⟨choice, h, rfl⟩ | ⟨⟨no, h⟩ | ⟨text', h⟩, -⟩ <;> cases h
    rfl
  subst hs'
  obtain ⟨⟨cs, hcons, hjudge⟩, ⟨hlen, -, hlanded⟩⟩ := hafter
  obtain ⟨src, planned, -, -, hmem, hanswer, -⟩ := Selector.winner_of_judge hjudge
  rw [← hcons] at hanswer
  obtain ⟨hwf, hheads, owner, hfollows⟩ := hs
  set plans := v.winner.plans with hplans
  set shared := sharedCursorOf plans s.caches with hshared
  -- every layer has a plan, which has landed on it
  have hbefore : ∀ {l : ℕ} {c' : KVCache}, after[l]? = some c' → ∃ c plan, s.caches[l]? = some c ∧
      plans[l]? = some plan ∧ plan.call.Accepted c ∧
      Gathers c c' (plan.cursor shared) plan.call.list ∧
      plan.call.longest ≤ plan.cursor shared := by
    intro l c' hc'
    have hl : l < s.caches.length := hlen ▸ (List.getElem?_eq_some_iff.mp hc').1
    have hc : s.caches[l]? = some s.caches[l] := List.getElem?_eq_getElem hl
    have hl' : l < plans.length := hanswer.length ▸ hl
    have hplan : plans[l]? = some plans[l] := List.getElem?_eq_getElem hl'
    exact ⟨_, _, hc, hplan, hanswer.accepted hc hplan, (hlanded l _ c' _ hc hc' hplan).gathers,
      PlannedKeep.longest_le_cursor (cursorFits_sharedCursorOf (List.mem_of_getElem? hplan)
        (List.mem_of_getElem? hc))⟩
  refine ⟨fun c' hc' => ?_, fun c' hc' => ?_, fun l => gathered (owner l)
    ((plans.getD l (.layerWide [])).cursor shared) (plans.getD l (.layerWide [])).call.list,
    fun l c' hc' => ?_⟩
  · obtain ⟨l, hl⟩ := List.mem_iff_getElem?.mp hc'
    obtain ⟨c, plan, -, -, -, hG, -⟩ := hbefore hl
    exact hG.wf
  · obtain ⟨l, hl⟩ := List.mem_iff_getElem?.mp hc'
    obtain ⟨c, plan, hc, -, -, hG, -⟩ := hbefore hl
    exact (congrArg Format.kvHeads hG.format : c'.kvHeads = c.kvHeads).trans
      (hheads c (List.mem_of_getElem? hc))
  obtain ⟨c, plan, hc, hplan, hacc, hG, hlong⟩ := hbefore hc'
  obtain ⟨hsit, hrows⟩ := hfollows l c hc
  have hkv : c.kvHeads = nKvHeads := hheads c (List.mem_of_getElem? hc)
  dsimp only
  rw [List.getD_eq_getElem?_getD, hplan, Option.getD_some]
  refine ⟨hsit.gather hG fun h hh =>
    ⟨(KeepCall.list_length_le hacc hh).trans hlong, KeepCall.resident hacc hh⟩,
    fun out next hout hnext => ?_⟩
  -- the capture that is handed back was gathered through the same lists
  obtain rfl : attn' = some out := hout
  obtain ⟨attn, hattn, hgather⟩ := gather_of_carry hcarry
  have hkv₀ : c₀.kvHeads = nKvHeads := hheads c₀ (hcons ▸ List.mem_cons_self)
  rw [hkv₀] at hgather
  obtain ⟨hrowsLen, hgroup, hcarried⟩ := carried_of_gather hgather
  have hl : l < attn.rows.length := hrowsLen ▸ (List.getElem?_eq_some_iff.mp hnext).1
  have hrow : attn.rows[l]? = some attn.rows[l] := List.getElem?_eq_getElem hl
  obtain ⟨newPrefix, hC⟩ := hcarried l _ next hrow hnext
  have hkeep : ∀ h < nKvHeads, (plans[l]?.bind fun p => p.head h) = some (plan.call.list h) := by
    intro h hh
    rw [hplan, Option.bind_some]
    exact PlannedKeep.head_eq_list hacc (hkv ▸ hh)
  -- the occupancy of the gather is the cursor of this layer
  have hcursor : (after.head?.map KVCache.currentPos).getD 0 = plan.cursor shared := by
    obtain ⟨c₀', rest, rfl⟩ : ∃ c₀' rest, after = c₀' :: rest :=
      List.exists_cons_of_length_pos (hlen ▸ hcons ▸ Nat.succ_pos _)
    obtain ⟨d, first, -, hfirst, -, hG₀, -⟩ := hbefore (l := 0) rfl
    have hpos : 0 < c.kvHeads := by
      rw [hkv]
      exact Nat.pos_of_ne_zero fun h0 => hgroup (by rw [h0, Nat.div_zero])
    rw [List.head?_cons, Option.map_some, Option.getD_some, hG₀.pos] at hC ⊢
    have hmemPlan := List.mem_of_getElem? hplan
    refine (cursor_eq_first hfirst hmemPlan
      (hshort v.winner planned c₀.kvHeads hmem hanswer first hfirst plan hmemPlan)
        (KeepCall.longest_le_of_lists hacc hpos fun h hh => ?_)).symm
    obtain ⟨full, hfull, hle, -⟩ := hC.lists h (hkv ▸ hh)
    obtain rfl := Option.some.inj ((hkeep h (hkv ▸ hh)).symm.trans hfull)
    exact hle
  rw [hcursor] at hC
  exact (hrows attn _ hattn hrow).carried hG hkv hkeep (fun h hh p hp =>
    (KeepCall.resident hacc (hkv ▸ hh) p hp).1) hC

/-- **The capture follows its keys through every run** in which no decision can leave a layer with
fewer slots than layer 0. -/
theorem follows_of_run {labels : List (CarryLabel P Token)}
    (hrun : Runs.Run (fun a s s' => carryStep sel content a s s' ∧
      ∀ ratio qRows signals, a = .decide ratio qRows signals → NoLayerShorter sel s.caches)
        s labels s')
    (hs : Follows sel.nHeadsQ nKvHeads content captured s) :
    Follows sel.nHeadsQ nKvHeads content captured s' := by
  refine hrun.invariant (fun a s s' hs hstep => ?_) hs
  cases a with
  | append tokens => exact hs.append hstep.1
  | decide ratio qRows signals => exact hs.decide hstep.1 (hstep.2 ratio qRows signals rfl)

end Follows

/-! ## Two layers -/

/-- Two layers of three tokens, with the attention that was captured over them. -/
def capturedLayers (c₀ c₁ : KVCache) (rows : List (List ℤ)) : CarryState Platform.fixedPoint.F :=
  ⟨[c₀, c₁], some (PrefillAttn.captured rows)⟩

/-- What was written for a token: the row in its slot. -/
def writtenRow (c₀ c₁ : KVCache) (l : ℕ) (x : Half) (h t : ℕ) : List UInt8 :=
  if l = 0 then c₀.rowsOf x h t else c₁.rowsOf x h t

/-- The attention to a token. -/
def attentionTo (_ _ t : ℕ) : Platform.fixedPoint.F := ((t + 1 : ℕ) : ℤ)

theorem follows_capturedLayers {c₀ c₁ : KVCache} {row₀ row₁ : List ℤ} (hwf₀ : c₀.WF) (hwf₁ : c₁.WF)
    (hk₀ : c₀.kvHeads = 2) (hk₁ : c₁.kvHeads = 2)
    (hrow₀ : RowFollows (F := Platform.fixedPoint.F) 2 2 (attentionTo 0) c₀ (fun _ j => j) row₀)
    (hrow₁ : RowFollows (F := Platform.fixedPoint.F) 2 2 (attentionTo 1) c₁ (fun _ j => j) row₁) :
    Follows 2 2 (writtenRow c₀ c₁) attentionTo (capturedLayers c₀ c₁ [row₀, row₁]) := by
  refine ⟨List.forall_mem_cons.mpr ⟨hwf₀, List.forall_mem_singleton.mpr hwf₁⟩,
    List.forall_mem_cons.mpr ⟨hk₀, List.forall_mem_singleton.mpr hk₁⟩, fun _ _ j =>
      j, fun l c hc => ?_⟩
  rcases l with _ | _ | l
  · cases hc
    refine ⟨fun h _ j _ _ x => rfl, fun attn row hattn hrow => ?_⟩
    cases hattn
    cases hrow
    exact hrow₀
  · cases hc
    refine ⟨fun h _ j _ _ x => rfl, fun attn row hattn hrow => ?_⟩
    cases hattn
    cases hrow
    exact hrow₁
  · cases hc

theorem rowFollows_filled :
    RowFollows (F := Platform.fixedPoint.F) 2 2 (attentionTo 0) filledCache (fun _ j => j)
      ([1, 2, 3, 1, 2, 3] : List ℤ) := by
  refine rowFollows_of_entry (by decide) (by decide) ?_
  exact (by decide : ∀ q < 2, ∀ j < 3, ([1, 2, 3, 1, 2, 3] : List ℤ).getD (q * 3 + j) 0 =
    if j < filledCache.headStartOf (q / 1) then (0 : ℤ) else ((j + 1 : ℕ) : ℤ))

theorem rowFollows_ragged :
    RowFollows (F := Platform.fixedPoint.F) 2 2 (attentionTo 1) raggedCache (fun _ j => j)
      ([1, 2, 3, 0, 2, 3] : List ℤ) := by
  refine rowFollows_of_entry (by decide) (by decide) ?_
  exact (by decide : ∀ q < 2, ∀ j < 3, ([1, 2, 3, 0, 2, 3] : List ℤ).getD (q * 3 + j) 0 =
    if j < raggedCache.headStartOf (q / 1) then (0 : ℤ) else ((j + 1 : ℕ) : ℤ))

theorem call_of_ownKeep {nHeadsQ nLayers ask l : ℕ} {signals : Signals .fixedPoint} {c : KVCache}
    {plan : PlannedKeep} {h : EngineCacheHandle .fixedPoint} {keep : KeepCall}
    (hown : OwnKeep nHeadsQ (fixedCandidate [keep.call]) signals nLayers ask l c plan h) :
    plan.call.compaction = keep.compaction := by
  have hplan := compaction_of_plannedKeepOf hown.keep
  obtain ⟨calls, hcalls, rfl⟩ := handle_eq hown.handle
  obtain rfl := Except.ok.inj hcalls
  rcases (keep.call : HandleCall .fixedPoint).apply_cases (EngineCacheHandle.new
    (stageCtx nHeadsQ (fixedCandidate [keep.call]) signals l nLayers ask c).cache
    (stageCtx nHeadsQ (fixedCandidate [keep.call]) signals l nLayers ask c).layerIdx
    (stageCtx nHeadsQ (fixedCandidate [keep.call]) signals l nLayers ask c).nLayers none)
      with ⟨e, he⟩ | ⟨he, -⟩
  · rw [runCalls, List.foldl_cons, List.foldl_nil, he] at hplan
    cases hplan
  · rw [runCalls, List.foldl_cons, List.foldl_nil, he] at hplan
    cases keep <;> exact (Option.some.inj hplan).symm

/-- A technique that keeps the same lists everywhere leaves no layer shorter. -/
theorem noLayerShorter_fixedSelector (keep : KeepCall) (nLayers : ℕ) (caches : List KVCache) :
    NoLayerShorter (fixedSelector [keep.call] nLayers) caches := by
  intro p signals nKvHeads hcand hanswer first hfirst plan hplan
  have hcall : ∀ {l : ℕ} {plan : PlannedKeep}, p.plans[l]? = some plan →
    plan.call.compaction = keep.compaction := by
    intro l plan hl
    have hlen : l < caches.length := hanswer.length ▸ (List.getElem?_eq_some_iff.mp hl).1
    obtain ⟨h, hown⟩ := hanswer.own l _ plan (List.getElem?_eq_getElem hlen) hl
    rw [List.mem_singleton.mp hcand] at hown
    exact call_of_ownKeep hown
  obtain ⟨l, hl⟩ := List.mem_iff_getElem?.mp hplan
  have hsame : first.call.compaction = plan.call.compaction := (hcall hfirst).trans (hcall hl).symm
  obtain rfl : first = plan := by
    cases first <;> cases plan <;> cases hsame <;> rfl
  exact le_rfl

theorem exists_carryStep {P : Platform} {Token : Type} (sel : Selector P)
    (content : ℕ → Half → ℕ → Token → List UInt8) (s : CarryState P.F) (ratio : Ratio)
    (qRows : QRowCapture) (signals : Signals P) {out : Selector.Outcome P}
    (hout : sel.chooseAndApply (fun _ => none)
      s.caches ratio qRows { signals with prefillAttn := s.attn } = out)
    (hchoice : (out.result.toOption.bind Except.toOption).isSome = true) : ∃ s',
      carryStep sel content (.decide ratio qRows signals) s s' ∧ s'.caches = out.caches ∧
        s'.attn = (out.result.toOption.bind Except.toOption).bind Choice.prefillAttn := by
  obtain ⟨choice, hresult⟩ := exists_choice hchoice
  refine ⟨⟨out.caches, choice.prefillAttn⟩, .inl ⟨choice, ?_, ?_⟩, rfl, ?_⟩
  · rw [hout, hresult]
  · rw [hout]
  · rw [hresult]
    rfl

/-- A per-head winner of two lengths over two layers, one of them ragged. -/
theorem follows_two_layers : ∃ s',
    Runs.Run (fun a s s' => carryStep (fixedSelector [.keepPerHead [[0, 2], [2]]] 2)
        (writtenRow filledCache raggedCache) a s s' ∧
      ∀ ratio qRows signals, a = .decide ratio qRows signals →
        NoLayerShorter (fixedSelector [.keepPerHead [[0, 2], [2]]] 2) s.caches)
      (capturedLayers filledCache raggedCache [[1, 2, 3, 1, 2, 3], [1, 2, 3, 0, 2, 3]])
      [.decide (.finite (3 / 4)) lastRow noSignals] s' ∧ s'.attn.isSome = true ∧
    Follows 2 2 (writtenRow filledCache raggedCache) attentionTo s' := by
  obtain ⟨s', hstep, -, hattn⟩ := exists_carryStep (fixedSelector [.keepPerHead [[0, 2], [2]]] 2)
    (writtenRow filledCache raggedCache)
    (capturedLayers filledCache raggedCache [[1, 2, 3, 1, 2, 3], [1, 2, 3, 0, 2, 3]])
      (.finite (3 / 4))
    lastRow noSignals rfl (by decide +kernel)
  have hrun : Runs.Run (fun a s s' => carryStep (fixedSelector [.keepPerHead [[0, 2], [2]]] 2)
        (writtenRow filledCache raggedCache) a s s' ∧
      ∀ ratio qRows signals, a = .decide ratio qRows signals →
        NoLayerShorter (fixedSelector [.keepPerHead [[0, 2], [2]]] 2) s.caches)
      (capturedLayers filledCache raggedCache [[1, 2, 3, 1, 2, 3], [1, 2, 3, 0, 2, 3]])
      [.decide (.finite (3 / 4)) lastRow noSignals] s' :=
    .cons ⟨hstep, fun _ _ _ _ => noLayerShorter_fixedSelector (.keepPerHead [[0, 2], [2]])
      2 _⟩ (.nil s')
  refine ⟨s', hrun, ?_, ?_⟩
  · rw [hattn]
    decide +kernel
  · exact follows_of_run hrun
      (follows_capturedLayers filledCache_wf raggedCache_wf rfl rfl rowFollows_filled
        rowFollows_ragged)

/-- A technique that keeps two positions of layer 0 and one of every other layer. -/
def shrinkingCandidate : Candidate .fixedPoint :=
  ⟨"shrinking", "shrinking", false, 0, fun ctx =>
    .ok [.keep (if ctx.layerIdx = 0 then [0, 2] else [2])]⟩

def shrinkingSelector : Selector .fixedPoint :=
  ⟨[shrinkingCandidate], 2, 2, 2, 1, fixedMetric, List.cons_ne_nil _ _⟩

/-- **A layer-wide winner that leaves layer 1 shorter**: its only slot is column 1 of the capture
that is handed back, and column 0, the column of the slot, is zero. -/
theorem not_follows_shrinking : ∃ s',
    Follows 2 2 (writtenRow filledCache filledCache) attentionTo
      (capturedLayers filledCache filledCache [[1, 2, 3, 1, 2, 3], [1, 2, 3, 1, 2, 3]]) ∧
    Runs.Run (carryStep shrinkingSelector (writtenRow filledCache filledCache))
      (capturedLayers filledCache filledCache [[1, 2, 3, 1, 2, 3], [1, 2, 3, 1, 2, 3]])
      [.decide (.finite (3 / 4)) lastRow noSignals] s' ∧
    ¬ Follows 2 2 (writtenRow filledCache filledCache) attentionTo s' := by
  obtain ⟨s', hstep, hcaches, hattn⟩ :=
    exists_carryStep shrinkingSelector (writtenRow filledCache filledCache)
      (capturedLayers filledCache filledCache [[1, 2, 3, 1, 2, 3], [1, 2, 3, 1, 2, 3]])
        (.finite (3 / 4))
    lastRow noSignals rfl (by decide +kernel)
  refine ⟨s', follows_capturedLayers filledCache_wf filledCache_wf rfl rfl rowFollows_filled
    rowFollows_filled, .cons hstep (.nil s'), fun hs => ?_⟩
  have hrows : s'.attn.map PrefillAttn.rows =
    some ([[1, 3, 1, 3], [0, 3, 0, 3]] : List (List ℤ)) := by
    rw [hattn]
    exact (by decide +kernel :
      ((((shrinkingSelector.chooseAndApply (fun _ => none) [filledCache, filledCache]
        (.finite (3 / 4)) lastRow { noSignals with
        prefillAttn :=
          some (PrefillAttn.captured ([[1, 2, 3, 1, 2, 3], [1, 2, 3, 1, 2, 3]] : List (List ℤ))) }
      ).result.toOption.bind Except.toOption).bind Choice.prefillAttn).map PrefillAttn.rows :
        Option (List (List ℤ))) = some ([[1, 3, 1, 3], [0, 3, 0, 3]] : List (List ℤ)))
  have hstarts : s'.caches.map (fun c => c.headStartOf 0) = [0, 0] := by
    rw [hcaches]
    decide +kernel
  obtain ⟨attn, hattn', hrows⟩ := Option.map_eq_some_iff.mp hrows
  obtain ⟨c, hc, hstart⟩ : ∃ c, s'.caches[1]? = some c ∧ c.headStartOf 0 = 0 := by
    have hget := congrArg (fun l => l[1]?) hstarts
    simp only [List.getElem?_map] at hget
    exact Option.map_eq_some_iff.mp hget
  obtain ⟨owner, hfollows⟩ := hs.follows
  obtain ⟨-, hrow⟩ := hfollows 1 c hc
  have hentry := (hrow attn _ hattn' (by rw [hrows]; rfl)).entry 0 (by decide) 0 (by decide)
  rw [show 0 / (2 / 2) = 0 from rfl, hstart, if_neg (Nat.lt_irrefl 0)] at hentry
  have hzero : (0 : ℤ) = ((owner 1 0 0 + 1 : ℕ) : ℤ) := hentry
  omega

end ArgusEngine
