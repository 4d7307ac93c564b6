import ArgusEngine.Session.Dispatcher

/-!
# The uncompressed length of a conversation

A run is a list of turns: a new conversation may begin, the commands are dispatched, the caches
compacted, the answers finalized, and a forward appends one token. The dispatcher sees the cursor of
layer 0 only in `dispatch` and in `finalizeResults`: a conversation that begins between the two
samples shows as a drop or as growth.

* `Context`, `Context.step`: the dispatcher, the layers and the number of tokens appended since the
  cache was empty;
* `BudgetTaken`: what a dispatch owes to the budgets, `Seen`: the conversation is seen to begin;
* `Sampled.step`: one turn;
* **`budgetTaken_run`**: budgets are taken against the uncompressed length exactly where every
  conversation is seen.
-/

namespace ArgusEngine.Session

open CommandDispatcher

/-- One turn of a run: a conversation that begins with so many tokens, the commands, the layers as a
compaction leaves them, and the closure of the partition switch. -/
structure Turn where
  conversation : Option ℕ := none
  cmds : List EngineCommand := []
  compacted : Option (List Layer) := none
  switchApply : Bool → Except String Unit := fun _ => .ok ()

/-- The dispatcher and the caches, with the tokens appended to layer 0 since it was last empty. -/
structure Context where
  dispatcher : CommandDispatcher
  layers : List Layer
  appended : ℕ

namespace Context

variable (c : Context) (t : Turn)

/-- The cursor of layer 0. -/
def pos : ℕ := (c.layers.head?.map Layer.currentPos).getD 0

/-- The caches are emptied and prefilled. -/
def newConversation : Context :=
  match t.conversation with
  | none => c
  | some n => { c with layers := c.layers.map fun _ => ⟨n, n⟩, appended := n }

def dispatched : Context :=
  { c.newConversation t with
    dispatcher := (c.newConversation t).dispatcher.dispatch (c.newConversation t).layers
      t.switchApply t.cmds }

def compacted : Context := { c with layers := t.compacted.getD c.layers }

def finalized : Context := { c with dispatcher := (c.dispatcher.finalizeResults c.layers).1 }

/-- The forward appends a token to every layer. -/
def forward : Context :=
  { c with
    layers := c.layers.map fun l => ⟨l.currentPos + 1, l.residentTokens + 1⟩
    appended := c.appended + 1 }

def step : Context := (((c.dispatched t).compacted t).finalized).forward

/-- A new dispatcher over empty caches. -/
def start (d : CommandDispatcher) (layers : ℕ) : Context :=
  ⟨{ d with logicalLen := 0, lastSeenPos := 0 }, List.replicate layers ⟨0, 0⟩, 0⟩

end Context

/-- The compaction leaves every layer, and layer 0 with a length of at least 1. -/
def Turn.Compacts (t : Turn) (layers : List Layer) : Prop :=
  ∀ layers', t.compacted = some layers' → layers'.length = layers.length ∧
    ∀ l ∈ layers.head?, ∀ l' ∈ layers'.head?, 1 ≤ l'.currentPos ∧ l'.currentPos ≤ l.currentPos

/-- **At the dispatch the length is the uncompressed one, and a budget that is met, or a looser one,
submits nothing.** -/
structure BudgetTaken (c : Context) (t : Turn) : Prop where
  logicalLen : (c.dispatched t).dispatcher.logicalLen = (c.dispatched t).appended
  met : ∀ budget, layerMeanResident (c.dispatched t).layers ≤
    compressTargetLen (c.dispatched t).appended budget →
    (∀ budget', .kvCompress budget' ∈ t.cmds → budget ≤ budget') →
      (c.dispatched t).dispatcher.registry = c.dispatcher.registry

/-- The conversation begins empty, or behind one that was never compacted and, at its last sample,
no longer. -/
def Seen (c : Context) (t : Turn) : Prop :=
  ∀ n, t.conversation = some n → n = 0 ∨ (c.appended = c.pos ∧ c.pos ≤ n + 1)

/-! ## Budgets -/

theorem asUsize_mono : Monotone asUsize := by
  intro x y hxy
  have hfloor := Int.toNat_le_toNat (Int.floor_mono hxy)
  unfold asUsize
  omega

theorem f32_nonneg (n : ℕ) : 0 ≤ f32 n := binary32.round_nonneg (Nat.cast_nonneg n)

theorem compressTargetLen_mono (logicalLen : ℕ) : Monotone (compressTargetLen logicalLen) := by
  intro b b' hb
  have hmul := mul_le_mul_of_nonneg_left hb (f32_nonneg logicalLen)
  have huse := asUsize_mono (binary32.round_mono hmul)
  exact max_le_max_right _ (max_le_max_right _ huse)

/-! ## Samples -/

section Samples

variable {d : CommandDispatcher} {layers : List Layer} {switchApply : Bool → Except String Unit}
  {cmds : List EngineCommand}

theorem observeContext_eq {l : Layer} (h : layers.head? = some l) : d.observeContext layers =
    { d with
      logicalLen := if l.currentPos = 0 then 0 else d.logicalLen + (l.currentPos - d.lastSeenPos)
      lastSeenPos := l.currentPos } := by
  unfold observeContext
  rw [h]
  dsimp only
  split_ifs <;> rfl

theorem dispatch_sample (d : CommandDispatcher) (layers : List Layer)
    (switchApply : Bool → Except String Unit) (cmds : List EngineCommand) :
    (d.dispatch layers switchApply cmds).logicalLen = (d.observeContext layers).logicalLen ∧
    (d.dispatch layers switchApply cmds).lastSeenPos = (d.observeContext layers).lastSeenPos := by
  obtain ⟨d', happ, heq⟩ := exists_applied d layers switchApply cmds
  obtain ⟨hlen, hpos, -⟩ := applyTpTarget_keeps d' switchApply
  rw [heq]
  exact ⟨hlen.trans happ.frame.logicalLen, hpos.trans happ.frame.lastSeenPos⟩

theorem dispatch_registry {budget : ℚ}
    (hmet : layerMeanResident layers ≤
    compressTargetLen (d.observeContext layers).logicalLen budget) (hcmds :
    ∀ budget', .kvCompress budget' ∈ cmds → budget ≤ budget') :
    (d.dispatch layers switchApply cmds).registry = (d.observeContext layers).registry := by
  obtain ⟨d', happ, heq⟩ := exists_applied d layers switchApply cmds
  rw [heq, (applyTpTarget_keeps d' switchApply).2.2.1]
  refine happ.registry fun j b hj hsub => ?_
  have hmem := (List.of_mem_zip (List.mem_of_getElem? hj)).1
  have hle := compressTargetLen_mono (d.observeContext layers).logicalLen (hcmds b hmem)
  exact absurd hsub.outside (Nat.not_lt.mpr (hmet.trans hle))

end Samples

/-! ## Runs -/

/-- Between two turns: the dispatcher has seen all but the last token, and no more than was
appended. -/
structure Sampled (c : Context) : Prop where
  layers : c.layers ≠ []
  seen : (c.dispatcher.lastSeenPos + 1 = c.pos ∧ c.dispatcher.logicalLen + 1 = c.appended) ∨
    (c.dispatcher.lastSeenPos = 0 ∧ c.dispatcher.logicalLen = 0 ∧ c.pos = 0 ∧ c.appended = 0)
  le : c.dispatcher.lastSeenPos ≤ c.dispatcher.logicalLen

theorem sampled_start (d : CommandDispatcher) {layers : ℕ} (h : 0 < layers) :
    Sampled (Context.start d layers) := by
  obtain ⟨n, rfl⟩ := Nat.exists_eq_succ_of_ne_zero (Nat.ne_of_gt h)
  exact ⟨List.cons_ne_nil _ _, .inr ⟨rfl, rfl, rfl, rfl⟩, Nat.le_refl _⟩

theorem exists_head {layers : List Layer} (h : layers ≠ []) : ∃ l, layers.head? = some l := by
  cases layers with
  | nil => exact absurd rfl h
  | cons l ls => exact ⟨l, rfl⟩

theorem dispatched_eq {c : Context} {t : Turn} {l : Layer}
    (h : (c.newConversation t).layers.head? = some l) : (c.dispatched t).pos = l.currentPos ∧
    (c.dispatched t).dispatcher.lastSeenPos = l.currentPos ∧
      (c.dispatched t).dispatcher.logicalLen = if l.currentPos = 0 then 0
        else c.dispatcher.logicalLen + (l.currentPos - c.dispatcher.lastSeenPos) := by
  have hdisp : (c.newConversation t).dispatcher = c.dispatcher := by
    unfold Context.newConversation
    cases t.conversation <;> rfl
  have hsample := dispatch_sample c.dispatcher (c.newConversation t).layers t.switchApply t.cmds
  rw [observeContext_eq h] at hsample
  refine ⟨?_, ?_, ?_⟩
  · have hpos : (c.dispatched t).pos =
      ((c.newConversation t).layers.head?.map Layer.currentPos).getD 0 := rfl
    rw [hpos, h]
    rfl
  · rw [Context.dispatched, hdisp]
    exact hsample.2
  · rw [Context.dispatched, hdisp]
    exact hsample.1

/-- **The length that a dispatch samples is the uncompressed one exactly where the conversation is
seen.** -/
theorem dispatched_sample {c : Context} (t : Turn) (h : Sampled c) :
    (c.dispatched t).layers ≠ [] ∧ (c.dispatched t).dispatcher.lastSeenPos = (c.dispatched t).pos ∧
      (c.dispatched t).pos ≤ (c.dispatched t).appended ∧
      ((c.dispatched t).pos = 0 → (c.dispatched t).dispatcher.logicalLen = 0) ∧
      ((c.dispatched t).dispatcher.logicalLen = (c.dispatched t).appended ↔ Seen c t) := by
  have hseen := h.seen
  have hle := h.le
  obtain ⟨l₀, hl₀⟩ := exists_head h.layers
  have hpos₀ : c.pos = l₀.currentPos := by rw [Context.pos, hl₀]; rfl
  cases hconv : t.conversation with
  | none =>
    -- no conversation begins: the cursor moved by the token of the last forward
    have hnew : c.newConversation t = c := by rw [Context.newConversation, hconv]
    obtain ⟨hpos, hlast, hlen⟩ := dispatched_eq (t := t) (hnew ▸ hl₀)
    have happ : (c.dispatched t).appended = (c.newConversation t).appended := rfl
    rw [hnew] at happ
    refine ⟨fun hnil => h.layers (by rwa [Context.dispatched, hnew] at hnil),
      hlast.trans hpos.symm, ?_, fun hzero => by rw [hlen, if_pos (hpos.symm.trans hzero)], ?_⟩
    · rw [hpos, happ, ← hpos₀]
      omega
    · rw [hlen, happ]
      refine ⟨fun _ n hn => (by rw [hconv] at hn; cases hn), fun _ => ?_⟩
      split_ifs <;> omega
  | some n =>
    have hnew : c.newConversation t = { c with layers := c.layers.map fun _ => ⟨n, n⟩,
                                               appended := n } := by
      rw [Context.newConversation, hconv]
    have hl : (c.newConversation t).layers.head? = some ⟨n, n⟩ := by
      rw [hnew, List.head?_map, hl₀]
      rfl
    obtain ⟨hpos, hlast, hlen⟩ := dispatched_eq hl
    have happ : (c.dispatched t).appended = n := congrArg Context.appended hnew
    refine ⟨fun hnil => ?_, hlast.trans hpos.symm, (hpos.trans happ.symm).le,
      fun hzero => by rw [hlen, if_pos (hpos.symm.trans hzero)], ?_⟩
    · have hnil' : (c.newConversation t).layers = [] := hnil
      rw [hnil'] at hl
      cases hl
    · rw [hlen, happ]
      refine ⟨fun heq m hm => ?_, fun hs => ?_⟩
      · obtain rfl : n = m := Option.some.inj (hconv.symm.trans hm)
        dsimp only at heq
        split_ifs at heq <;> omega
      · have hn := hs n hconv
        dsimp only
        split_ifs <;> omega

/-- **One turn keeps the samples in step** where the conversation is seen. -/
theorem Sampled.step {c : Context} {t : Turn} (h : Sampled c) (hs : Seen c t)
    (hcompact : t.Compacts (c.dispatched t).layers) : Sampled (c.step t) := by
  obtain ⟨hlayers, hlast, hle, hzero, hlen⟩ := dispatched_sample t h
  obtain ⟨l, hl⟩ := exists_head hlayers
  have hpos : (c.dispatched t).pos = l.currentPos := by rw [Context.pos, hl]; rfl
  have hlogical := hlen.mpr hs
  rw [hlogical] at hzero
  -- the layers that `finalize_results` samples
  obtain ⟨l', hl', hlt⟩ : ∃ l', ((c.dispatched t).compacted t).layers.head? = some l' ∧
      l'.currentPos ≤ l.currentPos ∧ (l'.currentPos = 0 → l.currentPos = 0) := by
    unfold Context.compacted
    cases hc : t.compacted with
    | none => exact ⟨l, hl, Nat.le_refl _, id⟩
    | some layers' =>
      obtain ⟨hsame, hbounds⟩ := hcompact layers' hc
      have hne : layers' ≠ [] := by
        rintro rfl
        exact hlayers (List.length_eq_zero_iff.mp hsame.symm)
      obtain ⟨l', hl'⟩ := exists_head hne
      obtain ⟨hone, hle'⟩ := hbounds l hl l' hl'
      exact ⟨l', hl', hle', by omega⟩
  have hfinal := observeContext_eq (d := { ((c.dispatched t).compacted t).dispatcher with
    pendingCompress := none, lastResults := [] }) hl'
  have hstep : (c.step t).dispatcher = _ := hfinal
  have hpos' : (c.step t).pos = l'.currentPos + 1 := by
    have hmap : (c.step t).layers = ((c.dispatched t).compacted t).layers.map
        fun l => ⟨l.currentPos + 1, l.residentTokens + 1⟩ := rfl
    rw [Context.pos, hmap, List.head?_map, hl']
    rfl
  have happ : (c.step t).appended = (c.dispatched t).appended + 1 := rfl
  have hsame : ((c.dispatched t).compacted t).dispatcher = (c.dispatched t).dispatcher := rfl
  refine ⟨fun hnil => ?_, .inl ?_, ?_⟩
  · have hnil' : ((c.dispatched t).compacted t).layers = [] := List.map_eq_nil_iff.mp hnil
    rw [hnil'] at hl'
    cases hl'
  · rw [hstep, hpos', happ, hsame, hlast, hlogical]
    refine ⟨rfl, ?_⟩
    dsimp only
    split_ifs <;> omega
  · rw [hstep, hsame, hlast, hlogical]
    dsimp only
    split_ifs <;> omega

/-- The compactions of the run. -/
def CompactsRun : Context → List Turn → Prop
  | _, [] => True
  | c, t :: ts => t.Compacts (c.dispatched t).layers ∧ CompactsRun (c.step t) ts

/-- Budgets are taken against the uncompressed length at every dispatch of the run. -/
def BudgetsTaken : Context → List Turn → Prop
  | _, [] => True
  | c, t :: ts => BudgetTaken c t ∧ BudgetsTaken (c.step t) ts

/-- Every conversation of the run is seen to begin. -/
def SeenRun : Context → List Turn → Prop
  | _, [] => True
  | c, t :: ts => Seen c t ∧ SeenRun (c.step t) ts

theorem budgetTaken_iff {c : Context} {t : Turn} (h : Sampled c) : BudgetTaken c t ↔ Seen c t := by
  obtain ⟨-, -, -, -, hlen⟩ := dispatched_sample t h
  refine ⟨fun hb => hlen.mp hb.logicalLen, fun hs => ⟨hlen.mpr hs, fun budget hmet hcmds => ?_⟩⟩
  have hlogical := hlen.mpr hs
  have hdisp : (c.newConversation t).dispatcher = c.dispatcher := by
    unfold Context.newConversation
    cases t.conversation <;> rfl
  have hsample : (c.dispatched t).dispatcher.logicalLen =
      ((c.newConversation t).dispatcher.observeContext (c.newConversation t).layers).logicalLen :=
    (dispatch_sample _ _ _ _).1
  rw [← hlogical, hsample] at hmet
  refine (dispatch_registry hmet hcmds).trans ?_
  rw [hdisp]
  unfold observeContext
  split
  · rfl
  · split_ifs <;> rfl

theorem budgetsTaken_iff {c : Context} {ts : List Turn} (h : Sampled c) (hts : CompactsRun c ts) :
    BudgetsTaken c ts ↔ SeenRun c ts := by
  induction ts generalizing c with
  | nil => exact Iff.rfl
  | cons t ts ih =>
    rw [BudgetsTaken, SeenRun, budgetTaken_iff h]
    exact and_congr_right fun hs => ih (h.step hs hts.1) hts.2

/-- **Budgets are taken against the uncompressed length, in every run, exactly where every
conversation is seen to begin.** -/
theorem budgetTaken_run (d : CommandDispatcher) (layers : ℕ) (ts : List Turn) (hlayers : 0 < layers)
    (hts : CompactsRun (Context.start d layers) ts) :
    BudgetsTaken (Context.start d layers) ts ↔ SeenRun (Context.start d layers) ts :=
  budgetsTaken_iff (sampled_start d hlayers) hts

/-- One conversation: the budget is met, and met again behind the next token. -/
theorem budgetTaken_one_conversation : BudgetsTaken (Context.start poolDispatcher 1)
    [{ conversation := some 1200, cmds := [.kvCompress (1 / 2)], compacted := some [⟨600, 600⟩] },
      { cmds := [.kvCompress (1 / 2)] }] := by
  refine (budgetTaken_run poolDispatcher 1 _ (by decide) ?_).mpr ?_
  · refine ⟨fun layers' h => ?_, nofun, trivial⟩
    obtain rfl : [⟨600, 600⟩] = layers' := Option.some.inj h
    refine ⟨rfl, fun l hl l' hl' => ?_⟩
    obtain rfl : ⟨1200, 1200⟩ = l := Option.some.inj hl
    obtain rfl : ⟨600, 600⟩ = l' := Option.some.inj hl'
    decide
  · refine ⟨fun n hn => ?_, nofun, trivial⟩
    obtain rfl : 1200 = n := Option.some.inj hn
    exact .inr ⟨rfl, by decide⟩

/-- Behind a conversation of 1200 tokens one of 300 is taken for 1200. -/
theorem unseen_conversation : ¬ BudgetsTaken (Context.start poolDispatcher 1)
    [{ conversation := some 1200 }, { conversation := some 300 }] := by
  intro h
  exact absurd h.2.1.logicalLen (by decide +kernel)

end ArgusEngine.Session
