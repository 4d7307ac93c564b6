import ArgusEngine.Kv.QuantWindow
import ArgusEngine.Lib.Runs

/-!
# What a quantized-window cache has been given

`QuantHistory` keeps the token rows appended since the last reset and, for every group of 32 tokens,
the quantization steps the group went through. `keyAt` and `valueAt` read a value from this history:
a key through its own group's 32 inputs of the same head and channel, a value through its token's
own 32 channels. `HoldsHistory` relates a cache to a history; every operation keeps it, with the one
exception of a large flush at the end of the unquantized mode of a cache with several heads.
-/

namespace ArgusEngine

open CellArray SlotMem FlatMem

variable {V B : Type}

/-! ## Histories -/

/-- The key and value rows of one token, by head and channel. -/
structure TokenRow (V : Type) where
  k : ℕ → ℕ → V
  v : ℕ → ℕ → V

structure QuantHistory (V : Type) where
  bits : CacheBits
  /-- tokens of a head the residual has room for -/
  window : ℕ
  maxSeqLen : ℕ
  tokens : List (TokenRow V)
  /-- groups held in quantized form -/
  groups : ℕ
  /-- the widths a group was quantized at, in order -/
  steps : ℕ → List QuantBits

/-- A block after being quantized and dequantized at each of the widths. -/
def roundTrips (codec : BlockCodec V B) (ws : List QuantBits) (block : Fin 32 → V) : Fin 32 → V :=
  ws.foldl (fun b w => codec.dequantize w (codec.quantize w b)) block

theorem roundTrips_concat (codec : BlockCodec V B) (ws : List QuantBits) (w : QuantBits)
    (block : Fin 32 → V) :
    roundTrips codec (ws ++ [w]) block =
      codec.dequantize w (codec.quantize w (roundTrips codec ws block)) := by
  simp [roundTrips]

namespace QuantHistory

variable [Zero V] (codec : BlockCodec V B) (s : QuantHistory V)

def token (t : ℕ) : TokenRow V := s.tokens.getD t ⟨fun _ _ => 0, fun _ _ => 0⟩

/-- Channel `ch` of head `h` over the 32 tokens of group `g`. -/
def keyGroup (g h ch : ℕ) : Fin 32 → V :=
  roundTrips codec (s.steps g) fun i => (s.token (g * 32 + i)).k h ch

/-- Channels `b * 32` to `b * 32 + 31` of head `h` of token `t`. -/
def valueChunk (t h b : ℕ) : Fin 32 → V :=
  roundTrips codec (s.steps (t / 32)) fun i => (s.token t).v h (b * 32 + i)

/-- The key of token `t`, from the inputs of its own group, head and channel. -/
def keyAt (t h ch : ℕ) : V := s.keyGroup codec (t / 32) h ch ⟨t % 32, Nat.mod_lt _ (by decide)⟩

/-- The value of token `t`, from its own 32 channels of the head. -/
def valueAt (t h ch : ℕ) : V := s.valueChunk codec t h (ch / 32) ⟨ch % 32, Nat.mod_lt _ (by decide)⟩

/-- Quantize every full group that is not quantized. -/
def flush (w : QuantBits) : QuantHistory V :=
  { s with
    steps := fun g => if s.groups ≤ g ∧ g < s.tokens.length / 32
      then s.steps g ++ [w] else s.steps g
    groups := s.tokens.length / 32 }

/-- Make room when the window is full. -/
def makeRoom : QuantHistory V :=
  match s.bits with
  | .sixteen => s
  | .quantized w => if s.window ≤ s.tokens.length - s.groups * 32 then s.flush w else s

def append (row : TokenRow V) : QuantHistory V := { s with tokens := s.tokens ++ [row] }

/-- Append one token, making room for it. -/
def push (row : TokenRow V) : QuantHistory V := s.makeRoom.append row

/-- The rows of token `i` of the input tensors. -/
def inputRow (kvHeads headDim : ℕ) (newK newV : SeqTensor V) (i : ℕ) : TokenRow V :=
  ⟨fun h ch => newK.data.cell (i * kvHeads * headDim + h * headDim + ch),
    fun h ch => newV.data.cell (i * kvHeads * headDim + h * headDim + ch)⟩

def update (kvHeads headDim : ℕ) (newK newV : SeqTensor V) : QuantHistory V :=
  (List.range newK.tokens).foldl (fun s i => s.push (inputRow kvHeads headDim newK newV i)) s

def reset : QuantHistory V := { s with tokens := [], groups := 0, steps := fun _ => [] }

/-- Change the width: to 16 nothing is requantized; from 16 every full group is quantized and the
window shrinks to one group; between quantized widths every quantized group takes one more step. -/
def transition (bits : CacheBits) : QuantHistory V :=
  if bits = s.bits then s
  else
    match bits, s.bits with
    | .sixteen, _ => { s with bits := .sixteen, window := s.maxSeqLen, groups := 0 }
    | .quantized w, .sixteen => { s.flush w with bits := .quantized w, window := min s.window 32 }
    | .quantized w, .quantized _ =>
      { s with bits := .quantized w,
               steps := fun g => if g < s.groups then s.steps g ++ [w] else s.steps g }

/-- Only full groups have been quantized. -/
def Open : Prop := ∀ g, s.tokens.length / 32 ≤ g → s.steps g = []

variable {codec s}

theorem keyAt_group (g h ch : ℕ) (i : Fin 32) :
    s.keyAt codec (g * 32 + i) h ch = s.keyGroup codec g h ch i := by
  have hdiv : (g * 32 + i) / 32 = g := by omega
  have hmod : (⟨(g * 32 + i) % 32, Nat.mod_lt _ (by decide)⟩ : Fin 32) = i :=
    Fin.ext (by simp only; omega)
  unfold keyAt
  rw [hmod, hdiv]

theorem valueAt_chunk (t h b : ℕ) (i : Fin 32) :
    s.valueAt codec t h (b * 32 + i) = s.valueChunk codec t h b i := by
  have hdiv : (b * 32 + i) / 32 = b := by omega
  have hmod : (⟨(b * 32 + i) % 32, Nat.mod_lt _ (by decide)⟩ : Fin 32) = i :=
    Fin.ext (by simp only; omega)
  unfold valueAt
  rw [hmod, hdiv]

theorem keyAt_of_open {t : ℕ} (h : s.steps (t / 32) = []) (hd ch : ℕ) :
    s.keyAt codec t hd ch = (s.token t).k hd ch := by
  unfold keyAt keyGroup
  rw [h, roundTrips, List.foldl_nil]
  simp only
  rw [Nat.div_add_mod']

theorem valueAt_of_open {t : ℕ} (h : s.steps (t / 32) = []) (hd ch : ℕ) :
    s.valueAt codec t hd ch = (s.token t).v hd ch := by
  unfold valueAt valueChunk
  rw [h, roundTrips, List.foldl_nil]
  simp only
  rw [Nat.div_add_mod']

/-! ### What the operations of a history leave alone -/

theorem keyGroup_congr (s s' : QuantHistory V) {g : ℕ} (hs : s'.steps g = s.steps g)
    (ht : ∀ i : Fin 32, s'.token (g * 32 + i) = s.token (g * 32 + i)) (h ch : ℕ) :
    s'.keyGroup codec g h ch = s.keyGroup codec g h ch := by
  unfold keyGroup
  rw [hs]
  simp only [ht]

theorem valueChunk_congr (s s' : QuantHistory V) {t : ℕ} (hs : s'.steps (t / 32) = s.steps (t / 32))
    (ht : s'.token t = s.token t) (h b : ℕ) :
    s'.valueChunk codec t h b = s.valueChunk codec t h b := by
  unfold valueChunk
  rw [hs, ht]

theorem keyAt_congr (s s' : QuantHistory V) {t : ℕ} (hs : s'.steps (t / 32) = s.steps (t / 32))
    (ht : ∀ i : Fin 32, s'.token (t / 32 * 32 + i) = s.token (t / 32 * 32 + i)) (h ch : ℕ) :
    s'.keyAt codec t h ch = s.keyAt codec t h ch :=
  congrFun (keyGroup_congr s s' hs ht h ch) _

theorem valueAt_congr (s s' : QuantHistory V) {t : ℕ} (hs : s'.steps (t / 32) = s.steps (t / 32))
    (ht : s'.token t = s.token t) (h ch : ℕ) : s'.valueAt codec t h ch = s.valueAt codec t h ch :=
  congrFun (valueChunk_congr s s' hs ht h _) _

omit [Zero V] in
theorem steps_flush_of_not {w : QuantBits} {g : ℕ}
    (hg : ¬ (s.groups ≤ g ∧ g < s.tokens.length / 32)) :
    (s.flush w).steps g = s.steps g := if_neg hg

theorem keyGroup_flush {w : QuantBits} {g : ℕ} (hg : s.groups ≤ g ∧ g < s.tokens.length / 32)
    (h ch : ℕ) : (s.flush w).keyGroup codec g h ch =
    codec.dequantize w (codec.quantize w (s.keyGroup codec g h ch)) := by
  have hstep : (s.flush w).steps g = s.steps g ++ [w] := if_pos hg
  unfold keyGroup
  rw [hstep, roundTrips_concat]
  rfl

theorem valueChunk_flush {w : QuantBits} {t : ℕ}
    (ht : s.groups ≤ t / 32 ∧ t / 32 < s.tokens.length / 32) (h b : ℕ) :
    (s.flush w).valueChunk codec t h b =
      codec.dequantize w (codec.quantize w (s.valueChunk codec t h b)) := by
  have hstep : (s.flush w).steps (t / 32) = s.steps (t / 32) ++ [w] := if_pos ht
  unfold valueChunk
  rw [hstep, roundTrips_concat]
  rfl

omit [Zero V] in
theorem Open.flush (hs : s.Open) (w : QuantBits) : (s.flush w).Open := by
  intro g hg
  have hlen : s.tokens.length / 32 ≤ g := hg
  rw [steps_flush_of_not fun h => absurd h.2 (by omega)]
  exact hs g hlen

omit [Zero V] in
theorem Open.append (hs : s.Open) (row : TokenRow V) : (s.append row).Open := by
  intro g hg
  refine hs g ?_
  simp only [QuantHistory.append, List.length_append, List.length_singleton] at hg
  omega

omit [Zero V] in
@[simp] theorem tokens_makeRoom : s.makeRoom.tokens = s.tokens := by
  unfold makeRoom
  split
  · rfl
  · split_ifs <;> rfl

omit [Zero V] in
@[simp] theorem tokens_push (row : TokenRow V) : (s.push row).tokens = s.tokens ++ [row] := by
  simp [push, QuantHistory.append]

theorem token_append_of_lt (row : TokenRow V) {t : ℕ} (ht : t < s.tokens.length) :
    (s.append row).token t = s.token t := by
  simp [token, QuantHistory.append, List.getElem?_append_left ht]

theorem token_append_self (row : TokenRow V) : (s.append row).token s.tokens.length = row := by
  simp [token, QuantHistory.append]

theorem keyAt_append_of_lt (hs : s.Open) (row : TokenRow V) {t : ℕ}
    (ht : t < s.tokens.length) (h ch : ℕ) :
    (s.append row).keyAt codec t h ch = s.keyAt codec t h ch := by
  by_cases hfull : t / 32 < s.tokens.length / 32
  · refine keyAt_congr s (s.append row) rfl (fun i => ?_) h ch
    exact token_append_of_lt row (by omega)
  · have hopen := hs (t / 32) (by omega)
    have hopen' : (s.append row).steps (t / 32) = [] := hopen
    rw [keyAt_of_open hopen', keyAt_of_open hopen, token_append_of_lt row ht]

theorem valueAt_append_of_lt (row : TokenRow V) {t : ℕ} (ht : t < s.tokens.length) (h ch : ℕ) :
    (s.append row).valueAt codec t h ch = s.valueAt codec t h ch :=
  valueAt_congr s (s.append row) rfl (token_append_of_lt row ht) h ch

theorem keyAt_append_self (hs : s.Open) (row : TokenRow V) (h ch : ℕ) :
    (s.append row).keyAt codec s.tokens.length h ch = row.k h ch := by
  have hopen : (s.append row).steps (s.tokens.length / 32) = [] := hs _ (Nat.le_refl _)
  rw [keyAt_of_open hopen, token_append_self]

theorem valueAt_append_self (hs : s.Open) (row : TokenRow V) (h ch : ℕ) :
    (s.append row).valueAt codec s.tokens.length h ch = row.v h ch := by
  have hopen : (s.append row).steps (s.tokens.length / 32) = [] := hs _ (Nat.le_refl _)
  rw [valueAt_of_open hopen, token_append_self]

end QuantHistory

end ArgusEngine
