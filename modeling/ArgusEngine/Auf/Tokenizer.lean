import ArgusEngine.Auf.Format

/-!
# The TOKENIZER section

A header of 64 bytes with counts and section-local offsets, then the blobs: the tokens, the merges,
the ids of the special tokens and the chat template. `AufTokenizer.fromBytes` follows the offsets of
the header, `AufTokenizer.toBytes` lays the blobs out one after another.

* `OffsetsFit`: no offset that is followed overflows;
* **`noPanic_tokenizerFromBytes`**: reading panics only there;
* **`fromBytes_tokenizerToBytes`**: a BPE tokenizer is read back.
-/

namespace ArgusEngine.Auf

open FlatMem Checked

/-- `"ARGUS_TOK"`, NUL-padded. -/
def TOKENIZER_MAGIC : List UInt8 := [65, 82, 71, 85, 83, 95, 84, 79, 75, 0, 0, 0, 0, 0, 0, 0]

def TOKENIZER_KIND_BPE : UInt32 := 0

def TOKENIZER_HEADER_SIZE : ℕ := 64

structure AufTokenizer where
  kind : UInt32
  tokens : List (List UInt8)
  merges : List String
  bosId : Int32
  eosId : Int32
  padId : Int32
  unkId : Int32
  chatTemplate : Option String
  deriving DecidableEq

/-- The loop of `read_length_prefixed_strings`, at entry `i`. -/
def readStrings (payload : List UInt8) :
    (i count pos : ℕ) → Except (Fault String) (List (List UInt8))
  | _, 0, _ => .ok []
  | i, count + 1, pos => do
    let data ← add pos 4
    ensure (data ≤ payload.length) s!"entry {i}: length prefix out of bounds"
    let len := (← u32At payload pos).toNat
    let stop ← add data len
    ensure (stop ≤ payload.length) s!"entry {i}: data out of bounds (len={len})"
    let s ← index payload data stop
    return s :: (← readStrings payload (i + 1) count stop)

/-- `read_length_prefixed_strings`. -/
def readLengthPrefixedStrings (payload : List UInt8) (offset count : ℕ) :
    Except (Fault String) (List (List UInt8)) :=
  readStrings payload 0 count offset

/-- `read_length_prefixed_utf8`. -/
def readLengthPrefixedUtf8 (payload : List UInt8) (offset : ℕ) : Except (Fault String) String := do
  let data ← add offset 4
  ensure (data ≤ payload.length) "length prefix out of bounds"
  let len := (← u32At payload offset).toNat
  let stop ← add data len
  ensure (stop ≤ payload.length) s!"data out of bounds (len={len})"
  okOr "invalid UTF-8" (fromUtf8 (← index payload data stop))

/-- `map_err` to `AufError::TokenizerFormat`. -/
def tokenizerErr {α : Type} (f : String → String) : Except (Fault String) α → AufResult α :=
  liftErr fun e => .tokenizerFormat (f e)

/-- The counts and offsets of the header. -/
structure TokenizerHeader where
  kind : UInt32
  vocabSize : ℕ
  mergesCount : ℕ
  specialTokensOffset : ℕ
  chatTemplateOffset : ℕ
  tokensBlobOffset : ℕ
  mergesBlobOffset : ℕ
  deriving DecidableEq

/-- The header part of `AufTokenizer::from_bytes`. -/
def tokenizerHeader (payload : List UInt8) : AufResult TokenizerHeader := do
  ensure (TOKENIZER_HEADER_SIZE ≤ payload.length) (.tokenizerFormat "payload too small for header")
  ensure ((← index payload 0 16) = TOKENIZER_MAGIC) (.tokenizerFormat "magic mismatch")
  let schemaVersion ← u32At payload 16
  ensure (schemaVersion = 1) (.tokenizerFormat s!"unsupported schema_version={schemaVersion}")
  let kind ← u32At payload 20
  ensure (kind = TOKENIZER_KIND_BPE) (.tokenizerFormat
    s!"tokenizer_kind={kind} is not supported in schema_version=1 (only kind=0 BPE)")
  return {
    kind
    vocabSize := (← u32At payload 24).toNat
    mergesCount := (← u32At payload 28).toNat
    specialTokensOffset := (← u64At payload 32).toNat
    chatTemplateOffset := (← u64At payload 40).toNat
    tokensBlobOffset := (← u64At payload 48).toNat
    mergesBlobOffset := (← u64At payload 56).toNat }

/-- The tokens. -/
def TokenizerHeader.readTokens (h : TokenizerHeader) (payload : List UInt8) :
    AufResult (List (List UInt8)) :=
  tokenizerErr (fun e => s!"tokens_blob: {e}")
    (readLengthPrefixedStrings payload h.tokensBlobOffset h.vocabSize)

/-- The merges, where the header has any. -/
def TokenizerHeader.readMerges (h : TokenizerHeader) (payload : List UInt8) :
    AufResult (List String) :=
  if 0 < h.mergesCount ∧ 0 < h.mergesBlobOffset then do
    let raw ← tokenizerErr (fun e => s!"merges_blob: {e}")
      (readLengthPrefixedStrings payload h.mergesBlobOffset h.mergesCount)
    raw.mapM fun b => okOr (.tokenizerFormat "merges entry is not valid UTF-8") (fromUtf8 b)
  else .ok []

/-- The ids of the special tokens. -/
def TokenizerHeader.readSpecial (h : TokenizerHeader) (payload : List UInt8) :
    AufResult (Int32 × Int32 × Int32 × Int32) := do
  let stop ← add h.specialTokensOffset 16
  ensure (stop ≤ payload.length) (.tokenizerFormat "special_tokens_offset out of bounds")
  return (← i32At payload h.specialTokensOffset, ← i32At payload (h.specialTokensOffset + 4),
    ← i32At payload (h.specialTokensOffset + 8), ← i32At payload (h.specialTokensOffset + 12))

/-- The chat template, where the header has one. -/
def TokenizerHeader.readChat (h : TokenizerHeader) (payload : List UInt8) :
    AufResult (Option String) :=
  if 0 < h.chatTemplateOffset then do
    return some (← tokenizerErr (fun e => s!"chat_template: {e}")
      (readLengthPrefixedUtf8 payload h.chatTemplateOffset))
  else .ok none

/-- `AufTokenizer::from_bytes`. -/
def AufTokenizer.fromBytes (payload : List UInt8) : AufResult AufTokenizer := do
  let h ← tokenizerHeader payload
  let tokens ← h.readTokens payload
  let merges ← h.readMerges payload
  let (bosId, eosId, padId, unkId) ← h.readSpecial payload
  let chatTemplate ← h.readChat payload
  return { kind := h.kind, tokens, merges, bosId, eosId, padId, unkId, chatTemplate }

/-- `build_length_prefixed_strings`. -/
def buildLengthPrefixedStrings (strings : List (List UInt8)) : List UInt8 :=
  strings.flatMap fun s => le32 (.ofNat s.length) ++ s

namespace AufTokenizer

def tokensBlob (t : AufTokenizer) : List UInt8 := buildLengthPrefixedStrings t.tokens

/-- Nothing for no merges. -/
def mergesBlob (t : AufTokenizer) : List UInt8 := buildLengthPrefixedStrings (t.merges.map asBytes)

def special (t : AufTokenizer) : List UInt8 :=
  leI32 t.bosId ++ leI32 t.eosId ++ leI32 t.padId ++ leI32 t.unkId

def chatBlob (t : AufTokenizer) : List UInt8 :=
  match t.chatTemplate with
  | some ct => le32 (.ofNat (asBytes ct).length) ++ asBytes ct
  | none => []

def specialTokensOffset (t : AufTokenizer) : ℕ :=
  TOKENIZER_HEADER_SIZE + t.tokensBlob.length + t.mergesBlob.length

/-- The fields of the header in the order of the file, then the blobs. -/
def parts (t : AufTokenizer) : List (List UInt8) :=
  [TOKENIZER_MAGIC, le32 1, le32 t.kind, le32 (.ofNat t.tokens.length),
    le32 (.ofNat t.merges.length),
   le64 (.ofNat t.specialTokensOffset),
   le64 (if t.chatTemplate.isSome then .ofNat (t.specialTokensOffset + 16) else 0),
   le64 (.ofNat TOKENIZER_HEADER_SIZE),
   le64 (if t.merges = [] then 0 else .ofNat (TOKENIZER_HEADER_SIZE + t.tokensBlob.length)),
   t.tokensBlob, t.mergesBlob, t.special, t.chatBlob]

/-- `AufTokenizer::to_bytes`. -/
def toBytes (t : AufTokenizer) : List UInt8 := t.parts.flatten

end AufTokenizer

/-! ## Offsets -/

section Offsets

variable {payload : List UInt8}

@[simp] theorem noPanic_tokenizerErr {α : Type} {f : String → String}
    {x : Except (Fault String) α} : NoPanic (tokenizerErr f x) ↔ NoPanic x := noPanic_liftErr

@[simp] theorem ok_tokenizerErr {α : Type} {f : String → String}
    {x : Except (Fault String) α} {a : α} : tokenizerErr f x = .ok a ↔ x = .ok a := ok_liftErr

/-- Only the first offset can overflow: the later ones lie in the payload. -/
theorem noPanic_readStrings (hlen : payload.length < 2 ^ 63) {i count pos : ℕ} :
    NoPanic (readStrings payload i count pos) ↔ (0 < count → pos + 4 < 2 ^ 64) := by
  induction count generalizing i pos with
  | zero => simp [readStrings]
  | succ count ih =>
    simp only [readStrings, noPanic_bind, noPanic_add, noPanic_ensure, noPanic_readAt,
      noPanic_index, noPanic_pure, ok_add, ok_ensure, ok_readAt, true_and, implies_true, and_true,
      Nat.zero_lt_succ, true_implies, ih]
    refine ⟨fun h => h.1, fun h => ⟨h, ?_⟩⟩
    rintro _ ⟨-, rfl⟩ - hle
    refine ⟨hle, ?_⟩
    rintro len ⟨-, -⟩
    have hlt := len.toNat_lt
    refine ⟨by omega, ?_⟩
    rintro _ ⟨-, rfl⟩ - hstop
    exact ⟨⟨Nat.le_add_right _ _, hstop⟩, fun _ _ _ => by omega⟩

theorem noPanic_readLengthPrefixedUtf8 (hlen : payload.length < 2 ^ 63) {offset : ℕ} :
    NoPanic (readLengthPrefixedUtf8 payload offset) ↔ offset + 4 < 2 ^ 64 := by
  simp only [readLengthPrefixedUtf8, noPanic_bind, noPanic_add, noPanic_ensure,
    noPanic_readAt, noPanic_index, noPanic_okOr, ok_add, ok_ensure, ok_readAt, true_and,
    implies_true, and_true]
  refine ⟨fun h => h.1, fun h => ⟨h, ?_⟩⟩
  rintro _ ⟨-, rfl⟩ - hle
  refine ⟨hle, ?_⟩
  rintro len ⟨-, -⟩
  have hlt := len.toNat_lt
  refine ⟨by omega, ?_⟩
  rintro _ ⟨-, rfl⟩ - hstop
  exact ⟨Nat.le_add_right _ _, hstop⟩

theorem noPanic_tokenizerHeader : NoPanic (tokenizerHeader payload) := by
  simp only [tokenizerHeader, noPanic_bind, noPanic_ensure, noPanic_index, noPanic_readAt,
    noPanic_pure, ok_ensure, true_and, implies_true, and_true]
  rintro - hlen
  have hlen' : 64 ≤ payload.length := hlen
  refine ⟨by omega, fun _ _ _ _ => ⟨by
    omega, fun _ _ _ _ => ⟨by omega, fun _ _ _ _ => ⟨by omega, ?_⟩⟩⟩⟩
  exact fun _ _ =>
    ⟨by omega, fun _ _ => ⟨by
      omega, fun _ _ => ⟨by omega, fun _ _ => ⟨by omega, fun _ _ => by omega⟩⟩⟩⟩

/-- No offset of the header that is followed overflows. -/
def OffsetsFit (payload : List UInt8) : Prop :=
  ∀ h, tokenizerHeader payload = .ok h →
    (0 < h.vocabSize → h.tokensBlobOffset + 4 < 2 ^ 64) ∧
    ∀ tokens, h.readTokens payload = .ok tokens →
      (0 < h.mergesCount → 0 < h.mergesBlobOffset → h.mergesBlobOffset + 4 < 2 ^ 64) ∧
      ∀ merges, h.readMerges payload = .ok merges →
        h.specialTokensOffset + 16 < 2 ^ 64 ∧
        ∀ ids, h.readSpecial payload = .ok ids → 0 < h.chatTemplateOffset →
        h.chatTemplateOffset + 4 < 2 ^ 64

theorem noPanic_readMerges (hlen : payload.length < 2 ^ 63) {h : TokenizerHeader} :
    NoPanic (h.readMerges payload) ↔
      (0 < h.mergesCount → 0 < h.mergesBlobOffset → h.mergesBlobOffset + 4 < 2 ^ 64) := by
  unfold TokenizerHeader.readMerges
  split_ifs with hmerges
  · simp only [noPanic_bind, noPanic_tokenizerErr, readLengthPrefixedStrings,
      noPanic_readStrings hlen]
    refine ⟨fun hm _ _ => hm.1 hmerges.1, fun hm =>
      ⟨fun _ => hm hmerges.1 hmerges.2, fun raw _ => ?_⟩⟩
    exact noPanic_mapM fun _ _ => noPanic_okOr
  · exact ⟨fun _ h₁ h₂ => absurd ⟨h₁, h₂⟩ hmerges, fun _ => noPanic_ok _⟩

theorem noPanic_readSpecial {h : TokenizerHeader} :
    NoPanic (h.readSpecial payload) ↔ h.specialTokensOffset + 16 < 2 ^ 64 := by
  simp only [TokenizerHeader.readSpecial, noPanic_bind, noPanic_add, noPanic_ensure,
    noPanic_readAt, noPanic_pure, ok_add, ok_ensure, true_and, implies_true, and_true]
  refine ⟨fun h => h.1, fun h => ⟨h, ?_⟩⟩
  rintro _ ⟨-, rfl⟩ - hle
  exact ⟨by omega, fun _ _ => ⟨by omega, fun _ _ => ⟨by omega, fun _ _ => by omega⟩⟩⟩

theorem noPanic_readChat (hlen : payload.length < 2 ^ 63) {h : TokenizerHeader} :
    NoPanic (h.readChat payload) ↔
      (0 < h.chatTemplateOffset → h.chatTemplateOffset + 4 < 2 ^ 64) := by
  unfold TokenizerHeader.readChat
  split_ifs with hchat
  · simp only [noPanic_bind, noPanic_tokenizerErr, noPanic_readLengthPrefixedUtf8 hlen,
      noPanic_pure, implies_true, and_true]
    exact ⟨fun h _ => h, fun h => h hchat⟩
  · exact ⟨fun _ h => absurd h hchat, fun _ => noPanic_ok _⟩

/-- **Reading the tokenizer panics exactly where an offset that it follows overflows.** -/
theorem noPanic_tokenizerFromBytes (hlen : payload.length < 2 ^ 63) :
    NoPanic (AufTokenizer.fromBytes payload) ↔ OffsetsFit payload := by
  simp only [AufTokenizer.fromBytes, noPanic_bind, noPanic_tokenizerHeader, noPanic_readMerges hlen,
    noPanic_readSpecial, noPanic_readChat hlen, noPanic_pure, TokenizerHeader.readTokens,
    noPanic_tokenizerErr, readLengthPrefixedStrings, noPanic_readStrings hlen, true_and,
    implies_true, and_true]
  rfl

end Offsets

/-! ## The round trip -/

/-- Every length of the tokenizer fits its length field. -/
structure AufTokenizer.Fits (t : AufTokenizer) : Prop where
  kind : t.kind = TOKENIZER_KIND_BPE
  tokens : t.tokens.length < 2 ^ 32
  token : ∀ s ∈ t.tokens, s.length < 2 ^ 32
  merges : t.merges.length < 2 ^ 32
  merge : ∀ s ∈ t.merges, (asBytes s).length < 2 ^ 32
  chat : ∀ ct, t.chatTemplate = some ct → (asBytes ct).length < 2 ^ 32

theorem toNat_ofNat32 {n : ℕ} (h : n < 2 ^ 32) : (UInt32.ofNat n).toNat = n := by
  rw [UInt32.toNat_ofNat', Nat.mod_eq_of_lt h]

theorem toNat_ofNat64 {n : ℕ} (h : n < 2 ^ 64) : (UInt64.ofNat n).toNat = n := by
  rw [UInt64.toNat_ofNat', Nat.mod_eq_of_lt h]

theorem u32At_of_slice {ε : Type} {b : List UInt8} {lo : ℕ} {x : UInt32} (hlen : lo + 4 ≤ b.length)
    (h : slice b lo 4 = le32 x) : u32At (ε := ε) b lo = .ok x := by
  rw [show u32At (ε := ε) b lo = .ok (ofLe32 (slice b lo 4)) from readAt_of_le hlen, h, ofLe32_le32]

theorem readStrings_step {payload s : List UInt8} {rest : List (List UInt8)} {i count pos : ℕ}
    (hlen : payload.length < 2 ^ 63) (hs : s.length < 2 ^ 32)
    (hstop : pos + 4 + s.length ≤ payload.length)
    (hlength : slice payload pos 4 = le32 (.ofNat s.length))
    (hdata : slice payload (pos + 4) s.length = s)
    (hrest : readStrings payload (i + 1) count (pos + 4 + s.length) = .ok rest) :
    readStrings payload i (count + 1) pos = .ok (s :: rest) := by
  rw [readStrings, bind_of_ok (ok_add.mpr ⟨by omega, rfl⟩), bind_of_ok (ensure_of (by omega)),
    bind_of_ok (u32At_of_slice (by omega) hlength), toNat_ofNat32 hs]
  simp only
  rw [bind_of_ok (ok_add.mpr ⟨by omega, rfl⟩), bind_of_ok (ensure_of hstop),
    bind_of_ok (ok_index.mpr ⟨⟨Nat.le_add_right _ _, hstop⟩, rfl⟩), Nat.add_sub_cancel_left, hdata,
    bind_of_ok hrest]
  rfl

theorem readStrings_build {strings : List (List UInt8)} {pre post : List UInt8} {i : ℕ}
    (hlen : (pre ++ buildLengthPrefixedStrings strings ++ post).length < 2 ^ 63)
    (hs : ∀ s ∈ strings, s.length < 2 ^ 32) :
    readStrings (pre ++ buildLengthPrefixedStrings strings ++ post) i strings.length pre.length =
      .ok strings := by
  induction strings generalizing pre i with
  | nil => rfl
  | cons s strings ih =>
    -- the next string begins behind this one
    have hnext : (pre ++ le32 (.ofNat s.length) ++ s).length = pre.length + 4 + s.length := by
      simp [Nat.add_assoc]
    have hsplit : pre ++ buildLengthPrefixedStrings (s :: strings) ++ post =
        pre ++ le32 (.ofNat s.length) ++ s ++ buildLengthPrefixedStrings strings ++ post := by
      simp [buildLengthPrefixedStrings]
    rw [hsplit] at hlen ⊢
    refine readStrings_step hlen (hs s List.mem_cons_self) ?_ ?_ ?_ ?_
    · rw [← hnext]
      simp
    · rw [List.append_assoc, List.append_assoc]
      exact slice_mid rfl (length_le32 _)
    · rw [List.append_assoc _ _ post]
      exact slice_mid (by simp) rfl
    · rw [← hnext]
      exact ih hlen fun x hx => hs x (List.mem_cons_of_mem _ hx)

namespace AufTokenizer

variable {t : AufTokenizer}

/-- The offset of the chat template, or 0. -/
def chatTemplateOffset (t : AufTokenizer) : ℕ :=
  if t.chatTemplate.isSome then t.specialTokensOffset + 16 else 0

/-- The offset of the merges, or 0. -/
def mergesBlobOffset (t : AufTokenizer) : ℕ :=
  if t.merges = [] then 0 else TOKENIZER_HEADER_SIZE + t.tokensBlob.length

/-- The header that is written. -/
def header (t : AufTokenizer) : TokenizerHeader where
  kind := t.kind
  vocabSize := t.tokens.length
  mergesCount := t.merges.length
  specialTokensOffset := t.specialTokensOffset
  chatTemplateOffset := t.chatTemplateOffset
  tokensBlobOffset := TOKENIZER_HEADER_SIZE
  mergesBlobOffset := t.mergesBlobOffset

theorem length_special (t : AufTokenizer) : t.special.length = 16 := by simp [special]

theorem length_toBytes (t : AufTokenizer) :
    t.toBytes.length = t.specialTokensOffset + 16 + t.chatBlob.length := by
  simp [toBytes, parts, specialTokensOffset, TOKENIZER_HEADER_SIZE, TOKENIZER_MAGIC, length_special]
  omega

theorem tokenizerHeader_toBytes (hfits : t.Fits) (hlen : t.toBytes.length < 2 ^ 63) :
    tokenizerHeader t.toBytes = .ok t.header := by
  have htotal := length_toBytes t
  have hoffset : t.specialTokensOffset = 64 + t.tokensBlob.length + t.mergesBlob.length := rfl
  have hmagic : slice t.toBytes 0 (16 - 0) = TOKENIZER_MAGIC := slice_flatten (i := 0) rfl rfl rfl
  have hschema : slice t.toBytes 16 4 = le32 1 := slice_flatten (i := 1) rfl rfl rfl
  have hkind : slice t.toBytes 20 4 = le32 t.kind := slice_flatten (i := 2) rfl rfl rfl
  have hvocab : slice t.toBytes 24 4 = le32 (.ofNat t.tokens.length) :=
    slice_flatten (i := 3) rfl rfl rfl
  have hmerges : slice t.toBytes 28 4 = le32 (.ofNat t.merges.length) :=
    slice_flatten (i := 4) rfl rfl rfl
  have hspecial : slice t.toBytes 32 8 = le64 (.ofNat t.specialTokensOffset) :=
    slice_flatten (i := 5) rfl rfl rfl
  have hchat : slice t.toBytes 40 8 = le64 (.ofNat t.chatTemplateOffset) := by
    rw [chatTemplateOffset, apply_ite UInt64.ofNat]
    exact slice_flatten (i := 6) rfl rfl rfl
  have htokens : slice t.toBytes 48 8 = le64 (.ofNat TOKENIZER_HEADER_SIZE) :=
    slice_flatten (i := 7) rfl rfl rfl
  have hmergesOff : slice t.toBytes 56 8 = le64 (.ofNat t.mergesBlobOffset) := by
    rw [mergesBlobOffset, apply_ite UInt64.ofNat]
    exact slice_flatten (i := 8) rfl rfl rfl
  have hchatFits : t.chatTemplateOffset <
    2 ^ 64 := by unfold chatTemplateOffset; split_ifs <;> omega
  have hmergesFits : t.mergesBlobOffset < 2 ^ 64 := by
    unfold mergesBlobOffset TOKENIZER_HEADER_SIZE; split_ifs <;> omega
  unfold tokenizerHeader
  rw [bind_of_ok (ensure_of (show TOKENIZER_HEADER_SIZE ≤
    _ by unfold TOKENIZER_HEADER_SIZE; omega)),
    bind_of_ok (ok_index.mpr ⟨⟨Nat.zero_le _, by omega⟩, rfl⟩), bind_of_ok (ensure_of hmagic)]
  simp (disch := omega) only [readAt_of_le, ok_seq]
  rw [hschema, hkind, hvocab, hmerges, hspecial, hchat, htokens, hmergesOff]
  simp only [ofLe32_le32, ofLe64_le64, toNat_ofNat32 hfits.tokens, toNat_ofNat32 hfits.merges,
    toNat_ofNat64 hchatFits, toNat_ofNat64 hmergesFits,
    toNat_ofNat64 (show t.specialTokensOffset < 2 ^ 64 by omega)]
  rw [bind_of_ok (ensure_of trivial), bind_of_ok (ensure_of hfits.kind)]
  rfl

theorem readTokens_toBytes (hfits : t.Fits) (hlen : t.toBytes.length < 2 ^ 63) :
    t.header.readTokens t.toBytes = .ok t.tokens := by
  have hsplit : t.toBytes = (t.parts.take 9).flatten ++ t.tokensBlob ++ (t.parts.drop 10).flatten :=
    flatten_split (i := 9) rfl
  rw [TokenizerHeader.readTokens, ok_tokenizerErr, hsplit]
  exact readStrings_build (hsplit ▸ hlen) hfits.token

theorem readMerges_toBytes (hfits : t.Fits) (hlen : t.toBytes.length < 2 ^ 63) :
    t.header.readMerges t.toBytes = .ok t.merges := by
  unfold TokenizerHeader.readMerges
  by_cases hmerges : t.merges = []
  · rw [if_neg (by simp [header, hmerges]), hmerges]
  · have hoff : t.header.mergesBlobOffset = TOKENIZER_HEADER_SIZE + t.tokensBlob.length :=
      if_neg hmerges
    have hpos : 0 < t.merges.length := List.length_pos_iff.mpr hmerges
    rw [if_pos ⟨hpos, by rw [hoff]; exact Nat.add_pos_left (by decide) _⟩]
    have hsplit : t.toBytes = (t.parts.take 10).flatten ++ t.mergesBlob ++
      (t.parts.drop 11).flatten :=
      flatten_split (i := 10) rfl
    have hpre : (t.parts.take 10).flatten.length = TOKENIZER_HEADER_SIZE + t.tokensBlob.length := by
      simp [parts, TOKENIZER_HEADER_SIZE, TOKENIZER_MAGIC]
      omega
    have hread : readLengthPrefixedStrings t.toBytes t.header.mergesBlobOffset
      t.header.mergesCount =
        .ok (t.merges.map asBytes) := by
      have hs : ∀ s ∈ t.merges.map asBytes, s.length < 2 ^ 32 := by
        simpa using hfits.merge
      rw [hoff, ← hpre, show t.header.mergesCount =
        (t.merges.map asBytes).length from (List.length_map _).symm, hsplit]
      exact readStrings_build (hsplit ▸ hlen) hs
    rw [bind_of_ok (ok_tokenizerErr.mpr hread), ok_mapM, List.forall₂_map_left_iff]
    exact List.forall₂_same.mpr fun s _ => ok_okOr.mpr (fromUtf8_asBytes s)

theorem readSpecial_toBytes (hlen : t.toBytes.length < 2 ^ 63) :
    t.header.readSpecial t.toBytes = .ok (t.bosId, t.eosId, t.padId, t.unkId) := by
  have htotal := length_toBytes t
  have hpre : (t.parts.take 11).flatten.length = t.specialTokensOffset := by
    simp [parts, specialTokensOffset, TOKENIZER_HEADER_SIZE, TOKENIZER_MAGIC]
    omega
  have hsplit : t.toBytes =
    ([(t.parts.take 11).flatten, leI32 t.bosId, leI32 t.eosId, leI32 t.padId,
      leI32 t.unkId, t.chatBlob] : List (List UInt8)).flatten := by
    rw [toBytes, flatten_split (i := 11) rfl]
    simp [parts, special]
  have hbos : slice t.toBytes t.specialTokensOffset 4 = leI32 t.bosId := by
    rw [hsplit]; exact slice_flatten (i := 1) rfl (by simp [hpre]) (length_leI32 _)
  have heos : slice t.toBytes (t.specialTokensOffset + 4) 4 = leI32 t.eosId := by
    rw [hsplit]; exact slice_flatten (i := 2) rfl (by simp [hpre]) (length_leI32 _)
  have hpad : slice t.toBytes (t.specialTokensOffset + 8) 4 = leI32 t.padId := by
    rw [hsplit]; exact slice_flatten (i := 3) rfl (by simp [hpre]) (length_leI32 _)
  have hunk : slice t.toBytes (t.specialTokensOffset + 12) 4 = leI32 t.unkId := by
    rw [hsplit]; exact slice_flatten (i := 4) rfl (by simp [hpre]) (length_leI32 _)
  have hoff : t.header.specialTokensOffset = t.specialTokensOffset := rfl
  rw [TokenizerHeader.readSpecial, hoff, bind_of_ok (ok_add.mpr ⟨by omega, rfl⟩),
    bind_of_ok (ensure_of (by omega))]
  simp (disch := omega) only [readAt_of_le, ok_seq]
  rw [hbos, heos, hpad, hunk]
  simp only [ofLeI32_leI32]
  rfl

theorem readChat_toBytes (hfits : t.Fits) (hlen : t.toBytes.length < 2 ^ 63) :
    t.header.readChat t.toBytes = .ok t.chatTemplate := by
  have htotal := length_toBytes t
  have hoff : t.header.chatTemplateOffset = if t.chatTemplate.isSome
    then t.specialTokensOffset + 16 else 0 := rfl
  rw [TokenizerHeader.readChat, hoff]
  cases hct : t.chatTemplate with
  | none => rfl
  | some ct =>
    have hblob : t.chatBlob = le32 (.ofNat (asBytes ct).length) ++
      asBytes ct := by rw [chatBlob, hct]
    have hpre : (t.parts.take 12).flatten.length = t.specialTokensOffset + 16 := by
      simp [parts, specialTokensOffset, TOKENIZER_HEADER_SIZE, TOKENIZER_MAGIC, length_special]
      omega
    have hsplit : t.toBytes =
        ([(t.parts.take 12).flatten, le32 (.ofNat (asBytes ct).length), asBytes ct] : List
          (List UInt8)).flatten := by
      rw [toBytes, flatten_split (i := 12) rfl, hblob]
      simp [parts]
    have hlength : slice t.toBytes (t.specialTokensOffset + 16) 4 =
      le32 (.ofNat (asBytes ct).length) := by
      rw [hsplit]; exact slice_flatten (i := 1) rfl (by simp [hpre]) (length_le32 _)
    have hdata : slice t.toBytes (t.specialTokensOffset + 16 + 4)
      (asBytes ct).length = asBytes ct := by
      rw [hsplit]; exact slice_flatten (i := 2) rfl (by simp [hpre]) rfl
    have hstop : t.specialTokensOffset + 16 + 4 + (asBytes ct).length = t.toBytes.length := by
      rw [htotal, hblob, List.length_append, length_le32]
      omega
    have hread : readLengthPrefixedUtf8 t.toBytes (t.specialTokensOffset + 16) = .ok ct := by
      rw [readLengthPrefixedUtf8, bind_of_ok (ok_add.mpr ⟨by omega, rfl⟩),
        bind_of_ok (ensure_of (by omega)),
        bind_of_ok (u32At_of_slice (by omega) hlength), toNat_ofNat32 (hfits.chat ct hct)]
      simp only
      rw [bind_of_ok (ok_add.mpr ⟨by omega, rfl⟩), bind_of_ok (ensure_of (Nat.le_of_eq hstop)),
        bind_of_ok (ok_index.mpr ⟨⟨Nat.le_add_right _ _, Nat.le_of_eq hstop⟩, rfl⟩),
        Nat.add_sub_cancel_left, hdata, fromUtf8_asBytes]
      rfl
    rw [Option.isSome_some, if_pos rfl, if_pos (Nat.succ_pos _),
      bind_of_ok (ok_tokenizerErr.mpr hread)]
    rfl

end AufTokenizer

/-- **A BPE tokenizer is read back from its bytes.** -/
theorem fromBytes_tokenizerToBytes {t : AufTokenizer} (hfits : t.Fits)
    (hlen : t.toBytes.length < 2 ^ 63) : AufTokenizer.fromBytes t.toBytes = .ok t := by
  rw [AufTokenizer.fromBytes, bind_of_ok (AufTokenizer.tokenizerHeader_toBytes hfits hlen),
    bind_of_ok (AufTokenizer.readTokens_toBytes hfits hlen),
    bind_of_ok (AufTokenizer.readMerges_toBytes hfits hlen),
    bind_of_ok (AufTokenizer.readSpecial_toBytes hlen)]
  simp only
  rw [bind_of_ok (AufTokenizer.readChat_toBytes hfits hlen)]
  rfl

end ArgusEngine.Auf
