import ArgusEngine.Lib.Cursor
import ArgusEngine.Lib.Stream

/-!
# The link to the manager

Messages travel as `[4 bytes BE u32 length][UTF-8 JSON payload]`. `writeLengthPrefixed` and
`readLengthPrefixed` are the two ends of the format, `runLoop` forwards what it receives until the
stream ends. The JSON codec is a parameter, `Codec`, that reads back what it writes. The engine's
own messages to the manager are sent, and the executor keeps its end of the channel.

* `forwarded`: the messages the loop forwards from a TCP stream; more rounds forward nothing more
  (`runLoop_eq_forwarded`).
* **`forwarded_of_whole_messages`**: with no message above `MAX_PAYLOAD_SIZE` and no read that times
  out inside a message, they are the written ones that this engine can decode.
-/

namespace ArgusEngine

open FlatMem ByteStream

inductive TransportError where
  | connectionFailed (msg : String)
  | disconnected
  | timeout
  | parseError (msg : String)
  deriving Repr, DecidableEq

/-- `serde_json` on the messages of both ends: `read m` is what this engine makes of `m`, nothing
for a variant it does not know. -/
structure Codec (W M : Type) where
  toVec : W → List UInt8
  fromSlice : List UInt8 → Except String M
  read : W → Option M
  round : ∀ m, (fromSlice (toVec m)).toOption = read m

/-- The largest payload the reader accepts. -/
def MAX_PAYLOAD_SIZE : ℕ := 64 * 1024

/-- `u32::to_be_bytes` of `n as u32`. -/
def toBe (n : ℕ) : List UInt8 := (toLe 4 n).reverse

/-- `u32::from_be_bytes`. -/
def ofBe (b : List UInt8) : ℕ := ofLe b.reverse

variable {W M : Type}

/-- The bytes `write_length_prefixed` writes. -/
def writeLengthPrefixed (json : List UInt8) : List UInt8 := toBe json.length ++ json

/-- `read_exact_from` on a stream. -/
def readExactFrom (n : ℕ) (s : List Event) : Except TransportError (List UInt8) × List Event :=
  match readExact n s with
  | (.done bytes, s) => (.ok bytes, s)
  | (.eof, s) => (.error .disconnected, s)
  | (.timedOut, s) => (.error .timeout, s)

/-- `read_length_prefixed`. -/
def readLengthPrefixed (fromSlice : List UInt8 → Except String M) (s : List Event) :
    Except TransportError M × List Event :=
  match readExactFrom 4 s with
  | (.error e, s) => (.error e, s)
  | (.ok lenBuf, s) =>
    if ofBe lenBuf > MAX_PAYLOAD_SIZE then
      (.error (.parseError s!"payload too large: {ofBe lenBuf} bytes (max {MAX_PAYLOAD_SIZE})"), s)
    else
      match readExactFrom (ofBe lenBuf) s with
      | (.error e, s) => (.error e, s)
      | (.ok payload, s) =>
        ((fromSlice payload).mapError fun e => .parseError s!"invalid JSON: {e}", s)

/-- `TcpTransport`: its reader, once connected. -/
structure TcpTransport where
  reader : Option (List Event)

/-- `TcpTransport::recv`. -/
def TcpTransport.recv (fromSlice : List UInt8 → Except String M) (t : TcpTransport) :
    Except TransportError M × TcpTransport :=
  match t.reader with
  | none => (.error (.connectionFailed "not connected"), t)
  | some stream =>
    ((readLengthPrefixed fromSlice stream).1, ⟨some (readLengthPrefixed fromSlice stream).2⟩)

/-- `MessageLoop::run_loop`: the messages it forwards in at most `fuel` rounds. -/
def runLoop (fromSlice : List UInt8 → Except String M) : ℕ → TcpTransport → List M
  | 0, _ => []
  | fuel + 1, transport =>
    match transport.recv fromSlice with
    | (.ok msg, transport) => msg :: runLoop fromSlice fuel transport
    | (.error .timeout, transport) => runLoop fromSlice fuel transport
    | (.error (.parseError _), transport) => runLoop fromSlice fuel transport
    | (.error .disconnected, _) => []
    | (.error (.connectionFailed _), _) => []

/-- The messages forwarded before the end of the stream: each round that is not the last takes a
timeout or a byte. -/
def forwarded (fromSlice : List UInt8 → Except String M) (es : List Event) : List M :=
  runLoop fromSlice ((wire es).length + 1) ⟨some es⟩

/-- The messages that should arrive: those that are not oversized and that this engine knows. -/
def deliverable (c : Codec W M) (ms : List W) : List M :=
  ms.filterMap fun m => if MAX_PAYLOAD_SIZE < (c.toVec m).length then none else c.read m

/-- The frames of the messages, one after another. -/
def frames (c : Codec W M) (ms : List W) : List UInt8 :=
  ms.flatMap fun m => writeLengthPrefixed (c.toVec m)

/-! ## One round -/

variable {c : Codec W M} {es : List Event} {w : List (Option UInt8)}

theorem readExactFrom_of_wire {n : ℕ} {r : ByteStream.Read} (h : readWire n (wire es) = (r, w)) :
    ∃ es', wire es' = w ∧ readExactFrom n es = (match r with
      | .done bytes => (.ok bytes, es')
      | .eof => (.error .disconnected, es')
      | .timedOut => (.error .timeout, es')) := by
  obtain ⟨es', hread, hw⟩ := readExact_of_wire h
  refine ⟨es', hw, ?_⟩
  rw [readExactFrom, hread]
  cases r <;> rfl

theorem readLengthPrefixed_timeout (fromSlice : List UInt8 → Except String M)
    (h : wire es = none :: w) :
    ∃ es', wire es' = w ∧ readLengthPrefixed fromSlice es = (.error .timeout, es') := by
  have hread : readWire 4 (wire es) = (.timedOut, w) := by rw [h]; rfl
  obtain ⟨es', hw, hfrom⟩ := readExactFrom_of_wire hread
  exact ⟨es', hw, by rw [readLengthPrefixed, hfrom]⟩

theorem readLengthPrefixed_end (fromSlice : List UInt8 → Except String M) (h : wire es = []) :
    ∃ es', readLengthPrefixed fromSlice es = (.error .disconnected, es') := by
  have hread : readWire 4 (wire es) = (.eof, []) := by rw [h]; rfl
  obtain ⟨es', -, hfrom⟩ := readExactFrom_of_wire hread
  exact ⟨es', by rw [readLengthPrefixed, hfrom]⟩

/-- **A whole message** is read back. -/
theorem readLengthPrefixed_frame (fromSlice : List UInt8 → Except String M) {json : List UInt8}
    (hsize : json.length ≤ MAX_PAYLOAD_SIZE)
    (h : wire es = (writeLengthPrefixed json).map some ++ w) :
    ∃ es', wire es' = w ∧ readLengthPrefixed fromSlice es =
      ((fromSlice json).mapError fun e => .parseError s!"invalid JSON: {e}", es') := by
  have hlen : (toBe json.length).length = 4 := by rw [toBe, List.length_reverse, length_toLe]
  have hbe : ofBe (toBe json.length) = json.length := by
    rw [ofBe, toBe, List.reverse_reverse, ofLe_toLe, Nat.mod_eq_of_lt]
    exact Nat.lt_of_le_of_lt hsize (by decide)
  rw [writeLengthPrefixed, List.map_append, List.append_assoc] at h
  have hhead : readWire 4 (wire es) = (.done (toBe json.length), json.map some ++ w) := by
    rw [h, ← hlen, readWire_bytes]
  obtain ⟨es₁, hw₁, hfrom₁⟩ := readExactFrom_of_wire hhead
  have hbody : readWire json.length (wire es₁) = (.done json, w) := by rw [hw₁, readWire_bytes]
  obtain ⟨es₂, hw₂, hfrom₂⟩ := readExactFrom_of_wire hbody
  refine ⟨es₂, hw₂, ?_⟩
  rw [readLengthPrefixed, hfrom₁]
  simp only [hbe, if_neg (Nat.not_lt.mpr hsize), hfrom₂]

theorem length_readExactFrom_le (n : ℕ) (es : List Event) :
    (wire (readExactFrom n es).2).length ≤ (wire es).length := by
  have hle := length_readWire_le n (wire es)
  rw [wire_readExact] at hle
  rw [readExactFrom]
  rcases hread : readExact n es with ⟨r, es'⟩
  rw [hread] at hle
  cases r <;> exact hle

theorem length_readExactFrom_lt {n : ℕ} (hn : 0 < n)
    (h : (readExactFrom n es).1 ≠ .error .disconnected) :
    (wire (readExactFrom n es).2).length < (wire es).length := by
  rw [readExactFrom] at h ⊢
  have hlt (hw : (readWire n (wire es)).1 ≠ .eof) := length_readWire_lt hn hw
  rw [wire_readExact] at hlt
  rcases hread : readExact n es with ⟨r, es'⟩
  rw [hread] at hlt h
  cases r with
  | done bytes => exact hlt (by simp)
  | eof => exact absurd rfl h
  | timedOut => exact hlt (by simp)

/-- A round that is not the last takes a timeout or a byte. -/
theorem length_readLengthPrefixed_lt (fromSlice : List UInt8 → Except String M)
    (h : (readLengthPrefixed fromSlice es).1 ≠ .error .disconnected) :
    (wire (readLengthPrefixed fromSlice es).2).length < (wire es).length := by
  have hlt (hhead : (readExactFrom 4 es).1 ≠ .error .disconnected) :=
    length_readExactFrom_lt (by omega) hhead
  rw [readLengthPrefixed] at h ⊢
  rcases hhead : readExactFrom 4 es with ⟨head, es₁⟩
  rw [hhead] at h hlt
  cases head with
  | error e =>
    refine hlt fun hd => h ?_
    cases hd
    rfl
  | ok lenBuf =>
    have hlt₁ : (wire es₁).length < (wire es).length := hlt (by simp)
    simp only
    split_ifs
    · exact hlt₁
    · have hle := length_readExactFrom_le (ofBe lenBuf) es₁
      rcases hbody : readExactFrom (ofBe lenBuf) es₁ with ⟨body, es₂⟩
      rw [hbody] at hle
      cases body <;> exact Nat.lt_of_le_of_lt hle hlt₁

/-- **More rounds forward nothing more.** -/
theorem runLoop_eq_forwarded (fromSlice : List UInt8 → Except String M) {fuel : ℕ}
    (hfuel : (wire es).length < fuel) :
    runLoop fromSlice fuel ⟨some es⟩ = forwarded fromSlice es := by
  suffices hsame : ∀ (fuel fuel' : ℕ) (es : List Event), (wire es).length < fuel →
    (wire es).length < fuel' →
      runLoop fromSlice fuel ⟨some es⟩ = runLoop fromSlice fuel' ⟨some es⟩ from
    hsame _ _ es hfuel (Nat.lt_succ_self _)
  intro fuel
  induction fuel with
  | zero => exact fun _ _ h => absurd h (Nat.not_lt_zero _)
  | succ fuel ih =>
    intro fuel' es h h'
    obtain ⟨fuel', rfl⟩ := Nat.exists_eq_succ_of_ne_zero (Nat.ne_of_gt (Nat.zero_lt_of_lt h'))
    have hlt (hr : (readLengthPrefixed fromSlice es).1 ≠ .error .disconnected) :=
      length_readLengthPrefixed_lt fromSlice hr
    simp only [runLoop, TcpTransport.recv]
    rcases hread : readLengthPrefixed fromSlice es with ⟨r, es'⟩
    rw [hread] at hlt
    have hnext (hr : r ≠ .error .disconnected) :
        runLoop fromSlice fuel ⟨some es'⟩ = runLoop fromSlice fuel' ⟨some es'⟩ := by
      have hless : (wire es').length < (wire es).length := hlt hr
      exact ih fuel' es' (by omega) (by omega)
    cases r with
    | ok msg => simp only [hnext (by simp)]
    | error e =>
      cases e with
      | timeout => exact hnext (by simp)
      | parseError msg => exact hnext (by simp)
      | disconnected => rfl
      | connectionFailed msg => rfl

/-! ## Whole messages -/

/-- Every read that times out does so between two messages of `ms`: the bytes before it are the
frames of the first ones. -/
def TimeoutsBetween (c : Codec W M) (ms : List W) (w : List (Option UInt8)) : Prop :=
  ∀ i < w.length, w[i]? = some none → ∃ k < ms.length + 1, (w.take i).reduceOption =
    frames c (ms.take k)

instance (c : Codec W M) (ms : List W) (w : List (Option UInt8)) :
    Decidable (TimeoutsBetween c ms w) :=
  inferInstanceAs (Decidable (∀ i < w.length, w[i]? = some none →
    ∃ k < ms.length + 1, (w.take i).reduceOption = frames c (ms.take k)))

theorem frame_pos (json : List UInt8) : 0 < (writeLengthPrefixed json).length := by
  rw [writeLengthPrefixed, List.length_append, toBe, List.length_reverse, length_toLe]
  omega

/-- The first bytes of the stream, when no read times out among them. -/
theorem exists_eq_map_some_append {f g : List UInt8} {w : List (Option UInt8)}
    (h : w.reduceOption = f ++ g) (hnone : ∀ i < f.length, w[i]? ≠ some none) :
    ∃ v, w = f.map some ++ v ∧ v.reduceOption = g := by
  induction f generalizing w with
  | nil => exact ⟨w, rfl, h⟩
  | cons b f ih =>
    cases w with
    | nil => cases h
    | cons x w =>
      cases x with
      | none => exact absurd rfl (hnone 0 (Nat.zero_lt_succ _))
      | some x =>
        rw [List.reduceOption_cons_of_some, List.cons_append, List.cons.injEq] at h
        obtain ⟨rfl, h⟩ := h
        obtain ⟨v, rfl, hv⟩ := ih h fun i hi => hnone (i + 1) (Nat.succ_lt_succ hi)
        exact ⟨v, rfl, hv⟩

theorem reduceOption_take_append (f : List UInt8) (v : List (Option UInt8)) (i : ℕ) :
    ((f.map some ++ v).take (f.length + i)).reduceOption = f ++ (v.take i).reduceOption := by
  have hlen : f.length + i = (f.map some).length + i := by rw [List.length_map]
  rw [hlen, List.take_length_add_append, List.reduceOption_append]
  simp [List.reduceOption]

/-- A stream that begins with a byte begins with a whole message. -/
theorem exists_eq_frame_append {m : W} {ms : List W} {b : UInt8}
    (hdel : (some b :: w).reduceOption = frames c (m :: ms))
    (hbetween : TimeoutsBetween c (m :: ms) (some b :: w)) :
    ∃ v, some b :: w = (writeLengthPrefixed (c.toVec m)).map some ++ v ∧
      v.reduceOption = frames c ms ∧
      TimeoutsBetween c ms v := by
  have hpos := frame_pos (c.toVec m)
  have hnone : ∀ i < (writeLengthPrefixed (c.toVec m)).length, (some b :: w)[i]? ≠ some none := by
    intro i hi hw
    obtain ⟨k, -, hk⟩ := hbetween i (List.getElem?_eq_some_iff.mp hw).1 hw
    cases i with
    | zero => cases hw
    | succ i =>
      cases k with
      | zero =>
        rw [List.take_succ_cons, List.reduceOption_cons_of_some] at hk
        cases hk
      | succ k =>
        have hlen := congrArg List.length hk
        have hle := List.reduceOption_length_le ((some b :: w).take (i + 1))
        rw [show (m :: ms).take (k + 1) = m :: ms.take k from rfl, frames, List.flatMap_cons,
          List.length_append] at hlen
        rw [List.length_take] at hle
        omega
  obtain ⟨v, hsplit, hv⟩ := exists_eq_map_some_append hdel hnone
  refine ⟨v, hsplit, hv, fun i hi hnone => ?_⟩
  rw [hsplit] at hbetween
  obtain ⟨k, hklt, hk⟩ := hbetween ((writeLengthPrefixed (c.toVec m)).length + i)
    (by simp; exact hi) (by
    rw [List.getElem?_append_right (by simp)]
    simpa using hnone)
  rw [reduceOption_take_append] at hk
  cases k with
  | zero =>
    have hnil := (List.append_eq_nil_iff.mp hk).1
    rw [hnil] at hpos
    exact absurd hpos (Nat.lt_irrefl 0)
  | succ k => exact ⟨k, Nat.lt_of_succ_lt_succ hklt, List.append_cancel_left hk⟩

/-- **Rounds over whole messages.** -/
theorem runLoop_of_whole_messages {ms : List W} {fuel : ℕ} (hfuel : (wire es).length < fuel)
    (hdel : (wire es).reduceOption = frames c ms)
    (hsize : ∀ m ∈ ms, (c.toVec m).length ≤ MAX_PAYLOAD_SIZE)
    (hbetween : TimeoutsBetween c ms (wire es)) :
    runLoop c.fromSlice fuel ⟨some es⟩ = ms.filterMap c.read := by
  induction fuel generalizing es ms with
  | zero => omega
  | succ fuel ih =>
    cases hw : wire es with
    | nil =>
      -- the end of the stream: there is nothing left of the messages
      obtain ⟨es', hrecv⟩ := readLengthPrefixed_end c.fromSlice hw
      rw [hw] at hdel
      have hms : ms = [] := by
        cases ms with
        | nil => rfl
        | cons m ms =>
          have hpos := frame_pos (c.toVec m)
          rw [frames, List.flatMap_cons, List.reduceOption_nil] at hdel
          rw [(List.append_eq_nil_iff.mp hdel.symm).1] at hpos
          exact absurd hpos (Nat.lt_irrefl 0)
      simp [runLoop, TcpTransport.recv, hrecv, hms]
    | cons x w =>
      rw [hw, List.length_cons] at hfuel
      cases x with
      | none =>
        obtain ⟨es', hw', hrecv⟩ := readLengthPrefixed_timeout c.fromSlice hw
        simp only [runLoop, TcpTransport.recv, hrecv]
        refine ih (by rw [hw']; omega) (by rw [hw', ← hdel, hw]; rfl) hsize fun i hi hnone => ?_
        rw [hw] at hbetween
        rw [hw'] at hi hnone ⊢
        exact hbetween (i + 1) (Nat.succ_lt_succ hi) hnone
      | some b =>
        rw [hw] at hdel hbetween
        cases ms with
        | nil => cases hdel
        | cons m ms =>
          obtain ⟨v, hsplit, hv, hbetween'⟩ := exists_eq_frame_append hdel hbetween
          obtain ⟨es', hw', hrecv⟩ := readLengthPrefixed_frame c.fromSlice
            (hsize m List.mem_cons_self) (hw.trans hsplit)
          have hlt : v.length < (some b :: w).length := by
            have hpos := frame_pos (c.toVec m)
            rw [hsplit, List.length_append, List.length_map]
            omega
          rw [List.length_cons] at hlt
          have hrest : runLoop c.fromSlice fuel ⟨some es'⟩ = ms.filterMap c.read :=
            ih (by rw [hw']; omega) (by rw [hw', hv])
              (fun m' hm' => hsize m' (List.mem_cons_of_mem _ hm')) (by rw [hw']; exact hbetween')
          have hread := c.round m
          simp only [runLoop, TcpTransport.recv, hrecv]
          cases hdec : c.fromSlice (c.toVec m) with
          | ok msg =>
            rw [hdec] at hread
            rw [List.filterMap_cons, ← hread]
            simp only [Except.mapError, Except.toOption, hrest]
          | error e =>
            rw [hdec] at hread
            rw [List.filterMap_cons, ← hread]
            simp only [Except.mapError, Except.toOption, hrest]

/-- **The link delivers whole messages**: with nothing oversized and no timeout inside a message,
the loop forwards the deliverable ones, in order. -/
theorem forwarded_of_whole_messages (c : Codec W M) (ms : List W) (es : List Event)
    (hdel : (wire es).reduceOption = frames c ms)
    (hsize : ∀ m ∈ ms, (c.toVec m).length ≤ MAX_PAYLOAD_SIZE)
    (hbetween : TimeoutsBetween c ms (wire es)) : forwarded c.fromSlice es = deliverable c ms := by
  rw [forwarded, runLoop_of_whole_messages (Nat.lt_succ_self _) hdel hsize hbetween, deliverable]
  refine List.filterMap_congr fun m hm => ?_
  rw [if_neg (Nat.not_lt.mpr (hsize m hm))]

/-! ## A directive cut by a timeout -/

/-- A directive with the command to suspend, in JSON. -/
def suspendJson : List UInt8 :=
  [123, 34, 116, 121, 112, 101, 34, 58, 34, 100, 105, 114, 101, 99, 116, 105, 118, 101,
    34, 44, 34, 115, 101,
   113, 95, 105, 100, 34, 58, 49, 44, 34, 99, 111, 109, 109, 97, 110, 100, 115, 34,
   58, 91, 123, 34, 116, 121, 112, 101, 34, 58, 34, 115, 117, 115, 112, 101, 110,
   100, 34, 125, 93, 125]

/-- The codec on that directive. -/
def suspendCodec : Codec Unit Unit where
  toVec _ := suspendJson
  fromSlice b := if b = suspendJson then .ok () else .error "expected value"
  read _ := some ()
  round := by simp [Except.toOption]

/-- Two directives with a timeout between them, the second one in two chunks. -/
theorem forwarded_two_directives :
    forwarded suspendCodec.fromSlice [.data (writeLengthPrefixed suspendJson), .timeout,
      .data ((writeLengthPrefixed suspendJson).take 7),
      .data ((writeLengthPrefixed suspendJson).drop 7)] = deliverable suspendCodec [(), ()] := by
  refine forwarded_of_whole_messages suspendCodec [(), ()] _ ?_ ?_ ?_
  · decide +kernel
  · decide
  · decide +kernel

/-- A directive whose length prefix is cut by a timeout is lost. -/
theorem directive_cut_by_timeout :
    (wire [.data ((writeLengthPrefixed suspendJson).take 2), .timeout,
      .data ((writeLengthPrefixed suspendJson).drop 2)]).reduceOption = frames suspendCodec [()] ∧
    forwarded suspendCodec.fromSlice [.data ((writeLengthPrefixed suspendJson).take 2), .timeout,
      .data ((writeLengthPrefixed suspendJson).drop 2)] ≠ deliverable suspendCodec [()] := by
  decide +kernel

end ArgusEngine
