import VaubanDB.Tds.Stream

/-!
The reading half stays in step with the client.

A client sends messages, each cut into packets as it likes.  `ReadState.Holds` says what the loop of
`readMessageOn` knows after some packets of a message; the calls answer the messages one by one
(`readCalls_messages`).  What the loop keeps in memory does not depend on the input being well
formed (`ReadState.Reached.kept_le`).
-/

namespace VaubanDB.Tds

open Message List

/-! ### What the loop holds -/

/-- The state after the packets `ps`: their bodies, or their size once beyond the limit. -/
structure ReadState.Holds (max : ℕ) (ps : List Packet) (st : ReadState) : Prop where
  total : st.total = (bodiesOf ps).length
  oversized : st.oversized = decide (max < (bodiesOf ps).length)
  payload : st.payload = if max < (bodiesOf ps).length then [] else bodiesOf ps
  first : st.first = rememberedFirst ps

namespace ReadState

variable {max : ℕ} {st : ReadState} {ps : List Packet} {p : Packet}

lemma holds_new (max : ℕ) : Holds max [] new := by
  constructor <;> simp [new, rememberedFirst]

lemma Holds.take (h : Holds max ps st) (htype : ∀ q ∈ ps, q.type = p.type) :
    Holds max (ps ++ [p]) (st.take max (messageFirst ps p) p.body) := by
  have hbodies : bodiesOf (ps ++ [p]) = bodiesOf ps ++ p.body := by simp
  have htotal : st.total + p.body.length = (bodiesOf (ps ++ [p])).length := by
    rw [h.total, hbodies, length_append]
  have hcrossed : (st.oversized || decide (max < st.total + p.body.length)) = true
      ↔ max < (bodiesOf (ps ++ [p])).length := by
    rw [h.oversized, htotal, hbodies, length_append]
    simp only [Bool.or_eq_true, decide_eq_true_eq]
    omega
  rw [ReadState.take]
  by_cases hmax : max < (bodiesOf (ps ++ [p])).length
  · rw [if_pos (hcrossed.mpr hmax)]
    exact ⟨htotal, (decide_eq_true hmax).symm, (if_pos hmax).symm,
      (rememberedFirst_append htype).symm⟩
  · have hbefore : ¬max < (bodiesOf ps).length := by
      rw [hbodies, length_append] at hmax
      omega
    rw [if_neg (fun hc => hmax (hcrossed.mp hc))]
    refine ⟨htotal, ?_, ?_, (rememberedFirst_append htype).symm⟩
    · exact h.oversized.trans ((decide_eq_false hbefore).trans (decide_eq_false hmax).symm)
    · rw [if_neg hmax, hbodies, h.payload, if_neg hbefore]

end ReadState

/-! ### The loop on a message -/

variable {rest : List UInt8} {st : ReadState} {ps : List Packet}

lemma readPacketInto_packet {max : ℕ} {p : Packet}
    (h : st.Holds max ps) (htype : ∀ q ∈ ps, q.type = p.type) :
    readPacketInto max st (p.bytes ++ rest)
      = .ok (p.header, messageFirst ps p, st.take max (messageFirst ps p) p.body, rest) := by
  simp only [readPacketInto, p.readHeader_append, h.first, firstOf_remembered htype,
    p.readExact_body]

section Calls

variable {α : Type} {decode : PacketType → List UInt8 → ResetConnection → Except TdsError α}
  {max : ℕ} {reset : ResetConnection} {rest : List UInt8}

lemma readLoop_packet {p : Packet} (h : st.Holds max ps) (htype : ∀ q ∈ ps, q.type = p.type) :
    readLoop decode max reset st (p.bytes ++ rest)
      = let st' := st.take max (messageFirst ps p) p.body
        if !p.status.contains .eom then readLoop decode max reset st' rest
        else if p.status.contains .ignore then readLoop decode max reset st'.forget rest
        else if st'.oversized then
          ⟨.error (.messageTooLarge st'.total), rest, (messageFirst ps p).2⟩
        else ⟨decode (messageFirst ps p).1 st'.payload (messageFirst ps p).2, rest, reset⟩ := by
  rw [readLoop]
  split
  next e rest' he => rw [readPacketInto_packet h htype] at he; contradiction
  next header first st' rest' he =>
    rw [readPacketInto_packet h htype] at he
    cases he
    rfl

lemma readLoop_open {t : UInt8} (init : List Packet) : ∀ {st : ReadState} {ps : List Packet},
    st.Holds max ps → (∀ p ∈ ps ++ init, p.type = t) →
    (∀ p ∈ init, p.status.contains .eom = false) → ∃ st' : ReadState, st'.Holds max (ps ++ init) ∧
      readLoop decode max reset st (bytesOf init ++ rest) = readLoop decode max reset st' rest := by
  induction init with
  | nil =>
    intro st ps h _ _
    exact ⟨st, by rwa [append_nil], rfl⟩
  | cons p init ih =>
    intro st ps h htype hopen
    have hsplit : ps ++ p :: init = (ps ++ [p]) ++ init := by simp
    have hp : p.type = t := htype p (by simp)
    have hps : ∀ q ∈ ps, q.type = p.type := fun q hq => by
      rw [hp]
      exact htype q (by simp [hq])
    obtain ⟨st', hst', hloop⟩ := ih (h.take hps) (by rwa [← hsplit])
      (fun q hq => hopen q (mem_cons_of_mem p hq))
    refine ⟨st', by rwa [hsplit], ?_⟩
    rw [bytesOf_cons, append_assoc, readLoop_packet h hps]
    simp only [hopen p mem_cons_self, Bool.not_false, if_true]
    exact hloop

/-- The answer for a message: decoded, or its size when it is beyond the limit. -/
def Message.answer (decode : PacketType → List UInt8 → ResetConnection → Except TdsError α)
    (max : ℕ) (m : Message) : Except TdsError α :=
  if max < m.payload.length then .error (.messageTooLarge m.payload.length)
  else decode m.kind m.payload m.reset

/-- The reset the caller is left with: the one of a message beyond the limit is kept. -/
def Message.resetAfter (max : ℕ) (reset : ResetConnection) (m : Message) : ResetConnection :=
  if max < m.payload.length then m.reset else reset

/-- **A message is read to its end**: ignored, it leaves the loop where it began; otherwise it
is the answer, and what is left begins after it. -/
lemma readLoop_message (m : Message) (h : st.Holds max []) :
    (m.ignored = true → ∃ st' : ReadState, st'.Holds max [] ∧
      readLoop decode max reset st (m.bytes ++ rest) = readLoop decode max reset st' rest) ∧
    (m.ignored = false → readLoop decode max reset st (m.bytes ++ rest)
      = ⟨m.answer decode max, rest, m.resetAfter max reset⟩) := by
  obtain ⟨st', hst', hloop⟩ : ∃ st' : ReadState, st'.Holds max m.init ∧
      readLoop decode max reset st (bytesOf m.init ++ (m.last.bytes ++ rest))
        = readLoop decode max reset st' (m.last.bytes ++ rest) :=
    readLoop_open m.init h m.oneType m.runsOn
  have hbytes : readLoop decode max reset st (m.bytes ++ rest)
      = readLoop decode max reset st' (m.last.bytes ++ rest) := by
    rw [← hloop, bytes, packets, bytesOf_append, append_assoc]
    simp
  have htaken := hst'.take m.oneType
  rw [hbytes, readLoop_packet hst' m.oneType]
  simp only [m.ends, Bool.not_true, Bool.false_eq_true, if_false]
  constructor
  · intro hignored
    exact ⟨_, by constructor <;> simp [ReadState.forget, rememberedFirst], if_pos hignored⟩
  · intro hkept
    have hpayload : bodiesOf (m.init ++ [m.last]) = m.payload := rfl
    rw [if_neg (by rw [show m.last.status.contains .ignore = false from hkept]; decide),
      htaken.oversized, htaken.total, htaken.payload, hpayload, answer, resetAfter]
    by_cases hmax : max < m.payload.length
    · simp only [hmax, decide_true, if_true]
      rfl
    · simp only [hmax, decide_false, Bool.false_eq_true, if_false]
      rfl

/-! ### The calls of a connection -/

def streamOf (messages : List Message) : List UInt8 := messages.flatMap bytes

@[simp] lemma streamOf_nil : streamOf [] = [] := rfl
@[simp] lemma streamOf_cons (m : Message) (ms : List Message) :
    streamOf (m :: ms) = m.bytes ++ streamOf ms := rfl
@[simp] lemma streamOf_append (ms ns : List Message) :
    streamOf (ms ++ ns) = streamOf ms ++ streamOf ns := flatMap_append

lemma readLoop_ignored (ms : List Message) (hms : ∀ m ∈ ms, m.ignored = true) :
    ∀ {st : ReadState}, st.Holds max [] → ∃ st' : ReadState, st'.Holds max [] ∧
      readLoop decode max reset st (streamOf ms ++ rest) = readLoop decode max reset st' rest := by
  induction ms with
  | nil => exact fun {st} h => ⟨st, h, rfl⟩
  | cons m ms ih =>
    intro st h
    obtain ⟨st₁, h₁, hloop₁⟩ := (readLoop_message m h).1 (hms m mem_cons_self)
    obtain ⟨st₂, h₂, hloop₂⟩ := ih (fun n hn => hms n (mem_cons_of_mem m hn)) h₁
    exact ⟨st₂, h₂, by rw [streamOf_cons, append_assoc, hloop₁, hloop₂]⟩

/-- **One call skips the messages to be ignored and answers the next one.** -/
lemma readMessageOn_messages (ms : List Message) (hms : ∀ m ∈ ms, m.ignored = true) (m : Message)
    (hm : m.ignored = false) : readMessageOn decode max reset (streamOf (ms ++ [m]) ++ rest)
      = ⟨m.answer decode max, rest, m.resetAfter max reset⟩ := by
  obtain ⟨st, hst, hloop⟩ : ∃ st : ReadState, st.Holds max [] ∧
      readLoop decode max reset .new (streamOf ms ++ (m.bytes ++ rest))
        = readLoop decode max reset st (m.bytes ++ rest) :=
    readLoop_ignored ms hms (ReadState.holds_new max)
  rw [readMessageOn, ← (readLoop_message m hst).2 hm, ← hloop]
  simp

/-- The answers of `n` successive calls, what they leave to be read, and the reset. -/
def readCalls (decode : PacketType → List UInt8 → ResetConnection → Except TdsError α) (max : ℕ) :
    ℕ → ResetConnection → List UInt8 → List (Except TdsError α) × List UInt8 × ResetConnection
  | 0, reset, input => ([], input, reset)
  | n + 1, reset, input =>
    let answer := readMessageOn decode max reset input
    let (answers, rest, reset) := readCalls decode max n answer.skippedReset answer.rest
    (answer.result :: answers, rest, reset)

variable (decode max) in
/-- The calls answer the messages that are not to be ignored, and stop right after the last
of them. -/
lemma readCalls_messages (tail : List UInt8) (kept : List Message) :
    ∀ (messages : List Message) (reset : ResetConnection),
    messages.filter (fun m => !m.ignored) = kept →
    ∃ read left, messages = read ++ left ∧ (∀ m ∈ left, m.ignored = true) ∧
      (∀ m ∈ read.getLast?, m.ignored = false) ∧
      readCalls decode max kept.length reset (streamOf messages ++ tail)
        = (kept.map (answer decode max), streamOf left ++ tail,
            kept.foldl (resetAfter max) reset) := by
  induction kept with
  | nil =>
    intro messages reset hkept
    refine ⟨[], messages, rfl, fun m hm => ?_, by simp, rfl⟩
    simpa using filter_eq_nil_iff.mp hkept m hm
  | cons m kept ih =>
    intro messages reset hkept
    obtain ⟨before, after, rfl, hbefore, hm, hafter⟩ := filter_eq_cons_iff.mp hkept
    have hignored : ∀ n ∈ before, n.ignored = true := fun n hn => by simpa using hbefore n hn
    have hm' : m.ignored = false := by simpa using hm
    obtain ⟨read, left, hsplit, hleft, hlast, hcalls⟩ := ih after (m.resetAfter max reset) hafter
    refine ⟨before ++ m :: read, left, by simp [hsplit], hleft, ?_, ?_⟩
    · intro n hn
      cases hread : read.getLast? with
      | none =>
        rw [getLast?_eq_none_iff.mp hread] at hn
        simp at hn
        rwa [← hn]
      | some n' =>
        rw [getLast?_append, getLast?_cons, hread] at hn
        simp at hn
        rw [← hn]
        exact hlast n' hread
    · have hstream : streamOf (before ++ m :: after) ++ tail
          = streamOf (before ++ [m]) ++ (streamOf after ++ tail) := by simp
      rw [length_cons, readCalls, hstream, readMessageOn_messages before hignored m hm']
      simp only [hcalls, map_cons, foldl_cons]

end Calls

/-! ### What the loop keeps in memory -/

/-- The states the loop goes through on an input, with what is left to be read. -/
inductive ReadState.Reached (max : ℕ) (input : List UInt8) : ReadState → List UInt8 → Prop
  | start : Reached max input .new input
  | packet {st st' : ReadState} {rest rest' : List UInt8} {header : PacketHeader}
      {first : PacketType × ResetConnection} :
      Reached max input st rest → readPacketInto max st rest = .ok (header, first, st', rest') →
      Reached max input st' rest'
  | ignored {st : ReadState} {rest : List UInt8} :
      Reached max input st rest → Reached max input st.forget rest

namespace ReadState

/-- The bytes kept: the header, the payload and the landing place of dropped packets. -/
def kept (st : ReadState) : ℕ := headerLen + st.payload.length + st.scratch.length

/-- The payload is the whole message as long as it is within the limit; a dropped packet is
one packet. -/
structure Bounded (max : ℕ) (st : ReadState) : Prop where
  payload : st.oversized = false → st.payload.length = st.total
  dropped : st.oversized = true → st.payload = []
  total : st.oversized = false → st.total ≤ max
  scratch : headerLen + st.scratch.length ≤ maxPacketSize

variable {max : ℕ} {st : ReadState} {first : PacketType × ResetConnection}

lemma Bounded.take (h : Bounded max st)
    {body : List UInt8} (hbody : headerLen + body.length ≤ maxPacketSize) :
    Bounded max (st.take max first body) := by
  rw [ReadState.take]
  by_cases hcrossed : (st.oversized || decide (max < st.total + body.length)) = true
  · rw [if_pos hcrossed]
    exact ⟨by simp, fun _ => rfl, by simp, hbody⟩
  · rw [if_neg hcrossed]
    simp only [Bool.or_eq_true, decide_eq_true_eq, not_or, Bool.not_eq_true, not_lt] at hcrossed
    obtain ⟨hkept, hfits⟩ := hcrossed
    refine ⟨fun _ => ?_, fun hover => ?_, fun _ => hfits, h.scratch⟩
    · rw [length_append, h.payload hkept]
    · rw [hkept] at hover
      contradiction

lemma readPacketInto_bounded {st' : ReadState} {rest' : List UInt8} {header : PacketHeader}
    (h : Bounded max st) (hread : readPacketInto max st rest = .ok (header, first, st', rest')) :
    Bounded max st' := by
  unfold readPacketInto at hread
  rcases hheader : readHeader rest with e | q
  · simp [hheader] at hread
  obtain ⟨header', afterHeader⟩ := q
  cases hfirst : firstOf st.first header' with
  | error e => simp [hheader, hfirst] at hread
  | ok first' =>
    rcases hbody : readExact (header'.length.toNat - headerLen) afterHeader with e | r
    · simp [hheader, hfirst, hbody] at hread
    obtain ⟨body, rest''⟩ := r
    simp only [hheader, hfirst, hbody, Except.ok.injEq, Prod.mk.injEq] at hread
    rw [← hread.2.2.1]
    obtain ⟨_, -, hdecoded⟩ := Except.bind_eq_ok_iff.mp hheader
    obtain ⟨_, hdecode, heq⟩ := Except.bind_eq_ok_iff.mp hdecoded
    cases heq
    obtain ⟨hmin, hmax⟩ := PacketHeader.decode_length hdecode
    rw [readExact] at hbody
    split_ifs at hbody with hlen
    cases hbody
    refine h.take ?_
    rw [length_take]
    omega

/-- **What the loop keeps is at most the limit and one packet**, on every input. -/
lemma Reached.kept_le {input : List UInt8} (h : Reached max input st rest) :
    st.kept ≤ max + maxPacketSize := by
  have hbounded : Bounded max st := by
    induction h with
    | start => exact ⟨fun _ => rfl, fun _ => rfl, fun _ => Nat.zero_le max, by decide⟩
    | packet _ hread ih => exact readPacketInto_bounded ih hread
    | ignored _ ih => exact ⟨fun _ => rfl, fun _ => rfl, fun _ => Nat.zero_le max, ih.scratch⟩
  have hscratch := hbounded.scratch
  have hpayload : st.payload.length ≤ max := by
    cases hover : st.oversized with
    | false => exact (hbounded.payload hover).le.trans (hbounded.total hover)
    | true => simp [hbounded.dropped hover]
  rw [kept]
  omega

end ReadState

/-- **The reading half stays in step with the client.**  On any sequence of messages the calls
answer the messages that are not to be ignored, in order, and stop right after the last one;
one more call finds the end of the connection.  Whatever the input, the loop never keeps more
than the limit and one packet. -/
theorem readMessageOn_stays_in_step {α : Type}
    (decode : PacketType → List UInt8 → ResetConnection → Except TdsError α) (max : ℕ)
    (reset : ResetConnection) (messages : List Message) (tail : List UInt8) :
    (∃ read left, messages = read ++ left ∧ (∀ m ∈ left, m.ignored = true) ∧
      (∀ m ∈ read.getLast?, m.ignored = false) ∧
      readCalls decode max (messages.filter fun m => !m.ignored).length reset
          (streamOf messages ++ tail)
        = ((messages.filter fun m => !m.ignored).map (answer decode max),
            streamOf left ++ tail,
            (messages.filter fun m => !m.ignored).foldl (resetAfter max) reset) ∧
      readMessageOn decode max reset (streamOf left) = ⟨.error .connectionClosed, [], reset⟩) ∧
    ∀ (input : List UInt8) (st : ReadState) (rest : List UInt8),
      st.Reached max input rest → st.kept ≤ max + maxPacketSize := by
  refine ⟨?_, fun input st rest h => h.kept_le⟩
  obtain ⟨read, left, hsplit, hleft, hlast, hcalls⟩ :=
    readCalls_messages decode max tail _ messages reset rfl
  refine ⟨read, left, hsplit, hleft, hlast, hcalls, ?_⟩
  obtain ⟨st, -, hloop⟩ : ∃ st, _ ∧ _ = readLoop decode max reset st [] :=
    readLoop_ignored left hleft (ReadState.holds_new max)
  rw [readMessageOn, ← append_nil (streamOf left), hloop, readLoop]
  rfl

private def batchPacket (status : PacketStatus) (body : List UInt8)
    (fits : headerLen + body.length ≤ maxPacketSize) : Packet :=
  ⟨0x01, status, 0, 1, 0, body, fits⟩

private def wholeMessage : Message :=
  ⟨[batchPacket .normal [1, 2] (by decide)], batchPacket .eom [3] (by decide), by decide,
    by decide, by decide⟩

private def droppedMessage : Message :=
  ⟨[], batchPacket ⟨0x03⟩ [9, 9] (by decide), by decide, by decide, by decide⟩

private def longMessage : Message :=
  ⟨[batchPacket .normal [1, 2, 3] (by decide)], batchPacket .eom [4, 5] (by decide), by decide,
    by decide, by decide⟩

/-- A message of two packets, one to be ignored and one beyond the limit of four bytes. -/
theorem three_messages_two_answers :
    let decode := fun (_ : PacketType) (payload : List UInt8) (_ : ResetConnection) =>
      (Except.ok payload : Except TdsError (List UInt8))
    (∃ left, readCalls decode 4 2 .none
        (streamOf [wholeMessage, droppedMessage, longMessage] ++ [7])
      = ([.ok [1, 2, 3], .error (.messageTooLarge 5)], streamOf left ++ [7], .none)) ∧
    ReadState.new.kept ≤ 4 + maxPacketSize := by
  intro decode
  have h := readMessageOn_stays_in_step decode 4 .none
    [wholeMessage, droppedMessage, longMessage] [7]
  obtain ⟨read, left, -, -, -, hcalls, -⟩ := h.1
  have hwhole : wholeMessage.ignored = false := by decide
  have hdropped : droppedMessage.ignored = true := by decide
  have hlong : longMessage.ignored = false := by decide
  have hreset : longMessage.reset = .none := by decide
  have hsize : longMessage.payload.length = 5 := rfl
  have hfits : wholeMessage.payload = [1, 2, 3] := rfl
  simp [filter, hwhole, hdropped, hlong, answer, resetAfter, hsize, hfits, hreset, decode] at hcalls
  exact ⟨⟨left, hcalls⟩, h.2 [] _ [] .start⟩

end VaubanDB.Tds
