import VaubanDB.Tds.Tokens

/-!
The two halves of a TDS connection (`vauban-tds/src/stream.rs`).

The writing half keeps the encoded tokens of the current response in a buffer, sends every full
packet as soon as it is complete and closes the response in `flushOn`.  The reading half puts
messages together packet by packet; a message beyond the limit is read to its end and dropped.
-/

namespace VaubanDB.Tds

/-! ### Writing -/

structure WriteState where
  packetSize : UInt16
  spid : UInt16
  nextPacketId : UInt8
  /-- The encoded tokens of the current response not yet sent. -/
  buf : List UInt8
  ctx : EncodeContext
  /-- A packet of the current response has left. -/
  packetsSinceFlush : Bool
  deriving DecidableEq, Repr

namespace WriteState

def new : WriteState := ⟨4096, 0, 1, [], .default, false⟩

def bodyMax (st : WriteState) : ℕ := clampPacketSize st.packetSize - headerLen

lemma bodyMax_pos (st : WriteState) : 0 < st.bodyMax := by
  simp only [bodyMax, clampPacketSize, minPacketSize, headerLen]
  omega

/-- Sends every full packet of the buffer, without the end-of-message bit. -/
def sendFull (st : WriteState) : WriteState × List (List UInt8) :=
  if _h : st.bodyMax ≤ st.buf.length then
    let (packet, nextPacketId) :=
      buildPacket .tabularResult .normal (st.buf.take st.bodyMax) st.spid st.nextPacketId
    let (st, packets) := sendFull
      { st with buf := st.buf.drop st.bodyMax, nextPacketId, packetsSinceFlush := true }
    (st, packet :: packets)
  else (st, [])
termination_by st.buf.length
decreasing_by
  have := st.bodyMax_pos
  simp only [List.length_drop]
  omega

/-- Appends bytes to the response and sends every full packet (`push_payload_on`). -/
def pushPayloadOn (st : WriteState) (bytes : List UInt8) : WriteState × List (List UInt8) :=
  sendFull { st with buf := st.buf ++ bytes }

/-- Encodes tokens and pushes the result; on an error nothing is buffered nor sent. -/
def writeTokensOn (st : WriteState) (tokens : List Token) :
    WriteState × List (List UInt8) × Option TdsError :=
  if tokens.isEmpty then (st, [], none)
  else
    match encodeTokens st.ctx tokens with
    | (ctx, .error e) => ({ st with ctx }, [], some e)
    | (ctx, .ok encoded) =>
      let (st, packets) := pushPayloadOn { st with ctx } encoded
      (st, packets, none)

/-- Ends the current response: what is left goes out with the end-of-message bit. -/
def flushOn (st : WriteState) : WriteState × List (List UInt8) :=
  if st.buf.isEmpty && !st.packetsSinceFlush then (st, [])
  else
    let (packets, nextPacketId) :=
      splitMessageWith .tabularResult st.buf st.packetSize st.spid st.nextPacketId
    ({ st with buf := [], nextPacketId, packetsSinceFlush := false, ctx := .default }, packets)

end WriteState

inductive WriteCall where
  | writeTokens (tokens : List Token)
  | setPacketSize (size : UInt16)
  | setSpid (spid : UInt16)
  | flush
  deriving DecidableEq, Repr

def WriteState.exec (st : WriteState) : WriteCall → WriteState × List (List UInt8) × Option TdsError
  | .writeTokens tokens => st.writeTokensOn tokens
  | .setPacketSize size => ({ st with packetSize := size }, [], none)
  | .setSpid spid => ({ st with spid }, [], none)
  | .flush =>
    let (st, packets) := st.flushOn
    (st, packets, none)

/-! ### Reading -/

/-- What the packets of the current message have brought so far. -/
structure ReadState where
  payload : List UInt8
  /-- The bytes of the current message, kept or dropped. -/
  total : ℕ
  oversized : Bool
  /-- The landing place of a dropped packet. -/
  scratch : List UInt8
  first : Option (PacketType × ResetConnection)
  deriving DecidableEq, Repr

namespace ReadState

def new : ReadState := ⟨[], 0, false, [], none⟩

/-- Takes the body of a packet: kept, or dropped from the packet on that crosses the limit. -/
def take (max : ℕ) (st : ReadState) (first : PacketType × ResetConnection) (body : List UInt8) :
    ReadState :=
  let total := st.total + body.length
  if st.oversized || max < total then
    { payload := [], total, oversized := true, scratch := body, first := some first }
  else { st with payload := st.payload ++ body, total, first := some first }

/-- The message is to be ignored: the next packet begins another one. -/
def forget (st : ReadState) : ReadState :=
  { st with payload := [], total := 0, oversized := false, first := none }

end ReadState

/-- What `readMessageOn` answers, what is left to be read, and the reset of a dropped message. -/
structure ReadAnswer (α : Type) where
  result : Except TdsError α
  rest : List UInt8
  skippedReset : ResetConnection
  deriving Repr

/-- Reads one packet into the current message, and what is left to be read. -/
def readPacketInto (max : ℕ) (st : ReadState) (input : List UInt8) :
    Except (TdsError × List UInt8)
      (PacketHeader × (PacketType × ResetConnection) × ReadState × List UInt8) :=
  match readHeader input with
  | .error e => .error (e, input.drop headerLen)
  | .ok (header, afterHeader) =>
    match firstOf st.first header with
    | .error e => .error (e, afterHeader)
    | .ok first =>
      match readExact (header.length.toNat - headerLen) afterHeader with
      | .error e => .error (e, [])
      | .ok (body, rest) => .ok (header, first, st.take max first body, rest)

lemma readPacketInto_rest {max : ℕ} {st st' : ReadState} {input rest : List UInt8}
    {header : PacketHeader} {first : PacketType × ResetConnection}
    (h : readPacketInto max st input = .ok (header, first, st', rest)) :
    rest.length < input.length := by
  unfold readPacketInto at h
  rcases hheader : readHeader input with e | p
  · simp [hheader] at h
  obtain ⟨header', afterHeader⟩ := p
  have hlen := readHeader_rest hheader
  cases hfirst : firstOf st.first header' with
  | error e => simp [hheader, hfirst] at h
  | ok first' =>
    rcases hbody : readExact (header'.length.toNat - headerLen) afterHeader with e | q
    · simp [hheader, hfirst, hbody] at h
    obtain ⟨body, rest'⟩ := q
    have hlen' := readExact_rest hbody
    simp only [hheader, hfirst, hbody, Except.ok.injEq, Prod.mk.injEq] at h
    rw [← h.2.2.2]
    simp only [headerLen] at hlen
    omega

section Reading

variable {α : Type}

/-- Reads packets until one ends a message; `decode` is `decode_client_message`. -/
def readLoop (decode : PacketType → List UInt8 → ResetConnection → Except TdsError α) (max : ℕ)
    (skippedReset : ResetConnection) (st : ReadState) (input : List UInt8) : ReadAnswer α :=
  match h : readPacketInto max st input with
  | .error (e, rest) => ⟨.error e, rest, skippedReset⟩
  | .ok (header, first, st, rest) =>
    have := readPacketInto_rest h
    if !header.status.contains .eom then readLoop decode max skippedReset st rest
    else if header.status.contains .ignore then readLoop decode max skippedReset st.forget rest
    else if st.oversized then ⟨.error (.messageTooLarge st.total), rest, first.2⟩
    else ⟨decode first.1 st.payload first.2, rest, skippedReset⟩
termination_by input.length

def readMessageOn (decode : PacketType → List UInt8 → ResetConnection → Except TdsError α)
    (max : ℕ) (skippedReset : ResetConnection) (input : List UInt8) : ReadAnswer α :=
  readLoop decode max skippedReset .new input

end Reading

end VaubanDB.Tds
