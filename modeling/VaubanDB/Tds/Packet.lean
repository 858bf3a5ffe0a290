import VaubanDB.Library.Codes
import VaubanDB.Library.Results

/-!
Packet framing of the TDS protocol (`vauban-tds/src/packet.rs`).

A message travels as packets of at most `maxPacketSize` bytes, each with a header of eight bytes;
the last packet carries the end-of-message bit.  `splitMessageWith` cuts a payload into packets,
`readMessage` puts a message together again.  The transport is the list of the bytes that are still
to be read.
-/

namespace VaubanDB.Tds

open List

/-- The errors of the protocol layer that the modelled functions report. -/
inductive TdsError where
  | malformed (label : String)
  | messageTooLarge (size : ℕ)
  | connectionClosed
  | valueTypeMismatch (expected : String)
  | nullInNotNullable
  | rowWithoutMetadata
  | columnCountMismatch (expected got : ℕ)
  deriving DecidableEq, Repr

def headerLen : ℕ := 8
def minPacketSize : ℕ := 512
def maxPacketSize : ℕ := 32767

/-- The type of a packet, the first byte of its header. -/
inductive PacketType where
  | sqlBatch | preTds7Login | rpc | tabularResult | attention | bulkLoad | fedAuthToken
  | transactionManager | login7 | sspi | preLogin
  | unknown (byte : UInt8)
  deriving DecidableEq, Repr

def PacketType.fromU8 (byte : UInt8) : PacketType :=
  if byte = 0x01 then .sqlBatch
  else if byte = 0x02 then .preTds7Login
  else if byte = 0x03 then .rpc
  else if byte = 0x04 then .tabularResult
  else if byte = 0x06 then .attention
  else if byte = 0x07 then .bulkLoad
  else if byte = 0x08 then .fedAuthToken
  else if byte = 0x0E then .transactionManager
  else if byte = 0x10 then .login7
  else if byte = 0x11 then .sspi
  else if byte = 0x12 then .preLogin
  else .unknown byte

def PacketType.toU8 : PacketType → UInt8
  | .sqlBatch => 0x01
  | .preTds7Login => 0x02
  | .rpc => 0x03
  | .tabularResult => 0x04
  | .attention => 0x06
  | .bulkLoad => 0x07
  | .fedAuthToken => 0x08
  | .transactionManager => 0x0E
  | .login7 => 0x10
  | .sspi => 0x11
  | .preLogin => 0x12
  | .unknown byte => byte

private lemma ite_eq_scrutinee {b c x : UInt8} (h : x = b) : (if b = c then c else x) = b := by
  split
  · exact Eq.symm ‹_›
  · exact h

@[simp] lemma PacketType.toU8_fromU8 (b : UInt8) : (PacketType.fromU8 b).toU8 = b := by
  simp only [fromU8, apply_ite toU8]
  repeat apply ite_eq_scrutinee
  rfl

/-- The status bits of a packet, the second byte of its header. -/
structure PacketStatus where
  bits : UInt8
  deriving DecidableEq, Repr

namespace PacketStatus

def normal : PacketStatus := ⟨0x00⟩
def eom : PacketStatus := ⟨0x01⟩
/-- The whole message is to be discarded. -/
def ignore : PacketStatus := ⟨0x02⟩
def resetConnection : PacketStatus := ⟨0x08⟩
def resetConnectionSkipTran : PacketStatus := ⟨0x10⟩

def contains (s other : PacketStatus) : Bool := s.bits &&& other.bits == other.bits

end PacketStatus

/-- The reset a client asks for in the first packet of a message. -/
inductive ResetConnection where
  | none | full | skipTransaction
  deriving DecidableEq, Repr

def PacketStatus.reset (s : PacketStatus) : ResetConnection :=
  if s.contains .resetConnectionSkipTran then .skipTransaction
  else if s.contains .resetConnection then .full
  else .none

/-! ### Headers -/

structure PacketHeader where
  kind : PacketType
  status : PacketStatus
  length : UInt16
  spid : UInt16
  packetId : UInt8
  window : UInt8
  deriving DecidableEq, Repr

def u16OfBytes (high low : UInt8) : UInt16 := UInt16.ofNat (high.toNat * 256 + low.toNat)

def PacketHeader.decode (bytes : List UInt8) : Except TdsError PacketHeader :=
  match bytes with
  | [t, s, l0, l1, sp0, sp1, id, w] =>
    let length := u16OfBytes l0 l1
    if length.toNat < headerLen ∨ maxPacketSize < length.toNat then
      .error (.malformed "packet length out of range 8..=32767")
    else
      .ok { kind := .fromU8 t, status := ⟨s⟩, length, spid := u16OfBytes sp0 sp1,
            packetId := id, window := w }
  | _ => .error (.malformed "packet header must be 8 bytes")

def PacketHeader.encode (h : PacketHeader) : List UInt8 :=
  [h.kind.toU8, h.status.bits] ++ beBytes 2 h.length.toNat ++ beBytes 2 h.spid.toNat
    ++ [h.packetId, h.window]

@[simp] lemma PacketHeader.length_encode (h : PacketHeader) : h.encode.length = 8 := rfl

lemma u16OfBytes_beBytes (n : UInt16) :
    u16OfBytes (UInt8.ofNat (n.toNat / 256 ^ 1 % 256)) (UInt8.ofNat (n.toNat / 256 ^ 0 % 256))
      = n := by
  have hn := n.toNat_lt
  have hhigh : n.toNat / 256 % 256 = n.toNat / 256 := Nat.mod_eq_of_lt (by omega)
  apply UInt16.toNat_inj.mp
  simp only [u16OfBytes, UInt16.toNat_ofNat', UInt8.toNat_ofNat', pow_one, pow_zero, Nat.div_one,
    hhigh]
  omega

lemma PacketHeader.decode_length {bytes : List UInt8} {header : PacketHeader}
    (h : PacketHeader.decode bytes = .ok header) :
    headerLen ≤ header.length.toNat ∧ header.length.toNat ≤ maxPacketSize := by
  unfold decode at h
  split at h
  · dsimp only at h
    split_ifs at h with hrange
    cases h
    constructor <;> dsimp only <;> omega
  · contradiction

/-! ### Cutting a payload into packets -/

/-- The payload in pieces of `n` bytes, the last one of what is left (`slice::chunks`). -/
def chunks (n : ℕ) (payload : List UInt8) : List (List UInt8) :=
  if _h : 0 < n ∧ payload ≠ [] then payload.take n :: chunks n (payload.drop n) else []
termination_by payload.length
decreasing_by
  have := length_pos_of_ne_nil _h.2
  rw [length_drop]
  omega

def clampPacketSize (packetSize : UInt16) : ℕ :=
  max minPacketSize (min packetSize.toNat maxPacketSize)

/-- Builds one packet; the counter of the packets goes up modulo 256. -/
def buildPacket (kind : PacketType) (status : PacketStatus) (body : List UInt8) (spid : UInt16)
    (nextPacketId : UInt8) : List UInt8 × UInt8 :=
  (PacketHeader.encode { kind, status, length := UInt16.ofNat (headerLen + body.length), spid,
                         packetId := nextPacketId, window := 0 } ++ body,
    nextPacketId + 1)

/-- The packets of the chunks of a payload: the last one carries the end-of-message bit. -/
def packetsOf (kind : PacketType) (spid : UInt16) :
    List (List UInt8) → UInt8 → List (List UInt8) × UInt8
  | [], nextPacketId => ([], nextPacketId)
  | chunk :: rest, nextPacketId =>
    let status := if rest.isEmpty then PacketStatus.eom else .normal
    let (packet, nextPacketId) := buildPacket kind status chunk spid nextPacketId
    let (packets, nextPacketId) := packetsOf kind spid rest nextPacketId
    (packet :: packets, nextPacketId)

/-- Splits a payload into packets; an empty payload gives one packet without a body. -/
def splitMessageWith (kind : PacketType) (payload : List UInt8) (packetSize : UInt16)
    (spid : UInt16) (nextPacketId : UInt8) : List (List UInt8) × UInt8 :=
  let bodyMax := clampPacketSize packetSize - headerLen
  if payload.isEmpty then
    let (packet, nextPacketId) := buildPacket kind .eom [] spid nextPacketId
    ([packet], nextPacketId)
  else packetsOf kind spid (chunks bodyMax payload) nextPacketId

/-! ### Putting a message together -/

/-- A complete message: the payloads of its packets. -/
structure RawMessage where
  kind : PacketType
  payload : List UInt8
  reset : ResetConnection
  deriving DecidableEq, Repr

def readExact (n : ℕ) (input : List UInt8) : Except TdsError (List UInt8 × List UInt8) :=
  if n ≤ input.length then .ok (input.take n, input.drop n) else .error .connectionClosed

lemma readExact_append (bytes rest : List UInt8) :
    readExact bytes.length (bytes ++ rest) = .ok (bytes, rest) := by
  simp [readExact]

variable {rest input : List UInt8}

lemma readExact_rest {n : ℕ} {bytes : List UInt8}
    (h : readExact n input = .ok (bytes, rest)) : rest.length + n = input.length := by
  rw [readExact] at h
  split_ifs at h with hn
  cases h
  rw [length_drop]
  omega

def readHeader (input : List UInt8) : Except TdsError (PacketHeader × List UInt8) := do
  let (bytes, rest) ← readExact headerLen input
  let header ← PacketHeader.decode bytes
  .ok (header, rest)

lemma readHeader_rest {header : PacketHeader}
    (h : readHeader input = .ok (header, rest)) : rest.length + headerLen = input.length := by
  obtain ⟨⟨bytes, rest'⟩, hread, h⟩ := Except.bind_eq_ok_iff.mp h
  obtain ⟨header', -, h⟩ := Except.bind_eq_ok_iff.mp h
  cases h
  exact readExact_rest hread

/-! ### Packets as they travel -/

/-- A well-formed packet: any type, any status, a body that fits. -/
structure Packet where
  type : UInt8
  status : PacketStatus
  spid : UInt16
  packetId : UInt8
  window : UInt8
  body : List UInt8
  fits : headerLen + body.length ≤ maxPacketSize
  deriving DecidableEq, Repr

namespace Packet

def header (p : Packet) : PacketHeader where
  kind := .fromU8 p.type
  status := p.status
  length := UInt16.ofNat (headerLen + p.body.length)
  spid := p.spid
  packetId := p.packetId
  window := p.window

def bytes (p : Packet) : List UInt8 := p.header.encode ++ p.body

lemma toNat_header_length (p : Packet) : p.header.length.toNat = headerLen + p.body.length := by
  have hfits := p.fits
  simp only [maxPacketSize] at hfits
  rw [header, UInt16.toNat_ofNat', Nat.mod_eq_of_lt (by omega)]

@[simp] lemma length_bytes (p : Packet) : p.bytes.length = headerLen + p.body.length := by
  rw [bytes, length_append, PacketHeader.length_encode]
  rfl

lemma readHeader_append (p : Packet) (rest : List UInt8) :
    readHeader (p.bytes ++ rest) = .ok (p.header, p.body ++ rest) := by
  have hdecode : PacketHeader.decode p.header.encode = .ok p.header := by
    have hrange : ¬(p.header.length.toNat < headerLen ∨ maxPacketSize < p.header.length.toNat) := by
      rw [p.toNat_header_length]
      have := p.fits
      omega
    simp only [PacketHeader.encode, beBytes, cons_append, nil_append, PacketHeader.decode,
      u16OfBytes_beBytes, if_neg hrange]
    simp [header]
  have hread : readExact headerLen (p.bytes ++ rest) = .ok (p.header.encode, p.body ++ rest) := by
    have := readExact_append p.header.encode (p.body ++ rest)
    rwa [PacketHeader.length_encode, ← append_assoc] at this
  rw [readHeader, hread]
  simp only [bind, Except.bind, hdecode]

lemma readExact_body (p : Packet) (rest : List UInt8) :
    readExact (p.header.length.toNat - headerLen) (p.body ++ rest) = .ok (p.body, rest) := by
  rw [p.toNat_header_length, Nat.add_sub_cancel_left]
  exact readExact_append p.body rest

end Packet

def firstOf (first : Option (PacketType × ResetConnection)) (header : PacketHeader) :
    Except TdsError (PacketType × ResetConnection) :=
  match first with
  | none => .ok (header.kind, header.status.reset)
  | some (kind, reset) =>
    if kind ≠ header.kind then .error (.malformed "packet type changed inside a message")
    else .ok (kind, reset)

/-- Reads packets until one ends a message that is not to be ignored (`read_message`). -/
def readMessageFrom (maxMessageSize : ℕ) (first : Option (PacketType × ResetConnection))
    (payload input : List UInt8) : Except TdsError (RawMessage × List UInt8) :=
  match hheader : readHeader input with
  | .error e => .error e
  | .ok (header, afterHeader) =>
    match firstOf first header with
    | .error e => .error e
    | .ok (kind, reset) =>
      let bodyLen := header.length.toNat - headerLen
      let total := payload.length + bodyLen
      if maxMessageSize < total then .error (.messageTooLarge total)
      else
        match hbody : readExact bodyLen afterHeader with
        | .error e => .error e
        | .ok (body, rest) =>
          have : rest.length < input.length := by
            have h₁ := readHeader_rest hheader
            have h₂ := readExact_rest hbody
            simp only [headerLen] at h₁
            omega
          if !header.status.contains .eom then
            readMessageFrom maxMessageSize (some (kind, reset)) (payload ++ body) rest
          else if header.status.contains .ignore then
            readMessageFrom maxMessageSize none [] rest
          else .ok (⟨kind, payload ++ body, reset⟩, rest)
termination_by input.length

def readMessage (maxMessageSize : ℕ) (input : List UInt8) :
    Except TdsError (RawMessage × List UInt8) :=
  readMessageFrom maxMessageSize none [] input

/-! ### Messages as they travel -/

def bytesOf (packets : List Packet) : List UInt8 := packets.flatMap Packet.bytes

def bodiesOf (packets : List Packet) : List UInt8 := packets.flatMap Packet.body

@[simp] lemma bytesOf_nil : bytesOf [] = [] := rfl
@[simp] lemma bytesOf_cons (p : Packet) (ps : List Packet) :
    bytesOf (p :: ps) = p.bytes ++ bytesOf ps := rfl
@[simp] lemma bytesOf_append (ps qs : List Packet) :
    bytesOf (ps ++ qs) = bytesOf ps ++ bytesOf qs := flatMap_append
@[simp] lemma bodiesOf_nil : bodiesOf [] = [] := rfl
@[simp] lemma bodiesOf_cons (p : Packet) (ps : List Packet) :
    bodiesOf (p :: ps) = p.body ++ bodiesOf ps := rfl
@[simp] lemma bodiesOf_append (ps qs : List Packet) :
    bodiesOf (ps ++ qs) = bodiesOf ps ++ bodiesOf qs := flatMap_append

/-- A message cut into packets of one type; the last one alone ends it. -/
structure Message where
  init : List Packet
  last : Packet
  runsOn : ∀ p ∈ init, p.status.contains .eom = false
  ends : last.status.contains .eom = true
  oneType : ∀ p ∈ init, p.type = last.type

namespace Message

def packets (m : Message) : List Packet := m.init ++ [m.last]

def bytes (m : Message) : List UInt8 := bytesOf m.packets

def payload (m : Message) : List UInt8 := bodiesOf m.packets

def kind (m : Message) : PacketType := .fromU8 m.last.type

def reset (m : Message) : ResetConnection := (m.init.head?.getD m.last).status.reset

def ignored (m : Message) : Bool := m.last.status.contains .ignore

end Message

/-- The type and the reset of a message whose packets so far are `ps` and then `p`. -/
def messageFirst (ps : List Packet) (p : Packet) : PacketType × ResetConnection :=
  (.fromU8 p.type, (ps.head?.getD p).status.reset)

def rememberedFirst (ps : List Packet) : Option (PacketType × ResetConnection) :=
  ps.head?.map fun p => (.fromU8 p.type, p.status.reset)

variable {ps : List Packet} {p : Packet}

lemma firstOf_remembered (htype : ∀ q ∈ ps, q.type = p.type) :
    firstOf (rememberedFirst ps) p.header = .ok (messageFirst ps p) := by
  cases ps with
  | nil => rfl
  | cons q qs =>
    have hq : q.type = p.type := htype q mem_cons_self
    simp [rememberedFirst, firstOf, messageFirst, Packet.header, hq]

lemma rememberedFirst_append (htype : ∀ q ∈ ps, q.type = p.type) :
    rememberedFirst (ps ++ [p]) = some (messageFirst ps p) := by
  cases ps with
  | nil => rfl
  | cons q qs =>
    have hq : q.type = p.type := htype q mem_cons_self
    simp [rememberedFirst, messageFirst, hq]

variable {maxMessageSize : ℕ}

lemma readMessageFrom_packet (htype : ∀ q ∈ ps, q.type = p.type)
    (hsize : (bodiesOf (ps ++ [p])).length ≤ maxMessageSize) :
    readMessageFrom maxMessageSize (rememberedFirst ps) (bodiesOf ps) (p.bytes ++ rest)
      = if !p.status.contains .eom then
          readMessageFrom maxMessageSize (rememberedFirst (ps ++ [p])) (bodiesOf (ps ++ [p])) rest
        else if p.status.contains .ignore then readMessageFrom maxMessageSize none [] rest
        else .ok (⟨(messageFirst ps p).1, bodiesOf (ps ++ [p]), (messageFirst ps p).2⟩, rest) := by
  have hbody : p.header.length.toNat - headerLen = p.body.length := by
    rw [p.toNat_header_length, Nat.add_sub_cancel_left]
  have hfits : ¬maxMessageSize < (bodiesOf ps).length + p.body.length := by
    simp only [bodiesOf_append, bodiesOf_cons, bodiesOf_nil, append_nil, length_append] at hsize
    omega
  rw [readMessageFrom]
  split
  next e he => rw [p.readHeader_append] at he; contradiction
  next header afterHeader hheader =>
    rw [p.readHeader_append] at hheader
    cases hheader
    simp only [firstOf_remembered htype, hbody, if_neg hfits]
    split
    next e he => rw [p.readExact_body] at he; contradiction
    next body rest' he =>
      rw [p.readExact_body] at he
      cases he
      simp only [rememberedFirst_append htype, bodiesOf_append, bodiesOf_cons, bodiesOf_nil,
        append_nil, Packet.header]
      rfl

lemma readMessageFrom_open {t : UInt8}
    (init : List Packet) : ∀ ps : List Packet, (∀ p ∈ ps ++ init, p.type = t) →
    (∀ p ∈ init, p.status.contains .eom = false) → (bodiesOf (ps ++ init)).length ≤ maxMessageSize →
    readMessageFrom maxMessageSize (rememberedFirst ps) (bodiesOf ps) (bytesOf init ++ rest)
      = readMessageFrom maxMessageSize (rememberedFirst (ps ++ init)) (bodiesOf (ps ++ init))
          rest := by
  induction init with
  | nil => intro ps _ _ _; simp
  | cons p init ih =>
    intro ps htype hopen hsize
    have hsplit : ps ++ p :: init = (ps ++ [p]) ++ init := by simp
    have hp : p.type = t := htype p (by simp)
    have hps : ∀ q ∈ ps, q.type = p.type := fun q hq => by
      rw [hp]
      exact htype q (by simp [hq])
    have hsize' : (bodiesOf (ps ++ [p])).length ≤ maxMessageSize := by
      rw [hsplit, bodiesOf_append, length_append] at hsize
      omega
    rw [bytesOf_cons, append_assoc, readMessageFrom_packet hps hsize',
      hopen p mem_cons_self, Bool.not_false, if_pos rfl, hsplit]
    exact ih (ps ++ [p]) (by rwa [← hsplit])
      (fun q hq => hopen q (mem_cons_of_mem p hq)) (by rwa [← hsplit])

/-- **A message that fits and is not to be ignored is read back**, whatever follows it. -/
lemma readMessage_message {m : Message}
    (hsize : m.payload.length ≤ maxMessageSize) (hkept : m.ignored = false) :
    readMessage maxMessageSize (m.bytes ++ rest) = .ok (⟨m.kind, m.payload, m.reset⟩, rest) := by
  have hsize' : (bodiesOf m.init).length ≤ maxMessageSize := by
    rw [Message.payload, Message.packets, bodiesOf_append, length_append] at hsize
    omega
  rw [readMessage, Message.bytes, Message.packets, bytesOf_append, append_assoc]
  refine (readMessageFrom_open m.init [] m.oneType m.runsOn hsize').trans ?_
  rw [nil_append, bytesOf_cons, bytesOf_nil, append_nil,
    readMessageFrom_packet m.oneType hsize, m.ends, show m.last.status.contains .ignore = false
      from hkept]
  rfl

end VaubanDB.Tds
