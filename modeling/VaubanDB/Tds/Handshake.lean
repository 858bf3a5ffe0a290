import VaubanDB.Tds.Framing

/-!
TLS inside PRELOGIN packets (`vauban-tds/src/tls.rs`).

During the handshake `PreloginTlsIo` takes the headers off the packets it receives and wraps what
is written into PRELOGIN messages.  The transport may cut a packet anywhere, in both directions.
Whatever the calls and whatever it answers, the bytes go through unchanged and in order, and all of
them where it keeps giving and taking some (`handshake_is_transparent`).
-/

namespace VaubanDB.Tds

open List Message

/-- What the transport answers to one call; it gives or takes no more than it is asked to. -/
inductive Answer where
  | pending
  | failed
  | ready (n : ℕ)

/-- The transport gives or takes something. -/
def Answer.Moves : Answer → Prop
  | .ready n => 0 < n
  | _ => False

inductive IoError where
  | transport
  | header (e : TdsError)
  | notPrelogin
  | unexpectedEof
  | writeZero

inductive Poll (α : Type) where
  | pending
  | failed (e : IoError)
  | ready (a : α)

/-- Where the adapter is in the packet it receives. -/
inductive PreloginRead where
  | header (buf : List UInt8)
  | body (remaining : ℕ)

/-- The adapter and its transport: the bytes to be read from it and those written to it. -/
structure PreloginTlsIo where
  packetSize : UInt16
  nextPacketId : UInt8
  read : PreloginRead
  writeBuf : List UInt8
  /-- The packets from `pending_index` on. -/
  pending : List (List UInt8)
  input : List UInt8
  output : List UInt8

def PreloginTlsIo.new (packetSize : UInt16) (input : List UInt8) : PreloginTlsIo :=
  ⟨packetSize, 1, .header [], [], [], input, []⟩

/-- The turns of the loop of `poll_read_handshake` that do not ask the transport. -/
def PreloginRead.settle : PreloginRead → Except IoError PreloginRead
  | .header buf =>
    if buf.length = headerLen then
      match PacketHeader.decode buf with
      | .error e => .error (.header e)
      | .ok h =>
        if h.kind ≠ .preLogin then .error .notPrelogin
        else if h.length.toNat - headerLen = 0 then .ok (.header [])
        else .ok (.body (h.length.toNat - headerLen))
    else .ok (.header buf)
  | .body remaining => .ok (if remaining = 0 then .header [] else .body remaining)

namespace PreloginTlsIo

/-- `poll_read_handshake` with room for some bytes; `answers` is what the transport says. -/
def pollReadLoop (room : ℕ) : List Answer → PreloginTlsIo → Poll (List UInt8) × PreloginTlsIo
  | answers, io =>
    match io.read.settle with
    | .error e => (.failed e, io)
    | .ok read =>
      match answers, read with
      | [], read | .pending :: _, read => (.pending, { io with read })
      | .failed :: _, read => (.failed .transport, { io with read })
      | .ready n :: answers, .header buf =>
        let n := min n (headerLen - buf.length)
        let got := io.input.take n
        if got = [] then (if buf = [] then .ready [] else .failed .unexpectedEof, { io with read })
        else pollReadLoop room answers
          { io with read := .header (buf ++ got), input := io.input.drop n }
      | .ready n :: _, .body remaining =>
        let n := min n (min remaining room)
        let got := io.input.take n
        let remaining := remaining - got.length
        if got = [] then (.failed .unexpectedEof, { io with read })
        else (.ready got, { io with
          read := if remaining = 0 then .header [] else .body remaining
          input := io.input.drop n })

def pollRead (room : ℕ) (answers : List Answer) (io : PreloginTlsIo) :
    Poll (List UInt8) × PreloginTlsIo :=
  if room = 0 then (.ready [], io) else io.pollReadLoop room answers

def pollWrite (data : List UInt8) (io : PreloginTlsIo) : PreloginTlsIo :=
  { io with writeBuf := io.writeBuf ++ data }

/-- The next message, once the one before is written. -/
def wrap (io : PreloginTlsIo) : PreloginTlsIo :=
  if io.pending = [] ∧ io.writeBuf ≠ [] then
    let (pending, nextPacketId) :=
      splitMessageWith .preLogin io.writeBuf io.packetSize 0 io.nextPacketId
    { io with pending, nextPacketId, writeBuf := [] }
  else io

def pollFlush : List Answer → PreloginTlsIo → Poll Unit × PreloginTlsIo
  | answers, io =>
    let io := io.wrap
    match answers, io.pending with
    | [], _ | .pending :: _, _ => (.pending, io)
    | .failed :: _, _ => (.failed .transport, io)
    | .ready _ :: _, [] => (.ready (), io)
    | .ready n :: answers, packet :: packets =>
      if min n packet.length = 0 then (.failed .writeZero, io)
      else pollFlush answers { io with
        output := io.output ++ packet.take n
        pending := if packet.drop n = [] then packets else packet.drop n :: packets }

/-- The bytes a flush has to put on the transport. -/
def outstanding (io : PreloginTlsIo) : ℕ :=
  io.pending.flatten.length +
    if io.writeBuf = [] then 0
    else (splitMessageWith .preLogin io.writeBuf io.packetSize 0 io.nextPacketId).1.flatten.length

end PreloginTlsIo

/-- One call of the TLS side, with what the transport answers meanwhile. -/
inductive IoCall where
  | read (room : ℕ) (answers : List Answer)
  | write (data : List UInt8)
  | flush (answers : List Answer)

def IoCall.written : IoCall → List UInt8
  | .write data => data
  | _ => []

def Poll.bytes : Poll (List UInt8) → List UInt8
  | .ready got => got
  | _ => []

/-- Runs one call; the first component collects the bytes delivered so far. -/
def IoCall.run : List UInt8 × PreloginTlsIo → IoCall → List UInt8 × PreloginTlsIo
  | (delivered, io), .read room answers =>
    let (poll, io) := io.pollRead room answers
    (delivered ++ poll.bytes, io)
  | (delivered, io), .write data => (delivered, io.pollWrite data)
  | (delivered, io), .flush answers => (delivered, (io.pollFlush answers).2)

/-! ### Reading -/

/-- Whole PRELOGIN packets, and their payloads one after the other. -/
inductive Wrapped : List UInt8 → List UInt8 → Prop
  | nil : Wrapped [] []
  | packet {stream payload header body : List UInt8} {h : PacketHeader}
      (packets : Wrapped stream payload) (decodes : PacketHeader.decode header = .ok h)
      (kind : h.kind = .preLogin) (length : body.length = h.length.toNat - headerLen) :
      Wrapped (stream ++ (header ++ body)) (payload ++ body)

/-- The bytes taken from the transport are whole packets and a part of the one the adapter is in;
what has been delivered is their payloads and all it has of that part. -/
def PreloginRead.Received (taken delivered : List UInt8) : PreloginRead → Prop
  | .header buf => ∃ stream, Wrapped stream delivered ∧ taken = stream ++ buf ∧
      buf.length ≤ headerLen
  | .body remaining => ∃ stream payload header part h, Wrapped stream payload ∧
      PacketHeader.decode header = .ok h ∧ h.kind = .preLogin ∧
      part.length + remaining = h.length.toNat - headerLen ∧
      taken = stream ++ (header ++ part) ∧ delivered = payload ++ part

namespace PreloginRead

variable {taken delivered got : List UInt8} {read : PreloginRead} {remaining : ℕ}

lemma Received.next (h : (body remaining).Received taken delivered) :
    (if remaining = 0 then header [] else body remaining).Received taken delivered := by
  split_ifs with hzero
  · obtain ⟨stream, payload, header, part, h, hwrapped, hdecode, hkind, hlen, rfl, rfl⟩ := h
    refine ⟨_, hwrapped.packet hdecode hkind ?_, (append_nil _).symm, Nat.zero_le _⟩
    rw [← hlen, hzero, Nat.add_zero]
  · exact h

lemma Received.settle (h : read.Received taken delivered) :
    ∀ {read'}, read.settle = .ok read' → read'.Received taken delivered := by
  intro read' hsettle
  cases read with
  | body remaining =>
    cases hsettle
    exact h.next
  | header buf =>
    obtain ⟨stream, hwrapped, rfl, hlen⟩ := h
    rw [settle] at hsettle
    split_ifs at hsettle with hfull
    · cases hdecode : PacketHeader.decode buf with
      | error e => simp [hdecode] at hsettle
      | ok h =>
        simp only [hdecode] at hsettle
        by_cases hkind : h.kind = .preLogin
        · rw [if_neg (not_not.mpr hkind), ← apply_ite Except.ok] at hsettle
          cases hsettle
          exact next ⟨stream, delivered, buf, [], h, hwrapped, hdecode, hkind,
            Nat.zero_add _, by rw [append_nil], (append_nil _).symm⟩
        · simp [hkind] at hsettle
    · cases hsettle
      exact ⟨stream, hwrapped, rfl, hlen⟩

lemma settle_body (h : read.settle = .ok (body remaining)) : 0 < remaining := by
  cases read <;> simp only [settle] at h <;> split at h <;> grind

lemma settle_header {buf : List UInt8} (h : read.settle = .ok (header buf)) :
    buf.length ≠ headerLen := by
  cases read <;> simp only [settle] at h <;> grind [headerLen]

lemma Received.header_read {buf : List UInt8} (h : (header buf).Received taken delivered)
    (hgot : got.length ≤ headerLen - buf.length) :
    (header (buf ++ got)).Received (taken ++ got) delivered := by
  obtain ⟨stream, hwrapped, rfl, hlen⟩ := h
  refine ⟨stream, hwrapped, append_assoc _ _ _, ?_⟩
  rw [length_append]
  omega

lemma Received.body_read (h : (body remaining).Received taken delivered)
    (hgot : got.length ≤ remaining) :
    (body (remaining - got.length)).Received (taken ++ got) (delivered ++ got) := by
  obtain ⟨stream, payload, header, part, h, hwrapped, hdecode, hkind, hlen, rfl, rfl⟩ := h
  refine ⟨stream, payload, header, part ++ got, h, hwrapped, hdecode, hkind, ?_, ?_,
    append_assoc _ _ _⟩
  · rw [length_append]
    omega
  · simp only [append_assoc]

end PreloginRead

/-! ### The adapter -/

/-- Nothing is lost, repeated or out of order between the transport and the TLS side, which has
written the bytes `accepted` and got the bytes `delivered`. -/
structure PreloginTlsIo.Transparent (input accepted delivered : List UInt8) (io : PreloginTlsIo) :
    Prop where
  reading : ∃ taken, input = taken ++ io.input ∧ io.read.Received taken delivered
  writing : ∃ messages : List Message, (∀ m ∈ messages, m.kind = .preLogin) ∧
    io.output ++ io.pending.flatten = streamOf messages ∧
    messages.flatMap payload ++ io.writeBuf = accepted
  packets : ∀ p ∈ io.pending, p ≠ []

/-- How a read ends when the transport gives something each time: with some bytes, at the end of the
input, or at a header that is none of a PRELOGIN packet. -/
def PreloginTlsIo.ReadEnds : Poll (List UInt8) × PreloginTlsIo → Prop
  | (.pending, _) => False
  | (.ready got, io) => got = [] → io.input = [] ∧ io.read = .header []
  | (.failed e, io) => e = .unexpectedEof ∧ io.input = [] ∨ io.read.settle = .error e

namespace PreloginTlsIo

variable {input accepted delivered : List UInt8} {io : PreloginTlsIo}

lemma Transparent.settle {read : PreloginRead} (h : io.Transparent input accepted delivered)
    (hread : io.read.settle = .ok read) :
    { io with read }.Transparent input accepted delivered := by
  obtain ⟨taken, hinput, hreceived⟩ := h.reading
  exact ⟨⟨taken, hinput, hreceived.settle hread⟩, h.writing, h.packets⟩

/-- `n` more bytes of the transport. -/
lemma Transparent.take {n : ℕ} {read : PreloginRead} {delivered' : List UInt8}
    (h : io.Transparent input accepted delivered)
    (hread : ∀ taken, io.read.Received taken delivered →
      read.Received (taken ++ io.input.take n) delivered') :
    { io with read, input := io.input.drop n }.Transparent input accepted delivered' := by
  obtain ⟨taken, hinput, hreceived⟩ := h.reading
  refine ⟨⟨_, ?_, hread taken hreceived⟩, h.writing, h.packets⟩
  rw [hinput, append_assoc, take_append_drop]

lemma Transparent.pollReadLoop (room : ℕ) (answers : List Answer)
    (h : io.Transparent input accepted delivered) :
    (io.pollReadLoop room answers).2.Transparent input accepted
      (delivered ++ (io.pollReadLoop room answers).1.bytes) := by
  fun_induction PreloginTlsIo.pollReadLoop room answers io with
  | case1 => simpa [Poll.bytes] using h
  | case2 _ _ hread | case3 _ _ _ hread | case4 _ _ _ hread | case7 _ _ _ _ _ _ _ hread =>
    simpa [Poll.bytes] using h.settle hread
  | case5 _ _ _ _ _ _ _ hread => split_ifs <;> simpa [Poll.bytes] using h.settle hread
  | case6 io n answers buf k got hgot hread ih =>
    refine ih ((h.settle hread).take fun taken h => h.header_read ?_)
    exact (length_take_le _ _).trans (min_le_right _ _)
  | case8 io n _ remaining k got rest hgot hread =>
    refine (h.settle hread).take fun taken h => (h.body_read ?_).next
    exact (length_take_le _ _).trans ((min_le_right _ _).trans (min_le_left _ _))

/-- A read ends once the transport has given something often enough. -/
lemma Transparent.readEnds {room : ℕ} {answers : List Answer}
    (h : io.Transparent input accepted delivered) (hroom : 0 < room)
    (hmoves : ∀ a ∈ answers, a.Moves) (hmany : io.input.length < answers.length) :
    ReadEnds (io.pollReadLoop room answers) := by
  fun_induction PreloginTlsIo.pollReadLoop room answers io with
  | case1 _ _ _ hread => exact .inr hread
  | case2 => simp at hmany
  | case3 | case4 => exact absurd (hmoves _ mem_cons_self) id
  | case5 io n answers buf k got hgot hread =>
    have hn : 0 < n := hmoves (.ready n) mem_cons_self
    obtain ⟨-, -, -, -, -, hlen⟩ := (h.settle hread).reading
    have := PreloginRead.settle_header hread
    have hk : 0 < k := by omega
    have hinput : io.input = [] := (take_eq_nil_iff.mp hgot).resolve_left hk.ne'
    split_ifs with hbuf
    · exact fun _ => ⟨hinput, by rw [hbuf]⟩
    · exact .inl ⟨rfl, hinput⟩
  | case6 io n answers buf k got hgot hread ih =>
    have hpos := length_pos_of_ne_nil hgot
    refine ih ((h.settle hread).take fun taken h => h.header_read ?_)
      (fun a ha => hmoves a (mem_cons_of_mem _ ha)) ?_
    · exact (length_take_le _ _).trans (min_le_right _ _)
    · simp only [got, length_take, length_drop, length_cons] at hpos hmany ⊢
      omega
  | case7 io n answers remaining k got hgot hread =>
    have hn : 0 < n := hmoves (.ready n) mem_cons_self
    have := PreloginRead.settle_body hread
    have hk : 0 < k := by omega
    exact .inl ⟨rfl, (take_eq_nil_iff.mp hgot).resolve_left hk.ne'⟩
  | case8 io n _ remaining k got rest hgot hread => exact fun hnil => absurd hnil hgot

lemma Transparent.wrap (h : io.Transparent input accepted delivered) :
    io.wrap.Transparent input accepted delivered := by
  rw [PreloginTlsIo.wrap]
  split_ifs with hwrap
  · obtain ⟨messages, hkinds, hstream, haccepted⟩ := h.writing
    obtain ⟨init, last, hpackets, hruns, htype, hstatus, -, hbodies, -⟩ :=
      splitMessageWith_spec 0x12 io.writeBuf io.packetSize 0 io.nextPacketId
    let m : Message :=
      { init, last
        runsOn := fun p hp => by rw [(hruns p hp).2.1]; decide
        ends := by rw [hstatus]; decide
        oneType := fun p hp => (hruns p hp).1.trans htype.symm }
    refine ⟨h.reading, ⟨messages ++ [m], ?_, ?_, ?_⟩, ?_⟩
    · intro m' hm
      rcases mem_append.mp hm with hm | hm
      · exact hkinds m' hm
      · rw [mem_singleton.mp hm, kind, htype]
        decide
    · rw [hwrap.1, flatten_nil, append_nil] at hstream
      rw [streamOf_append, ← hstream, streamOf_cons, streamOf_nil, append_nil]
      exact congrArg (io.output ++ flatten ·) hpackets
    · rw [flatMap_append, append_nil, ← haccepted]
      exact congrArg (messages.flatMap payload ++ ·) ((append_nil _).trans hbodies)
    · intro bytes hbytes
      obtain ⟨p, -, rfl⟩ := mem_map.mp (hpackets.symm ▸ show bytes ∈
        (splitMessageWith _ io.writeBuf io.packetSize 0 io.nextPacketId).1 from hbytes)
      rw [← length_pos_iff, Packet.length_bytes, headerLen]
      omega
  · exact h

lemma wrap_buf (h : io.wrap.pending = []) : io.wrap.writeBuf = [] := by
  unfold wrap at h ⊢
  split_ifs at h ⊢ with hwrap
  · rfl
  · exact not_not.mp fun hne => hwrap ⟨h, hne⟩

lemma outstanding_wrap : io.wrap.outstanding = io.outstanding := by
  unfold wrap
  split_ifs with hwrap
  · simp [outstanding, hwrap]
  · rfl

lemma flatten_drop_cons (n : ℕ) (packet : List UInt8) (packets : List (List UInt8)) :
    (if packet.drop n = [] then packets else packet.drop n :: packets).flatten
      = packet.drop n ++ packets.flatten := by
  split_ifs with hnil
  · rw [hnil, nil_append]
  · rfl

/-- The transport takes a part of the packet. -/
lemma Transparent.takePacket {n : ℕ} {packet : List UInt8} {packets : List (List UInt8)}
    (h : io.Transparent input accepted delivered) (hpending : io.wrap.pending = packet :: packets) :
    { io.wrap with
      output := io.wrap.output ++ packet.take n
      pending := if packet.drop n = [] then packets else packet.drop n :: packets }.Transparent
        input accepted delivered := by
  obtain ⟨messages, hkinds, hstream, haccepted⟩ := h.wrap.writing
  have hne := h.wrap.packets
  rw [hpending, forall_mem_cons] at hne
  refine ⟨h.wrap.reading, ⟨messages, hkinds, ?_, haccepted⟩, ?_⟩
  · rw [← hstream, hpending, flatten_cons, append_assoc, flatten_drop_cons,
      ← append_assoc (packet.take n), take_append_drop]
  · dsimp only
    split_ifs with hnil
    · exact hne.2
    · exact forall_mem_cons.mpr ⟨hnil, hne.2⟩

lemma Transparent.pollFlush (h : io.Transparent input accepted delivered) :
    ∀ answers : List Answer, (io.pollFlush answers).2.Transparent input accepted delivered ∧
      ((io.pollFlush answers).1 = .ready () →
        (io.pollFlush answers).2.pending = [] ∧ (io.pollFlush answers).2.writeBuf = []) := by
  intro answers
  fun_induction PreloginTlsIo.pollFlush answers io with
  | case1 | case2 | case3 | case5 => exact ⟨h.wrap, nofun⟩
  | case4 io io' n answers hpending => exact ⟨h.wrap, fun _ => ⟨hpending, wrap_buf hpending⟩⟩
  | case6 io io' n answers packet packets hpending _ ih =>
    exact ih (h.takePacket hpending)

/-- A flush ends once the transport has taken something often enough. -/
lemma Transparent.pollFlush_ready {answers : List Answer}
    (h : io.Transparent input accepted delivered) (hmoves : ∀ a ∈ answers, a.Moves)
    (hmany : io.outstanding < answers.length) : (io.pollFlush answers).1 = .ready () := by
  fun_induction PreloginTlsIo.pollFlush answers io with
  | case1 => simp at hmany
  | case2 | case3 => exact absurd (hmoves _ mem_cons_self) id
  | case4 => rfl
  | case5 io io' n answers packet packets hpending hzero =>
    have hn : 0 < n := hmoves (.ready n) mem_cons_self
    have hpacket : packet ≠ [] :=
      h.wrap.packets packet (by rw [show io.wrap.pending = _ from hpending]; exact mem_cons_self)
    have := length_pos_of_ne_nil hpacket
    omega
  | case6 io io' n answers packet packets hpending hzero ih =>
    have hn : 0 < min n packet.length := Nat.pos_of_ne_zero hzero
    refine ih ?_ (fun a ha => hmoves a (mem_cons_of_mem _ ha)) ?_
    · exact h.takePacket hpending
    · rw [← outstanding_wrap, outstanding, show io.wrap.pending = _ from hpending, flatten_cons,
        length_append, length_cons] at hmany
      rw [outstanding, flatten_drop_cons, length_append, length_drop]
      dsimp only [io'] at hn ⊢
      omega

lemma Transparent.run (call : IoCall) (h : io.Transparent input accepted delivered) :
    (call.run (delivered, io)).2.Transparent input (accepted ++ call.written)
      (call.run (delivered, io)).1 := by
  cases call with
  | read room answers =>
    simp only [IoCall.run, IoCall.written, append_nil, pollRead]
    split_ifs
    · simpa [Poll.bytes] using h
    · exact h.pollReadLoop room answers
  | write data =>
    obtain ⟨messages, hkinds, hstream, haccepted⟩ := h.writing
    exact ⟨h.reading, ⟨messages, hkinds, hstream, by rw [← haccepted, append_assoc]; rfl⟩,
      h.packets⟩
  | flush answers =>
    rw [show (IoCall.flush answers).written = [] from rfl, append_nil]
    exact (h.pollFlush answers).1

end PreloginTlsIo

/-- All that was accepted is on the transport, in PRELOGIN messages. -/
def PreloginTlsIo.Flushed (accepted : List UInt8) (io : PreloginTlsIo) : Prop :=
  ∃ messages : List Message, (∀ m ∈ messages, m.kind = .preLogin) ∧
    io.output = streamOf messages ∧ messages.flatMap payload = accepted

/-- **The adapter is transparent**: however calls are interleaved and whatever the transport
answers, what it delivers is the payloads of the PRELOGIN packets received, of which it takes no
byte before its turn, and what is written goes out once and in order in PRELOGIN messages.  A
flush that ends has put all of it on the transport; it ends, and a read delivers, where the
transport takes or gives something often enough. -/
theorem handshake_is_transparent (packetSize : UInt16) (input : List UInt8)
    (calls : List IoCall) :
    let s := calls.foldl IoCall.run ([], .new packetSize input)
    s.2.Transparent input (calls.flatMap IoCall.written) s.1 ∧
      (∀ answers, (s.2.pollFlush answers).1 = .ready () →
        (s.2.pollFlush answers).2.Flushed (calls.flatMap IoCall.written)) ∧
      ∀ answers : List Answer, (∀ a ∈ answers, a.Moves) →
        (s.2.outstanding < answers.length → (s.2.pollFlush answers).1 = .ready ()) ∧
        ∀ room, 0 < room → s.2.input.length < answers.length →
          PreloginTlsIo.ReadEnds (s.2.pollRead room answers) := by
  have hrun : (calls.foldl IoCall.run ([], .new packetSize input)).2.Transparent input
      (calls.flatMap IoCall.written) (calls.foldl IoCall.run ([], .new packetSize input)).1 := by
    induction calls using List.reverseRecOn with
    | nil =>
      exact ⟨⟨[], rfl, [], .nil, rfl, Nat.zero_le _⟩, ⟨[], by simp, rfl, rfl⟩,
        by simp [PreloginTlsIo.new]⟩
    | append_singleton calls call ih =>
      rw [foldl_append, flatMap_append, flatMap_singleton]
      exact ih.run call
  refine ⟨hrun, fun answers hready => ?_, fun answers hmoves =>
    ⟨hrun.pollFlush_ready hmoves, fun room hroom hmany => ?_⟩⟩
  · obtain ⟨hflush, hends⟩ := hrun.pollFlush answers
    obtain ⟨hpending, hbuf⟩ := hends hready
    obtain ⟨messages, hkinds, hstream, haccepted⟩ := hflush.writing
    rw [hpending, flatten_nil, append_nil] at hstream
    rw [hbuf, append_nil] at haccepted
    exact ⟨messages, hkinds, hstream, haccepted⟩
  · rw [PreloginTlsIo.pollRead, if_neg hroom.ne']
    exact hrun.readEnds hroom hmoves hmany

/-- Three bytes whose message the transport takes in two parts, one byte more, and a packet of two
bytes that is read one by one. -/
def handshakeCalls : List IoCall :=
  [.write [1, 2, 3], .flush [.ready 5, .pending], .write [4],
   .read 1 [.ready 3, .ready 8, .ready 9]]

theorem cut_handshake_is_transparent :
    let s := handshakeCalls.foldl IoCall.run ([], .new 512 [0x12, 1, 0, 10, 0, 0, 1, 0, 7, 8])
    s.1 = [7] ∧ s.2.input = [8] ∧ (s.2.pollFlush (replicate 16 (.ready 1))).1 = .ready () ∧
      (s.2.pollFlush (replicate 16 (.ready 1))).2.Flushed [1, 2, 3, 4] ∧
      PreloginTlsIo.ReadEnds (s.2.pollRead 4 (replicate 16 (.ready 1))) := by
  obtain ⟨-, hflushed, hlive⟩ := handshake_is_transparent 512 [0x12, 1, 0, 10, 0, 0, 1, 0, 7, 8]
    handshakeCalls
  obtain ⟨hends, hreads⟩ := hlive (replicate 16 (.ready 1))
    fun a ha => eq_of_mem_replicate ha ▸ Nat.one_pos
  have hready := hends (by decide +kernel)
  exact ⟨by decide +kernel, by decide +kernel, hready, hflushed _ hready,
    hreads 4 (by decide) (by decide +kernel)⟩

end VaubanDB.Tds
