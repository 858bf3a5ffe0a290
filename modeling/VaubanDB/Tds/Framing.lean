import VaubanDB.Tds.Reading

/-!
The framing of the responses.

What the writing half has sent of the current response is a list of packets that run on; together
with the buffer they carry the encoded tokens (`WriteState.Framed`).  A flush turns it into a
message (`Framed.flushOn`), and so a whole sequence of calls puts one message per response on the
transport (`written_responses`).
-/

namespace VaubanDB.Tds

open List (mem_cons mem_cons_self mem_cons_of_mem map_cons length append_nil append_assoc
  mem_append)
open Message

/-! ### Packets of a response -/

/-- Packets numbered one after the other from `first`; `next` is the number that follows. -/
def NumberedFrom : UInt8 → List Packet → UInt8 → Prop
  | first, [], next => next = first
  | first, p :: ps, next => p.packetId = first ∧ NumberedFrom (first + 1) ps next

variable {ps : List Packet}

lemma NumberedFrom.append {qs : List Packet} : ∀ {a b c : UInt8}, NumberedFrom a ps b →
    NumberedFrom b qs c → NumberedFrom a (ps ++ qs) c := by
  induction ps with
  | nil =>
    intro a b c hab hbc
    rwa [show b = a from hab] at hbc
  | cons p ps ih => exact fun {a b c} hab hbc => ⟨hab.1, ih hab.2 hbc⟩

lemma NumberedFrom.isChain : ∀ {a b : UInt8}, NumberedFrom a ps b →
    List.IsChain (fun p q => q.packetId = p.packetId + 1) ps := by
  induction ps with
  | nil => exact fun _ => .nil
  | cons p ps ih =>
    intro a b h
    refine List.isChain_cons.mpr ⟨fun q hq => ?_, ih h.2⟩
    cases ps with
    | nil => simp at hq
    | cons r rs =>
      simp only [List.head?_cons, Option.mem_def, Option.some.injEq] at hq
      rw [← hq, h.1]
      exact h.2.1

lemma clampPacketSize_le (size : UInt16) : clampPacketSize size ≤ maxPacketSize := by
  simp only [clampPacketSize, minPacketSize, maxPacketSize]
  omega

def responsePacket (status : PacketStatus) (body : List UInt8) (spid : UInt16) (id : UInt8)
    (fits : headerLen + body.length ≤ maxPacketSize) : Packet :=
  ⟨0x04, status, spid, id, 0, body, fits⟩

/-- Packets of a response that runs on, none longer than `size`. -/
def RunsOn (size : ℕ) (ps : List Packet) : Prop :=
  ∀ p ∈ ps, p.type = 0x04 ∧ p.status = .normal ∧ p.bytes.length ≤ size

/-! ### Cutting what is left -/

lemma chunks_flatten {n : ℕ} (hn : 0 < n) (payload : List UInt8) :
    (chunks n payload).flatten = payload := by
  fun_induction chunks n payload with
  | case1 payload h ih => rw [List.flatten_cons, ih, List.take_append_drop]
  | case2 payload h =>
    rw [not_and, not_not] at h
    rw [h hn, List.flatten_nil]

lemma length_le_of_mem_chunks {n : ℕ} {payload chunk : List UInt8}
    (h : chunk ∈ chunks n payload) : chunk.length ≤ n := by
  fun_induction chunks n payload with
  | case1 payload hpos ih =>
    rcases mem_cons.mp h with rfl | h
    · exact List.length_take_le n payload
    · exact ih h
  | case2 payload hpos => simp at h

lemma packetsOf_spec (type : UInt8) {size : ℕ} (hsize : size ≤ maxPacketSize) (spid : UInt16)
    (chunk : List UInt8) (rest : List (List UInt8)) : ∀ id : UInt8,
    (∀ c ∈ chunk :: rest, headerLen + c.length ≤ size) →
    ∃ init last, (packetsOf (.fromU8 type) spid (chunk :: rest) id).1
        = (init ++ [last]).map Packet.bytes ∧
      (∀ p ∈ init, p.type = type ∧ p.status = .normal ∧ p.bytes.length ≤ size) ∧
      last.type = type ∧ last.status = .eom ∧ last.bytes.length ≤ size ∧
      bodiesOf (init ++ [last]) = (chunk :: rest).flatten ∧
      NumberedFrom id (init ++ [last]) (packetsOf (.fromU8 type) spid (chunk :: rest) id).2 := by
  induction rest generalizing chunk with
  | nil =>
    intro id hfits
    have hchunk := hfits chunk mem_cons_self
    refine ⟨[], ⟨type, .eom, spid, id, 0, chunk, hchunk.trans hsize⟩, rfl, by simp, rfl, rfl, ?_,
      by simp, rfl, rfl⟩
    rw [Packet.length_bytes]
    exact hchunk
  | cons next rest ih =>
    intro id hfits
    have hchunk := hfits chunk mem_cons_self
    obtain ⟨init, last, hpackets, hruns, htype, hstatus, hlast, hbodies, hnumbered⟩ :=
      ih next (id + 1) (fun c hc => hfits c (mem_cons_of_mem chunk hc))
    refine ⟨⟨type, .normal, spid, id, 0, chunk, hchunk.trans hsize⟩ :: init, last, ?_, ?_,
      htype, hstatus, hlast, ?_, rfl, hnumbered⟩
    · rw [List.cons_append, map_cons, ← hpackets]
      rfl
    · intro p hp
      rcases mem_cons.mp hp with rfl | hp
      · refine ⟨rfl, rfl, ?_⟩
        rw [Packet.length_bytes]
        exact hchunk
      · exact hruns p hp
    · rw [List.cons_append, bodiesOf_cons, hbodies, List.flatten_cons]
      rfl

lemma splitMessageWith_spec (type : UInt8) (payload : List UInt8) (packetSize spid : UInt16)
    (id : UInt8) :
    ∃ init last, (splitMessageWith (.fromU8 type) payload packetSize spid id).1
        = (init ++ [last]).map Packet.bytes ∧
      (∀ p ∈ init, p.type = type ∧ p.status = .normal ∧
        p.bytes.length ≤ clampPacketSize packetSize) ∧
      last.type = type ∧ last.status = .eom ∧
      last.bytes.length ≤ clampPacketSize packetSize ∧ bodiesOf (init ++ [last]) = payload ∧
      NumberedFrom id (init ++ [last])
        (splitMessageWith (.fromU8 type) payload packetSize spid id).2 := by
  have hmin : headerLen < clampPacketSize packetSize := by
    simp only [clampPacketSize, minPacketSize, headerLen]
    omega
  rw [splitMessageWith]
  cases hpayload : payload with
  | nil =>
    refine ⟨[], ⟨type, .eom, spid, id, 0, [], by decide⟩, rfl, by simp, rfl, rfl, hmin.le, rfl,
      rfl, rfl⟩
  | cons b bs =>
    rw [← hpayload, if_neg (by simp [hpayload])]
    have hpos : 0 < clampPacketSize packetSize - headerLen := by omega
    have hflatten := chunks_flatten hpos payload
    have hfits : ∀ c ∈ chunks (clampPacketSize packetSize - headerLen) payload,
        headerLen + c.length ≤ clampPacketSize packetSize := fun c hc => by
      have := length_le_of_mem_chunks hc
      omega
    cases hchunks : chunks (clampPacketSize packetSize - headerLen) payload with
    | nil =>
      rw [hchunks, hpayload] at hflatten
      simp at hflatten
    | cons chunk rest =>
      rw [hchunks] at hflatten hfits
      rw [← hflatten]
      exact packetsOf_spec type (clampPacketSize_le packetSize) spid chunk rest id hfits

/-! ### The writing half -/

/-- The packets `sent` of the current response and the buffer carry the bytes `current`. -/
structure WriteState.Framed (st : WriteState) (sent : List Packet) (current : List UInt8) :
    Prop where
  bodies : bodiesOf sent ++ st.buf = current
  running : ∀ p ∈ sent, p.type = 0x04 ∧ p.status = .normal
  filled : ∀ p ∈ sent, p.body ≠ []
  since : st.packetsSinceFlush = !sent.isEmpty
  numbered : ∃ first, NumberedFrom first sent st.nextPacketId

namespace WriteState

variable {st : WriteState} {sent : List Packet} {current : List UInt8}

variable (h : st.Framed sent current)
include h

lemma Framed.congr {st' : WriteState} (hbuf : st'.buf = st.buf)
    (hsince : st'.packetsSinceFlush = st.packetsSinceFlush)
    (hid : st'.nextPacketId = st.nextPacketId) : st'.Framed sent current :=
  ⟨by rw [hbuf, h.bodies], h.running, h.filled, by rw [hsince, h.since],
    by rw [hid]; exact h.numbered⟩

lemma Framed.eq_nil_iff : current = [] ↔ st.buf = [] ∧ st.packetsSinceFlush = false := by
  rw [← h.bodies, h.since]
  cases sent with
  | nil => simp
  | cons p ps => simp [h.filled p mem_cons_self]

lemma Framed.sendFull : ∃ new, st.sendFull.2 = new.map Packet.bytes ∧
      st.sendFull.1.Framed (sent ++ new) current ∧ st.sendFull.1.ctx = st.ctx ∧
      ∀ p ∈ new, p.bytes.length ≤ clampPacketSize st.packetSize := by
  fun_induction WriteState.sendFull st generalizing sent with
  | case1 st hfull packet id hpacket st' packets hrest ih =>
    have hsize : headerLen + (st.buf.take st.bodyMax).length = clampPacketSize st.packetSize := by
      rw [List.length_take, Nat.min_eq_left hfull]
      simp only [bodyMax, clampPacketSize, minPacketSize, headerLen]
      omega
    have hfits : headerLen + (st.buf.take st.bodyMax).length ≤ maxPacketSize :=
      hsize.le.trans (clampPacketSize_le st.packetSize)
    set p := responsePacket .normal (st.buf.take st.bodyMax) st.spid st.nextPacketId hfits with hp
    change (p.bytes, _) = _ at hpacket
    cases hpacket
    have hne : st.buf.take st.bodyMax ≠ [] := by
      have := st.bodyMax_pos
      intro hnil
      have hlen := congrArg length hnil
      rw [List.length_take, Nat.min_eq_left hfull, List.length_nil] at hlen
      omega
    have hframed : ({ st with buf := st.buf.drop st.bodyMax, nextPacketId := st.nextPacketId + 1,
                              packetsSinceFlush := true } : WriteState).Framed (sent ++ [p])
        current := by
      obtain ⟨first, hnumbered⟩ := h.numbered
      refine ⟨?_, ?_, ?_, by simp, first, hnumbered.append ⟨rfl, rfl⟩⟩
      · rw [← h.bodies, bodiesOf_append, bodiesOf_cons, bodiesOf_nil, append_nil, append_assoc]
        exact congrArg _ (List.take_append_drop st.bodyMax st.buf)
      · intro q hq
        rcases mem_append.mp hq with hq | hq
        · exact h.running q hq
        · rw [List.mem_singleton.mp hq]
          exact ⟨rfl, rfl⟩
      · intro q hq
        rcases mem_append.mp hq with hq | hq
        · exact h.filled q hq
        · rw [List.mem_singleton.mp hq]
          exact hne
    obtain ⟨new, hnew, hframed', hctx, hlen⟩ := ih hframed
    rw [hrest] at hnew hframed' hctx
    refine ⟨p :: new, ?_, ?_, hctx, ?_⟩
    · rw [map_cons, ← hnew]
    · rwa [append_assoc] at hframed'
    · intro q hq
      rcases mem_cons.mp hq with rfl | hq
      · rw [Packet.length_bytes]
        exact hsize.le
      · exact hlen q hq
  | case2 st hfull => exact ⟨[], rfl, by rwa [append_nil], rfl, by simp⟩

variable {tokens : List Token} {ctx : EncodeContext}

omit h in
lemma writeTokensOn_error {e : TdsError} (hencode : encodeTokens st.ctx tokens = (ctx, .error e)) :
    st.writeTokensOn tokens = ({ st with ctx }, [], some e) := by
  cases tokens with
  | nil => simp [encodeTokens] at hencode
  | cons token rest => rw [writeTokensOn, if_neg (by simp), hencode]

lemma Framed.writeTokensOn {bytes : List UInt8}
    (hencode : encodeTokens st.ctx tokens = (ctx, .ok bytes)) :
    ∃ new, (st.writeTokensOn tokens).2 = (new.map Packet.bytes, none) ∧
      (st.writeTokensOn tokens).1.Framed (sent ++ new) (current ++ bytes) ∧
      (st.writeTokensOn tokens).1.ctx = ctx ∧
      ∀ p ∈ new, p.bytes.length ≤ clampPacketSize st.packetSize := by
  cases tokens with
  | nil =>
    cases hencode
    refine ⟨[], rfl, ?_, rfl, by simp⟩
    rw [append_nil, append_nil]
    exact h
  | cons token rest =>
    have hbuffered : ({ st with ctx, buf := st.buf ++ bytes } : WriteState).Framed sent
        (current ++ bytes) :=
      ⟨by rw [← h.bodies, append_assoc], h.running, h.filled, h.since, h.numbered⟩
    obtain ⟨new, hnew, hframed, hctx, hlen⟩ := hbuffered.sendFull
    rw [writeTokensOn, if_neg (by simp), hencode]
    exact ⟨new, congrArg (·, none) hnew, hframed, hctx, hlen⟩

end WriteState

/-- A message as a response travels: numbered packets, no bit set but the end-of-message bit. -/
structure Message.IsResponse (m : Message) : Prop where
  kind : m.kind = .tabularResult
  kept : m.ignored = false
  reset : m.reset = .none
  numbered : List.IsChain (fun p q => q.packetId = p.packetId + 1) m.packets

namespace WriteState

variable {st : WriteState} {sent : List Packet} {current : List UInt8}

lemma Framed.flushOn (h : st.Framed sent current) (hcurrent : current ≠ []) :
    ∃ (new : List Packet) (m : Message), st.flushOn.2 = new.map Packet.bytes ∧
      m.packets = sent ++ new ∧ m.payload = current ∧ m.IsResponse ∧
      st.flushOn.1.Framed [] [] ∧ st.flushOn.1.ctx = .default ∧
      ∀ p ∈ new, p.bytes.length ≤ clampPacketSize st.packetSize := by
  have hsent : ¬(st.buf.isEmpty && !st.packetsSinceFlush) = true := by
    intro hempty
    simp only [Bool.and_eq_true, List.isEmpty_iff, Bool.not_eq_true'] at hempty
    exact hcurrent (h.eq_nil_iff.mpr hempty)
  obtain ⟨init, last, hpackets, (hruns : RunsOn _ init), htype, hstatus, hlast, hbodies,
      hnumbered⟩ := splitMessageWith_spec 0x04 st.buf st.packetSize st.spid st.nextPacketId
  obtain ⟨first, hsentNumbered⟩ := h.numbered
  have hinit : ∀ p ∈ sent ++ init, p.type = 0x04 ∧ p.status = .normal := fun p hp =>
    (mem_append.mp hp).elim (h.running p) fun hp => ⟨(hruns p hp).1, (hruns p hp).2.1⟩
  let m : Message :=
    { init := sent ++ init
      last
      runsOn := fun p hp => by rw [(hinit p hp).2]; decide
      ends := by rw [hstatus]; decide
      oneType := fun p hp => (hinit p hp).1.trans htype.symm }
  have hm : m.packets = sent ++ (init ++ [last]) := append_assoc _ _ _
  rw [WriteState.flushOn, if_neg hsent]
  refine ⟨init ++ [last], m, hpackets, hm, ?_, ⟨?_, ?_, ?_, ?_⟩, ?_, rfl, ?_⟩
  · rw [payload, hm, bodiesOf_append, hbodies, h.bodies]
  · rw [kind, htype]
    decide
  · rw [ignored, hstatus]
    decide
  · have hfirst : ((sent ++ init).head?.getD last).status.reset = .none := by
      cases hhead : (sent ++ init).head? with
      | none =>
        rw [Option.getD_none, hstatus]
        decide
      | some p =>
        rw [Option.getD_some, (hinit p (List.mem_of_head? hhead)).2]
        decide
    exact hfirst
  · rw [hm]
    exact (hsentNumbered.append hnumbered).isChain
  · exact ⟨rfl, by simp, by simp, rfl, _, rfl⟩
  · intro p hp
    rcases mem_append.mp hp with hp | hp
    · exact (hruns p hp).2.2
    · rwa [List.mem_singleton.mp hp]

lemma Framed.flushOn_nil (h : st.Framed sent []) : st.flushOn = (st, []) := by
  obtain ⟨hbuf, hsince⟩ := h.eq_nil_iff.mp rfl
  rw [WriteState.flushOn, hbuf, hsince]
  rfl

end WriteState

/-! ### Sequences of calls -/

/-- The payload of each response that is closed, and what has been written of the next one. -/
def responses : EncodeContext → List UInt8 → List WriteCall → List (List UInt8) × List UInt8
  | _, current, [] => ([], current)
  | ctx, current, .writeTokens tokens :: calls =>
    match encodeTokens ctx tokens with
    | (ctx, .error _) => responses ctx current calls
    | (ctx, .ok bytes) => responses ctx (current ++ bytes) calls
  | ctx, current, .flush :: calls =>
    if current = [] then responses ctx current calls
    else
      let (closed, left) := responses .default [] calls
      (current :: closed, left)
  | ctx, current, .setPacketSize _ :: calls => responses ctx current calls
  | ctx, current, .setSpid _ :: calls => responses ctx current calls

/-- Runs the calls: the state they leave, and the packets they write with their packet sizes. -/
def WriteState.runCalls : WriteState → List WriteCall → WriteState × List (ℕ × List UInt8)
  | st, [] => (st, [])
  | st, call :: calls =>
    let (next, packets, _) := st.exec call
    let (final, more) := next.runCalls calls
    (final, packets.map (clampPacketSize st.packetSize, ·) ++ more)

namespace WriteState

/-- What a run of calls has written: the messages of the closed responses, and the first packets of
the next one. -/
structure Writes (sent : List Packet) (expected : List (List UInt8) × List UInt8)
    (final : WriteState) (written : List (ℕ × List UInt8)) : Prop where
  framed : ∃ (messages : List Message) (left : List Packet),
    sent.map Packet.bytes ++ written.map Prod.snd
      = (messages.flatMap packets ++ left).map Packet.bytes ∧
    messages.map payload = expected.1 ∧ (∀ m ∈ messages, m.IsResponse) ∧
    final.Framed left expected.2
  inForce : ∀ q ∈ written, q.2.length ≤ q.1

variable {sent new : List Packet} {expected : List (List UInt8) × List UInt8} {final : WriteState}
  {written : List (ℕ × List UInt8)} {size : ℕ}

lemma inForce_append (hnew : ∀ p ∈ new, p.bytes.length ≤ size)
    (hwritten : ∀ q ∈ written, q.2.length ≤ q.1) :
    ∀ q ∈ (new.map Packet.bytes).map (size, ·) ++ written, q.2.length ≤ q.1 := by
  intro q hq
  rcases mem_append.mp hq with hq | hq
  · simp only [List.map_map, List.mem_map, Function.comp_apply] at hq
    obtain ⟨p, hp, rfl⟩ := hq
    exact hnew p hp
  · exact hwritten q hq

lemma Writes.send (h : Writes (sent ++ new) expected final written)
    (hnew : ∀ p ∈ new, p.bytes.length ≤ size) :
    Writes sent expected final ((new.map Packet.bytes).map (size, ·) ++ written) := by
  obtain ⟨messages, left, hbytes, hrest⟩ := h.framed
  refine ⟨⟨messages, left, ?_, hrest⟩, inForce_append hnew h.inForce⟩
  rw [← hbytes]
  simp [Function.comp_def]

lemma Writes.close {m : Message} (h : Writes [] expected final written) (hm : m.IsResponse)
    (hpackets : m.packets = sent ++ new) (hnew : ∀ p ∈ new, p.bytes.length ≤ size) :
    Writes sent (m.payload :: expected.1, expected.2) final
      ((new.map Packet.bytes).map (size, ·) ++ written) := by
  obtain ⟨messages, left, hbytes, hpayloads, hresponses, hfinal⟩ := h.framed
  refine ⟨⟨m :: messages, left, ?_, by simp [hpayloads], ?_, hfinal⟩, inForce_append hnew h.inForce⟩
  · rw [List.map_nil, List.nil_append] at hbytes
    rw [List.map_append, hbytes]
    simp [hpackets, Function.comp_def]
  · intro n hn
    rcases mem_cons.mp hn with rfl | hn
    · exact hm
    · exact hresponses n hn

/-- **A run of calls writes the responses it is to send**, from any point of a response. -/
lemma runCalls_writes (calls : List WriteCall) : ∀ {st : WriteState} {sent : List Packet}
    {current : List UInt8}, st.Framed sent current →
    Writes sent (responses st.ctx current calls) (st.runCalls calls).1 (st.runCalls calls).2 := by
  induction calls with
  | nil =>
    intro st sent current h
    exact ⟨⟨[], sent, by simp [runCalls], rfl, by simp, h⟩, by simp [runCalls]⟩
  | cons call calls ih =>
    intro st sent current h
    cases call with
    | writeTokens tokens =>
      rw [runCalls, exec, responses]
      cases hencode : encodeTokens st.ctx tokens with
      | mk ctx encoded =>
        cases encoded with
        | error e =>
          have hsame : ({ st with ctx } : WriteState).Framed sent current := h.congr rfl rfl rfl
          rw [writeTokensOn_error hencode]
          exact ih hsame
        | ok bytes =>
          obtain ⟨new, hnew, hframed, hctx, hlen⟩ := h.writeTokensOn hencode
          have := (ih hframed).send hlen
          rw [hctx] at this
          simpa only [hnew] using this
    | setPacketSize size =>
      have hsame : ({ st with packetSize := size } : WriteState).Framed sent current :=
        h.congr rfl rfl rfl
      exact ih hsame
    | setSpid spid =>
      have hsame : ({ st with spid } : WriteState).Framed sent current := h.congr rfl rfl rfl
      exact ih hsame
    | flush =>
      rw [runCalls, exec, responses]
      by_cases hcurrent : current = []
      · subst hcurrent
        rw [if_pos rfl, h.flushOn_nil]
        exact ih h
      · obtain ⟨new, m, hnew, hpackets, hpayload, hm, hframed, hctx, hlen⟩ := h.flushOn hcurrent
        have := (ih hframed).close hm hpackets hlen
        rw [if_neg hcurrent, ← hpayload]
        rw [hctx] at this
        simpa only [hnew] using this

end WriteState

/-! ### Reading the responses back -/

/-- The messages of `n` successive calls of `readMessage`, and what they leave to be read. -/
def readMessages (maxMessageSize : ℕ) :
    ℕ → List UInt8 → Except TdsError (List RawMessage × List UInt8)
  | 0, input => .ok ([], input)
  | n + 1, input => do
      let (message, rest) ← readMessage maxMessageSize input
      let (messages, rest) ← readMessages maxMessageSize n rest
      .ok (message :: messages, rest)

variable {maxMessageSize : ℕ}

lemma readMessages_responses {rest : List UInt8} (messages : List Message) :
    (∀ m ∈ messages, m.IsResponse) → (∀ m ∈ messages, m.payload.length ≤ maxMessageSize) →
    readMessages maxMessageSize messages.length (streamOf messages ++ rest)
      = .ok (messages.map fun m => ⟨.tabularResult, m.payload, .none⟩, rest) := by
  induction messages with
  | nil => exact fun _ _ => rfl
  | cons m messages ih =>
    intro hresponses hsizes
    have hm := hresponses m mem_cons_self
    rw [List.length_cons, readMessages, streamOf_cons, append_assoc,
      readMessage_message (hsizes m mem_cons_self) hm.kept, hm.kind, hm.reset]
    simp only [bind, Except.bind, map_cons]
    rw [ih (fun n hn => hresponses n (mem_cons_of_mem m hn))
      (fun n hn => hsizes n (mem_cons_of_mem m hn))]

lemma readMessageFrom_runs_on (left : List Packet) :
    ∀ (first : Option (PacketType × ResetConnection)) (payload : List UInt8)
      (r : RawMessage × List UInt8), (∀ p ∈ left, p.status.contains .eom = false) →
      readMessageFrom maxMessageSize first payload (bytesOf left) ≠ .ok r := by
  induction left with
  | nil =>
    intro first payload r _ h
    rw [readMessageFrom] at h
    cases h
  | cons p left ih =>
    intro first payload r hopen h
    rw [readMessageFrom] at h
    split at h
    next => contradiction
    next header afterHeader hheader =>
      rw [bytesOf_cons, p.readHeader_append] at hheader
      cases hheader
      split at h
      next => contradiction
      next kind reset hfirst =>
        by_cases hsize : maxMessageSize < payload.length + (p.header.length.toNat - headerLen)
        · simp only [if_pos hsize] at h
          contradiction
        simp only [if_neg hsize] at h
        split at h
        next => contradiction
        next body rest' hbody =>
          rw [p.readExact_body] at hbody
          cases hbody
          rw [show p.header.status.contains .eom = false from hopen p mem_cons_self] at h
          exact ih _ _ r (fun q hq => hopen q (mem_cons_of_mem p hq)) h

lemma streamOf_eq (messages : List Message) :
    streamOf messages = bytesOf (messages.flatMap packets) := by
  rw [bytesOf, List.flatMap_assoc]
  rfl

/-- **One message per response.**  Whatever the calls, beginning where nothing has been written
since the last flush: what they put on the transport is one message for each response that a
flush has closed, with the tokens encoded since the flush before as its payload, and then the
first packets of the open response.  The end-of-message bit is on the last packet of each
message only, no packet is longer than the packet size in force when it was cut, the packets of
a message are numbered one after the other, and reading the bytes back gives those messages and
no other. -/
theorem written_responses (st : WriteState) (hbuf : st.buf = [])
    (hsince : st.packetsSinceFlush = false) (calls : List WriteCall) (maxMessageSize : ℕ)
    (hmax : ∀ payload ∈ (responses st.ctx [] calls).1, payload.length ≤ maxMessageSize) :
    ∃ (messages : List Message) (left : List Packet),
      (st.runCalls calls).2.map Prod.snd
        = (messages.flatMap packets ++ left).map Packet.bytes ∧
      messages.map payload = (responses st.ctx [] calls).1 ∧
      bodiesOf left ++ (st.runCalls calls).1.buf = (responses st.ctx [] calls).2 ∧
      (∀ m ∈ messages, m.IsResponse) ∧ (∀ p ∈ left, p.status.contains .eom = false) ∧
      (∀ q ∈ (st.runCalls calls).2, q.2.length ≤ q.1) ∧
      readMessages maxMessageSize messages.length ((st.runCalls calls).2.map Prod.snd).flatten
        = .ok ((responses st.ctx [] calls).1.map fun payload => ⟨.tabularResult, payload, .none⟩,
            bytesOf left) ∧
      ∀ r, readMessage maxMessageSize (bytesOf left) ≠ .ok r := by
  have hframed : st.Framed [] [] := ⟨hbuf, by simp, by simp, hsince, st.nextPacketId, rfl⟩
  obtain ⟨⟨messages, left, hbytes, hpayloads, hresponses, hfinal⟩, hinForce⟩ :=
    WriteState.runCalls_writes calls hframed
  have hleft : ∀ p ∈ left, p.status.contains .eom = false := fun p hp => by
    rw [(hfinal.running p hp).2]
    decide
  have hsizes : ∀ m ∈ messages, m.payload.length ≤ maxMessageSize := fun m hm =>
    hmax m.payload (hpayloads ▸ List.mem_map_of_mem hm)
  rw [List.map_nil, List.nil_append] at hbytes
  refine ⟨messages, left, hbytes, hpayloads, hfinal.bodies, hresponses, hleft, hinForce, ?_,
    fun r => readMessageFrom_runs_on left none [] r hleft⟩
  have hstream : ((st.runCalls calls).2.map Prod.snd).flatten
      = streamOf messages ++ bytesOf left := by
    rw [hbytes, streamOf_eq, ← bytesOf_append]
    exact (List.flatMap_def ..).symm
  rw [hstream, readMessages_responses messages hresponses hsizes, ← hpayloads, List.map_map]
  rfl

/-- Two responses: the first is cut in packets, with a change of the packet size in between, and a
flush follows that has nothing to close. -/
theorem two_responses_two_messages :
    let status : ℕ → List UInt8 := fun n => (List.replicate n [0x79, 7, 0, 0, 0]).flatten
    let calls := [.setPacketSize 512, .writeTokens (List.replicate 250 (.returnStatus 7)),
      .setPacketSize 1024, .writeTokens (List.replicate 250 (.returnStatus 7)), .flush,
      .writeTokens [.returnStatus 7], .flush, .flush]
    (WriteState.new.runCalls calls).2.map Prod.fst = [512, 512, 1024, 1024, 1024] ∧
    ∃ (messages : List Message), messages.map payload = [status 500, status 1] ∧
      ∃ left, readMessages 3000 2 ((WriteState.new.runCalls calls).2.map Prod.snd).flatten
        = .ok ([⟨.tabularResult, status 500, .none⟩, ⟨.tabularResult, status 1, .none⟩],
            bytesOf left) := by
  intro status calls
  have hclosed : (responses .default [] calls).1 = [status 500, status 1] := by
    decide +kernel
  obtain ⟨messages, left, -, hpayloads, -, -, -, -, hread, -⟩ :=
    written_responses .new rfl rfl calls 3000 (by
      intro payload hpayload
      rw [show WriteState.new.ctx = .default from rfl, hclosed] at hpayload
      have hlength : ∀ n, (status n).length = n * 5 := fun n => by simp [status]
      simp only [List.mem_cons, List.not_mem_nil, or_false] at hpayload
      rcases hpayload with rfl | rfl <;> simp only [hlength] <;> decide)
  rw [show WriteState.new.ctx = .default from rfl, hclosed] at hpayloads hread
  have hlength : messages.length = 2 := by simpa using congrArg length hpayloads
  rw [hlength] at hread
  exact ⟨by decide +kernel, messages, hpayloads, left, hread⟩

end VaubanDB.Tds
