import Sponge.Replies
import Sponge.System

/-!
# A well-behaved owner

An `Endpoint` whose owner makes the calls of a `TCPConnection`: what no call looks at, and what
every call keeps as long as the owner is well-behaved.

* `call_before`: segments that have been put out are not looked at again;
* `Outgoing`: what is written is counted, the input ends when it is ended, and every segment is
  small and has a plain header.
-/

namespace Sponge

open Relation TCPSender

/-! ## Segments put out earlier -/

namespace TCPConnection

/-- The connection with `segs` still at the front of its queue. -/
def before (c : TCPConnection) (segs : List TCPSegment) : TCPConnection :=
  { c with segmentsOut := segs ++ c.segmentsOut }

theorem realSend_before (c : TCPConnection) (segs : List TCPSegment) :
    (c.before segs).realSend = (c.realSend.1.before segs, c.realSend.2) := by
  simp only [realSend, before, List.append_assoc]
  rfl

theorem fillAndSend_before {c d : TCPConnection} {isSend : Bool} (segs : List TCPSegment)
    (h : c.fillAndSend = .ok (d, isSend)) :
    (c.before segs).fillAndSend = .ok (d.before segs, isSend) := by
  obtain ⟨s, hs, h⟩ := Exec.bind_eq_ok.mp h
  refine Exec.bind_eq_ok.mpr ⟨s, hs, ?_⟩
  have hsend := realSend_before { c with sender := s } segs
  cases h
  exact congrArg Except.ok hsend

theorem noteInboundEnd_before (c : TCPConnection) (segs : List TCPSegment) :
    (c.before segs).noteInboundEnd = c.noteInboundEnd.before segs := by
  rw [noteInboundEnd_eq, noteInboundEnd_eq]
  rfl

theorem takeSegment_before {c d : TCPConnection} {seg : TCPSegment} (segs : List TCPSegment)
    (h : c.takeSegment = .ok (seg, d)) :
    (c.before segs).takeSegment = .ok (seg, d.before segs) := by
  unfold takeSegment at h ⊢
  split at h
  · cases h
  · rename_i hout
    cases h
    simp only [before, hout]
    rfl

theorem takeAck_before {c d : TCPConnection} {seg : TCPSegment} (segs : List TCPSegment)
    (h : c.takeAck seg = .ok d) : (c.before segs).takeAck seg = .ok (d.before segs) := by
  unfold takeAck at h ⊢
  split at h
  · rename_i hack
    obtain ⟨s, hs, h⟩ := Exec.bind_eq_ok.mp h
    rw [if_pos hack]
    refine Exec.bind_eq_ok.mpr ⟨s, hs, ?_⟩
    have hsend := realSend_before { c with sender := s } segs
    cases h
    exact congrArg (fun r => Except.ok r.1) hsend
  · rename_i hack
    cases h
    rw [if_neg hack]

theorem replyTo_before {c d : TCPConnection} {seg : TCPSegment} (segs : List TCPSegment)
    (h : c.replyTo seg = .ok d) : (c.before segs).replyTo seg = .ok (d.before segs) := by
  unfold replyTo at h ⊢
  split at h
  · rename_i hlen
    rw [if_pos hlen]
    obtain ⟨⟨e, isSend⟩, he, h⟩ := Exec.bind_eq_ok.mp h
    refine Exec.bind_eq_ok.mpr ⟨_, fillAndSend_before segs he, ?_⟩
    dsimp only at h ⊢
    cases isSend with
    | true =>
      cases h
      rfl
    | false =>
      obtain ⟨⟨ackSeg, f⟩, hf, h⟩ := Exec.bind_eq_ok.mp h
      refine Exec.bind_eq_ok.mpr ⟨_, takeSegment_before segs hf, ?_⟩
      cases h
      simp only [before, List.append_assoc]
      rfl
  · rename_i hlen
    cases h
    rw [if_neg hlen]

theorem closeIfDone_before (c : TCPConnection) (segs : List TCPSegment) :
    (c.before segs).closeIfDone = c.closeIfDone.before segs := by
  unfold closeIfDone
  change (if c.checkInboundEnded && c.checkOutboundEnded then _ else _) = _
  split
  · change (if !c.lingerAfterStreamsFinish then _ else _) = _
    split
    · rfl
    · change (if c.timeSinceLastSegmentReceived ≥ 10 * c.cfg.rtTimeout.toNat then _ else _) = _
      split
      · rfl
      · rfl
  · rfl

theorem resend_before {c d : TCPConnection} (segs : List TCPSegment) (h : c.resend = .ok d) :
    (c.before segs).resend = .ok (d.before segs) := by
  unfold resend at h ⊢
  change (if c.sender.segmentsOut.length > 0 then _ else _) = _
  split at h
  · rename_i hlen
    rw [if_pos hlen]
    obtain ⟨⟨seg, e⟩, he, h⟩ := Exec.bind_eq_ok.mp h
    refine Exec.bind_eq_ok.mpr ⟨_, takeSegment_before segs he, ?_⟩
    dsimp only at h ⊢
    change (if e.sender.consecutiveRetransmissions.toNat > maxRetxAttempts then _ else _) = _
    split at h
    · rename_i hmany
      cases h
      rw [if_pos hmany]
      simp only [before, setErrors, List.append_assoc]
      rfl
    · rename_i hmany
      cases h
      rw [if_neg hmany]
      simp only [before, List.append_assoc]
      rfl
  · rename_i hlen
    rw [if_neg hlen]
    cases h
    rfl

theorem write_before {c d : TCPConnection} {data : List Byte} {n : Nat} (segs : List TCPSegment)
    (h : c.write data = .ok (d, n)) : (c.before segs).write data = .ok (d.before segs, n) := by
  unfold write at h ⊢
  split at h
  · rename_i hlen
    cases h
    rw [if_pos hlen]
    rfl
  · rename_i hlen
    rw [if_neg hlen]
    obtain ⟨⟨e, isSend⟩, he, h⟩ := Exec.bind_eq_ok.mp h
    cases h
    exact Exec.bind_eq_ok.mpr ⟨_, fillAndSend_before segs he, rfl⟩

/-- **No call looks at what has been put out.** -/
theorem call_before {c d : TCPConnection} {e : Event} (segs : List TCPSegment)
    (hne : e ≠ .collect) (h : c.call e = .ok d) :
    (c.before segs).call e = .ok (d.before segs) := by
  cases e with
  | connect =>
    obtain ⟨⟨f, isSend⟩, hf, h⟩ := Exec.bind_eq_ok.mp h
    cases h
    exact Exec.bind_eq_ok.mpr ⟨_, fillAndSend_before segs hf, rfl⟩
  | endInputStream =>
    obtain ⟨⟨f, isSend⟩, hf, h⟩ := Exec.bind_eq_ok.mp h
    cases h
    exact Exec.bind_eq_ok.mpr ⟨_, fillAndSend_before segs hf, rfl⟩
  | write data =>
    obtain ⟨⟨f, n⟩, hf, h⟩ := Exec.bind_eq_ok.mp h
    cases h
    exact Exec.bind_eq_ok.mpr ⟨_, write_before segs hf, rfl⟩
  | tick ms =>
    obtain ⟨s, hs, h⟩ := Exec.bind_eq_ok.mp h
    obtain ⟨f, hf, h⟩ := Exec.bind_eq_ok.mp h
    cases h
    refine Exec.bind_eq_ok.mpr ⟨s, hs, Exec.bind_eq_ok.mpr ⟨_, resend_before segs hf, ?_⟩⟩
    exact congrArg Except.ok (closeIfDone_before f segs)
  | segmentReceived seg =>
    change c.segmentReceived seg = _ at h
    change (c.before segs).segmentReceived seg = _
    unfold segmentReceived at h ⊢
    dsimp only at h ⊢
    split at h
    · rename_i hrst
      cases h
      rw [if_pos hrst]
      rfl
    · rename_i hrst
      rw [if_neg hrst]
      obtain ⟨r, hr, h⟩ := Exec.bind_eq_ok.mp h
      obtain ⟨f, hf, h⟩ := Exec.bind_eq_ok.mp h
      refine Exec.bind_eq_ok.mpr ⟨r, hr, Exec.bind_eq_ok.mpr ⟨f.before segs, ?_,
        replyTo_before segs h⟩⟩
      have hack := takeAck_before segs hf
      rw [← noteInboundEnd_before] at hack
      exact hack
  | read len =>
    cases h
    rfl
  | collect => exact absurd rfl hne

end TCPConnection

/-! ## What the calls keep -/

/-- A segment without options that fits into any datagram. -/
def TCPSegment.Plain (seg : TCPSegment) : Prop :=
  seg.header.doff = 5 ∧ seg.payload.length ≤ maxPayloadSize

/-- The sender of a connection to which `W` has been written, whose input has `ended` or not, and
which puts out plain segments. -/
structure Outgoing (W : List Byte) (ended : Bool) (c : TCPConnection) : Prop where
  raw : RawQueues c.sender
  counted : Counted W c.sender
  ended : c.sender.stream.endWrite = ended
  out : ∀ seg ∈ c.segmentsOut, seg.Plain

theorem plain_stamped {seg : TCPSegment} (h : Raw seg) (c : TCPConnection) (rst : Bool) :
    (c.stamped rst seg).Plain := by
  unfold TCPConnection.stamped TCPConnection.setAckAndWindowsize
  cases rst <;> cases c.receiver.ackno <;> exact ⟨h.doff, h.short⟩

theorem outgoing_new (cfg : TCPConfig) : Outgoing [] false (.new cfg) where
  raw := rawQueues_new _ _ _
  counted := counted_new _ _ _
  ended := rfl
  out := by simp [TCPConnection.new]

theorem outgoing_emits {W : List Byte} {ended : Bool} {c : TCPConnection} {s : TCPSender}
    (h : Outgoing W ended c) (he : Emits c.sender s) : Outgoing W ended { c with sender := s } := by
  have hraw := he.rawQueues h.raw
  cases he with
  | syn hs => exact ⟨hraw, counted_syn h.counted hs, h.ended, h.out⟩
  | bytes may =>
    exact ⟨hraw, counted_bytes h.counted may, (ByteStream.popOutput_endWrite _ _).trans h.ended,
      h.out⟩

theorem outgoing_fillWindow {W : List Byte} {ended : Bool} {c : TCPConnection} {s : TCPSender}
    (h : Outgoing W ended c) (hs : c.sender.fillWindow = .ok s) :
    Outgoing W ended { c with sender := s } :=
  fillWindow_invariant (P := fun s => Outgoing W ended { c with sender := s })
    (fun u _ hu he => @outgoing_emits W ended { c with sender := u } _ hu he) h hs

theorem outgoing_move {W : List Byte} {ended : Bool} {acks : TCPSender → WrappingInt32 → Prop}
    {c d : TCPConnection} (h : Outgoing W ended c) (hm : TCPConnection.Move acks c d) :
    Outgoing W ended d := by
  have hc := h.counted
  have hraw := TCPConnection.rawQueues_move h.raw hm
  cases hm with
  | fill hs => exact outgoing_fillWindow h hs
  | @ack _ _ windowSize _ hs =>
    obtain rfl | ⟨_, gone, rest, freeSpace, _, _, hsplit, _, hfill⟩ :=
      ackReceived_any h.raw.toTally hs
    · exact h
    · have htrim : Outgoing W ended
          { c with sender := c.sender.trimmed windowSize freeSpace gone rest } :=
        ⟨rawQueues_trimmed h.raw _ _ hsplit, hc.frame rfl rfl, h.ended,
          h.out⟩
      exact (outgoing_fillWindow htrim hfill :)
  | tick hs =>
    obtain ⟨_, _, _, _, _, rfl⟩ := tick_ok hs
    exact ⟨hraw, hc.frame rfl rfl, h.ended, h.out⟩
  | empty _ => exact ⟨hraw, hc.frame rfl rfl, h.ended, h.out⟩
  | @put seg rest rst ho =>
    have hfront : Raw seg := h.raw.out seg (by rw [ho]; exact List.mem_cons_self)
    exact ⟨hraw, hc.frame rfl rfl, h.ended,
      forall_mem_snoc h.out (plain_stamped hfront c rst)⟩
  | note _ _ => exact ⟨hraw, hc, h.ended, h.out⟩
  | fail => exact ⟨hraw, hc.frame rfl rfl, h.ended, h.out⟩
  | done _ _ => exact ⟨hraw, hc, h.ended, h.out⟩

theorem outgoing_moves {W : List Byte} {ended : Bool} {acks : TCPSender → WrappingInt32 → Prop}
    {c d : TCPConnection} (h : Outgoing W ended c)
    (hm : ReflTransGen (TCPConnection.Move acks) c d) : Outgoing W ended d := by
  induction hm with
  | refl => exact h
  | tail _ hm ih => exact outgoing_move ih hm

theorem outgoing_act {e peer f : Endpoint} {action : Action} {ended : Bool}
    (h : Outgoing e.written ended e.conn) (hact : e.act peer action = .ok f) :
    ∃ ended', Outgoing f.written ended' f.conn ∧
      (ended' = ended ∨ action = .endInputStream ∧ ended' = true) := by
  obtain ⟨c, acks, htakes, hmoves⟩ := act_takes hact
  have hc := h.counted
  suffices hinput : ∃ ended', Outgoing f.written ended' c ∧
      (ended' = ended ∨ action = .endInputStream ∧ ended' = true) by
    obtain ⟨ended', houtgoing, hended⟩ := hinput
    exact ⟨ended', outgoing_moves houtgoing hmoves, hended⟩
  clear hmoves
  generalize f.written = W, f.delivered = got at htakes ⊢
  cases htakes with
  | nothing => exact ⟨ended, h, .inl rfl⟩
  | write =>
    exact ⟨ended, ⟨h.raw.withStream _, counted_write hc _, h.ended, h.out⟩, .inl rfl⟩
  | endInput =>
    exact ⟨true, ⟨h.raw.withStream _, hc.frame rfl rfl, rfl, h.out⟩,
      .inr ⟨rfl, rfl⟩⟩
  | read =>
    exact ⟨ended, ⟨h.raw, hc, h.ended, h.out⟩, .inl rfl⟩
  | segment _ _ _ =>
    exact ⟨ended, ⟨h.raw, hc, h.ended, h.out⟩, .inl rfl⟩

/-! ## Calls on an endpoint -/

namespace Endpoint

open TCPConnection (Event)

/-- A call on the connection, with the bytes that are written or read. -/
def call (e : Endpoint) : Event → Except Fault Endpoint
  | .write data => do
    let (conn, n) ← e.conn.write data
    return { e with conn := conn, written := e.written ++ data.take n }
  | .read len =>
    let (conn, bytes) := e.conn.readInbound len
    .ok { e with conn := conn, delivered := e.delivered ++ bytes }
  | event => do
    let conn ← e.conn.call event
    return { e with conn := conn }

/-- What a well-behaved owner calls: nothing is written that does not fit, or after the end of
input; nothing is read that is not there; no segment is taken off the queue. A segment that
arrives is one that can be heard. -/
def Lawful (heard : TCPReceiver → TCPSegment → Prop) (e : Endpoint) : Event → Prop
  | .write data => e.conn.sender.stream.inputEnded = false ∧
      data.length ≤ e.conn.remainingOutboundCapacity
  | .read len => len ≤ e.conn.inboundStream.bufferSize
  | .segmentReceived seg => heard e.conn.receiver seg
  | .collect => False
  | .connect | .endInputStream | .tick _ => True

theorem call_conn {e f : Endpoint} {event : Event} (h : e.call event = .ok f) :
    e.conn.call event = .ok f.conn := by
  cases event with
  | write data =>
    obtain ⟨⟨conn, n⟩, hw, h⟩ := Exec.bind_eq_ok.mp h
    cases h
    exact Exec.bind_eq_ok.mpr ⟨_, hw, rfl⟩
  | read len =>
    cases h
    rfl
  | connect | endInputStream | tick _ | segmentReceived _ | collect =>
    obtain ⟨conn, hc, h⟩ := Exec.bind_eq_ok.mp h
    cases h
    exact hc

/-- A call is an action. A segment that arrives is delivered by a peer that has put it out. -/
theorem call_act {e f : Endpoint} {event : Event} (hne : event ≠ .collect)
    (h : e.call event = .ok f) : ∃ peer action, e.act peer action = .ok f ∧
      (action = .endInputStream → event = .endInputStream) := by
  cases event with
  | connect => exact ⟨e, .connect, h, fun h => nomatch h⟩
  | write data => exact ⟨e, .write data, h, fun h => nomatch h⟩
  | endInputStream => exact ⟨e, .endInputStream, h, fun _ => rfl⟩
  | tick ms => exact ⟨e, .tick ms, h, fun h => nomatch h⟩
  | read len => exact ⟨e, .read len, h, fun h => nomatch h⟩
  | segmentReceived seg =>
    exact ⟨{ e with conn := { e.conn with segmentsOut := [seg] } }, .deliver 0, h,
      fun h => nomatch h⟩
  | collect => exact absurd rfl hne

/-- An endpoint on which only lawful calls have been made, with any segments arriving. -/
def Runs (cfg : TCPConfig) (e : Endpoint) : Prop :=
  Exec.Reach call (Lawful fun _ _ => True) (.new cfg) e

theorem Lawful.mono {heard heard' : TCPReceiver → TCPSegment → Prop} {e : Endpoint}
    {event : Event} (h : Lawful heard e event) (hle : ∀ t seg, heard t seg → heard' t seg) :
    Lawful heard' e event := by
  cases event with
  | segmentReceived seg => exact hle _ seg h
  | connect | write _ | endInputStream | tick _ | read _ | collect => exact h

theorem Runs.sound {cfg : TCPConfig} {e : Endpoint} (h : Runs cfg e) : Replies.Sound e.conn :=
  h.invariant (I := fun e => Replies.Sound e.conn) (Replies.sound_new cfg)
    fun _ _ _ hs _ hcall => Replies.sound_call hs (call_conn hcall)

theorem lawful_collects {heard : TCPReceiver → TCPSegment → Prop} {e : Endpoint} {event : Event}
    (h : Lawful heard e event) : event ≠ .collect := by
  rintro rfl
  exact h

theorem Runs.outgoing {cfg : TCPConfig} {e : Endpoint} (h : Runs cfg e) :
    ∃ ended, Outgoing e.written ended e.conn := by
  apply h.invariant (I := fun e => ∃ ended, Outgoing e.written ended e.conn)
    ⟨false, outgoing_new cfg⟩
  rintro e event f ⟨ended, hs⟩ hl hcall
  obtain ⟨peer, action, hact, -⟩ := call_act (lawful_collects hl) hcall
  obtain ⟨ended', hf, -⟩ := outgoing_act hs hact
  exact ⟨ended', hf⟩

/-- What has been delivered is counted by the inbound stream. -/
theorem Runs.delivered {cfg : TCPConfig} {e : Endpoint} (h : Runs cfg e) :
    e.delivered.length = e.conn.inboundStream.bytesRead := by
  suffices hboth : Replies.Sound e.conn ∧ e.delivered.length = e.conn.inboundStream.bytesRead from
    hboth.2
  apply h.invariant (I := fun e => Replies.Sound e.conn ∧
    e.delivered.length = e.conn.inboundStream.bytesRead) ⟨Replies.sound_new cfg, rfl⟩
  rintro e event f ⟨hs, hcount⟩ hl hcall
  refine ⟨Replies.sound_call hs (call_conn hcall), ?_⟩
  obtain ⟨peer, action, hact, -⟩ := call_act (lawful_collects hl) hcall
  obtain ⟨c, acks, htakes, hmoves⟩ := act_takes hact
  obtain ⟨err, herr⟩ := moves_receiver hmoves
  suffices hinput : f.delivered.length = c.inboundStream.bytesRead by
    rw [hinput, TCPConnection.inboundStream, TCPConnection.inboundStream, herr]
    rfl
  clear hmoves herr
  generalize f.written = W, f.delivered = got at htakes ⊢
  cases htakes with
  | nothing | write | endInput => exact hcount
  | @read len =>
    have hle := e.conn.inboundStream.readBytes_le_popOutput len
    have hbytes := e.conn.inboundStream.read_snd len
    have hleft := congrArg List.length (e.conn.inboundStream.popOutput_buffer len)
    have hcounts := (e.conn.inboundStream.popOutput len).counts
    have hwritten := e.conn.inboundStream.counts
    rw [ByteStream.popOutput_writtenBytes] at hcounts
    change (e.delivered ++ (e.conn.inboundStream.read len).2).length =
      (e.conn.inboundStream.read len).1.readBytes
    rw [ByteStream.read_fst, List.length_append, hbytes, hcount, ByteStream.bytesRead,
      List.length_take]
    rw [List.length_drop] at hleft
    omega
  | segment _ _ hr => exact hcount.trans (Replies.readBytes_segment hs.intact hr).symm

/-- Only `end_input_stream` ends the outbound stream. -/
theorem Runs.call_endWrite {heard : TCPReceiver → TCPSegment → Prop} {cfg : TCPConfig}
    {e f : Endpoint} {event : Event} (h : Runs cfg e) (hl : Lawful heard e event)
    (hne : event ≠ .endInputStream) (hcall : e.call event = .ok f) :
    f.conn.sender.stream.endWrite = e.conn.sender.stream.endWrite := by
  obtain ⟨ended, hs⟩ := h.outgoing
  obtain ⟨peer, action, hact, haction⟩ := call_act (lawful_collects hl) hcall
  obtain ⟨ended', hf, hsame | ⟨hend, -⟩⟩ := outgoing_act hs hact
  · rw [hf.ended, hsame, hs.ended]
  · exact absurd (haction hend) hne

/-- A run of lawful calls that has come from `e₀` to `e`, and began with a new connection. -/
structure Course (heard : TCPReceiver → TCPSegment → Prop) (cfg : TCPConfig) (e₀ e : Endpoint) :
    Prop where
  runs : Runs cfg e
  since : Exec.Reach call (Lawful heard) e₀ e

theorem Course.start {heard : TCPReceiver → TCPSegment → Prop} {cfg : TCPConfig} {e : Endpoint}
    (h : Runs cfg e) : Course heard cfg e e := ⟨h, .start⟩

theorem Course.next {heard : TCPReceiver → TCPSegment → Prop} {cfg : TCPConfig}
    {e₀ e f : Endpoint} {event : Event} (h : Course heard cfg e₀ e) (hl : Lawful heard e event)
    (hcall : e.call event = .ok f) : Course heard cfg e₀ f :=
  ⟨h.runs.next (hl.mono fun _ _ _ => trivial) hcall, h.since.next hl hcall⟩

end Endpoint

end Sponge
