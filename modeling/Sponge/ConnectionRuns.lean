import Sponge.ConnectionSpec

/-!
# Calls on one connection

The calls that the owner of a `TCPConnection` makes, with any segments arriving. Between
them the sender's own queue is empty (`drained_call`), and then each call has an equation:
the sender's part, and the segments it leaves, which all go out with the receiver's
acknowledgement and window.

* `fills_spec`, `segmentReceived_spec`, `tick_spec`: these equations;
* `call_inactive`, `call_active`: how a call ends a connection, and that it stays ended.
-/

namespace Sponge.TCPConnection

open TCPSender

inductive Event
  | connect
  | write (data : List Byte)
  | endInputStream
  | tick (msSinceLastTick : Nat)
  | segmentReceived (seg : TCPSegment)
  | read (len : Nat)
  | collect

def call (c : TCPConnection) : Event → Except Fault TCPConnection
  | .connect => c.connect
  | .write data => do
    let (c, _) ← c.write data
    return c
  | .endInputStream => c.endInputStream
  | .tick ms => c.tick ms
  | .segmentReceived seg => c.segmentReceived seg
  | .read len => .ok (c.readInbound len).1
  | .collect => .ok { c with segmentsOut := [] }

/-! ## Segments going out -/

/-- The sender `s` in place, with an empty queue, and `segs` put out. -/
def sent (c : TCPConnection) (s : TCPSender) (segs : List TCPSegment) : TCPConnection :=
  { c with
    sender := { s with segmentsOut := [] }
    segmentsOut := c.segmentsOut ++ segs.map c.setAckAndWindowsize }

theorem sent_sent (c : TCPConnection) (s t : TCPSender) (xs ys : List TCPSegment) :
    (c.sent s xs).sent t ys = c.sent t (xs ++ ys) := by
  simp only [sent, List.map_append, List.append_assoc]
  rfl

theorem sent_self {c : TCPConnection} (h : c.sender.segmentsOut = []) : c.sent c.sender [] = c := by
  have hsender : { c.sender with segmentsOut := [] } = c.sender := by rw [← h]
  simp only [sent, hsender, List.map_nil, List.append_nil]

theorem fillAndSend_spec {c d : TCPConnection} {isSend : Bool}
    (h : c.fillAndSend = .ok (d, isSend)) : ∃ s, c.sender.fillWindow = .ok s ∧
      d = c.sent s s.segmentsOut ∧ isSend = !s.segmentsOut.isEmpty := by
  obtain ⟨s, hs, h⟩ := Exec.bind_eq_ok.mp h
  cases h
  exact ⟨s, hs, rfl, rfl⟩

theorem connect_spec {c d : TCPConnection} (h : c.connect = .ok d) :
    ∃ s, c.sender.fillWindow = .ok s ∧ d = c.sent s s.segmentsOut := by
  obtain ⟨⟨e, isSend⟩, he, h⟩ := Exec.bind_eq_ok.mp h
  cases h
  obtain ⟨s, hs, hd, -⟩ := fillAndSend_spec he
  exact ⟨s, hs, hd⟩

/-- The sender with what the application writes. -/
def wrote (s : TCPSender) (data : List Byte) : TCPSender :=
  { s with stream := (s.stream.write data).1 }

theorem write_spec {c d : TCPConnection} {data : List Byte} {n : Nat}
    (h : c.write data = .ok (d, n)) :
    (data = [] ∧ d = c) ∨ ∃ s, (wrote c.sender data).fillWindow = .ok s ∧
      d = c.sent s s.segmentsOut := by
  unfold write at h
  split at h
  · rename_i hlen
    cases h
    exact Or.inl ⟨List.length_eq_zero_iff.mp hlen, rfl⟩
  · obtain ⟨⟨e, isSend⟩, he, h⟩ := Exec.bind_eq_ok.mp h
    cases h
    obtain ⟨s, hs, rfl, -⟩ := fillAndSend_spec he
    exact Or.inr ⟨s, hs, rfl⟩

theorem endInputStream_spec {c d : TCPConnection} (h : c.endInputStream = .ok d) :
    ∃ s, { c.sender with stream := c.sender.stream.endInput }.fillWindow = .ok s ∧
      d = c.sent s s.segmentsOut := by
  obtain ⟨⟨e, isSend⟩, he, h⟩ := Exec.bind_eq_ok.mp h
  cases h
  obtain ⟨s, hs, rfl, -⟩ := fillAndSend_spec he
  exact ⟨s, hs, rfl⟩

/-- The calls that do no more than let the sender fill the window. -/
def Event.fills : Event → Bool
  | .connect | .write _ | .endInputStream => true
  | _ => false

/-- **Filling the window.** The outbound stream may have changed first. -/
theorem fills_spec {c d : TCPConnection} {e : Event} (he : e.fills = true)
    (h : c.call e = .ok d) : d = c ∨ ∃ stream s,
      { c.sender with stream := stream }.fillWindow = .ok s ∧ d = c.sent s s.segmentsOut := by
  cases e with
  | connect =>
    obtain ⟨s, hs, hd⟩ := connect_spec h
    exact Or.inr ⟨c.sender.stream, s, hs, hd⟩
  | write data =>
    obtain ⟨⟨d, n⟩, hw, h⟩ := Exec.bind_eq_ok.mp h
    cases h
    rcases write_spec hw with ⟨-, hd⟩ | ⟨s, hs, hd⟩
    · exact Or.inl hd
    · exact Or.inr ⟨(c.sender.stream.write data).1, s, hs, hd⟩
  | endInputStream =>
    obtain ⟨s, hs, hd⟩ := endInputStream_spec h
    exact Or.inr ⟨c.sender.stream.endInput, s, hs, hd⟩
  | tick _ | segmentReceived _ | read _ | collect => cases he

/-- The sender's part in the acknowledgement of an arriving segment. -/
inductive TakesAck (seg : TCPSegment) (s : TCPSender) : TCPSender → List TCPSegment → Prop
  | without : seg.header.ack = false → TakesAck seg s s []
  | given {t : TCPSender} : seg.header.ack = true →
      s.ackReceived seg.header.ackno seg.header.win = .ok t →
      TakesAck seg s { t with segmentsOut := [] } t.segmentsOut

/-- The sender's part in the answer to an arriving segment. -/
inductive Answers (seg : TCPSegment) (s : TCPSender) : TCPSender → List TCPSegment → Prop
  | nothing : seg.lengthInSequenceSpace = 0 → Answers seg s s []
  | fills {t : TCPSender} : 0 < seg.lengthInSequenceSpace → s.fillWindow = .ok t →
      t.segmentsOut ≠ [] → Answers seg s { t with segmentsOut := [] } t.segmentsOut
  | empty {t : TCPSender} : 0 < seg.lengthInSequenceSpace → s.fillWindow = .ok t →
      t.segmentsOut = [] → Answers seg s t [{ header := { seqno := wrap t.nextSeqno t.isn } }]

theorem tally_takesAck {seg : TCPSegment} {s t : TCPSender} {segs : List TCPSegment}
    (h : Tally s) (ht : TakesAck seg s t segs) : Tally t := by
  cases ht with
  | without => exact h
  | given _ hr => exact (tally_ackReceived h hr).withOut []

theorem tally_answers {seg : TCPSegment} {s t : TCPSender} {segs : List TCPSegment}
    (h : Tally s) (ht : Answers seg s t segs) : Tally t := by
  cases ht with
  | nothing => exact h
  | fills _ hfill => exact (tally_fillWindow h hfill).withOut []
  | empty _ hfill => exact tally_fillWindow h hfill

theorem rawQueues_takesAck {s t : TCPSender} {seg : TCPSegment} {segs : List TCPSegment}
    (h : RawQueues s) (ht : TakesAck seg s t segs) : RawQueues t ∧ ∀ x ∈ segs, Raw x := by
  cases ht with
  | without => exact ⟨h, by simp⟩
  | given _ hr =>
    have hraw := rawQueues_ackReceived h hr
    exact ⟨hraw.drained, hraw.out⟩

theorem rawQueues_answers {s t : TCPSender} {seg : TCPSegment} {segs : List TCPSegment}
    (h : RawQueues s) (ht : Answers seg s t segs) : RawQueues t ∧ ∀ x ∈ segs, Raw x := by
  cases ht with
  | nothing => exact ⟨h, by simp⟩
  | fills _ hfill =>
    have hraw := rawQueues_fillWindow h hfill
    exact ⟨hraw.drained, hraw.out⟩
  | empty _ hfill =>
    refine ⟨rawQueues_fillWindow h hfill, ?_⟩
    exact List.forall_mem_singleton.mpr ⟨rfl, rfl, rfl, Nat.zero_le _⟩

theorem takeAck_spec {c d : TCPConnection} {seg : TCPSegment} (hq : c.sender.segmentsOut = [])
    (h : c.takeAck seg = .ok d) : ∃ s segs, TakesAck seg c.sender s segs ∧ d = c.sent s segs := by
  unfold takeAck at h
  split at h
  · rename_i hack
    obtain ⟨s, hs, h⟩ := Exec.bind_eq_ok.mp h
    cases h
    exact ⟨_, _, .given hack hs, rfl⟩
  · rename_i hack
    cases h
    exact ⟨_, _, .without (by simpa using hack), (sent_self hq).symm⟩

theorem replyTo_spec {c d : TCPConnection} {seg : TCPSegment} (hq : c.sender.segmentsOut = [])
    (h : c.replyTo seg = .ok d) : ∃ s segs, Answers seg c.sender s segs ∧ d = c.sent s segs := by
  unfold replyTo at h
  split at h
  · rename_i hlen
    obtain ⟨⟨e, isSend⟩, he, h⟩ := Exec.bind_eq_ok.mp h
    obtain ⟨s, hs, rfl, rfl⟩ := fillAndSend_spec he
    cases ho : s.segmentsOut with
    | cons x rest =>
      simp only [ho, List.isEmpty_cons, Bool.not_false, ↓reduceIte] at h
      cases h
      exact ⟨_, _, .fills hlen hs (by simp [ho]), by rw [ho]; rfl⟩
    | nil =>
      simp only [ho, List.isEmpty_nil, Bool.not_true, Bool.false_eq_true, ↓reduceIte] at h
      obtain ⟨⟨ackSeg, f⟩, hf, h⟩ := Exec.bind_eq_ok.mp h
      cases hf
      cases h
      refine ⟨s, _, .empty hlen hs ho, ?_⟩
      simp only [sent, List.map_nil, List.append_nil, List.map_cons]
      rfl
  · rename_i hlen
    cases h
    exact ⟨_, _, .nothing (by omega), (sent_self hq).symm⟩

/-- The inbound stream is found ended while the outbound one is not at its end. -/
def foundEnded (c : TCPConnection) : Bool := c.checkInboundEnded && !c.sender.stream.eof

theorem noteInboundEnd_eq (c : TCPConnection) : c.noteInboundEnd =
    { c with lingerAfterStreamsFinish := c.lingerAfterStreamsFinish && !c.foundEnded } := by
  unfold noteInboundEnd foundEnded
  split
  · rename_i h
    simp [h]
  · rename_i h
    rw [Bool.not_eq_true] at h
    simp [h]

/-- The connection when a segment has gone to the receiver. -/
def accepted (c : TCPConnection) (r : TCPReceiver) : TCPConnection :=
  noteInboundEnd { c with timeSinceLastSegmentReceived := 0, receiver := r }

/-- **An arriving segment.** A RST ends the connection; any other segment goes to the
receiver, then its acknowledgement to the sender, and then it is answered. -/
theorem segmentReceived_spec {c d : TCPConnection} {seg : TCPSegment}
    (hq : c.sender.segmentsOut = []) (h : c.segmentReceived seg = .ok d) :
    (seg.header.rst = true ∧
      d = { { c with timeSinceLastSegmentReceived := 0 }.setErrors with active := false }) ∨
    (seg.header.rst = false ∧ ∃ r s₁ s₂ xs ys, c.receiver.segmentReceived seg = .ok r ∧
      TakesAck seg c.sender s₁ xs ∧ Answers seg s₁ s₂ ys ∧
      d = (c.accepted r).sent s₂ (xs ++ ys)) := by
  unfold segmentReceived at h
  dsimp only at h
  split at h
  · rename_i hrst
    cases h
    exact Or.inl ⟨hrst, rfl⟩
  · rename_i hrst
    right
    obtain ⟨r, hr, h⟩ := Exec.bind_eq_ok.mp h
    obtain ⟨e, he, h⟩ := Exec.bind_eq_ok.mp h
    have hsender : (c.accepted r).sender = c.sender := by
      rw [accepted, noteInboundEnd_eq]
    obtain ⟨s₁, xs, hack, rfl⟩ := takeAck_spec (c := c.accepted r) (by rw [hsender, hq]) he
    obtain ⟨s₂, ys, hanswer, rfl⟩ := replyTo_spec (by rfl) h
    refine ⟨by simpa using hrst, r, { s₁ with segmentsOut := [] }, s₂, xs, ys, hr, ?_, hanswer,
      sent_sent _ _ _ _ _⟩
    rw [hsender] at hack
    cases hack with
    | without hno =>
      have hsame : { c.sender with segmentsOut := [] } = c.sender := by rw [← hq]
      rw [hsame]
      exact .without hno
    | given hyes ht => exact .given hyes ht

/-- The connection given up, with `seg` sent again as a RST. -/
def aborted (c : TCPConnection) (s : TCPSender) (seg : TCPSegment) : TCPConnection :=
  let out := c.setAckAndWindowsize seg
  let c := { c with sender := { s with segmentsOut := [] } }
  { c.setErrors with
    active := false
    segmentsOut := c.segmentsOut ++ [{ out with header := { out.header with rst := true } }] }

/-- The connection with its clock moved on. -/
def waited (c : TCPConnection) (ms : Nat) : TCPConnection :=
  { c with timeSinceLastSegmentReceived := (c.timeSinceLastSegmentReceived + ms) % 2 ^ 64 }

/-- What `tick` does before it checks whether the connection is done. -/
inductive Ticks (c : TCPConnection) (ms : Nat) : TCPConnection → Prop
  | quiet {s : TCPSender} : c.sender.tick ms = .ok s → s.segmentsOut = [] →
      Ticks c ms ((c.waited ms).sent s [])
  | resends {s : TCPSender} {seg : TCPSegment} : c.sender.tick ms = .ok s →
      s.segmentsOut = [seg] → s.consecutiveRetransmissions.toNat ≤ maxRetxAttempts →
      Ticks c ms ((c.waited ms).sent s [seg])
  | aborts {s : TCPSender} {seg : TCPSegment} : c.sender.tick ms = .ok s →
      s.segmentsOut = [seg] → maxRetxAttempts < s.consecutiveRetransmissions.toNat →
      Ticks c ms ((c.waited ms).aborted s seg)

/-- A tick of the sender leaves at most one segment. -/
theorem tick_out {s t : TCPSender} {ms : Nat} (hq : s.segmentsOut = []) (h : s.tick ms = .ok t) :
    t.segmentsOut = [] ∨ ∃ seg, t.segmentsOut = [seg] := by
  cases TCPSender.tick_spec h with
  | stopped => exact Or.inl hq
  | waits => exact Or.inl hq
  | @fires seg rest => exact Or.inr ⟨seg, by simp [resent, hq]⟩

theorem tick_spec {c d : TCPConnection} {ms : Nat} (hq : c.sender.segmentsOut = [])
    (h : c.tick ms = .ok d) : ∃ e, Ticks c ms e ∧ d = e.closeIfDone := by
  obtain ⟨s, hs, h⟩ := Exec.bind_eq_ok.mp h
  obtain ⟨e, he, h⟩ := Exec.bind_eq_ok.mp h
  cases h
  refine ⟨e, ?_, rfl⟩
  unfold resend at he
  rcases tick_out hq hs with hnone | ⟨seg, hone⟩
  · simp only [hnone, List.length_nil, gt_iff_lt, Nat.lt_irrefl, ↓reduceIte] at he
    cases he
    have hsame : { c.waited ms with sender := s } = (c.waited ms).sent s [] := by
      simp only [sent, List.map_nil, List.append_nil]
      rw [← hnone]
    exact hsame ▸ Ticks.quiet hs hnone
  · simp only [hone, List.length_singleton, gt_iff_lt, Nat.zero_lt_one, ↓reduceIte,
      takeSegment, Exec.ok_bind] at he
    split at he
    · rename_i hcount
      cases he
      exact .aborts hs hone hcount
    · rename_i hcount
      cases he
      exact .resends hs hone (Nat.not_lt.mp hcount)

/-! ## The sender's queue between calls -/

theorem closeIfDone_eq (c : TCPConnection) :
    c.closeIfDone = c ∨ c.closeIfDone = { c with active := false } := by
  unfold closeIfDone
  split
  · split
    · exact Or.inr rfl
    · split
      · exact Or.inr rfl
      · exact Or.inl rfl
  · exact Or.inl rfl

theorem closeIfDone_sender (c : TCPConnection) : c.closeIfDone.sender = c.sender := by
  rcases closeIfDone_eq c with h | h <;> rw [h]

/-- **Between calls the sender's queue is empty.** -/
theorem drained_call {c d : TCPConnection} {e : Event} (hq : c.sender.segmentsOut = [])
    (h : c.call e = .ok d) : d.sender.segmentsOut = [] := by
  cases e with
  | connect | write _ | endInputStream =>
    rcases fills_spec rfl h with rfl | ⟨stream, s, -, rfl⟩
    · exact hq
    · rfl
  | tick ms =>
    obtain ⟨e, he, rfl⟩ := tick_spec hq h
    rw [closeIfDone_sender]
    cases he <;> rfl
  | segmentReceived seg =>
    rcases segmentReceived_spec hq h with ⟨-, rfl⟩ | ⟨-, r, s₁, s₂, xs, ys, -, hack, hans, rfl⟩
    · exact hq
    · rfl
  | read len =>
    cases h
    exact hq
  | collect =>
    cases h
    exact hq

/-! ## Becoming inactive -/

/-- The connection may end: both streams are done, and there is no need to linger or it has
lingered long enough. -/
structure MayEnd (c : TCPConnection) : Prop where
  inbound : c.checkInboundEnded = true
  outbound : c.checkOutboundEnded = true
  lingered : c.lingerAfterStreamsFinish = false ∨
    10 * c.cfg.rtTimeout.toNat ≤ c.timeSinceLastSegmentReceived

theorem closeIfDone_inactive {c : TCPConnection} (h : c.closeIfDone.active = false) :
    c.active = false ∨ MayEnd c.closeIfDone := by
  unfold closeIfDone at h ⊢
  split at h
  · rename_i hdone
    obtain ⟨hin, hout⟩ := Bool.and_eq_true_iff.mp hdone
    rw [if_pos hdone]
    split at h
    · rename_i hlinger
      rw [if_pos hlinger]
      exact Or.inr ⟨hin, hout, Or.inl (by simpa using hlinger)⟩
    · rename_i hlinger
      rw [if_neg hlinger]
      split at h
      · rename_i htime
        rw [if_pos htime]
        exact Or.inr ⟨hin, hout, Or.inr htime⟩
      · exact Or.inl h
  · exact Or.inl h

/-- Both streams are in error. -/
def Failed (c : TCPConnection) : Prop :=
  c.sender.stream.error = true ∧ c.inboundStream.error = true

/-- **Becoming inactive.** A connection fails, or ends in `tick` when it may. -/
theorem call_inactive {c d : TCPConnection} {e : Event} (hq : c.sender.segmentsOut = [])
    (h : c.call e = .ok d) (hd : d.active = false) :
    c.active = false ∨ Failed d ∨ ∃ ms, e = .tick ms ∧ MayEnd d := by
  cases e with
  | connect | write _ | endInputStream =>
    rcases fills_spec rfl h with rfl | ⟨stream, s, -, rfl⟩
    · exact Or.inl hd
    · exact Or.inl hd
  | tick ms =>
    obtain ⟨e, he, rfl⟩ := tick_spec hq h
    rcases closeIfDone_inactive hd with hact | hmay
    · cases he with
      | quiet => exact Or.inl hact
      | resends => exact Or.inl hact
      | aborts =>
        right
        left
        rcases closeIfDone_eq ((c.waited ms).aborted _ _) with heq | heq
        · rw [heq]
          exact ⟨rfl, rfl⟩
        · rw [heq]
          exact ⟨rfl, rfl⟩
    · exact Or.inr (Or.inr ⟨ms, rfl, hmay⟩)
  | segmentReceived seg =>
    rcases segmentReceived_spec hq h with ⟨-, rfl⟩ | ⟨-, r, s₁, s₂, xs, ys, -, -, -, rfl⟩
    · exact Or.inr (Or.inl ⟨rfl, rfl⟩)
    · left
      simp only [sent, accepted, noteInboundEnd_eq] at hd
      exact hd
  | read len =>
    cases h
    exact Or.inl hd
  | collect =>
    cases h
    exact Or.inl hd

/-- No call makes an inactive connection active. -/
theorem call_active {c d : TCPConnection} {e : Event} (hq : c.sender.segmentsOut = [])
    (h : c.call e = .ok d) (hc : c.active = false) : d.active = false := by
  cases e with
  | connect | write _ | endInputStream =>
    rcases fills_spec rfl h with rfl | ⟨stream, s, -, rfl⟩
    · exact hc
    · exact hc
  | tick ms =>
    obtain ⟨e, he, rfl⟩ := tick_spec hq h
    have heact : e.active = false := by
      cases he with
      | quiet => exact hc
      | resends => exact hc
      | aborts => rfl
    rcases closeIfDone_eq e with heq | heq
    · rw [heq]
      exact heact
    · rw [heq]
  | segmentReceived seg =>
    rcases segmentReceived_spec hq h with ⟨-, rfl⟩ | ⟨-, r, s₁, s₂, xs, ys, -, -, -, rfl⟩
    · rfl
    · simp only [sent, accepted, noteInboundEnd_eq]
      exact hc
  | read len =>
    cases h
    exact hc
  | collect =>
    cases h
    exact hc

end Sponge.TCPConnection
