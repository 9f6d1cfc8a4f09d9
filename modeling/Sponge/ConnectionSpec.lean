import Sponge.Connection
import Sponge.SenderSpec

/-!
# What the connection does

Each operation of the connection, after the input it takes, is a sequence of `Move`s: one
call of the sender, one segment put out, a change of the timers, an error, or the clean
end. What every move keeps, every operation keeps.
-/

namespace Sponge.TCPConnection

open Relation

/-- A segment as it is put out, with the RST of an aborted connection or without. -/
def stamped (c : TCPConnection) (rst : Bool) (seg : TCPSegment) : TCPSegment :=
  let seg := c.setAckAndWindowsize seg
  if rst then { seg with header := { seg.header with rst := true } } else seg

theorem stamped_ack {c : TCPConnection} {rst : Bool} {seg : TCPSegment}
    (hplain : seg.header.ack = false) (h : (c.stamped rst seg).header.ack = true) :
    c.receiver.synReceived = true ∧
      (c.stamped rst seg).header.ackno = wrap c.receiver.absAckno c.receiver.isn := by
  cases hs : c.receiver.synReceived with
  | true =>
    refine ⟨rfl, ?_⟩
    cases rst <;> simp [stamped, setAckAndWindowsize, TCPReceiver.ackno, hs]
  | false =>
    cases rst <;>
      simp [stamped, setAckAndWindowsize, TCPReceiver.ackno, hs, hplain] at h

/-- The front of the sender's queue put out. -/
def putOut (c : TCPConnection) (rst : Bool) (seg : TCPSegment) (rest : List TCPSegment) :
    TCPConnection :=
  { c with
    sender := { c.sender with segmentsOut := rest }
    segmentsOut := c.segmentsOut ++ [c.stamped rst seg] }

/-- One thing a connection does by itself. `acks` are the acknowledgement numbers it has
been given, with the sender they come to. -/
inductive Move (acks : TCPSender → WrappingInt32 → Prop) : TCPConnection → TCPConnection → Prop
  | fill {c : TCPConnection} {s : TCPSender} : c.sender.fillWindow = .ok s →
      Move acks c { c with sender := s }
  | ack {c : TCPConnection} {s : TCPSender} {ackno : WrappingInt32} {windowSize : UInt16} :
      acks c.sender ackno → c.sender.ackReceived ackno windowSize = .ok s →
      Move acks c { c with sender := s }
  | tick {c : TCPConnection} {s : TCPSender} {ms : Nat} : c.sender.tick ms = .ok s →
      Move acks c { c with sender := s }
  | empty {c : TCPConnection} : c.sender.synSent = true →
      Move acks c { c with sender := c.sender.sendEmptySegment }
  | put {c : TCPConnection} {seg : TCPSegment} {rest : List TCPSegment} (rst : Bool) :
      c.sender.segmentsOut = seg :: rest → Move acks c (c.putOut rst seg rest)
  | note {c : TCPConnection} (linger : Bool) (time : Nat) :
      Move acks c { c with
        lingerAfterStreamsFinish := linger
        timeSinceLastSegmentReceived := time }
  | fail {c : TCPConnection} : Move acks c { c.setErrors with active := false }
  | done {c : TCPConnection} : c.checkInboundEnded = true → c.checkOutboundEnded = true →
      Move acks c { c with active := false }

variable {acks : TCPSender → WrappingInt32 → Prop}

theorem rawQueues_move {c d : TCPConnection} (h : TCPSender.RawQueues c.sender)
    (hm : Move acks c d) : TCPSender.RawQueues d.sender := by
  cases hm with
  | fill hs => exact TCPSender.rawQueues_fillWindow h hs
  | ack _ hs => exact TCPSender.rawQueues_ackReceived h hs
  | tick hs => exact TCPSender.rawQueues_tick h hs
  | empty _ => exact h.withOut (forall_mem_snoc h.out ⟨rfl, rfl, rfl, Nat.zero_le _⟩)
  | put _ ho =>
    have hout := h.out
    rw [ho] at hout
    exact h.withOut fun x hx => hout x (List.mem_cons_of_mem _ hx)
  | note _ _ => exact h
  | fail => exact h.withStream _
  | done _ _ => exact h

theorem fillWindow_synSent {s t : TCPSender} (h : s.fillWindow = .ok t) : t.synSent = true := by
  by_cases hs : s.synSent = true
  · apply TCPSender.fillWindow_invariant (P := fun s => s.synSent = true) _ hs h
    intro u v hu he
    cases he with
    | syn _ => rfl
    | bytes _ => exact hu
  · rw [Bool.not_eq_true] at hs
    rw [TCPSender.fillWindow, hs] at h
    cases h
    rfl

theorem realSend_moves (c : TCPConnection) : ReflTransGen (Move acks) c c.realSend.1 := by
  obtain ⟨segs, hsegs⟩ : ∃ segs, c.sender.segmentsOut = segs := ⟨_, rfl⟩
  induction segs generalizing c with
  | nil =>
    have : c.realSend.1 = c := by
      simp only [realSend, hsegs, List.map_nil, List.append_nil]
      rw [← hsegs]
    rw [this]
  | cons seg rest ih =>
    have heq : c.realSend.1 = (c.putOut false seg rest).realSend.1 := by
      simp only [realSend, hsegs, List.map_cons, putOut, List.append_assoc, List.singleton_append]
      rfl
    rw [heq]
    exact .head (.put false hsegs) (ih _ rfl)

theorem fillAndSend_moves {c d : TCPConnection} {sent : Bool}
    (h : c.fillAndSend = .ok (d, sent)) :
    ReflTransGen (Move acks) c d ∧ d.sender.synSent = true := by
  obtain ⟨s, hs, h⟩ := Exec.bind_eq_ok.mp h
  obtain ⟨rfl, _⟩ := Prod.mk.inj (Except.ok.inj h)
  have hsyn := fillWindow_synSent hs
  exact ⟨.head (.fill hs) (realSend_moves _), hsyn⟩

theorem connect_moves {c d : TCPConnection} (h : c.connect = .ok d) :
    ReflTransGen (Move acks) c d := by
  obtain ⟨⟨e, sent⟩, he, h⟩ := Exec.bind_eq_ok.mp h
  cases h
  exact (fillAndSend_moves he).1

theorem write_moves {c d : TCPConnection} {data : List Byte} {n : Nat}
    (h : c.write data = .ok (d, n)) :
    n = (c.sender.stream.write data).2 ∧
    ReflTransGen (Move acks)
      { c with sender := { c.sender with stream := (c.sender.stream.write data).1 } } d := by
  unfold write at h
  split at h
  · rename_i hlen
    cases h
    have hnil := List.length_eq_zero_iff.mp hlen
    rw [hnil, ByteStream.write_nil]
    exact ⟨by simp [ByteStream.write], .refl⟩
  · obtain ⟨⟨e, sent⟩, he, h⟩ := Exec.bind_eq_ok.mp h
    cases h
    exact ⟨rfl, (fillAndSend_moves he).1⟩

theorem endInputStream_moves {c d : TCPConnection} (h : c.endInputStream = .ok d) :
    ReflTransGen (Move acks)
      { c with sender := { c.sender with stream := c.sender.stream.endInput } } d := by
  obtain ⟨⟨e, sent⟩, he, h⟩ := Exec.bind_eq_ok.mp h
  cases h
  exact (fillAndSend_moves he).1

theorem resend_moves {c d : TCPConnection} (h : c.resend = .ok d) :
    ReflTransGen (Move acks) c d := by
  unfold resend at h
  split at h
  · obtain ⟨⟨seg, e⟩, he, h⟩ := Exec.bind_eq_ok.mp h
    cases ho : c.sender.segmentsOut with
    | nil => simp [takeSegment, ho] at he
    | cons x rest =>
      simp only [takeSegment, ho, Except.ok.injEq, Prod.mk.injEq] at he
      obtain ⟨rfl, rfl⟩ := he
      dsimp only at h
      split at h
      · cases h
        exact .head (.put true ho) (.single .fail)
      · cases h
        exact .single (.put false ho)
  · cases h
    exact .refl

theorem closeIfDone_moves (c : TCPConnection) : ReflTransGen (Move acks) c c.closeIfDone := by
  unfold closeIfDone
  split
  · rename_i hdone
    obtain ⟨hin, hout⟩ := Bool.and_eq_true_iff.mp hdone
    split
    · exact .single (.done hin hout)
    · split
      · exact .single (.done hin hout)
      · exact .refl
  · exact .refl

theorem tick_moves {c d : TCPConnection} {ms : Nat} (h : c.tick ms = .ok d) :
    ReflTransGen (Move acks) c d := by
  obtain ⟨s, hs, h⟩ := Exec.bind_eq_ok.mp h
  obtain ⟨e, he, h⟩ := Exec.bind_eq_ok.mp h
  cases h
  refine .head (.note c.lingerAfterStreamsFinish
    ((c.timeSinceLastSegmentReceived + ms) % 2 ^ 64)) ?_
  refine .head (.tick hs) ?_
  exact (resend_moves he).trans (closeIfDone_moves e)

theorem replyTo_moves {c d : TCPConnection} {seg : TCPSegment} (h : c.replyTo seg = .ok d) :
    ReflTransGen (Move acks) c d := by
  unfold replyTo at h
  split at h
  · obtain ⟨⟨e, sent⟩, he, h⟩ := Exec.bind_eq_ok.mp h
    obtain ⟨moves, hsyn⟩ : ReflTransGen (Move acks) c e ∧ _ := fillAndSend_moves he
    dsimp only at h
    split at h
    · cases h
      exact moves
    · obtain ⟨⟨ackSeg, f⟩, hf, h⟩ := Exec.bind_eq_ok.mp h
      cases h
      refine (moves.tail (.empty hsyn)).trans ?_
      cases ho : e.sender.sendEmptySegment.segmentsOut with
      | nil => simp [TCPSender.sendEmptySegment] at ho
      | cons x rest =>
        simp only [takeSegment, ho, Except.ok.injEq, Prod.mk.injEq] at hf
        obtain ⟨rfl, rfl⟩ := hf
        exact .single (.put false ho)
  · cases h
    exact .refl

/-- The acknowledgement `seg` carries, given to the sender of `c`. -/
def GivenAck (c : TCPConnection) (seg : TCPSegment) (s : TCPSender) (ackno : WrappingInt32) :
    Prop :=
  s = c.sender ∧ seg.header.ack = true ∧ ackno = seg.header.ackno

/-- An arriving segment either resets the connection, or goes to the receiver before the
connection moves with its acknowledgement. -/
theorem segmentReceived_moves {c d : TCPConnection} {seg : TCPSegment}
    (h : c.segmentReceived seg = .ok d) :
    (seg.header.rst = true ∧ ReflTransGen (Move fun _ _ => False) c d) ∨
    (seg.header.rst = false ∧ ∃ r, c.receiver.segmentReceived seg = .ok r ∧
      ReflTransGen (Move (c.GivenAck seg)) { c with receiver := r } d) := by
  unfold segmentReceived at h
  dsimp only at h
  split at h
  · rename_i hrst
    cases h
    exact .inl ⟨hrst, .head (.note c.lingerAfterStreamsFinish 0) (.single .fail)⟩
  · rename_i hrst
    obtain ⟨r, hr, h⟩ := Exec.bind_eq_ok.mp h
    obtain ⟨e, he, h⟩ := Exec.bind_eq_ok.mp h
    refine .inr ⟨by simpa using hrst, r, hr, ?_⟩
    have note : ReflTransGen (Move (c.GivenAck seg)) { c with receiver := r }
        (noteInboundEnd { c with receiver := r, timeSinceLastSegmentReceived := 0 }) := by
      unfold noteInboundEnd
      split
      · exact .single (.note false 0)
      · exact .single (.note c.lingerAfterStreamsFinish 0)
    refine (note.trans ?_).trans (replyTo_moves h)
    have hsame : (noteInboundEnd
        { c with receiver := r, timeSinceLastSegmentReceived := 0 }).sender = c.sender := by
      unfold noteInboundEnd
      split <;> rfl
    unfold takeAck at he
    split at he
    · rename_i hack
      obtain ⟨s, hs, he⟩ := Exec.bind_eq_ok.mp he
      cases he
      exact .head (.ack ⟨hsame, hack, rfl⟩ hs) (realSend_moves _)
    · cases he
      exact .refl

end Sponge.TCPConnection
