import Sponge.Replies
import Sponge.Ending
import Sponge.SenderStream
import Sponge.TCPState

/-!
# The summaries of a connection

One connection with any segments arriving. The history beside it is the absolute numbers of
the acknowledgements that the sender has accepted, and all the segments put out.

* `stateSummary_eq`: the sender's summary in terms of its counters and its FIN;
* `summaries_forward`: the summaries never go back, and the sender's last one says that the
  FIN was sent and acknowledged.
-/

namespace Sponge.Summaries

open TCPConnection TCPSender Replies
open WindowEdge (newOut)
open Ending (AllAcked allAcked_acked)

structure State where
  conn : TCPConnection
  accepted : List Nat
  out : List TCPSegment

def init (cfg : TCPConfig) : State := ⟨.new cfg, [], []⟩

/-- The absolute number of an acknowledgement, if it is accepted. -/
def brought (s : TCPSender) (ackno : WrappingInt32) : List Nat :=
  (unwrap ackno s.isn s.nextSeqno).toOption.toList.filter fun absAckno =>
    (s.ackValid absAckno).toOption == some true

def acceptedBy (s : TCPSender) : Event → List Nat
  | .segmentReceived seg =>
    if seg.header.ack && !seg.header.rst then brought s seg.header.ackno else []
  | _ => []

def step (s : State) (e : Event) : Except Fault State := do
  let conn ← s.conn.call e
  return { conn := conn
           accepted := s.accepted ++ acceptedBy s.conn.sender e
           out := s.out ++ newOut s.conn conn }

/-- Fewer than `2 ^ 31` numbers are in flight, and nothing is written after the end of the
input. -/
def Lawful (s : State) : Event → Prop
  | .write _ => s.conn.sender.bytesInFlight < 2 ^ 31 ∧ s.conn.sender.stream.inputEnded = false
  | _ => s.conn.sender.bytesInFlight < 2 ^ 31

instance (s : State) : (e : Event) → Decidable (Lawful s e)
  | .write _ => inferInstanceAs (Decidable (_ ∧ _))
  | .connect | .segmentReceived _ | .endInputStream | .tick _ | .read _ | .collect =>
    inferInstanceAs (Decidable (_ < _))

theorem Lawful.near {s : State} {e : Event} (h : Lawful s e) :
    s.conn.sender.bytesInFlight < 2 ^ 31 := by
  cases e with
  | write _ => exact h.1
  | connect | segmentReceived _ | endInputStream | tick _ | read _ | collect => exact h

/-! ## The sender's numbers -/

/-- The numbers sent are the SYN, the bytes read off the stream and the FIN; the FIN is the
last thing sent; and the queue is empty exactly when the last number is acknowledged. -/
structure Numbered (accepted : List Nat) (s : TCPSender) : Prop where
  book : Book s
  next : s.nextSeqno = s.synSent.toNat + s.stream.readBytes + s.finSent.toNat
  closed : s.synSent = false → s.stream.readBytes = 0 ∧ s.finSent = false
  last : s.finSent = true → s.stream.eof = true
  fins : ∀ seg ∈ s.segmentsOutstanding, seg.header.fin = true → s.finSent = true
  all : AllAcked accepted s
  low : ∀ a ∈ accepted, a ≤ s.nextSeqno ∧ (a = s.nextSeqno → s.segmentsOutstanding = [])

theorem numbered_new (capacity : Nat) (retxTimeout : UInt16) (isn : WrappingInt32) :
    Numbered [] (TCPSender.new capacity retxTimeout isn) where
  book := book_new _ _ _
  next := rfl
  closed := fun _ => ⟨rfl, rfl⟩
  last := by simp [TCPSender.new]
  fins := by simp [TCPSender.new]
  all := fun _ => Or.inl rfl
  low := by simp

/-- The bytes read and those buffered are a stream to count by. -/
theorem Numbered.counted {accepted : List Nat} {s : TCPSender} (h : Numbered accepted s) :
    Counted (List.replicate s.stream.readBytes 0 ++ s.stream.buffer) s := by
  have hcounts := s.stream.counts
  refine ⟨?_, ?_, h.next, h.closed⟩
  · simp only [List.length_append, List.length_replicate]
    omega
  · rw [List.drop_append_of_le_length (by simp), List.drop_eq_nil_of_le (by simp)]
    rfl

/-- Nothing newly acknowledged. -/
theorem Numbered.same {accepted : List Nat} {s : TCPSender} (h : Numbered accepted s) :
    Numbered (accepted ++ []) s := by
  rw [List.append_nil]
  exact h

theorem Numbered.withOut {accepted : List Nat} {s : TCPSender} (h : Numbered accepted s)
    (out : List TCPSegment) : Numbered accepted { s with segmentsOut := out } :=
  ⟨h.book.withOut out, h.next, h.closed, h.last, h.fins, h.all, h.low⟩

theorem Numbered.withStream {accepted : List Nat} {s : TCPSender} {stream : ByteStream}
    (h : Numbered accepted s) (read : stream.readBytes = s.stream.readBytes)
    (last : s.finSent = true → stream.eof = true) :
    Numbered accepted { s with stream := stream } := by
  refine ⟨h.book.withStream stream, ?_, ?_, last, h.fins, h.all, h.low⟩
  · change s.nextSeqno = s.synSent.toNat + stream.readBytes + s.finSent.toNat
    rw [read]
    exact h.next
  · intro hs
    change stream.readBytes = 0 ∧ s.finSent = false
    rw [read]
    exact h.closed hs

theorem numbered_emits {accepted : List Nat} {s t : TCPSender} (h : Numbered accepted s)
    (he : Emits s t) : Numbered accepted t := by
  have hbook := he.book h.book
  have hlow : ∀ a ∈ accepted, a ≤ t.nextSeqno ∧ (a = t.nextSeqno → t.segmentsOutstanding = []) := by
    intro a ha
    have hle := (h.low a ha).1
    have hlt := he.forward
    exact ⟨by omega, fun heq => by omega⟩
  cases he with
  | syn hs =>
    have hc := counted_syn h.counted hs
    refine ⟨hbook, hc.next, hc.closed, h.last, ?_, ?_, hlow⟩
    · intro seg hseg hfin
      rcases List.mem_append.mp hseg with hseg | hseg
      · exact h.fins seg hseg hfin
      · rw [List.mem_singleton.mp hseg] at hfin
        cases hfin
    · intro ho
      simp [TCPSender.syn, push] at ho
  | @bytes size fin may =>
    have hc := counted_bytes h.counted may
    refine ⟨hbook, hc.next, hc.closed, ?_, ?_, ?_, hlow⟩
    · intro hfin
      obtain ⟨hended, hsize⟩ := may.last hfin
      have hbuffer : (s.bytes size fin).stream.buffer = [] := by
        rw [bytes_buffer fin may.buffered, hsize, List.drop_length]
      have hstays : (s.bytes size fin).stream.endWrite = true :=
        (s.stream.popOutput_endWrite size).trans hended
      rw [ByteStream.eof, hbuffer, hstays]
      rfl
    · intro seg hseg hfin
      rcases List.mem_append.mp hseg with hseg | hseg
      · have hsent := h.fins seg hseg hfin
        rw [may.going] at hsent
        cases hsent
      · rw [List.mem_singleton.mp hseg] at hfin
        exact hfin
    · intro ho
      simp [TCPSender.bytes, push] at ho

/-- What has been sent stays sent, and what has been acknowledged stays acknowledged. -/
structure Moves (s t : TCPSender) : Prop where
  later : Later s t
  unacked : s.unacked ≤ t.unacked

theorem Moves.refl (s : TCPSender) : Moves s s := ⟨.refl s, Nat.le_refl _⟩

theorem Moves.trans {s t u : TCPSender} (h : Moves s t) (h' : Moves t u) : Moves s u :=
  ⟨h.later.trans h'.later, Nat.le_trans h.unacked h'.unacked⟩

theorem moves_withOut (s : TCPSender) (out : List TCPSegment) :
    Moves s { s with segmentsOut := out } :=
  ⟨.of_eq rfl rfl rfl rfl rfl id id, Nat.le_refl _⟩

theorem fillWindow_moves {accepted : List Nat} {s t : TCPSender} (h : Numbered accepted s)
    (ht : s.fillWindow = .ok t) : Numbered accepted t ∧ Moves s t := by
  apply fillWindow_invariant (P := fun t => Numbered accepted t ∧ Moves s t) _ ⟨h, .refl s⟩ ht
  rintro u v ⟨hu, hm⟩ he
  exact ⟨numbered_emits hu he,
    hm.trans ⟨he.later, Nat.le_of_eq (he.unacked_eq hu.book).symm⟩⟩

/-- The sender when an accepted acknowledgement has cleared what it covers. -/
theorem numbered_acked {accepted : List Nat} {s : TCPSender} {absAckno m : Nat}
    {gone rest : List TCPSegment} {windowSize : UInt16} (h : Numbered accepted s)
    (haccepts : Accepts s absAckno) (hd : Divides s absAckno gone rest m)
    (hbook : Book (s.acked absAckno windowSize gone rest)) :
    Numbered (accepted ++ [absAckno]) (s.acked absAckno windowSize gone rest) := by
  refine ⟨hbook, h.next, h.closed, h.last, ?_, allAcked_acked windowSize h.all haccepts hd, ?_⟩
  · intro seg hseg
    exact h.fins seg (by rw [hd.split]; exact List.mem_append_right _ hseg)
  · intro a ha
    rcases List.mem_append.mp ha with ha | ha
    · obtain ⟨hle, hclear⟩ := h.low a ha
      refine ⟨hle, fun heq => ?_⟩
      have hsplit := hclear heq
      rw [hd.split] at hsplit
      exact (List.append_eq_nil_iff.mp hsplit).2
    · rw [List.mem_singleton.mp ha]
      refine ⟨haccepts.1, fun heq => ?_⟩
      change rest = []
      cases hrest : rest with
      | nil => rfl
      | cons seg tail =>
        -- the first segment left would end at or before the next number
        have huncovered := hd.uncovered seg tail hrest
        have hafter := hd.after.end_eq
        have heq' : absAckno = s.nextSeqno := heq
        rw [hrest, totalLength_cons] at hafter
        omega

theorem ackReceived_moves {accepted : List Nat} {s t : TCPSender} {ackno : WrappingInt32}
    {windowSize : UInt16} (h : Numbered accepted s) (near : s.bytesInFlight < 2 ^ 31)
    (ht : s.ackReceived ackno windowSize = .ok t) :
    Numbered (accepted ++ brought s ackno) t ∧ Moves s t := by
  obtain ⟨absAckno, habs, ⟨hvalid, rfl⟩ |
    ⟨hvalid, haccepts, gone, rest, m, hd, hbook, hm, hfill⟩⟩ := ackReceived_spec h.book near ht
  · have hnone : brought t ackno = [] := by simp [brought, habs, hvalid, Except.toOption]
    rw [hnone, List.append_nil]
    exact ⟨h, .refl t⟩
  · have hone : brought s ackno = [absAckno] := by simp [brought, habs, hvalid, Except.toOption]
    rw [hone]
    have hle : s.unacked ≤ (s.acked absAckno windowSize gone rest).unacked := by
      have := hd.before.end_eq
      omega
    obtain ⟨hn, hmoves⟩ := fillWindow_moves (numbered_acked h haccepts hd hbook) hfill
    have hcleared : Moves s (s.acked absAckno windowSize gone rest) :=
      ⟨.of_eq rfl rfl rfl rfl rfl id id, hle⟩
    exact ⟨hn, hcleared.trans hmoves⟩

theorem takesAck_moves {accepted : List Nat} {s t : TCPSender} {seg : TCPSegment}
    {segs : List TCPSegment} (h : Numbered accepted s) (near : s.bytesInFlight < 2 ^ 31)
    (hrst : seg.header.rst = false) (ht : TakesAck seg s t segs) :
    Numbered (accepted ++ acceptedBy s (.segmentReceived seg)) t ∧ Moves s t := by
  cases ht with
  | without hack =>
    have hnone : acceptedBy s (.segmentReceived seg) = [] := by simp [acceptedBy, hack]
    rw [hnone, List.append_nil]
    exact ⟨h, .refl s⟩
  | given hack hr =>
    have hsome : acceptedBy s (.segmentReceived seg) = brought s seg.header.ackno := by
      simp [acceptedBy, hack, hrst]
    rw [hsome]
    obtain ⟨hn, hm⟩ := ackReceived_moves h near hr
    exact ⟨hn.withOut [], hm.trans (moves_withOut _ [])⟩

theorem answers_moves {accepted : List Nat} {s t : TCPSender} {seg : TCPSegment}
    {segs : List TCPSegment} (h : Numbered accepted s) (ht : Answers seg s t segs) :
    Numbered accepted t ∧ Moves s t := by
  cases ht with
  | nothing => exact ⟨h, .refl s⟩
  | fills _ hfill =>
    obtain ⟨hn, hm⟩ := fillWindow_moves h hfill
    exact ⟨hn.withOut [], hm.trans (moves_withOut _ [])⟩
  | empty _ hfill => exact fillWindow_moves h hfill

theorem tick_moves {accepted : List Nat} {s t : TCPSender} {ms : Nat} (h : Numbered accepted s)
    (ht : s.tick ms = .ok t) : Numbered accepted t ∧ Moves s t := by
  have hbook := book_tick h.book ht
  obtain ⟨_, _, _, _, _, rfl⟩ := tick_ok ht
  exact ⟨⟨hbook, h.next, h.closed, h.last, h.fins, h.all, h.low⟩,
    .of_eq rfl rfl rfl rfl rfl id id, Nat.le_refl _⟩

/-! ## The sender's summary -/

/-- How far along, an error last. -/
def senderRank : TCPSenderStateSummary → Nat
  | .closed => 0
  | .synSent => 1
  | .synAcked => 2
  | .finSent => 3
  | .finAcked => 4
  | .error => 5

theorem senderRank_le (summary : TCPSenderStateSummary) : senderRank summary ≤ 5 := by
  cases summary <;> decide

theorem Numbered.fin_syn {accepted : List Nat} {s : TCPSender} (h : Numbered accepted s)
    (hfin : s.finSent = true) : s.synSent = true := by
  cases hs : s.synSent with
  | true => rfl
  | false =>
    rw [(h.closed hs).2] at hfin
    cases hfin

/-- When the FIN is sent, all that was written and the FIN have their numbers. -/
theorem Numbered.fin_next {accepted : List Nat} {s : TCPSender} (h : Numbered accepted s)
    (hfin : s.finSent = true) : s.nextSeqno = s.stream.bytesWritten + 2 := by
  have hsyn := h.fin_syn hfin
  have heof := h.last hfin
  have hbuffer : s.stream.buffer = [] := by
    simp only [ByteStream.eof, Bool.and_eq_true, List.isEmpty_iff] at heof
    exact heof.1
  have hcounts := s.stream.counts
  rw [hbuffer] at hcounts
  rw [h.next, hsyn, hfin, ByteStream.bytesWritten, hcounts]
  simp only [Bool.toNat_true, List.length_nil]
  omega

theorem Numbered.next_lt {accepted : List Nat} {s : TCPSender} (h : Numbered accepted s)
    (hfin : s.finSent = false) : s.nextSeqno < s.stream.bytesWritten + 2 := by
  have hsyn := Bool.toNat_le s.synSent
  have hcounts := s.stream.counts
  rw [h.next, hfin, ByteStream.bytesWritten, hcounts, Bool.toNat_false]
  omega

/-- The summary in terms of what has been sent and acknowledged. -/
theorem stateSummary_eq {accepted : List Nat} {s : TCPSender} (h : Numbered accepted s) :
    s.stateSummary =
      if s.stream.error then .error
      else if s.nextSeqno = 0 then .closed
      else if s.unacked = 0 then .synSent
      else if s.finSent = false then .synAcked
      else if s.bytesInFlight ≠ 0 then .finSent
      else .finAcked := by
  have hflight := h.book.flight_le
  have hunacked : s.nextSeqno = s.bytesInFlight ↔ s.unacked = 0 := by omega
  simp only [TCPSender.stateSummary, nextSeqnoAbsolute, hunacked]
  cases hfin : s.finSent with
  | true =>
    have hnext := h.fin_next hfin
    simp only [h.last hfin, Bool.not_true, Bool.false_eq_true, ↓reduceIte, hnext,
      Nat.lt_irrefl, Bool.true_eq_false]
  | false =>
    have hlt := h.next_lt hfin
    simp only [hlt, ↓reduceIte, ite_self]

/-- Nothing is sent after the FIN. -/
theorem Moves.fin_next {accepted accepted' : List Nat} {s t : TCPSender}
    (hs : Numbered accepted s) (ht : Numbered accepted' t) (h : Moves s t)
    (hfin : s.finSent = true) : t.finSent = true ∧ t.nextSeqno = s.nextSeqno := by
  obtain ⟨hread, hfin'⟩ := h.later.fin hfin
  refine ⟨hfin', ?_⟩
  rw [hs.next, ht.next, hread, hfin, hfin', hs.fin_syn hfin, ht.fin_syn hfin']

theorem senderRank_mono {accepted accepted' : List Nat} {s t : TCPSender}
    (hs : Numbered accepted s) (ht : Numbered accepted' t) (h : Moves s t) :
    senderRank s.stateSummary ≤ senderRank t.stateSummary := by
  have hnext := h.later.next
  have hunacked := h.unacked
  have hsflight := hs.book.flight_le
  have htflight := ht.book.flight_le
  rw [stateSummary_eq hs, stateSummary_eq ht]
  -- one condition of the summary after the other: each stays true once it is
  by_cases herror : t.stream.error = true
  · rw [if_pos herror]
    exact senderRank_le _
  rw [if_neg fun hse => herror (h.later.error hse), if_neg herror]
  by_cases hzero : s.nextSeqno = 0
  · rw [if_pos hzero]
    exact Nat.zero_le _
  rw [if_neg hzero, if_neg (show ¬ t.nextSeqno = 0 by omega)]
  by_cases hnone : s.unacked = 0
  · rw [if_pos hnone]
    repeat' split
    all_goals decide
  rw [if_neg hnone, if_neg (show ¬ t.unacked = 0 by omega)]
  cases hfin : s.finSent with
  | false =>
    rw [if_pos rfl]
    repeat' split
    all_goals decide
  | true =>
    obtain ⟨hfin', hsame⟩ := Moves.fin_next hs ht h hfin
    rw [if_neg Bool.true_eq_false.mp, hfin', if_neg Bool.true_eq_false.mp]
    by_cases hflight : s.bytesInFlight = 0
    · have hflight' : t.bytesInFlight = 0 := by omega
      apply Nat.le_of_eq
      rw [if_neg fun hne => hne hflight, if_neg fun hne => hne hflight']
    · rw [if_pos hflight]
      split
      all_goals decide

/-- **The last summary of the sender.** -/
theorem finAcked_iff {accepted : List Nat} {s : TCPSender} (h : Numbered accepted s)
    (herror : s.stateSummary ≠ .error) : s.stateSummary = .finAcked ↔
      s.finSent = true ∧ s.stream.bytesWritten + 2 ∈ accepted := by
  have hflight := h.book.flight_le
  rw [stateSummary_eq h] at herror ⊢
  have hok : ¬ s.stream.error = true := fun he => herror (if_pos he)
  rw [if_neg hok]
  constructor
  · intro hsummary
    split at hsummary
    · cases hsummary
    · rename_i hzero
      split at hsummary
      · cases hsummary
      · split at hsummary
        · cases hsummary
        · rename_i hfin
          rw [Bool.not_eq_false] at hfin
          split at hsummary
          · cases hsummary
          · rename_i hnone
            have hempty : s.segmentsOutstanding = [] :=
              (totalLength_eq_zero h.book.chain.pos).mp (by rw [← h.book.flight]; omega)
            rcases h.all hempty with h0 | hmem
            · exact absurd h0 hzero
            · exact ⟨hfin, h.fin_next hfin ▸ hmem⟩
  · rintro ⟨hfin, hmem⟩
    have hnext := h.fin_next hfin
    have hempty := (h.low _ hmem).2 hnext.symm
    have hnone : s.bytesInFlight = 0 := by rw [h.book.flight, hempty]; rfl
    rw [if_neg (by omega), if_neg (by omega), if_neg (by simp [hfin]), if_neg (by simp [hnone])]

/-! ## The receiver's summary -/

def receiverRank : TCPReceiverStateSummary → Nat
  | .listen => 0
  | .synRecv => 1
  | .finRecv => 2
  | .error => 3

theorem receiverRank_le (summary : TCPReceiverStateSummary) : receiverRank summary ≤ 3 := by
  cases summary <;> decide

/-- The SYN stays received, the input ended and an error an error. -/
structure Heard (t u : TCPReceiver) : Prop where
  syn : t.synReceived = true → u.synReceived = true
  ended : t.streamOut.inputEnded = true → u.streamOut.inputEnded = true
  error : t.streamOut.error = true → u.streamOut.error = true

theorem Heard.refl (t : TCPReceiver) : Heard t t := ⟨id, id, id⟩

theorem heard_segment {t u : TCPReceiver} {seg : TCPSegment}
    (h : StreamReassembler.Intact t.reassembler) (hu : t.segmentReceived seg = .ok u) :
    Heard t u := by
  rcases TCPReceiver.segmentReceived_any hu with ⟨-, rfl⟩ | ⟨index, r, hr, rfl, -⟩
  · exact .refl u
  · obtain ⟨hended, herror⟩ := StreamReassembler.push_flags h hr
    exact ⟨fun _ => rfl, hended, herror.trans⟩

theorem heard_read (t : TCPReceiver) (len : Nat) : Heard t (t.readOut len).1 := by
  rw [TCPReceiver.readOut_fst]
  exact ⟨id, ((t.reassembler.output.popOutput_endWrite len).trans ·),
    t.reassembler.output.popOutput_error len⟩

theorem ackno_isSome (t : TCPReceiver) : t.ackno.isSome = t.synReceived := by
  cases hs : t.synReceived with
  | true => simp [TCPReceiver.ackno, hs]
  | false => simp [TCPReceiver.ackno, hs]

theorem receiverRank_mono {t u : TCPReceiver} (h : Heard t u) :
    receiverRank t.stateSummary ≤ receiverRank u.stateSummary := by
  simp only [TCPReceiver.stateSummary, ackno_isSome]
  by_cases herror : u.streamOut.error = true
  · rw [if_pos herror]
    exact receiverRank_le _
  rw [if_neg fun hte => herror (h.error hte), if_neg herror]
  cases hsyn : t.synReceived with
  | false => exact Nat.zero_le _
  | true =>
    rw [h.syn hsyn]
    cases hended : t.streamOut.inputEnded with
    | false =>
      simp only [Bool.not_true, Bool.false_eq_true, ↓reduceIte]
      split
      all_goals decide
    | true =>
      apply Nat.le_of_eq
      rw [h.ended hended]

/-! ## The whole connection -/

structure Tracked (s : State) : Prop where
  sound : Sound s.conn
  numbered : Numbered s.accepted s.conn.sender
  fin : (∃ seg ∈ s.out, seg.header.fin = true) ↔ s.conn.sender.finSent = true

theorem tracked_init (cfg : TCPConfig) : Tracked (init cfg) where
  sound := sound_new cfg
  numbered := numbered_new _ _ _
  fin := by simp [init, TCPConnection.new, TCPSender.new]

/-- What a call that brings the acknowledgements `more` does. -/
structure CallEffect (accepted more : List Nat) (c d : TCPConnection) : Prop where
  numbered : Numbered (accepted ++ more) d.sender
  moves : Moves c.sender d.sender
  heard : Heard c.receiver d.receiver
  fin : d.sender.finSent = true ↔
    c.sender.finSent = true ∨ ∃ seg ∈ newOut c d, seg.header.fin = true

theorem newOut_append {c d : TCPConnection} {new : List TCPSegment}
    (h : d.segmentsOut = c.segmentsOut ++ new) : newOut c d = new := by
  rw [newOut, h, List.drop_left]

/-- Nothing put out, and nothing of the sender changed but its stream. -/
theorem callEffect_silent {accepted more : List Nat} {c d : TCPConnection}
    (hn : Numbered (accepted ++ more) d.sender) (hm : Moves c.sender d.sender)
    (hh : Heard c.receiver d.receiver) (hout : newOut c d = [])
    (hfin : d.sender.finSent = c.sender.finSent) : CallEffect accepted more c d :=
  ⟨hn, hm, hh, by simp [hout, hfin]⟩

theorem callEffect_fills {accepted : List Nat} {c : TCPConnection} {s : TCPSender}
    (stream : ByteStream) (h : Numbered accepted c.sender) (hq : c.sender.segmentsOut = [])
    (read : stream.readBytes = c.sender.stream.readBytes)
    (last : c.sender.finSent = true → stream.eof = true)
    (ended : c.sender.stream.endWrite = true → stream.endWrite = true)
    (error : c.sender.stream.error = true → stream.error = true)
    (hs : { c.sender with stream := stream }.fillWindow = .ok s) :
    CallEffect accepted [] c (c.sent s s.segmentsOut) := by
  obtain ⟨hn, hm⟩ := fillWindow_moves (h.withStream read last) hs
  obtain ⟨new, hout, hnew⟩ := fillWindow_uses hs
  rw [show ({ c.sender with stream := stream } : TCPSender).segmentsOut = [] from hq,
    List.nil_append] at hout
  have hset := uses_set hnew c
  have hstream : Moves c.sender { c.sender with stream := stream } :=
    ⟨.of_eq rfl read rfl rfl rfl ended error, Nat.le_refl _⟩
  refine ⟨(hn.withOut []).same, (hstream.trans hm).trans (moves_withOut s []), .refl _, ?_⟩
  rw [newOut_append rfl, hout]
  exact hset.fin

theorem callEffect_segment {accepted : List Nat} {c d : TCPConnection} {seg : TCPSegment}
    (h : Numbered accepted c.sender) (hc : Sound c) (near : c.sender.bytesInFlight < 2 ^ 31)
    (hd : c.segmentReceived seg = .ok d) :
    CallEffect accepted (acceptedBy c.sender (.segmentReceived seg)) c d := by
  obtain ⟨new, last, hout, huses, hlast⟩ := replies_spec hc hd
  rcases segmentReceived_spec hc.drained hd with
    ⟨hrst, rfl⟩ | ⟨hrst, r, s₁, s₂, xs, ys, hr, hack, hans, rfl⟩
  · have hnone : acceptedBy c.sender (.segmentReceived seg) = [] := by simp [acceptedBy, hrst]
    have herror : Numbered accepted { c.sender with stream := c.sender.stream.setError } :=
      h.withStream rfl h.last
    rw [hnone]
    exact callEffect_silent herror.same
      ⟨.of_eq rfl rfl rfl rfl rfl id fun _ => rfl, Nat.le_refl _⟩ ⟨id, id, fun _ => rfl⟩
      (by simp [newOut, setErrors]) rfl
  · obtain ⟨hn₁, hm₁⟩ := takesAck_moves h near hrst hack
    obtain ⟨hn₂, hm₂⟩ := answers_moves hn₁ hans
    have hreceiver : (c.accepted r).receiver = r := by
      rw [TCPConnection.accepted, noteInboundEnd_eq]
    refine ⟨hn₂.withOut [], (hm₁.trans hm₂).trans (moves_withOut _ []), ?_, ?_⟩
    · change Heard c.receiver (c.accepted r).receiver
      rw [hreceiver]
      exact heard_segment hc.intact hr
    · rw [newOut_append hout, huses.fin]
      apply or_congr_right
      constructor
      · rintro ⟨out, hmem, hfin⟩
        exact ⟨out, List.mem_append_left _ hmem, hfin⟩
      · rintro ⟨out, hmem, hfin⟩
        rcases List.mem_append.mp hmem with hmem | hmem
        · exact ⟨out, hmem, hfin⟩
        · rcases hlast with rfl | ⟨-, bare, rfl, hzero⟩
          · cases hmem
          · rw [List.mem_singleton.mp hmem] at hfin
            simp [TCPSegment.lengthInSequenceSpace, hfin] at hzero

/-- A segment sent again carries a FIN only if the FIN has been sent. -/
theorem callEffect_resend {accepted : List Nat} {c d : TCPConnection} {s : TCPSender}
    {seg out : TCPSegment} {ms : Nat} (h : Numbered accepted c.sender)
    (hq : c.sender.segmentsOut = []) (hs : c.sender.tick ms = .ok s) (hone : s.segmentsOut = [seg])
    (hn : Numbered accepted d.sender) (hm : Moves c.sender d.sender)
    (hh : Heard c.receiver d.receiver) (hout : d.segmentsOut = c.segmentsOut ++ [out])
    (hsame : out.header.fin = seg.header.fin) (hfin : d.sender.finSent = c.sender.finSent) :
    CallEffect accepted [] c d := by
  refine ⟨hn.same, hm, hh, ?_⟩
  rw [newOut_append hout, hfin]
  refine ⟨Or.inl, ?_⟩
  rintro (hsent | ⟨x, hmem, hx⟩)
  · exact hsent
  · rw [List.mem_singleton.mp hmem, hsame] at hx
    obtain ⟨resent, _, _, _, hresent, rfl⟩ := tick_ok hs
    rw [hq, List.nil_append] at hone
    rcases hresent with rfl | ⟨front, rest, hfront, rfl⟩
    · cases hone
    · cases hone
      exact h.fins seg (by rw [hfront]; exact List.mem_cons_self) hx

theorem CallEffect.closeIfDone {accepted more : List Nat} {c d : TCPConnection}
    (h : CallEffect accepted more c d) : CallEffect accepted more c d.closeIfDone := by
  rcases closeIfDone_eq d with heq | heq
  · rw [heq]
    exact h
  · rw [heq]
    exact ⟨h.numbered, h.moves, h.heard, h.fin⟩

theorem callEffect_tick {accepted : List Nat} {c d : TCPConnection} {ms : Nat}
    (h : Numbered accepted c.sender) (hc : Sound c) (hd : c.tick ms = .ok d) :
    CallEffect accepted [] c d := by
  obtain ⟨e, he, rfl⟩ := tick_spec hc.drained hd
  apply CallEffect.closeIfDone
  have hfin : ∀ s : TCPSender, c.sender.tick ms = .ok s → s.finSent = c.sender.finSent := by
    intro s hs
    obtain ⟨_, _, _, _, _, rfl⟩ := tick_ok hs
    rfl
  cases he with
  | @quiet t ht =>
    obtain ⟨hn, hm⟩ := tick_moves h ht
    exact callEffect_silent (hn.withOut []).same (hm.trans (moves_withOut _ [])) (.refl _)
      (newOut_append rfl) (hfin t ht)
  | @resends t seg ht hone =>
    obtain ⟨hn, hm⟩ := tick_moves h ht
    exact callEffect_resend h hc.drained ht hone (hn.withOut []) (hm.trans (moves_withOut _ []))
      (.refl _) rfl (fin_setAck _ _) (hfin t ht)
  | @aborts t seg ht hone =>
    obtain ⟨hn, hm⟩ := tick_moves h ht
    have hmoves : Moves t ((c.waited ms).aborted t seg).sender :=
      ⟨.of_eq rfl rfl rfl rfl rfl id fun _ => rfl, Nat.le_refl _⟩
    exact callEffect_resend h hc.drained ht hone ((hn.withOut []).withStream rfl hn.last)
      (hm.trans hmoves) ⟨id, id, fun _ => rfl⟩ rfl (fin_setAck _ _) (hfin t ht)

theorem callEffect_call {s : State} {e : Event} {d : TCPConnection} (h : Tracked s)
    (lawful : Lawful s e) (hd : s.conn.call e = .ok d) :
    CallEffect s.accepted (acceptedBy s.conn.sender e) s.conn d := by
  have hn := h.numbered
  have hq := h.sound.drained
  cases e with
  | connect =>
    obtain ⟨t, ht, rfl⟩ := connect_spec hd
    exact callEffect_fills _ hn hq rfl hn.last id id ht
  | write data =>
    obtain ⟨⟨d, n⟩, hw, hd⟩ := Exec.bind_eq_ok.mp hd
    cases hd
    rcases write_spec hw with ⟨-, rfl⟩ | ⟨t, ht, rfl⟩
    · exact callEffect_silent hn.same (.refl _) (.refl _)
        (by simp [newOut]) rfl
    · refine callEffect_fills (s.conn.sender.stream.write data).1 hn hq rfl ?_ id id ht
      intro hfin
      -- the FIN is not sent while the input goes on
      have heof := hn.last hfin
      have hopen : s.conn.sender.stream.endWrite = false := lawful.2
      rw [ByteStream.eof, hopen, Bool.and_false] at heof
      cases heof
  | endInputStream =>
    obtain ⟨t, ht, rfl⟩ := endInputStream_spec hd
    refine callEffect_fills s.conn.sender.stream.endInput hn hq rfl ?_ (fun _ => rfl) id ht
    intro hfin
    have heof := hn.last hfin
    rw [ByteStream.eof, Bool.and_eq_true] at heof ⊢
    exact ⟨heof.1, rfl⟩
  | tick ms => exact callEffect_tick hn h.sound hd
  | segmentReceived seg => exact callEffect_segment hn h.sound lawful hd
  | read len =>
    cases hd
    exact callEffect_silent hn.same (.refl _)
      (heard_read _ len) (by simp [newOut, readInbound]) rfl
  | collect =>
    cases hd
    exact callEffect_silent hn.same (.refl _) (.refl _)
      (by simp [newOut]) rfl

theorem tracked_step {s t : State} {e : Event} (h : Tracked s) (lawful : Lawful s e)
    (ht : step s e = .ok t) : Tracked t ∧ Moves s.conn.sender t.conn.sender ∧
      Heard s.conn.receiver t.conn.receiver := by
  obtain ⟨d, hd, ht⟩ := Exec.bind_eq_ok.mp ht
  cases ht
  have ha := callEffect_call h lawful hd
  refine ⟨⟨sound_call h.sound hd, ha.numbered, ?_⟩, ha.moves, ha.heard⟩
  rw [ha.fin, ← h.fin]
  simp only [List.mem_append, or_and_right, exists_or]

/-- **The summaries go forward.** Along any run that keeps fewer than `2 ^ 31` numbers in
flight and writes nothing after the end of the input, the sender's summary moves along
CLOSED, SYN_SENT, SYN_ACKED, FIN_SENT, FIN_ACKED and the receiver's along LISTEN, SYN_RECV,
FIN_RECV, or to an error, which is final. Without an error the sender's is FIN_ACKED exactly
when a FIN has been put out and the number after it acknowledged. -/
theorem summaries_forward (cfg : TCPConfig) (s t : State)
    (hs : Exec.Reach step Lawful (init cfg) s) (ht : Exec.Reach step Lawful s t) :
    senderRank s.conn.sender.stateSummary ≤ senderRank t.conn.sender.stateSummary ∧
    receiverRank s.conn.receiver.stateSummary ≤ receiverRank t.conn.receiver.stateSummary ∧
    (t.conn.sender.stateSummary ≠ .error →
      (t.conn.sender.stateSummary = .finAcked ↔ (∃ seg ∈ t.out, seg.header.fin = true) ∧
        t.conn.sender.stream.bytesWritten + 2 ∈ t.accepted)) := by
  have hstart : Tracked s := hs.invariant (tracked_init cfg)
    fun _ _ _ h lawful hu => (tracked_step h lawful hu).1
  obtain ⟨htracked, hsender, hreceiver⟩ : Tracked t ∧
      senderRank s.conn.sender.stateSummary ≤ senderRank t.conn.sender.stateSummary ∧
      receiverRank s.conn.receiver.stateSummary ≤ receiverRank t.conn.receiver.stateSummary := by
    apply ht.invariant (I := fun t => Tracked t ∧
      senderRank s.conn.sender.stateSummary ≤ senderRank t.conn.sender.stateSummary ∧
      receiverRank s.conn.receiver.stateSummary ≤ receiverRank t.conn.receiver.stateSummary)
    · exact ⟨hstart, Nat.le_refl _, Nat.le_refl _⟩
    · rintro u e v ⟨hu, hsender, hreceiver⟩ lawful hv
      obtain ⟨htracked, hmoves, hheard⟩ := tracked_step hu lawful hv
      exact ⟨htracked, Nat.le_trans hsender (senderRank_mono hu.numbered htracked.numbered hmoves),
        Nat.le_trans hreceiver (receiverRank_mono hheard)⟩
  refine ⟨hsender, hreceiver, fun herror => ?_⟩
  rw [finAcked_iff htracked.numbered herror, htracked.fin]

/-- Nothing written: the SYN is number 0 and the FIN number 1. -/
theorem summaries_forward_to_finAcked :
    ∃ t, Exec.Reach step Lawful (init { fixedIsn := ⟨7⟩ }) t ∧
      t.conn.sender.stateSummary = .finAcked ∧ t.conn.receiver.stateSummary = .finRecv ∧
      (∃ seg ∈ t.out, seg.header.fin = true) ∧
      t.conn.sender.stream.bytesWritten + 2 ∈ t.accepted := by
  obtain ⟨t, reached, h⟩ := Exec.reach_of_view step Lawful (init { fixedIsn := ⟨7⟩ })
    [.connect,
      .segmentReceived
        { header := { syn := true, seqno := ⟨100⟩, ack := true, ackno := ⟨8⟩, win := 10 } },
      .endInputStream,
      .segmentReceived
        { header := { fin := true, seqno := ⟨101⟩, ack := true, ackno := ⟨9⟩, win := 10 } }]
    (fun t => (t.conn.sender.stateSummary, t.conn.receiver.stateSummary)) (.finAcked, .finRecv)
    (by decide +kernel)
  obtain ⟨hsender, hreceiver⟩ := Prod.mk.inj h
  obtain ⟨-, -, hiff⟩ := summaries_forward _ _ t .start reached
  obtain ⟨hfin, hacked⟩ := (hiff (by simp [hsender])).mp hsender
  exact ⟨t, reached, hsender, hreceiver, hfin, hacked⟩

end Sponge.Summaries
