import Sponge.WindowEdge
import Sponge.System

/-!
# Answers to arriving segments

Any calls on one connection, and two connections that exchange segments.

* `occupying_acknowledged`: a segment that occupies sequence numbers is answered, and every
  segment put out carries the receiver's present acknowledgement and window;
* `unread_output_faults`: a payload past the free window can leave the reassembler's deques,
  and then the call has no defined result;
* `no_ack_of_ack`: a segment that occupies none is never answered with another such, so that
  two endpoints fall silent unless new sequence numbers are used.
-/

namespace Sponge.Replies

open Words TCPConnection TCPSender StreamReassembler
open WindowEdge (newOut)

/-! ## Between calls -/

structure Sound (c : TCPConnection) : Prop where
  drained : c.sender.segmentsOut = []
  tally : Tally c.sender
  intact : Intact c.receiver.reassembler

theorem sound_new (cfg : TCPConfig) : Sound (.new cfg) :=
  ⟨rfl, tally_new _ _ _, intact_new _⟩

theorem intact_segment {t u : TCPReceiver} {seg : TCPSegment} (h : Intact t.reassembler)
    (hu : t.segmentReceived seg = .ok u) : Intact u.reassembler := by
  rcases TCPReceiver.segmentReceived_any hu with ⟨-, rfl⟩ | ⟨index, r, hr, rfl, -⟩
  · exact h
  · exact push_intact h hr

theorem readBytes_segment {t u : TCPReceiver} {seg : TCPSegment} (h : Intact t.reassembler)
    (hu : t.segmentReceived seg = .ok u) : u.streamOut.readBytes = t.streamOut.readBytes := by
  rcases TCPReceiver.segmentReceived_any hu with ⟨-, rfl⟩ | ⟨index, r, hr, rfl, -⟩
  · rfl
  · exact push_readBytes h hr

theorem Sound.sent {c : TCPConnection} {s : TCPSender} (h : Sound c) (segs : List TCPSegment)
    (hs : Tally s) : Sound (c.sent s segs) :=
  ⟨rfl, hs.withOut [], h.intact⟩

theorem Sound.setErrors {c : TCPConnection} (h : Sound c) : Sound c.setErrors :=
  ⟨h.drained, h.tally.withStream _, h.intact.withOutput _ rfl⟩

theorem sound_segment {c d : TCPConnection} {seg : TCPSegment} (h : Sound c)
    (hd : c.segmentReceived seg = .ok d) : Sound d := by
  rcases segmentReceived_spec h.drained hd with
    ⟨-, rfl⟩ | ⟨-, r, s₁, s₂, xs, ys, hr, hack, hans, rfl⟩
  · have hfailed := h.setErrors
    exact ⟨hfailed.drained, hfailed.tally, hfailed.intact⟩
  · have hreceiver : (c.accepted r).receiver = r := by rw [accepted, noteInboundEnd_eq]
    refine ⟨rfl, (tally_answers (tally_takesAck h.tally hack) hans).withOut [], ?_⟩
    change Intact (c.accepted r).receiver.reassembler
    rw [hreceiver]
    exact intact_segment h.intact hr

theorem sound_tick {c d : TCPConnection} {ms : Nat} (h : Sound c) (hd : c.tick ms = .ok d) :
    Sound d := by
  obtain ⟨e, he, rfl⟩ := tick_spec h.drained hd
  have hwaited : Sound (c.waited ms) := ⟨h.drained, h.tally, h.intact⟩
  have hsound : Sound e := by
    cases he with
    | quiet ht => exact hwaited.sent _ (tally_tick h.tally ht)
    | resends ht => exact hwaited.sent _ (tally_tick h.tally ht)
    | aborts ht =>
      have hfailed := (hwaited.sent [] (tally_tick h.tally ht)).setErrors
      exact ⟨hfailed.drained, hfailed.tally, hfailed.intact⟩
  rcases closeIfDone_eq e with heq | heq
  · rw [heq]
    exact hsound
  · rw [heq]
    exact ⟨hsound.drained, hsound.tally, hsound.intact⟩

theorem sound_call {c d : TCPConnection} {e : Event} (h : Sound c) (hd : c.call e = .ok d) :
    Sound d := by
  cases e with
  | connect | write _ | endInputStream =>
    rcases fills_spec rfl hd with rfl | ⟨stream, s, hs, rfl⟩
    · exact h
    · exact h.sent _ (tally_fillWindow (h.tally.withStream stream) hs)
  | tick ms => exact sound_tick h hd
  | segmentReceived seg => exact sound_segment h hd
  | read len =>
    cases hd
    refine ⟨h.drained, h.tally, ?_⟩
    simp only [readInbound, TCPReceiver.readOut_fst]
    exact h.intact.withOutput _ (ByteStream.popOutput_capacity _ _)
  | collect =>
    cases hd
    exact ⟨h.drained, h.tally, h.intact⟩

/-- Any calls at all, as long as they return. -/
abbrev Runs (cfg : TCPConfig) (c : TCPConnection) : Prop :=
  Exec.Reach call (fun _ _ => True) (.new cfg) c

theorem Runs.sound {cfg : TCPConfig} {c : TCPConnection} (h : Runs cfg c) : Sound c :=
  h.invariant (sound_new cfg) fun _ _ _ hs _ hd => sound_call hs hd

/-! ## Segments that occupy sequence numbers -/

/-- The stream index at which the payload of a segment is pushed. -/
def streamIdx (t : TCPReceiver) (seg : TCPSegment) : Nat :=
  if t.synReceived then
    sub64 ((unwrap seg.header.seqno t.isn t.reassembler.ackIndex).toOption.getD 0) 1
  else 0

/-- The numbers are clear of `2 ^ 64`, and the reassembler has the places that the payload is
copied to. -/
structure Receivable (c : TCPConnection) (seg : TCPSegment) : Prop where
  inbound : c.receiver.reassembler.ackIndex + 2 ^ 32 < 2 ^ 64
  outbound : c.sender.nextSeqno + 2 ^ 32 < 2 ^ 64
  storable : Storable c.receiver.reassembler seg.payload (streamIdx c.receiver seg)

theorem streamIdx_later {t : TCPReceiver} {seg : TCPSegment} {a : Nat}
    (hs : t.synReceived = true)
    (ha : unwrap seg.header.seqno t.isn t.reassembler.ackIndex = .ok a) :
    streamIdx t seg = sub64 a 1 := by
  rw [streamIdx, if_pos hs, ha]
  rfl

theorem receiver_returns {c : TCPConnection} {seg : TCPSegment} (h : Sound c)
    (hr : Receivable c seg) : ∃ r, c.receiver.segmentReceived seg = .ok r := by
  have hstore := hr.storable
  cases hs : c.receiver.synReceived with
  | false =>
    rw [TCPReceiver.segmentReceived_first seg hs]
    split
    · have hzero : streamIdx c.receiver seg = 0 := if_neg (by simp [hs])
      rw [hzero] at hstore
      obtain ⟨r, hpush⟩ := push_returns h.intact seg.header.fin hstore
      exact ⟨_, by rw [hpush]; rfl⟩
    · exact ⟨_, rfl⟩
  | true =>
    obtain ⟨a, ha⟩ := unwrap_returns seg.header.seqno c.receiver.isn hr.inbound
    rw [streamIdx_later hs ha] at hstore
    obtain ⟨r, hpush⟩ := push_returns h.intact seg.header.fin hstore
    refine ⟨c.receiver.took seg r, ?_⟩
    rw [TCPReceiver.segmentReceived_later seg hs]
    exact Exec.bind_eq_ok.mpr ⟨a, ha, Exec.bind_eq_ok.mpr ⟨r, hpush, rfl⟩⟩

theorem takeAck_returns {c : TCPConnection} (top : c.sender.nextSeqno + 2 ^ 32 < 2 ^ 64)
    (seg : TCPSegment) : ∃ d, c.takeAck seg = .ok d := by
  unfold takeAck
  split
  · obtain ⟨s, hs⟩ := ackReceived_returns top seg.header.ackno seg.header.win
    rw [hs]
    exact ⟨_, rfl⟩
  · exact ⟨c, rfl⟩

theorem replyTo_returns (c : TCPConnection) (seg : TCPSegment) : ∃ d, c.replyTo seg = .ok d := by
  unfold replyTo
  split
  · obtain ⟨s, hs, -⟩ := fillWindow_spec c.sender
    simp only [fillAndSend, hs, Exec.ok_bind, Exec.pure_ok]
    split
    · exact ⟨_, rfl⟩
    · exact ⟨_, rfl⟩
  · exact ⟨c, rfl⟩

theorem segmentReceived_returns {c : TCPConnection} {seg : TCPSegment} (h : Sound c)
    (hr : Receivable c seg) : ∃ d, c.segmentReceived seg = .ok d := by
  unfold segmentReceived
  dsimp only
  split
  · exact ⟨_, rfl⟩
  · obtain ⟨r, hrec⟩ := receiver_returns h hr
    rw [hrec, Exec.ok_bind]
    have hsender : (c.accepted r).sender = c.sender := by rw [accepted, noteInboundEnd_eq]
    obtain ⟨d, hd⟩ := takeAck_returns (c := c.accepted r) (by rw [hsender]; exact hr.outbound) seg
    change ∃ e, (c.accepted r).takeAck seg >>= _ = .ok e
    rw [hd]
    exact replyTo_returns d seg

/-- The segment carries the acknowledgement and the window of the receiver. -/
structure Current (t : TCPReceiver) (seg : TCPSegment) : Prop where
  ack : seg.header.ack = true
  ackno : t.ackno = some seg.header.ackno
  win : seg.header.win.toNat = t.windowSize % 2 ^ 16

theorem current_set {c : TCPConnection} (hs : c.receiver.synReceived = true) (seg : TCPSegment) :
    Current c.receiver (c.setAckAndWindowsize seg) := by
  have hackno : c.receiver.ackno = some (wrap c.receiver.absAckno c.receiver.isn) := by
    simp [TCPReceiver.ackno, hs]
  constructor
  · simp [setAckAndWindowsize, hackno]
  · simp [setAckAndWindowsize, hackno]
  · simp [setAckAndWindowsize, UInt16.toNat_ofNat']

theorem answers_nonempty {seg : TCPSegment} {s t : TCPSender} {segs : List TCPSegment}
    (h : Answers seg s t segs) (hlen : 0 < seg.lengthInSequenceSpace) : segs ≠ [] := by
  cases h with
  | nothing hzero => omega
  | fills _ _ hne => exact hne
  | empty _ _ _ => simp

theorem answered {c d : TCPConnection} {seg : TCPSegment} (h : Sound c)
    (hrst : seg.header.rst = false) (hlen : 0 < seg.lengthInSequenceSpace)
    (hd : c.segmentReceived seg = .ok d) (hsyn : d.receiver.synReceived = true) :
    ∃ new, d.segmentsOut = c.segmentsOut ++ new ∧ new ≠ [] ∧
      ∀ out ∈ new, Current d.receiver out := by
  rcases segmentReceived_spec h.drained hd with
    ⟨hr, -⟩ | ⟨-, r, s₁, s₂, xs, ys, hr, hack, hans, rfl⟩
  · rw [hrst] at hr
    cases hr
  · have hout : (c.accepted r).segmentsOut = c.segmentsOut := by rw [accepted, noteInboundEnd_eq]
    refine ⟨(xs ++ ys).map (c.accepted r).setAckAndWindowsize, ?_, ?_, ?_⟩
    · rw [← hout]
      rfl
    · simp [answers_nonempty hans hlen]
    · intro out hmem
      obtain ⟨seg', -, rfl⟩ := List.mem_map.mp hmem
      exact current_set hsyn seg'

/-- **Occupying segments are acknowledged.** Between calls the sender's own queue is empty.
A segment that is no RST and occupies sequence numbers is processed when the reassembler has
places for its payload. Once a SYN has been received, it is answered, and each segment put
out carries the acknowledgement and the window that the receiver has afterwards. -/
theorem occupying_acknowledged (cfg : TCPConfig) (c : TCPConnection) (h : Runs cfg c) :
    c.sender.segmentsOut = [] ∧
    ∀ seg : TCPSegment, seg.header.rst = false → 0 < seg.lengthInSequenceSpace →
      (Receivable c seg → ∃ d, c.segmentReceived seg = .ok d) ∧
      ∀ d, c.segmentReceived seg = .ok d → d.receiver.synReceived = true →
        ∃ new, d.segmentsOut = c.segmentsOut ++ new ∧ new ≠ [] ∧
          ∀ out ∈ new, Current d.receiver out :=
  ⟨h.sound.drained, fun _ hrst hlen =>
    ⟨segmentReceived_returns h.sound, fun _ => answered h.sound hrst hlen⟩⟩

/-- The bytes 101 and 102 after the SYN numbered 100. -/
theorem occupying_acknowledged_bytes :
    ∃ c d new, Runs { recvCapacity := 2, fixedIsn := ⟨7⟩ } c ∧ c.sender.segmentsOut = [] ∧
      c.segmentReceived { header := { seqno := ⟨101⟩ }, payload := [97, 98] } = .ok d ∧
      d.segmentsOut = c.segmentsOut ++ new ∧ new ≠ [] ∧ ∀ out ∈ new, Current d.receiver out := by
  obtain ⟨c, reached, h⟩ := Exec.reach_of_view call (fun _ _ => True)
    (.new { recvCapacity := 2, fixedIsn := ⟨7⟩ })
    [.segmentReceived { header := { syn := true, seqno := ⟨100⟩ } }]
    (fun c => (decide (c.receiver.reassembler.ackIndex + 2 ^ 32 < 2 ^ 64 ∧
        c.sender.nextSeqno + 2 ^ 32 < 2 ^ 64 ∧ Storable c.receiver.reassembler [97, 98]
          (streamIdx c.receiver { header := { seqno := ⟨101⟩ }, payload := [97, 98] })),
      (c.segmentReceived { header := { seqno := ⟨101⟩ }, payload := [97, 98] }).toOption.map
        fun d => d.receiver.synReceived))
    (true, some true) (by decide +kernel)
  obtain ⟨hr, hview⟩ := Prod.mk.inj h
  obtain ⟨inbound, outbound, storable⟩ := of_decide_eq_true hr
  obtain ⟨hdrained, hseg⟩ := occupying_acknowledged _ c reached
  obtain ⟨hreturns, hanswered⟩ := hseg { header := { seqno := ⟨101⟩ }, payload := [97, 98] } rfl
    (by decide)
  obtain ⟨d, hd⟩ := hreturns ⟨inbound, outbound, storable⟩
  rw [hd] at hview
  obtain ⟨new, hnew⟩ := hanswered d hd (Option.some.inj hview)
  exact ⟨c, d, new, reached, hdrained, hd, hnew⟩

/-- Two bytes wait unread in a connection with a receive capacity of 2. Four thousand more that
come one byte past the window are stored past the end of the reassembler's deques. -/
theorem unread_output_faults :
    ∃ c, Runs { recvCapacity := 2, fixedIsn := ⟨7⟩ } c ∧ c.receiver.synReceived = true ∧
      c.segmentReceived { header := { seqno := ⟨104⟩ }, payload := List.replicate 4000 120 } =
        .error .outOfRange := by
  obtain ⟨c, reached, h⟩ := Exec.reach_of_view call (fun _ _ => True)
    (.new { recvCapacity := 2, fixedIsn := ⟨7⟩ })
    [.segmentReceived { header := { syn := true, seqno := ⟨100⟩ } },
      .segmentReceived { header := { seqno := ⟨101⟩ }, payload := [97, 98] }]
    (fun c => (c.receiver.synReceived, Exec.fault (c.segmentReceived
      { header := { seqno := ⟨104⟩ }, payload := List.replicate 4000 120 })))
    (true, some .outOfRange) (by decide +kernel)
  obtain ⟨hsyn, h⟩ := Prod.mk.inj h
  exact ⟨c, reached, hsyn, Exec.error_of_fault h⟩

/-! ## Segments that occupy none -/

@[simp] theorem length_setAck (c : TCPConnection) (seg : TCPSegment) :
    (c.setAckAndWindowsize seg).lengthInSequenceSpace = seg.lengthInSequenceSpace := by
  unfold setAckAndWindowsize TCPSegment.lengthInSequenceSpace
  dsimp only
  split <;> rfl

theorem totalLength_set (c : TCPConnection) (segs : List TCPSegment) :
    totalLength (segs.map c.setAckAndWindowsize) = totalLength segs := by
  induction segs with
  | nil => rfl
  | cons seg rest ih => simp only [List.map_cons, totalLength_cons, length_setAck, ih]

theorem fin_setAck (c : TCPConnection) (seg : TCPSegment) :
    (c.setAckAndWindowsize seg).header.fin = seg.header.fin := by
  unfold setAckAndWindowsize
  dsimp only
  split <;> rfl

theorem uses_set {s t : TCPSender} {segs : List TCPSegment} (h : Uses s t segs)
    (c : TCPConnection) : Uses s t (segs.map c.setAckAndWindowsize) := by
  constructor
  · intro out hmem
    obtain ⟨seg, hseg, rfl⟩ := List.mem_map.mp hmem
    rw [length_setAck]
    exact h.pos seg hseg
  · rw [totalLength_set]
    exact h.numbers
  · rw [h.fin]
    apply or_congr_right
    constructor
    · rintro ⟨seg, hseg, hfin⟩
      exact ⟨_, List.mem_map_of_mem hseg, by rw [fin_setAck, hfin]⟩
    · rintro ⟨out, hout, hfin⟩
      obtain ⟨seg, hseg, rfl⟩ := List.mem_map.mp hout
      exact ⟨seg, hseg, by rw [← hfin, fin_setAck]⟩

theorem takesAck_uses {seg : TCPSegment} {s t : TCPSender} {segs : List TCPSegment}
    (hq : s.segmentsOut = []) (h : Tally s) (ht : TakesAck seg s t segs) :
    t.segmentsOut = [] ∧ Uses s t segs := by
  cases ht with
  | without => exact ⟨hq, uses_nil s⟩
  | given _ hr =>
    obtain ⟨new, hout, hnew⟩ := ackReceived_uses h hr
    rw [hq, List.nil_append] at hout
    rw [hout]
    exact ⟨rfl, hnew.pos, hnew.numbers, hnew.fin⟩

/-- At most one segment without numbers, in answer to one with numbers. -/
def Bare (seg : TCPSegment) (last : List TCPSegment) : Prop :=
  last = [] ∨ 0 < seg.lengthInSequenceSpace ∧ ∃ out, last = [out] ∧ out.lengthInSequenceSpace = 0

theorem bare_set {seg : TCPSegment} {last : List TCPSegment} (h : Bare seg last)
    (c : TCPConnection) : Bare seg (last.map c.setAckAndWindowsize) := by
  rcases h with rfl | ⟨hlen, out, rfl, hzero⟩
  · exact .inl rfl
  · exact .inr ⟨hlen, _, rfl, by rw [length_setAck, hzero]⟩

/-- The segment without numbers is put out when there is nothing else to answer with. -/
theorem answers_uses {seg : TCPSegment} {s t : TCPSender} {segs : List TCPSegment}
    (hq : s.segmentsOut = []) (h : Answers seg s t segs) :
    ∃ new last, segs = new ++ last ∧ Uses s t new ∧ Bare seg last := by
  cases h with
  | nothing => exact ⟨[], [], rfl, uses_nil s, .inl rfl⟩
  | fills _ hfill hne =>
    obtain ⟨new, hout, hnew⟩ := fillWindow_uses hfill
    rw [hq, List.nil_append] at hout
    rw [hout]
    exact ⟨new, [], (List.append_nil _).symm, ⟨hnew.pos, hnew.numbers, hnew.fin⟩, .inl rfl⟩
  | empty hlen hfill hnone =>
    obtain ⟨new, hout, hnew⟩ := fillWindow_uses hfill
    rw [hnone, hq, List.nil_append] at hout
    subst hout
    exact ⟨[], _, rfl, hnew, .inr ⟨hlen, _, rfl, rfl⟩⟩

/-- What arriving segments are answered with: the segments of the numbers newly used, and
the one without. -/
theorem replies_spec {c d : TCPConnection} {seg : TCPSegment} (h : Sound c)
    (hd : c.segmentReceived seg = .ok d) :
    ∃ new last, d.segmentsOut = c.segmentsOut ++ (new ++ last) ∧ Uses c.sender d.sender new ∧
      Bare seg last := by
  rcases segmentReceived_spec h.drained hd with
    ⟨-, rfl⟩ | ⟨-, r, s₁, s₂, xs, ys, hr, hack, hans, rfl⟩
  · exact ⟨[], [], by simp [setErrors], ⟨by simp, rfl, by simp [setErrors]⟩, .inl rfl⟩
  · have hout : (c.accepted r).segmentsOut = c.segmentsOut := by rw [accepted, noteInboundEnd_eq]
    obtain ⟨hq, hxs⟩ := takesAck_uses h.drained h.tally hack
    obtain ⟨new, last, rfl, hnew, hlast⟩ := answers_uses hq hans
    have huses := uses_set (hxs.append hnew) (c.accepted r)
    refine ⟨_, _, ?_, ⟨huses.pos, huses.numbers, huses.fin⟩, bare_set hlast (c.accepted r)⟩
    rw [← hout, ← List.map_append, List.append_assoc]
    rfl

/-! ## Two endpoints -/

/-- Two connections, the segments on the way to each, and how many segments were put there
otherwise than in answer to one that was delivered. -/
structure Exchange where
  conn : Side → TCPConnection
  wire : Side → List TCPSegment
  others : Nat

inductive Turn
  /-- The `i`-th segment on the way to `x` arrives, and is gone from there. -/
  | deliver (x : Side) (i : Nat)
  | lose (x : Side) (i : Nat)
  | call (x : Side) (e : Event)

def Turn.delivers : Turn → Bool
  | .deliver _ _ => true
  | .lose _ _ | .call _ _ => false

namespace Exchange

/-- `x` goes on as `d`, with `rest` still on the way to it. -/
def put (s : Exchange) (x : Side) (d : TCPConnection) (rest : List TCPSegment) : Exchange :=
  { s with
    conn := fun y => if y = x then d else s.conn y
    wire := fun y => if y = x then rest else s.wire y ++ newOut (s.conn x) d }

def step (s : Exchange) : Turn → Except Fault Exchange
  | .deliver x i => do
    let seg ← subscript (s.wire x) i
    let d ← (s.conn x).segmentReceived seg
    return s.put x d ((s.wire x).eraseIdx i)
  | .lose x i => .ok (s.put x (s.conn x) ((s.wire x).eraseIdx i))
  | .call x e => do
    let d ← (s.conn x).call e
    return { s.put x d (s.wire x) with others := s.others + (newOut (s.conn x) d).length }

/-- The sequence numbers used by the two senders. -/
def numbers (s : Exchange) : Nat := (s.conn .a).sender.nextSeqno + (s.conn .b).sender.nextSeqno

/-- A segment that can still be answered counts twice. -/
def weight (seg : TCPSegment) : Nat := if seg.lengthInSequenceSpace = 0 then 1 else 2

def weights : List TCPSegment → Nat
  | [] => 0
  | seg :: rest => weight seg + weights rest

def load (s : Exchange) : Nat := weights (s.wire .a) + weights (s.wire .b)

end Exchange

open Exchange

theorem numbers_put (s : Exchange) (x : Side) (d : TCPConnection) (rest : List TCPSegment) :
    (s.put x d rest).numbers + (s.conn x).sender.nextSeqno = s.numbers + d.sender.nextSeqno := by
  cases x with
  | a => simp [numbers, put]; omega
  | b => simp [numbers, put]; omega

@[simp] theorem weights_append (xs ys : List TCPSegment) :
    weights (xs ++ ys) = weights xs + weights ys := by
  induction xs with
  | nil => simp [weights]
  | cons seg rest ih => rw [List.cons_append, weights, ih, weights, Nat.add_assoc]

theorem load_put (s : Exchange) (x : Side) (d : TCPConnection) (rest : List TCPSegment) :
    (s.put x d rest).load + weights (s.wire x) =
      s.load + weights rest + weights (newOut (s.conn x) d) := by
  cases x with
  | a => simp [load, put]; omega
  | b => simp [load, put]; omega

theorem weight_le (seg : TCPSegment) : weight seg ≤ 2 := by unfold weight; split <;> omega

theorem weights_le (segs : List TCPSegment) : weights segs ≤ 2 * segs.length := by
  induction segs with
  | nil => simp [weights]
  | cons seg rest ih =>
    have := weight_le seg
    simp only [weights, List.length_cons]
    omega

/-- Segments that occupy numbers are paid for by these. -/
theorem weights_numbers {segs : List TCPSegment}
    (pos : ∀ seg ∈ segs, 0 < seg.lengthInSequenceSpace) :
    weights segs ≤ 2 * totalLength segs := by
  induction segs with
  | nil => simp [weights, totalLength]
  | cons seg rest ih =>
    have hrest := ih fun x hx => pos x (List.mem_cons_of_mem _ hx)
    have hseg := pos seg List.mem_cons_self
    have := weight_le seg
    simp only [weights, totalLength_cons]
    omega

theorem weights_eraseIdx {segs : List TCPSegment} {i : Nat} {seg : TCPSegment}
    (h : segs[i]? = some seg) : weights (segs.eraseIdx i) + weight seg = weights segs := by
  induction segs generalizing i with
  | nil => simp at h
  | cons x rest ih =>
    cases i with
    | zero =>
      cases h
      simp [weights, Nat.add_comm]
    | succ i =>
      have := ih h
      simp only [weights, List.eraseIdx_cons_succ]
      omega

theorem weights_erase_le (segs : List TCPSegment) (i : Nat) :
    weights (segs.eraseIdx i) ≤ weights segs := by
  cases h : segs[i]? with
  | none => exact Nat.le_of_eq (by rw [List.eraseIdx_of_length_le (List.getElem?_eq_none_iff.mp h)])
  | some seg =>
    have := weights_eraseIdx h
    omega

/-- What a delivery puts on the way back weighs less than what it took, the newly used
numbers apart. -/
theorem replies_weight {c d : TCPConnection} {seg : TCPSegment} (h : Sound c)
    (hd : c.segmentReceived seg = .ok d) :
    weights (newOut c d) + 1 + 2 * c.sender.nextSeqno ≤ weight seg + 2 * d.sender.nextSeqno := by
  obtain ⟨new, last, hout, huses, hlast⟩ := replies_spec h hd
  have hnew := weights_numbers huses.pos
  have hnumbers := huses.numbers
  have hweights : weights (newOut c d) = weights new + weights last := by
    rw [newOut, hout, List.drop_left, weights_append]
  rcases hlast with rfl | ⟨hlen, out, rfl, hzero⟩
  · have : 1 ≤ weight seg := by unfold weight; split <;> omega
    have : weights [] = 0 := rfl
    omega
  · have : weight seg = 2 := if_neg (Nat.ne_of_gt hlen)
    have : weights [out] = 1 := by simp [weights, weight, hzero]
    omega

theorem call_numbers {c d : TCPConnection} {e : Event} (h : Sound c) (hd : c.call e = .ok d) :
    c.sender.nextSeqno ≤ d.sender.nextSeqno := by
  cases e with
  | connect | write _ | endInputStream =>
    rcases fills_spec rfl hd with rfl | ⟨stream, s, hs, rfl⟩
    · exact Nat.le_refl _
    · obtain ⟨new, -, hnew⟩ := fillWindow_uses hs
      exact hnew.numbers ▸ Nat.le_add_right _ _
  | tick ms =>
    obtain ⟨e, he, rfl⟩ := tick_spec h.drained hd
    have hticked : ∀ {s : TCPSender}, c.sender.tick ms = .ok s →
        s.nextSeqno = c.sender.nextSeqno := by
      intro s hs
      obtain ⟨_, _, _, _, _, rfl⟩ := tick_ok hs
      rfl
    rw [closeIfDone_sender]
    cases he with
    | quiet ht => exact Nat.le_of_eq (hticked ht).symm
    | resends ht => exact Nat.le_of_eq (hticked ht).symm
    | aborts ht => exact Nat.le_of_eq (hticked ht).symm
  | segmentReceived seg =>
    obtain ⟨new, last, -, huses, -⟩ := replies_spec h hd
    exact huses.numbers ▸ Nat.le_add_right _ _
  | read len =>
    cases hd
    exact Nat.le_refl _
  | collect =>
    cases hd
    exact Nat.le_refl _

theorem step_spends {s t : Exchange} {e : Turn} (h : ∀ x, Sound (s.conn x))
    (ht : s.step e = .ok t) :
    (∀ x, Sound (t.conn x)) ∧ t.load + (if e.delivers then 1 else 0) + 2 * (s.numbers + s.others) ≤
      s.load + 2 * (t.numbers + t.others) := by
  have hput : ∀ (x : Side) (d : TCPConnection) (rest : List TCPSegment), Sound d →
      ∀ y, Sound ((s.put x d rest).conn y) := by
    intro x d rest hd y
    simp only [put]
    split
    · exact hd
    · exact h y
  cases e with
  | deliver x i =>
    obtain ⟨seg, hseg, ht⟩ := Exec.bind_eq_ok.mp ht
    obtain ⟨d, hd, ht⟩ := Exec.bind_eq_ok.mp ht
    cases ht
    refine ⟨hput x d _ (sound_segment (h x) hd), ?_⟩
    have hload := load_put s x d ((s.wire x).eraseIdx i)
    have hnumbers := numbers_put s x d ((s.wire x).eraseIdx i)
    have hweight := replies_weight (h x) hd
    have herase := weights_eraseIdx (subscript_ok hseg)
    have hothers : (s.put x d ((s.wire x).eraseIdx i)).others = s.others := rfl
    simp only [Turn.delivers, ↓reduceIte]
    omega
  | lose x i =>
    cases ht
    refine ⟨hput x _ _ (h x), ?_⟩
    have hload := load_put s x (s.conn x) ((s.wire x).eraseIdx i)
    have hnumbers := numbers_put s x (s.conn x) ((s.wire x).eraseIdx i)
    have herase := weights_erase_le (s.wire x) i
    have hnone : weights (newOut (s.conn x) (s.conn x)) = 0 := by simp [newOut, weights]
    have hothers : (s.put x (s.conn x) ((s.wire x).eraseIdx i)).others = s.others := rfl
    simp only [Turn.delivers, Bool.false_eq_true, ↓reduceIte]
    omega
  | call x e =>
    obtain ⟨d, hd, ht⟩ := Exec.bind_eq_ok.mp ht
    cases ht
    refine ⟨hput x d (s.wire x) (sound_call (h x) hd), ?_⟩
    have hload := load_put s x d (s.wire x)
    have hnumbers := numbers_put s x d (s.wire x)
    have hweight := weights_le (newOut (s.conn x) d)
    have hused := call_numbers (h x) hd
    change (s.put x d (s.wire x)).load + 0 + 2 * (s.numbers + s.others) ≤ s.load +
      2 * ((s.put x d (s.wire x)).numbers + (s.others + (newOut (s.conn x) d).length))
    omega

/-- **No acknowledgement of an acknowledgement.** Every segment put out in answer to one that
occupies no sequence number occupies some. So between two connections, from any states that
calls lead to and with any segments on the way, deliveries are bounded by what is on the way,
the sequence numbers newly used and the segments put out by other calls: the empty ones
cannot go on answering each other. -/
theorem no_ack_of_ack :
    (∀ cfg c, Runs cfg c → ∀ seg d, seg.lengthInSequenceSpace = 0 → c.segmentReceived seg = .ok d →
      ∃ new, d.segmentsOut = c.segmentsOut ++ new ∧ ∀ out ∈ new, 0 < out.lengthInSequenceSpace) ∧
    ∀ (cfg : Side → TCPConfig) (s : Exchange), (∀ x, Runs (cfg x) (s.conn x)) →
      ∀ (es : List Turn) (t : Exchange), es.foldlM Exchange.step s = .ok t →
        t.load + es.countP Turn.delivers + 2 * (s.numbers + s.others) ≤
          s.load + 2 * (t.numbers + t.others) := by
  constructor
  · intro cfg c hc seg d hlen hd
    obtain ⟨new, last, hout, huses, rfl | ⟨hpos, -⟩⟩ := replies_spec hc.sound hd
    · exact ⟨new, by rw [hout, List.append_nil], huses.pos⟩
    · omega
  · intro cfg s hs es t ht
    exact Exec.run_bounded (fun s => ∀ x, Sound (s.conn x)) load
      (fun s => 2 * (s.numbers + s.others)) Turn.delivers (fun _ _ _ h ht => step_spends h ht)
      es (fun x => (hs x).sound) ht

/-- An acknowledgement of its initial number makes a new connection send its SYN; and the
three segments of a handshake are not followed by a fourth. -/
theorem no_ack_of_ack_handshake :
    (∃ d new, (TCPConnection.new { fixedIsn := ⟨7⟩ }).segmentReceived
        { header := { ack := true, ackno := ⟨7⟩ } } = .ok d ∧
      d.segmentsOut = [] ++ new ∧ ∀ out ∈ new, 0 < out.lengthInSequenceSpace) ∧
    ∃ t, [Turn.call .a .connect, .deliver .b 0, .deliver .a 0, .deliver .b 0].foldlM Exchange.step
        ⟨fun _ => .new { fixedIsn := ⟨7⟩ }, fun _ => [], 0⟩ = .ok t ∧
      t.load + 3 ≤ 2 * (t.numbers + t.others) := by
  constructor
  · obtain ⟨d, hd, -⟩ := Exec.ok_of_view (fun _ => ()) ()
      (show ((TCPConnection.new { fixedIsn := ⟨7⟩ }).segmentReceived
        { header := { ack := true, ackno := ⟨7⟩ } }).toOption.map _ = _ by decide +kernel)
    obtain ⟨new, hnew⟩ := no_ack_of_ack.1 { fixedIsn := ⟨7⟩ } _ .start _ d rfl hd
    exact ⟨d, new, hd, hnew⟩
  · obtain ⟨t, ht, -⟩ := Exec.ok_of_view (fun _ => ()) ()
      (show ([Turn.call .a .connect, .deliver .b 0, .deliver .a 0, .deliver .b 0].foldlM
        Exchange.step ⟨fun _ => .new { fixedIsn := ⟨7⟩ }, fun _ => [], 0⟩).toOption.map _ = _ by
          decide +kernel)
    refine ⟨t, ht, ?_⟩
    have hbound : t.load + 3 + 2 * (0 + 0) ≤ 0 + 2 * (t.numbers + t.others) :=
      no_ack_of_ack.2 (fun _ => { fixedIsn := ⟨7⟩ }) _ (fun _ => .start) _ t ht
    omega

end Sponge.Replies
