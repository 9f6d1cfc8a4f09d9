import Sponge.ConnectionRuns

/-!
# How a connection ends

One connection with any segments arriving. The history beside it is the absolute numbers of
the acknowledgements received, whether an arriving segment has found the inbound stream
ended before the outbound one, and the ticks since the last segment.

* `ends_cleanly`: a connection that becomes inactive without an error does so in `tick`,
  with both streams done, and has lingered if it had to.
-/

namespace Sponge.Ending

open TCPConnection TCPSender

structure State where
  conn : TCPConnection
  acked : List Nat
  found : Bool
  quiet : Nat

def init (cfg : TCPConfig) : State := ⟨.new cfg, [], false, 0⟩

/-- The absolute number of the acknowledgement in an arriving segment. -/
def ackNumber (s : TCPSender) (seg : TCPSegment) : List Nat :=
  if seg.header.ack && !seg.header.rst then
    (unwrap seg.header.ackno s.isn s.nextSeqno).toOption.toList
  else []

def note (s : State) (conn : TCPConnection) : Event → State
  | .segmentReceived seg =>
    { conn := conn
      acked := s.acked ++ ackNumber s.conn.sender seg
      found := s.found ||
        (!seg.header.rst && conn.checkInboundEnded && !s.conn.sender.stream.eof)
      quiet := 0 }
  | .tick ms => { s with conn := conn, quiet := s.quiet + ms }
  | _ => { s with conn := conn }

def step (s : State) (e : Event) : Except Fault State := do
  let conn ← s.conn.call e
  return note s conn e

def FewInFlight (s : State) (_ : Event) : Prop := s.conn.sender.bytesInFlight < 2 ^ 31

instance (s : State) (e : Event) : Decidable (FewInFlight s e) :=
  inferInstanceAs (Decidable (_ < _))

/-! ## The sender's part -/

/-- When nothing is outstanding, all that was sent has been acknowledged. -/
def AllAcked (acked : List Nat) (s : TCPSender) : Prop :=
  s.segmentsOutstanding = [] → s.nextSeqno = 0 ∨ s.nextSeqno ∈ acked

structure AckedBook (acked : List Nat) (s : TCPSender) : Prop where
  book : Book s
  all : AllAcked acked s

theorem AckedBook.withOut {acked : List Nat} {s : TCPSender} (h : AckedBook acked s)
    (out : List TCPSegment) : AckedBook acked { s with segmentsOut := out } :=
  ⟨h.book.withOut out, h.all⟩

theorem AckedBook.withStream {acked : List Nat} {s : TCPSender} (h : AckedBook acked s)
    (stream : ByteStream) : AckedBook acked { s with stream := stream } :=
  ⟨h.book.withStream stream, h.all⟩

theorem AckedBook.more {acked : List Nat} {s : TCPSender} (h : AckedBook acked s)
    (more : List Nat) : AckedBook (acked ++ more) s := by
  constructor
  · exact h.book
  · intro ho
    rcases h.all ho with h0 | hmem
    · exact Or.inl h0
    · exact Or.inr (List.mem_append_left _ hmem)

theorem ackedBook_fillWindow {acked : List Nat} {s t : TCPSender} (h : AckedBook acked s)
    (ht : s.fillWindow = .ok t) : AckedBook acked t := by
  constructor
  · exact (book_fillWindow h.book ht).1
  · apply fillWindow_invariant (P := AllAcked acked) _ h.all ht
    intro u v _ he ho
    cases he with
    | syn _ => simp [TCPSender.syn, push] at ho
    | bytes _ => simp [TCPSender.bytes, push] at ho

theorem ackedBook_tick {acked : List Nat} {s t : TCPSender} {ms : Nat} (h : AckedBook acked s)
    (ht : s.tick ms = .ok t) : AckedBook acked t := by
  constructor
  · exact book_tick h.book ht
  · obtain ⟨_, _, _, _, _, rfl⟩ := tick_ok ht
    exact h.all

/-- An acknowledgement that clears the queue has the next number. -/
theorem allAcked_acked {acked : List Nat} {s : TCPSender} {absAckno m : Nat}
    {gone rest : List TCPSegment} (windowSize : UInt16) (h : AllAcked acked s)
    (haccepts : Accepts s absAckno) (hd : Divides s absAckno gone rest m) :
    AllAcked (acked ++ [absAckno]) (s.acked absAckno windowSize gone rest) := by
  intro hrest
  change rest = [] at hrest
  subst hrest
  have hm : m = s.nextSeqno := hd.after
  rcases hd.covered with rfl | hcovered
  · rcases h (by rw [hd.split]; rfl) with h0 | hmem
    · exact Or.inl h0
    · exact Or.inr (List.mem_append_left _ hmem)
  · have : s.nextSeqno = absAckno := Nat.le_antisymm (hm ▸ hcovered) haccepts.1
    exact Or.inr (List.mem_append_right _ (List.mem_singleton.mpr this))

theorem ackedBook_ackReceived {acked : List Nat} {s t : TCPSender} {ackno : WrappingInt32}
    {windowSize : UInt16} {absAckno : Nat} (h : AckedBook acked s) (near : s.bytesInFlight < 2 ^ 31)
    (habs : unwrap ackno s.isn s.nextSeqno = .ok absAckno)
    (ht : s.ackReceived ackno windowSize = .ok t) : AckedBook (acked ++ [absAckno]) t := by
  obtain ⟨a, ha, ⟨-, rfl⟩ | ⟨-, haccepts, gone, rest, m, hd, hbook, -, hfill⟩⟩ :=
    ackReceived_spec h.book near ht
  · exact h.more _
  · cases habs.symm.trans ha
    exact ackedBook_fillWindow ⟨hbook, allAcked_acked windowSize h.all haccepts hd⟩ hfill

theorem ackedBook_takesAck {acked : List Nat} {s t : TCPSender} {seg : TCPSegment}
    {segs : List TCPSegment} (h : AckedBook acked s) (near : s.bytesInFlight < 2 ^ 31)
    (hrst : seg.header.rst = false) (ht : TakesAck seg s t segs) :
    AckedBook (acked ++ ackNumber s seg) t := by
  cases ht with
  | without => exact h.more _
  | given hack hr =>
    obtain ⟨absAckno, habs, -⟩ := Exec.bind_eq_ok.mp hr
    have hnumber : ackNumber s seg = [absAckno] := by
      simp [ackNumber, hack, hrst, habs, Except.toOption]
    rw [hnumber]
    exact (ackedBook_ackReceived h near habs hr).withOut []

theorem ackedBook_answers {acked : List Nat} {s t : TCPSender} {seg : TCPSegment}
    {segs : List TCPSegment} (h : AckedBook acked s) (ht : Answers seg s t segs) :
    AckedBook acked t := by
  cases ht with
  | nothing => exact h
  | fills _ hfill => exact (ackedBook_fillWindow h hfill).withOut []
  | empty _ hfill => exact ackedBook_fillWindow h hfill

/-! ## The whole connection -/

structure Sound (cfg : TCPConfig) (s : State) : Prop where
  cfg : s.conn.cfg = cfg
  drained : s.conn.sender.segmentsOut = []
  acks : AckedBook s.acked s.conn.sender
  linger : s.conn.lingerAfterStreamsFinish = false → s.found = true
  time : s.conn.timeSinceLastSegmentReceived ≤ s.quiet

theorem sound_init (cfg : TCPConfig) : Sound cfg (init cfg) := by
  constructor
  · rfl
  · rfl
  · exact ⟨book_new _ _ _, fun _ => Or.inl rfl⟩
  · intro h
    cases h
  · exact Nat.le_refl _

/-- The sender after any call but `tick` and `segment_received`, which changes nothing of
what else is looked at. -/
theorem Sound.sent {cfg : TCPConfig} {s : State} {t : TCPSender} (h : Sound cfg s)
    (segs : List TCPSegment) (ht : AckedBook s.acked t) :
    Sound cfg { s with conn := s.conn.sent t segs } :=
  ⟨h.cfg, rfl, ht.withOut [], h.linger, h.time⟩

theorem sound_segment {cfg : TCPConfig} {s : State} {seg : TCPSegment} {d : TCPConnection}
    (h : Sound cfg s) (near : s.conn.sender.bytesInFlight < 2 ^ 31)
    (hd : s.conn.segmentReceived seg = .ok d) : Sound cfg (note s d (.segmentReceived seg)) := by
  rcases segmentReceived_spec h.drained hd with
    ⟨-, rfl⟩ | ⟨hrst, r, s₁, s₂, xs, ys, -, hack, hans, rfl⟩
  · refine ⟨h.cfg, h.drained, (h.acks.withStream _).more _, ?_, Nat.le_refl _⟩
    intro hlinger
    simp only [note, h.linger hlinger, Bool.true_or]
  · have hacks := ackedBook_answers (ackedBook_takesAck h.acks near hrst hack) hans
    refine ⟨?_, rfl, hacks.withOut [], ?_, ?_⟩
    · simp only [note, TCPConnection.sent, accepted, noteInboundEnd_eq]
      exact h.cfg
    · intro hlinger
      simp only [note, TCPConnection.sent, accepted, noteInboundEnd_eq, foundEnded,
        Bool.and_eq_false_iff, Bool.not_eq_false'] at hlinger ⊢
      rcases hlinger with hlinger | hfound
      · rw [h.linger hlinger, Bool.true_or]
      · rw [hrst, Bool.not_false, Bool.true_and]
        exact Bool.or_eq_true_iff.mpr (Or.inr hfound)
    · simp only [note, TCPConnection.sent, accepted, noteInboundEnd_eq]
      exact Nat.le_refl _

/-- The end of `tick` changes nothing but whether the connection is active. -/
theorem Sound.closeIfDone {cfg : TCPConfig} {s : State} (h : Sound cfg s) :
    Sound cfg { s with conn := s.conn.closeIfDone } := by
  rcases closeIfDone_eq s.conn with heq | heq
  · rw [heq]
    exact h
  · rw [heq]
    exact ⟨h.cfg, h.drained, h.acks, h.linger, h.time⟩

theorem sound_tick {cfg : TCPConfig} {s : State} {ms : Nat} {d : TCPConnection} (h : Sound cfg s)
    (hd : s.conn.tick ms = .ok d) : Sound cfg (note s d (.tick ms)) := by
  obtain ⟨e, he, rfl⟩ := tick_spec h.drained hd
  have htime : (s.conn.timeSinceLastSegmentReceived + ms) % 2 ^ 64 ≤ s.quiet + ms :=
    Nat.le_trans (Nat.mod_le _ _) (Nat.add_le_add_right h.time ms)
  suffices hsound : Sound cfg { s with conn := e, quiet := s.quiet + ms } from hsound.closeIfDone
  cases he with
  | quiet ht => exact ⟨h.cfg, rfl, (ackedBook_tick h.acks ht).withOut [], h.linger, htime⟩
  | resends ht => exact ⟨h.cfg, rfl, (ackedBook_tick h.acks ht).withOut [], h.linger, htime⟩
  | aborts ht =>
    exact ⟨h.cfg, rfl, ((ackedBook_tick h.acks ht).withOut []).withStream _, h.linger, htime⟩

theorem sound_step {cfg : TCPConfig} {s t : State} {e : Event} (h : Sound cfg s)
    (near : FewInFlight s e) (ht : step s e = .ok t) : Sound cfg t := by
  obtain ⟨d, hd, ht⟩ := Exec.bind_eq_ok.mp ht
  cases ht
  cases e with
  | connect | write _ | endInputStream =>
    rcases fills_spec rfl hd with rfl | ⟨stream, u, hu, rfl⟩
    · exact h
    · exact h.sent _ (ackedBook_fillWindow (h.acks.withStream stream) hu)
  | tick ms => exact sound_tick h hd
  | segmentReceived seg => exact sound_segment h near hd
  | read len =>
    cases hd
    exact ⟨h.cfg, h.drained, h.acks, h.linger, h.time⟩
  | collect =>
    cases hd
    exact ⟨h.cfg, h.drained, h.acks, h.linger, h.time⟩

/-! ## The end -/

/-- **A connection ends cleanly only when it may.** In every run with fewer than `2 ^ 31`
numbers in flight, a call that makes the connection inactive puts both streams in error, or
is a `tick` after which

* the inbound stream has ended and nothing waits to be assembled;
* an acknowledgement of all that was written and of the FIN has been received;
* an arriving segment has found the inbound stream ended before the outbound one, or no
  segment has arrived for ten timeouts.

An inactive connection stays inactive. -/
theorem ends_cleanly (cfg : TCPConfig) (s t : State) (e : Event)
    (h : Exec.Reach step FewInFlight (init cfg) s) (near : FewInFlight s e)
    (ht : step s e = .ok t) :
    (s.conn.active = false → t.conn.active = false) ∧
    (s.conn.active = true → t.conn.active = false →
      (t.conn.sender.stream.error = true ∧ t.conn.inboundStream.error = true) ∨
      ((∃ ms, e = .tick ms) ∧
        t.conn.inboundStream.inputEnded = true ∧ t.conn.receiver.unassembledBytes = 0 ∧
        t.conn.sender.stream.bytesWritten + 2 ∈ t.acked ∧
        (t.found = true ∨ 10 * cfg.rtTimeout.toNat ≤ t.quiet))) := by
  have hs := h.invariant (sound_init cfg) (fun _ _ _ hs hn ht => sound_step hs hn ht)
  have hsound := sound_step hs near ht
  obtain ⟨d, hd, heq⟩ := Exec.bind_eq_ok.mp ht
  have hconn : t.conn = d := by
    cases heq
    cases e <;> rfl
  subst hconn
  constructor
  · exact call_active hs.drained hd
  · intro hactive hinactive
    rcases call_inactive hs.drained hd hinactive with hold | hfailed | ⟨ms, rfl, hmay⟩
    · rw [hactive] at hold
      cases hold
    · exact Or.inl hfailed
    · right
      obtain ⟨hun, hended⟩ := Bool.and_eq_true_iff.mp hmay.inbound
      obtain ⟨heof, hflight⟩ := Bool.and_eq_true_iff.mp hmay.outbound
      obtain ⟨-, hnext⟩ := Bool.and_eq_true_iff.mp heof
      refine ⟨⟨ms, rfl⟩, hended, beq_iff_eq.mp hun, ?_, ?_⟩
      · have hnext : t.conn.sender.nextSeqno = t.conn.sender.stream.bytesWritten + 2 :=
          beq_iff_eq.mp hnext
        have hempty : t.conn.sender.segmentsOutstanding = [] := by
          rw [← totalLength_eq_zero hsound.acks.book.chain.pos, ← hsound.acks.book.flight]
          exact beq_iff_eq.mp hflight
        rcases hsound.acks.all hempty with h0 | hmem
        · omega
        · exact hnext ▸ hmem
      · rcases hmay.lingered with hlinger | htime
        · exact Or.inl (hsound.linger hlinger)
        · right
          rw [← hsound.cfg]
          exact Nat.le_trans htime hsound.time

/-- A timeout of ten milliseconds. -/
def tenMs : TCPConfig := { rtTimeout := 10, recvCapacity := 4, fixedIsn := ⟨7⟩ }

/-- An active close: both FINs are acknowledged, and the connection lingers for ten
timeouts. -/
theorem ends_cleanly_lingering :
    ∃ s t, Exec.Reach step FewInFlight (init tenMs) s ∧
      step s (.tick 60) = .ok t ∧ s.conn.active = true ∧ t.conn.active = false ∧
      2 ∈ t.acked ∧ (t.found = true ∨ 100 ≤ t.quiet) := by
  obtain ⟨s, reached, hv⟩ := Exec.reach_of_view step FewInFlight (init tenMs)
    [.connect,
      .segmentReceived
        { header := { syn := true, ack := true, seqno := ⟨100⟩, ackno := ⟨8⟩, win := 5 } },
      .endInputStream,
      .segmentReceived
        { header := { fin := true, ack := true, seqno := ⟨101⟩, ackno := ⟨9⟩, win := 5 } },
      .tick 40]
    (fun s => (s.conn.active, s.conn.sender.bytesInFlight, (step s (.tick 60)).toOption.map fun t =>
      (t.conn.active, t.conn.sender.stream.error, t.conn.sender.stream.bytesWritten)))
    (true, 0, some (false, false, 0)) (by decide +kernel)
  simp only [Prod.mk.injEq] at hv
  obtain ⟨hactive, hflight, hv⟩ := hv
  obtain ⟨t, ht, hview⟩ := Exec.ok_of_view _ _ hv
  simp only [Prod.mk.injEq] at hview
  obtain ⟨hinactive, herror, hwritten⟩ := hview
  have near : FewInFlight s (.tick 60) := by
    rw [FewInFlight, hflight]
    decide
  obtain ⟨-, hends⟩ := ends_cleanly tenMs s t (.tick 60) reached near ht
  rcases hends hactive hinactive with ⟨hfailed, -⟩ | ⟨-, -, -, hacked, hlingered⟩
  · rw [herror] at hfailed
    cases hfailed
  · rw [hwritten] at hacked
    exact ⟨s, t, reached, ht, hactive, hinactive, hacked, hlingered⟩

end Sponge.Ending
