import Sponge.SenderSpec

/-!
# Runs of the sender

Any sequence of writes, end of input, `fill_window`, acknowledgements, ticks and empty
segments, as long as fewer than `2 ^ 31` numbers are in flight.
-/

namespace Sponge.TCPSender

inductive Op
  | write (data : List Byte)
  | endInput
  | fillWindow
  | ackReceived (ackno : WrappingInt32) (windowSize : UInt16)
  | tick (ms : Nat)
  | sendEmptySegment

def step (s : TCPSender) : Op → Except Fault TCPSender
  | .write data => .ok { s with stream := (s.stream.write data).1 }
  | .endInput => .ok { s with stream := s.stream.endInput }
  | .fillWindow => s.fillWindow
  | .ackReceived ackno windowSize => s.ackReceived ackno windowSize
  | .tick ms => s.tick ms
  | .sendEmptySegment => .ok s.sendEmptySegment

/-- Fewer than `2 ^ 31` sequence numbers are in flight. -/
abbrev FewInFlight (s : TCPSender) (_ : Op) : Prop := s.bytesInFlight < 2 ^ 31

theorem fillWindow_growth {s t : TCPSender} (h : s.fillWindow = .ok t) :
    t.nextSeqno ≤ s.nextSeqno + 2 ^ 16 := by
  obtain ⟨u, hu, _, hle, _⟩ := fillWindow_spec s
  rw [hu] at h
  cases h
  exact hle

theorem book_step {s t : TCPSender} {op : Op} (hb : Book s) (near : s.bytesInFlight < 2 ^ 31)
    (h : step s op = .ok t) : Book t ∧ t.nextSeqno ≤ s.nextSeqno + 2 ^ 16 := by
  have same : Book s ∧ s.nextSeqno ≤ s.nextSeqno + 2 ^ 16 := ⟨hb, by omega⟩
  cases op with
  | write data =>
    cases h
    exact ⟨hb.withStream _, same.2⟩
  | endInput =>
    cases h
    exact ⟨hb.withStream _, same.2⟩
  | fillWindow => exact ⟨(book_fillWindow hb h).1, fillWindow_growth h⟩
  | ackReceived ackno windowSize =>
    obtain ⟨absAckno, _, ⟨_, rfl⟩ | ⟨_, _, gone, rest, m, _, hbook, _, hfill⟩⟩ :=
      ackReceived_spec hb near h
    · exact same
    · have hle := fillWindow_growth hfill
      exact ⟨(book_fillWindow hbook hfill).1, hle⟩
  | tick ms =>
    refine ⟨book_tick hb h, ?_⟩
    obtain ⟨_, _, _, _, _, rfl⟩ := tick_ok h
    exact same.2
  | sendEmptySegment =>
    cases h
    exact ⟨hb.withOut _, same.2⟩

/-- **Bookkeeping.** The outstanding segments have no gap between the first number not
acknowledged and the next number, the counter is their total length, and the timer runs
exactly while there are some. So a tick returns, and the 64-bit counter never wraps. -/
theorem bookkeeping (capacity : Nat) (retxTimeout : UInt16) (isn : WrappingInt32) (s : TCPSender)
    (h : Exec.Reach step FewInFlight (new capacity retxTimeout isn) s) :
    Chain s.isn s.segmentsOutstanding (s.nextSeqno - s.bytesInFlight) s.nextSeqno ∧
    s.bytesInFlight ≤ s.nextSeqno ∧ s.bytesInFlight = totalLength s.segmentsOutstanding ∧
    (∀ seg ∈ s.segmentsOutstanding, 0 < seg.lengthInSequenceSpace) ∧
    (s.timerRunning = true ↔ s.segmentsOutstanding ≠ []) ∧
    (s.segmentsOutstanding ≠ [] ↔ 0 < s.bytesInFlight) ∧
    (∀ ms, ∃ t, s.tick ms = .ok t) ∧ s.nextSeqno < 2 ^ 64 := by
  obtain ⟨hb, top⟩ := h.invariant (I := fun s => Book s ∧ s.nextSeqno < 2 ^ 64)
    ⟨book_new capacity retxTimeout isn, by simp [new]⟩
    (by
      rintro s op t ⟨hb, _⟩ near hstep
      obtain ⟨hb', hle⟩ := book_step hb near hstep
      have := hb.flight_le
      have := hb.low
      exact ⟨hb', by omega⟩)
  refine ⟨hb.chain, by have := hb.flight_le; omega, hb.flight, hb.chain.pos, hb.timer, ?_,
    tick_returns hb.timer.mp, top⟩
  rw [hb.flight, Ne, ← totalLength_eq_zero hb.chain.pos]
  omega

/-- A SYN, three bytes in two segments, and an acknowledgement in the second of them. -/
theorem bookkeeping_abc :
    ∃ s, Exec.Reach step FewInFlight (new 8 1000 ⟨7⟩) s ∧ s.bytesInFlight = 1 ∧
      s.nextSeqno = 4 ∧ Chain s.isn s.segmentsOutstanding 3 4 ∧ ∃ t, s.tick 1000 = .ok t := by
  obtain ⟨s, reached, hv⟩ := Exec.reach_of_view step FewInFlight (new 8 1000 ⟨7⟩)
    [.fillWindow, .ackReceived ⟨8⟩ 10, .write [97, 98], .fillWindow, .write [99], .fillWindow,
      .ackReceived ⟨10⟩ 10]
    (fun s => (s.bytesInFlight, s.nextSeqno)) (1, 4) (by decide)
  obtain ⟨hflight, hnext⟩ := Prod.mk.inj hv
  obtain ⟨hchain, _, _, _, _, _, htick, _⟩ := bookkeeping 8 1000 ⟨7⟩ s reached
  rw [hflight, hnext] at hchain
  exact ⟨s, reached, hflight, hnext, hchain, htick 1000⟩

end Sponge.TCPSender
