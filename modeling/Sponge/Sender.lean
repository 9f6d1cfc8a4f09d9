import Sponge.ByteStream
import Sponge.Segment

/-!
# The sender

`TCPSender` of `tcp_sender.cc`, field by field. The window counters are 16-bit words and
the timer fields 32-bit ones, so their arithmetic wraps as it does there; the 64-bit
counters are naturals, which `next_seqno_absolute` never outgrows.
-/

namespace Sponge

open Words

/-- `TCPConfig::MAX_PAYLOAD_SIZE`. -/
def maxPayloadSize : Nat := 1000

structure TCPSender where
  isn : WrappingInt32
  segmentsOut : List TCPSegment
  initialRetransmissionTimeout : UInt32
  stream : ByteStream
  nextSeqno : Nat
  synSent : Bool
  finSent : Bool
  bytesInFlight : Nat
  receiverWindowSize : UInt16
  receiverFreeSpace : UInt16
  consecutiveRetransmissions : UInt16
  rto : UInt32
  timeElapsed : UInt32
  timerRunning : Bool
  segmentsOutstanding : List TCPSegment

namespace TCPSender

def new (capacity : Nat) (retxTimeout : UInt16) (fixedIsn : WrappingInt32) : TCPSender where
  isn := fixedIsn
  segmentsOut := []
  initialRetransmissionTimeout := retxTimeout.toUInt32
  stream := ByteStream.new capacity
  nextSeqno := 0
  synSent := false
  finSent := false
  bytesInFlight := 0
  receiverWindowSize := 0
  receiverFreeSpace := 0
  consecutiveRetransmissions := 0
  rto := retxTimeout.toUInt32
  timeElapsed := 0
  timerRunning := false
  segmentsOutstanding := []

def nextSeqnoAbsolute (s : TCPSender) : Nat := s.nextSeqno

def sendSegment (s : TCPSender) (seg : TCPSegment) : TCPSender :=
  let seg := { seg with header := { seg.header with seqno := wrap s.nextSeqno s.isn } }
  { s with
    nextSeqno := s.nextSeqno + seg.lengthInSequenceSpace
    bytesInFlight := s.bytesInFlight + seg.lengthInSequenceSpace
    receiverFreeSpace :=
      if s.synSent then s.receiverFreeSpace - UInt16.ofNat seg.lengthInSequenceSpace
      else s.receiverFreeSpace
    segmentsOut := s.segmentsOut ++ [seg]
    segmentsOutstanding := s.segmentsOutstanding ++ [seg]
    timerRunning := true
    timeElapsed := if s.timerRunning then s.timeElapsed else 0 }

/-- Send `size` bytes of the stream, with a FIN or without. -/
def sendBytes (s : TCPSender) (size : Nat) (fin : Bool) : TCPSender :=
  let (stream, bytes) := s.stream.read size
  sendSegment { s with stream := stream, finSent := s.finSent || fin }
    { header := { fin := fin }, payload := bytes }

/-- One round of `while (_receiver_free_space)`. -/
def fillRound (s : TCPSender) : Except Fault (ForInStep TCPSender) :=
  if s.receiverFreeSpace = 0 then .ok (.done s)
  else
    let payloadSize := min (min s.stream.bufferSize s.receiverFreeSpace.toNat) maxPayloadSize
    let fin := (s.stream.read payloadSize).1.eof && s.receiverFreeSpace.toNat > payloadSize
    let s := s.sendBytes payloadSize fin
    .ok (if s.stream.bufferEmpty then .done s else .yield s)

/-- The SYN is still the oldest outstanding segment. -/
def synOutstanding (s : TCPSender) : Bool :=
  match s.segmentsOutstanding with
  | [] => false
  | seg :: _ => seg.header.syn

def fillWindow (s : TCPSender) : Except Fault TCPSender :=
  if !s.synSent then
    .ok (sendSegment { s with synSent := true } { header := { syn := true } })
  else if s.synOutstanding then .ok s
  else if s.stream.bufferSize == 0 && !s.stream.eof then .ok s
  else if s.finSent then .ok s
  else if s.receiverWindowSize ≠ 0 then
    -- every round takes at least one number off the free space
    Exec.loop .spins fillRound (s.receiverFreeSpace.toNat + 1) s
  else if s.receiverFreeSpace = 0 then
    -- the probe of a closed window; it leaves the counter at 65535, so it is sent once
    if s.stream.eof then .ok (s.sendBytes 0 true)
    else if !s.stream.bufferEmpty then .ok (s.sendBytes 1 false)
    else .ok s
  else .ok s

def ackValid (s : TCPSender) (absAckno : Nat) : Except Fault Bool :=
  match s.segmentsOutstanding with
  | [] => .ok (absAckno ≤ s.nextSeqno)
  | seg :: _ =>
    if absAckno ≤ s.nextSeqno then do
      let first ← unwrap seg.header.seqno s.isn s.nextSeqno
      return first ≤ absAckno
    else .ok false

/-- Take the oldest segment, wholly acknowledged, off the queue. -/
def popFront (s : TCPSender) (seg : TCPSegment) (rest : List TCPSegment) : TCPSender :=
  { s with
    bytesInFlight := sub64 s.bytesInFlight seg.lengthInSequenceSpace
    segmentsOutstanding := rest
    timeElapsed := 0
    rto := s.initialRetransmissionTimeout
    consecutiveRetransmissions := 0 }

/-- The loop of `ack_received` over the outstanding segments. -/
def popAcked (absAckno : Nat) : List TCPSegment → TCPSender → Except Fault TCPSender
  | [], s => .ok s
  | seg :: rest, s => do
    let absSeqno ← unwrap seg.header.seqno s.isn s.nextSeqno
    if absSeqno + seg.lengthInSequenceSpace ≤ absAckno then
      popAcked absAckno rest (s.popFront seg rest)
    else
      return s

/-- What is left of the window beyond the outstanding segments, in 16 bits. -/
def setFreeSpace (s : TCPSender) (absAckno : Nat) (windowSize : UInt16) : Except Fault TCPSender :=
  match s.segmentsOutstanding with
  | [] => .ok s
  | seg :: _ => do
    let first ← unwrap seg.header.seqno s.isn s.nextSeqno
    return { s with
      receiverFreeSpace :=
        UInt16.ofNat (sub64 (sub64 (absAckno + windowSize.toNat) first) s.bytesInFlight) }

def stopTimer (s : TCPSender) : TCPSender :=
  if s.bytesInFlight = 0 then { s with timerRunning := false } else s

def ackReceived (s : TCPSender) (ackno : WrappingInt32) (windowSize : UInt16) :
    Except Fault TCPSender := do
  let absAckno ← unwrap ackno s.isn s.nextSeqno
  if !(← s.ackValid absAckno) then
    return s
  let s := { s with receiverWindowSize := windowSize, receiverFreeSpace := windowSize }
  let s ← popAcked absAckno s.segmentsOutstanding s
  let s ← s.setFreeSpace absAckno windowSize
  s.stopTimer.fillWindow

def tick (s : TCPSender) (msSinceLastTick : Nat) : Except Fault TCPSender :=
  if !s.timerRunning then .ok s
  else
    let s := { s with timeElapsed := s.timeElapsed + UInt32.ofNat msSinceLastTick }
    if s.timeElapsed ≥ s.rto then do
      let seg ← subscript s.segmentsOutstanding 0
      let s := { s with segmentsOut := s.segmentsOut ++ [seg], timeElapsed := 0 }
      if s.receiverWindowSize ≠ 0 ∨ seg.header.syn then
        return { s with
          consecutiveRetransmissions := s.consecutiveRetransmissions + 1
          rto := s.rto <<< 1 }
      else
        return s
    else .ok s

def sendEmptySegment (s : TCPSender) : TCPSender :=
  { s with segmentsOut := s.segmentsOut ++ [{ header := { seqno := wrap s.nextSeqno s.isn } }] }

end TCPSender

end Sponge
