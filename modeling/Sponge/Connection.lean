import Sponge.Receiver
import Sponge.Sender

/-!
# The connection

`TCPConnection` of `tcp_connection.cc`: a sender and a receiver, the segments put out with
the receiver's acknowledgement and window, and the rules by which the connection ends.
-/

namespace Sponge

open Words

/-- `TCPConfig::MAX_RETX_ATTEMPTS`. -/
def maxRetxAttempts : Nat := 8

structure TCPConfig where
  rtTimeout : UInt16 := 1000
  recvCapacity : Nat := 64000
  sendCapacity : Nat := 64000
  fixedIsn : WrappingInt32

structure TCPConnection where
  cfg : TCPConfig
  receiver : TCPReceiver
  sender : TCPSender
  segmentsOut : List TCPSegment
  lingerAfterStreamsFinish : Bool
  timeSinceLastSegmentReceived : Nat
  active : Bool

namespace TCPConnection

def new (cfg : TCPConfig) : TCPConnection where
  cfg := cfg
  receiver := .new cfg.recvCapacity
  sender := .new cfg.sendCapacity cfg.rtTimeout cfg.fixedIsn
  segmentsOut := []
  lingerAfterStreamsFinish := true
  timeSinceLastSegmentReceived := 0
  active := true

def remainingOutboundCapacity (c : TCPConnection) : Nat := c.sender.stream.remainingCapacity

def inboundStream (c : TCPConnection) : ByteStream := c.receiver.streamOut

def setAckAndWindowsize (c : TCPConnection) (seg : TCPSegment) : TCPSegment :=
  let header :=
    match c.receiver.ackno with
    | some ackno => { seg.header with ack := true, ackno := ackno }
    | none => seg.header
  { seg with header := { header with win := UInt16.ofNat c.receiver.windowSize } }

/-- Move every segment of the sender's queue out, and say whether there was one. -/
def realSend (c : TCPConnection) : TCPConnection × Bool :=
  ({ c with
      sender := { c.sender with segmentsOut := [] }
      segmentsOut := c.segmentsOut ++ c.sender.segmentsOut.map c.setAckAndWindowsize },
    !c.sender.segmentsOut.isEmpty)

/-- Take the front of the sender's queue, with the acknowledgement set. -/
def takeSegment (c : TCPConnection) : Except Fault (TCPSegment × TCPConnection) :=
  match c.sender.segmentsOut with
  | [] => .error .outOfRange
  | seg :: rest =>
    .ok (c.setAckAndWindowsize seg, { c with sender := { c.sender with segmentsOut := rest } })

/-- `fill_window` followed by `real_send`. -/
def fillAndSend (c : TCPConnection) : Except Fault (TCPConnection × Bool) := do
  let sender ← c.sender.fillWindow
  return { c with sender := sender }.realSend

def setErrors (c : TCPConnection) : TCPConnection :=
  { c with
    sender := { c.sender with stream := c.sender.stream.setError }
    receiver := { c.receiver with
      reassembler := { c.receiver.reassembler with
        output := c.receiver.reassembler.output.setError } } }

def checkInboundEnded (c : TCPConnection) : Bool :=
  c.receiver.unassembledBytes == 0 && c.receiver.streamOut.inputEnded

def checkOutboundEnded (c : TCPConnection) : Bool :=
  c.sender.stream.eof && c.sender.nextSeqnoAbsolute == c.sender.stream.bytesWritten + 2 &&
    c.sender.bytesInFlight == 0

/-- "Check if need to linger". -/
def noteInboundEnd (c : TCPConnection) : TCPConnection :=
  if c.checkInboundEnded && !c.sender.stream.eof then
    { c with lingerAfterStreamsFinish := false }
  else c

/-- The acknowledgement of an arriving segment. -/
def takeAck (c : TCPConnection) (seg : TCPSegment) : Except Fault TCPConnection :=
  if seg.header.ack then do
    let sender ← c.sender.ackReceived seg.header.ackno seg.header.win
    return { c with sender := sender }.realSend.1
  else .ok c

/-- At least one segment goes back for one that occupies sequence numbers. -/
def replyTo (c : TCPConnection) (seg : TCPSegment) : Except Fault TCPConnection :=
  if seg.lengthInSequenceSpace > 0 then do
    let (c, isSend) ← c.fillAndSend
    if isSend then
      return c
    let (ackSeg, c) ← { c with sender := c.sender.sendEmptySegment }.takeSegment
    return { c with segmentsOut := c.segmentsOut ++ [ackSeg] }
  else .ok c

def segmentReceived (c : TCPConnection) (seg : TCPSegment) : Except Fault TCPConnection := do
  let c := { c with timeSinceLastSegmentReceived := 0 }
  if seg.header.rst then
    return { c.setErrors with active := false }
  let receiver ← c.receiver.segmentReceived seg
  let c := noteInboundEnd { c with receiver := receiver }
  let c ← c.takeAck seg
  c.replyTo seg

def connect (c : TCPConnection) : Except Fault TCPConnection := do
  let (c, _) ← c.fillAndSend
  return c

def write (c : TCPConnection) (data : List Byte) : Except Fault (TCPConnection × Nat) := do
  if data.length = 0 then
    return (c, 0)
  let (stream, actuallyWrite) := c.sender.stream.write data
  let (c, _) ← { c with sender := { c.sender with stream := stream } }.fillAndSend
  return (c, actuallyWrite)

def endInputStream (c : TCPConnection) : Except Fault TCPConnection := do
  let (c, _) ←
    { c with sender := { c.sender with stream := c.sender.stream.endInput } }.fillAndSend
  return c

/-- The part of `tick` that sends a segment again, or gives up with a RST. -/
def resend (c : TCPConnection) : Except Fault TCPConnection :=
  if c.sender.segmentsOut.length > 0 then do
    let (retxSeg, c) ← c.takeSegment
    if c.sender.consecutiveRetransmissions.toNat > maxRetxAttempts then
      let retxSeg := { retxSeg with header := { retxSeg.header with rst := true } }
      return { c.setErrors with active := false, segmentsOut := c.segmentsOut ++ [retxSeg] }
    else
      return { c with segmentsOut := c.segmentsOut ++ [retxSeg] }
  else .ok c

/-- "Check if done". -/
def closeIfDone (c : TCPConnection) : TCPConnection :=
  if c.checkInboundEnded && c.checkOutboundEnded then
    if !c.lingerAfterStreamsFinish then { c with active := false }
    else if c.timeSinceLastSegmentReceived ≥ 10 * c.cfg.rtTimeout.toNat then
      { c with active := false }
    else c
  else c

def tick (c : TCPConnection) (ms : Nat) : Except Fault TCPConnection := do
  let c := { c with
    timeSinceLastSegmentReceived := (c.timeSinceLastSegmentReceived + ms) % 2 ^ 64 }
  let sender ← c.sender.tick ms
  let c ← { c with sender := sender }.resend
  return c.closeIfDone

/-- The application reads `len` bytes from `inbound_stream()`. -/
def readInbound (c : TCPConnection) (len : Nat) : TCPConnection × List Byte :=
  let (receiver, bytes) := c.receiver.readOut len
  ({ c with receiver := receiver }, bytes)

end TCPConnection

end Sponge
