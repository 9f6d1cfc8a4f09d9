import Sponge.ConnectionRuns
import Sponge.EventLoop
import Sponge.FdAdapter
import Sponge.TCPState

/-!
# The socket

`TCPSpongeSocket` of `tcp_sponge_socket.cc`: a `TCPConnection` between a datagram adapter and the
owner, who reads and writes the other end of a pair of local sockets. Four rules of an event
loop move segments and bytes, and `_tcp_loop` tells the connection the time. The adapter is any
`FdAdapter`. What is left out is the debugging output, with `_fully_acked`, which only guards it.

The bytes from and to the owner and the segments given to the adapter are kept beside the state.
-/

namespace Sponge

open Words

/-- What the kernel answers to the calls of one callback. -/
structure SocketKernel (ι : Type) where
  /-- To those of the adapter's `read`. -/
  datagram : ι
  read : Nat → Option (List Byte)
  write : Nat → Nat → Option Nat
  shutdown : Bool
  /-- To those of the adapter's `write`, for each segment. -/
  segment : Nat → ι

/-- The socket while its event loop runs. -/
structure TCPSpongeSocket (α : Type) where
  threadData : FileDescriptor := {}
  datagramAdapter : α
  tcp : TCPConnection
  inboundShutdown : Bool := false
  outboundShutdown : Bool := false
  /-- The bytes read from the owner. -/
  fromOwner : List Byte := []
  /-- The bytes the owner's socket has taken. -/
  toOwner : List Byte := []
  /-- The segments given to the adapter. -/
  wrote : List TCPSegment := []

namespace TCPConnection

/-- `inbound_stream().pop_output`. -/
def popInbound (c : TCPConnection) (len : Nat) : TCPConnection :=
  { c with receiver := { c.receiver with reassembler := c.receiver.reassembler.popOut len } }

end TCPConnection

namespace TCPSpongeSocket

variable {α ι : Type} [FdAdapter α ι]

/-- The callback of rule 1: read from filtered packet stream and dump into TCPConnection. -/
def receiveDatagram (s : TCPSpongeSocket α) (kernel : SocketKernel ι) :
    Except Fault (TCPSpongeSocket α) := do
  let (seg, adapter) ← FdAdapter.read s.datagramAdapter kernel.datagram
  let s := { s with datagramAdapter := adapter }
  match seg with
  | some seg =>
    let tcp ← s.tcp.segmentReceived seg
    return { s with tcp := tcp }
  | none => return s

/-- The cancellation of rule 2, and the end of its callback at the end of input. -/
def endInputStream (s : TCPSpongeSocket α) : Except Fault (TCPSpongeSocket α) := do
  let tcp ← s.tcp.endInputStream
  return { s with tcp := tcp, outboundShutdown := true }

/-- The callback of rule 2: read from pipe into outbound buffer. -/
def readOwner (s : TCPSpongeSocket α) (kernel : SocketKernel ι) :
    Except Fault (TCPSpongeSocket α) := do
  let (data, threadData) ← s.threadData.read s.tcp.remainingOutboundCapacity kernel.read
  let (tcp, amountWritten) ← s.tcp.write data
  if amountWritten != data.length then
    throw (.throws "TCPConnection::write() accepted less than advertised length")
  let s := { s with threadData := threadData, tcp := tcp, fromOwner := s.fromOwner ++ data }
  if threadData.eof then s.endInputStream else return s

/-- The callback of rule 3: read from inbound buffer into pipe. -/
def writeOwner (s : TCPSpongeSocket α) (kernel : SocketKernel ι) :
    Except Fault (TCPSpongeSocket α) := do
  let amountToWrite := min 65536 s.tcp.inboundStream.bufferSize
  let buffer := s.tcp.inboundStream.peekOutput amountToWrite
  let w ← s.threadData.write (.ofString buffer) false kernel.write
  let tcp := s.tcp.popInbound w.totalBytesWritten
  let s := { s with
    threadData := w.fd
    tcp := tcp
    toOwner := s.toOwner ++ w.taken.flatten }
  if tcp.inboundStream.eof || tcp.inboundStream.error then
    let threadData ← s.threadData.shutdown .wr kernel.shutdown
    return { s with threadData := threadData, inboundShutdown := true }
  else
    return s

/-- The loop of rule 4, from the `i`-th segment on. -/
def writeSegments (kernel : SocketKernel ι) : Nat → List TCPSegment → α → Except Fault α
  | _, [], adapter => .ok adapter
  | i, seg :: segs, adapter => do
    let adapter ← FdAdapter.write adapter seg (kernel.segment i)
    writeSegments kernel (i + 1) segs adapter

/-- The callback of rule 4: read outbound segments from TCPConnection and send as datagrams. -/
def sendDatagrams (s : TCPSpongeSocket α) (kernel : SocketKernel ι) :
    Except Fault (TCPSpongeSocket α) := do
  let adapter ← writeSegments kernel 0 s.tcp.segmentsOut s.datagramAdapter
  return { s with
    datagramAdapter := adapter
    tcp := { s.tcp with segmentsOut := [] }
    wrote := s.wrote ++ s.tcp.segmentsOut }

/-- The rules 1 to 4. -/
inductive Name
  | receiveDatagram
  | readOwner
  | writeOwner
  | sendDatagrams
  deriving DecidableEq, Repr

/-- The rules that `_initialize_TCP` adds. -/
def table : Name → Rule (TCPSpongeSocket α) (SocketKernel ι)
  | .receiveDatagram =>
    { fd := fun s => FdAdapter.fd s.datagramAdapter
      direction := .input
      callback := receiveDatagram
      interest := fun s => s.tcp.active
      cancel := .ok }
  | .readOwner =>
    { fd := threadData
      direction := .input
      callback := readOwner
      interest := fun s =>
        s.tcp.active && !s.outboundShutdown && decide (s.tcp.remainingOutboundCapacity > 0)
      cancel := endInputStream }
  | .writeOwner =>
    { fd := threadData
      direction := .output
      callback := writeOwner
      interest := fun s => !s.tcp.inboundStream.bufferEmpty ||
        (s.tcp.inboundStream.eof || s.tcp.inboundStream.error) && !s.inboundShutdown
      cancel := .ok }
  | .sendDatagrams =>
    { fd := fun s => FdAdapter.fd s.datagramAdapter
      direction := .output
      callback := sendDatagrams
      interest := fun s => !s.tcp.segmentsOut.isEmpty
      cancel := .ok }

/-! ## The loops -/

/-- Which call of `_tcp_loop` is under way: that of `connect` or of `listen_and_accept`, in the
owner's thread, or that of `_tcp_main`. -/
inductive Phase
  | connecting
  | accepting
  | running
  | finished
  deriving DecidableEq, Repr

/-- The condition given to `_tcp_loop`. -/
def Phase.condition : Phase → TCPConnection → Bool
  | .connecting, tcp => tcp.state == .ofState .synSent
  | .accepting, tcp =>
    let s := tcp.state
    s == .ofState .listen || s == .ofState .synRcvd || s == .ofState .synSent
  | .running, _ => true
  | .finished, _ => false

/-- What follows on a loop that is left. -/
def Phase.next : Phase → Phase
  | .connecting | .accepting => .running
  | .running | .finished => .finished

/-- The socket between the rounds of its loops. -/
structure Loop (α : Type) where
  phase : Phase
  rules : List Name := [.receiveDatagram, .readOwner, .writeOwner, .sendDatagrams]
  socket : TCPSpongeSocket α
  baseTime : Nat

/-- What a round finds: the answers to its callbacks, `_abort`, the clock, and what the kernel
answers to the adapter's `tick`. -/
structure Round (ι : Type) where
  poll : Poll (SocketKernel ι)
  abort : Bool := false
  now : Nat
  tick : ι

/-- The next loop, or the end. `_tcp_loop` reads the clock first. -/
def Loop.next (l : Loop α) (now : Nat) : Loop α :=
  { l with phase := l.phase.next, baseTime := now }

/-- The connection and the adapter are told the time. -/
def tick (s : TCPSpongeSocket α) (ms : Nat) (kernel : ι) : Except Fault (TCPSpongeSocket α) := do
  let tcp ← s.tcp.tick ms
  let adapter ← FdAdapter.tick s.datagramAdapter ms kernel
  return { s with tcp := tcp, datagramAdapter := adapter }

/-- The body of `_tcp_loop`. -/
def Loop.body (l : Loop α) (r : Round ι) : Except Fault (Loop α) := do
  let (ret, rules, socket) ← EventLoop.waitNextEvent table l.rules l.socket r.poll
  let l := { l with rules := rules, socket := socket }
  if ret == .exit || r.abort then
    return l.next r.now
  if socket.tcp.active then
    let socket ← socket.tick (sub64 r.now l.baseTime) r.tick
    return { l with socket := socket, baseTime := r.now }
  else
    return l

def Loop.round (l : Loop α) (r : Round ι) : Except Fault (Loop α) :=
  if l.phase.condition l.socket.tcp then l.body r else .ok (l.next r.now)

/-- `_initialize_TCP`, and the configuration that its callers give to the adapter. -/
def initializeTCP (adapter : α) (cTcp : TCPConfig) (cAd : FdAdapterConfig) : TCPSpongeSocket α :=
  { datagramAdapter := FdAdapter.setConfig adapter cAd, tcp := .new cTcp }

/-- `connect` up to its loop. -/
def connect (adapter : α) (cTcp : TCPConfig) (cAd : FdAdapterConfig) (now : Nat) :
    Except Fault (Loop α) := do
  let s := initializeTCP adapter cTcp cAd
  let tcp ← s.tcp.connect
  let expectedState := TCPState.ofState .synSent
  if tcp.state != expectedState then
    throw (.throws ("After TCPConnection::connect(), state was " ++ tcp.state.name ++
      " but expected " ++ expectedState.name))
  return { phase := .connecting, socket := { s with tcp := tcp }, baseTime := now }

/-- `listen_and_accept` up to its loop. -/
def listenAndAccept (adapter : α) (cTcp : TCPConfig) (cAd : FdAdapterConfig) (now : Nat) :
    Loop α :=
  let s := initializeTCP adapter cTcp cAd
  { phase := .accepting
    socket := { s with datagramAdapter := FdAdapter.setListening s.datagramAdapter true }
    baseTime := now }

end TCPSpongeSocket

end Sponge
