import Sponge.FdAdapter
import Sponge.LinkFormats
import Sponge.NetworkInterface

/-!
# TCP over IPv4 over Ethernet

`TCPOverIPv4OverEthernetAdapter` of `tuntap_adapter.cc`: an adapter whose datagrams go through a
`NetworkInterface`, and so may wait there for an ARP reply while the adapter goes on.

* the instance of `Authentic`;
* `frames_authentic`: after any calls, what is on the wire is the adapter's own, and no frame is
  left in the interface.
-/

namespace Sponge

/-! ## The adapter -/

/-- The adapter, with each frame that the device has taken. -/
structure TCPOverIPv4OverEthernetAdapter where
  adapter : TCPOverIPv4Adapter := {}
  tap : FileDescriptor := {}
  interface : NetworkInterface
  nextHop : Address
  sent : List (List Byte) := []

namespace TCPOverIPv4OverEthernetAdapter

/-- The loop of `send_pending`: the `i`-th frame and those after it. -/
def sendFrames (kernel : TunKernel) :
    Nat → List EthernetFrame → FileDescriptor × List (List Byte) →
      Except Fault (FileDescriptor × List (List Byte))
  | _, [], out => .ok out
  | i, frame :: frames, (tap, sent) => do
    let w ← tap.write (.ofBufferList frame.serialize) true (kernel.write i)
    sendFrames kernel (i + 1) frames (w.fd, sent ++ w.taken)

def sendPending (a : TCPOverIPv4OverEthernetAdapter) (kernel : TunKernel) :
    Except Fault TCPOverIPv4OverEthernetAdapter := do
  let (tap, sent) ← sendFrames kernel 0 a.interface.framesOut (a.tap, a.sent)
  return { a with tap := tap, sent := sent, interface := { a.interface with framesOut := [] } }

/-- The constructor, which sends a dummy frame to prime the pump. -/
def new (tap : FileDescriptor) (ethAddress : EthernetAddress) (ipAddress nextHop : Address)
    (kernel : TunKernel) : Except Fault TCPOverIPv4OverEthernetAdapter := do
  let dummyFrame : EthernetFrame := {}
  let w ← tap.write (.ofBufferList dummyFrame.serialize) true (kernel.write 0)
  return {
    tap := w.fd
    interface := .new ethAddress ipAddress.ip
    nextHop := nextHop
    sent := w.taken }

def read (a : TCPOverIPv4OverEthernetAdapter) (kernel : TunKernel) :
    Except Fault (Option TCPSegment × TCPOverIPv4OverEthernetAdapter) := do
  -- read Ethernet frame from the raw device
  let (bytes, tap) ← a.tap.read TCPOverIPv4OverTunFdAdapter.noLimit kernel.read
  let a := { a with tap := tap }
  let (res, frame) ← EthernetFrame.parse {} (.ofString bytes)
  if res != .noError then
    return (none, a)
  -- give the frame to the NetworkInterface
  let (ipDgram, interface) ← a.interface.recvFrame frame
  -- the incoming frame may have caused the NetworkInterface to send a frame
  let a ← { a with interface := interface }.sendPending kernel
  -- try to interpret IPv4 datagram as TCP
  match ipDgram with
  | some ipDgram =>
    let (seg, adapter) ← a.adapter.unwrapTcpInIp ipDgram
    return (seg, { a with adapter := adapter })
  | none => return (none, a)

def tick (a : TCPOverIPv4OverEthernetAdapter) (msSinceLastTick : Nat) (kernel : TunKernel) :
    Except Fault TCPOverIPv4OverEthernetAdapter :=
  { a with interface := a.interface.tick msSinceLastTick }.sendPending kernel

def write (a : TCPOverIPv4OverEthernetAdapter) (seg : TCPSegment) (kernel : TunKernel) :
    Except Fault TCPOverIPv4OverEthernetAdapter := do
  let (ipDgram, _) ← a.adapter.wrapTcpInIp seg
  let interface ← a.interface.sendDatagram ipDgram a.nextHop.ip
  { a with interface := interface }.sendPending kernel

instance : FdAdapter TCPOverIPv4OverEthernetAdapter TunKernel where
  fd := tap
  read := read
  write := write
  tick := tick
  config a := a.adapter.cfg
  setConfig a cfg := { a with adapter := { a.adapter with cfg := cfg } }
  setListening a l := { a with adapter := { a.adapter with listen := l } }

/-! ## Frames and what is in them -/

/-- A frame of type IPv4 has one of the segments in it. -/
def FrameOf (segs : List TCPSegment) (frame : EthernetFrame) : Prop :=
  frame.header.type = EthernetHeader.typeIPv4 →
    TCPOverIPv4Adapter.Encodes segs frame.payload.concatenate

theorem FrameOf.mono {segs more : List TCPSegment} {frame : EthernetFrame} (h : FrameOf segs frame)
    (hsub : segs ⊆ more) : FrameOf more frame :=
  fun htype => (h htype).mono hsub

theorem frameOf_arp {segs : List TCPSegment} {frame : EthernetFrame}
    (h : frame.header.type = EthernetHeader.typeARP) : FrameOf segs frame := by
  intro htype
  rw [h] at htype
  cases htype

/-- The adapter has been given no other segments than `segs`: those in the frames on the wire, in
the frames that wait to be sent and in the datagrams that wait for an address. -/
structure Holds (a : TCPOverIPv4OverEthernetAdapter) (segs : List TCPSegment) : Prop where
  sent : ∀ bytes ∈ a.sent, ∃ frame, bytes = frame.serialize.concatenate ∧ FrameOf segs frame
  framesOut : ∀ frame ∈ a.interface.framesOut, FrameOf segs frame
  waiting : ∀ ip, ∀ d ∈ a.interface.waiting ip, TCPOverIPv4Adapter.Contains segs d

theorem Holds.mono {a : TCPOverIPv4OverEthernetAdapter} {segs more : List TCPSegment}
    (h : Holds a segs) (hsub : segs ⊆ more) : Holds a more where
  sent bytes hb := by
    obtain ⟨frame, hframe, hof⟩ := h.sent bytes hb
    exact ⟨frame, hframe, hof.mono hsub⟩
  framesOut frame hf := (h.framesOut frame hf).mono hsub
  waiting ip d hd := (h.waiting ip d hd).mono hsub

theorem sendFrames_ok {kernel : TunKernel} (hwhole : kernel.Whole) {frames : List EthernetFrame}
    {i : Nat} {tap tap' : FileDescriptor} {sent sent' : List (List Byte)}
    (h : sendFrames kernel i frames (tap, sent) = .ok (tap', sent')) :
    sent' = sent ++ frames.map (fun frame => frame.serialize.concatenate) := by
  induction frames generalizing i tap sent with
  | nil =>
    cases h
    rw [List.map_nil, List.append_nil]
  | cons frame frames ih =>
    rw [sendFrames] at h
    obtain ⟨w, hw, h⟩ := Exec.bind_eq_ok.mp h
    have htaken := FileDescriptor.write_whole (hwhole i) hw
    rw [BufferViewList.concatenate_ofBufferList] at htaken
    rw [ih h, htaken, List.append_assoc, List.map_cons]
    rfl

theorem sendFrames_reads {kernel : TunKernel} {frames : List EthernetFrame} {i : Nat}
    {tap tap' : FileDescriptor} {sent sent' : List (List Byte)}
    (h : sendFrames kernel i frames (tap, sent) = .ok (tap', sent')) :
    tap'.readCount = tap.readCount := by
  induction frames generalizing i tap sent with
  | nil =>
    cases h
    rfl
  | cons frame frames ih =>
    rw [sendFrames] at h
    obtain ⟨w, hw, h⟩ := Exec.bind_eq_ok.mp h
    rw [ih h, FileDescriptor.write_readCount hw]

theorem sendPending_ok {a b : TCPOverIPv4OverEthernetAdapter} {kernel : TunKernel}
    (h : a.sendPending kernel = .ok b) : b.adapter = a.adapter ∧
      b.tap.readCount = a.tap.readCount ∧ b.interface = { a.interface with framesOut := [] } ∧
      (kernel.Whole → b.sent =
        a.sent ++ a.interface.framesOut.map (fun frame => frame.serialize.concatenate)) := by
  obtain ⟨⟨tap, sent⟩, hsend, h⟩ := Exec.bind_eq_ok.mp h
  cases h
  exact ⟨rfl, sendFrames_reads hsend, rfl, fun hwhole => sendFrames_ok hwhole hsend⟩

theorem holds_sendPending {a b : TCPOverIPv4OverEthernetAdapter} {kernel : TunKernel}
    {segs : List TCPSegment} (h : Holds a segs) (hwhole : kernel.Whole)
    (hb : a.sendPending kernel = .ok b) : Holds b segs := by
  obtain ⟨-, -, hinterface, hsent⟩ := sendPending_ok hb
  constructor
  case sent =>
    intro bytes hbytes
    rw [hsent hwhole] at hbytes
    rcases List.mem_append.mp hbytes with hold | hnew
    · exact h.sent bytes hold
    · obtain ⟨frame, hframe, rfl⟩ := List.mem_map.mp hnew
      exact ⟨frame, rfl, h.framesOut frame hframe⟩
  case framesOut =>
    rw [hinterface]
    simp
  case waiting =>
    rw [hinterface]
    exact h.waiting

/-- The frames pushed by flushing a list have the list's segments. -/
theorem frameOf_wraps {segs : List TCPSegment} {macAddr : EthernetAddress}
    {dgrams : List IPv4Datagram} {frames : List EthernetFrame}
    (hw : NetworkInterface.Wraps macAddr dgrams frames)
    (h : ∀ d ∈ dgrams, TCPOverIPv4Adapter.Contains segs d) :
    ∀ frame ∈ frames, FrameOf segs frame := by
  intro frame hframe _
  have hpayload : (.ok frame.payload : Except Fault BufferList) ∈
      dgrams.map IPv4Datagram.serialize := by
    rw [hw.payloads]
    exact List.mem_map_of_mem hframe
  obtain ⟨d, hd, hserialize⟩ := List.mem_map.mp hpayload
  exact (h d hd).encodes hserialize

/-- A frame that arrives adds no segment to those held. -/
theorem holds_received {a : TCPOverIPv4OverEthernetAdapter} {segs : List TCPSegment}
    {frame : EthernetFrame} {m : NetworkInterface} (h : Holds a segs)
    (hr : NetworkInterface.Received a.interface frame m) :
    Holds { a with interface := m } segs := by
  cases hr with
  | same _ => exact h
  | @learned arp frames replies _ hw hreplies =>
    have hnew : ∀ f ∈ frames ++ replies, FrameOf segs f :=
      List.forall_mem_append.mpr ⟨frameOf_wraps hw (h.waiting _),
        fun f hreply => frameOf_arp (hreplies f hreply)⟩
    refine ⟨h.sent, List.forall_mem_append.mpr ⟨h.framesOut, hnew⟩, ?_⟩
    intro ip d hd
    change d ∈ NetworkInterface.waiting (NetworkInterface.taught _ _ _ _) ip at hd
    rw [NetworkInterface.waiting_taught] at hd
    by_cases hip : ip = arp.senderIpAddress
    · rw [hip, Function.update_self] at hd
      cases hd
    · rw [Function.update_of_ne hip] at hd
      exact h.waiting ip d hd

/-- A datagram with a segment in it goes out, waits or is dropped. -/
theorem holds_sent {a : TCPOverIPv4OverEthernetAdapter} {segs : List TCPSegment}
    {d : IPv4Datagram} {hop : UInt32} {m : NetworkInterface} (h : Holds a segs)
    (hd : TCPOverIPv4Adapter.Contains segs d) (hs : NetworkInterface.Sent a.interface d hop m) :
    Holds { a with interface := m } segs := by
  cases hs with
  | out _ hserialize =>
    exact ⟨h.sent, forall_mem_snoc h.framesOut fun _ => hd.encodes hserialize, h.waiting⟩
  | queued _ _ =>
    refine ⟨h.sent, forall_mem_snoc h.framesOut (frameOf_arp rfl), ?_⟩
    intro ip e he
    change e ∈ (NetworkInterface.newWaitList _ _ _).waiting ip at he
    rw [NetworkInterface.waiting_newWaitList] at he
    by_cases hip : ip = hop
    · rw [hip, Function.update_self, List.mem_singleton] at he
      rw [he]
      exact hd
    · rw [Function.update_of_ne hip] at he
      exact h.waiting ip e he
  | dropped _ _ hrequests =>
    exact ⟨h.sent, List.forall_mem_append.mpr ⟨h.framesOut,
      fun f hf => frameOf_arp (hrequests f hf)⟩, h.waiting⟩

theorem holds_new {tap : FileDescriptor} {ethAddress : EthernetAddress}
    {ipAddress nextHop : Address} {kernel : TunKernel} {a : TCPOverIPv4OverEthernetAdapter}
    (hwhole : kernel.Whole) (h : new tap ethAddress ipAddress nextHop kernel = .ok a) :
    Holds a [] := by
  obtain ⟨w, hw, h⟩ := Exec.bind_eq_ok.mp h
  cases h
  have htaken := FileDescriptor.write_whole (hwhole 0) hw
  rw [BufferViewList.concatenate_ofBufferList] at htaken
  refine ⟨?_, by simp [NetworkInterface.new], by simp [NetworkInterface.new,
    NetworkInterface.waiting]⟩
  intro bytes hbytes
  rw [htaken, List.mem_singleton] at hbytes
  exact ⟨{}, hbytes, by simp [FrameOf, EthernetHeader.typeIPv4]⟩

/-- A read that returns. -/
theorem read_ok {a b : TCPOverIPv4OverEthernetAdapter} {kernel : TunKernel}
    {ret : Option TCPSegment} (h : a.read kernel = .ok (ret, b)) :
    ∃ bytes tap, kernel.read FileDescriptor.maxRead = some bytes ∧
      tap.readCount = a.tap.readCount + 1 ∧ b.tap.readCount = tap.readCount ∧
      ((b = { a with tap := tap } ∧ ret = none) ∨
        ∃ frame ipDgram m pending,
          EthernetFrame.parse {} (.ofString bytes) = .ok (.noError, frame) ∧
          a.interface.recvFrame frame = .ok (ipDgram, m) ∧
          { a with tap := tap, interface := m }.sendPending kernel = .ok pending ∧
          b.interface = pending.interface ∧ b.sent = pending.sent ∧
          ∀ seg ∈ ret, ∃ d c, ipDgram = some d ∧
            a.adapter.unwrapTcpInIp d = .ok (some seg, c)) := by
  obtain ⟨⟨bytes, tap⟩, hread, h⟩ := Exec.bind_eq_ok.mp h
  obtain ⟨⟨res, frame⟩, hparse, h⟩ := Exec.bind_eq_ok.mp h
  have hfd := FileDescriptor.read_ok hread
  have hcount : tap.readCount = a.tap.readCount + 1 := by rw [hfd.fd]
  refine ⟨bytes, tap, hfd.answer, hcount, ?_⟩
  obtain ⟨-, hr⟩ | ⟨hres, h⟩ := Exec.ite_pure_eq_ok.mp h
  · cases hr
    exact ⟨rfl, .inl ⟨rfl, rfl⟩⟩
  have hok : res = .noError := by simpa using hres
  subst hok
  obtain ⟨⟨ipDgram, m⟩, hrecv, h⟩ := Exec.bind_eq_ok.mp h
  obtain ⟨pending, hpending, h⟩ := Exec.bind_eq_ok.mp h
  obtain ⟨hadapter, hreads, -, -⟩ := sendPending_ok hpending
  cases ipDgram with
  | none =>
    cases h
    exact ⟨hreads, .inr ⟨frame, none, m, b, hparse, hrecv, hpending, rfl, rfl, by simp⟩⟩
  | some d =>
    obtain ⟨⟨seg, adapter⟩, hunwrap, h⟩ := Exec.bind_eq_ok.mp h
    cases h
    rw [hadapter] at hunwrap
    refine ⟨hreads, .inr ⟨frame, some d, m, pending, hparse, hrecv, hpending, rfl, rfl, ?_⟩⟩
    rintro s rfl
    exact ⟨d, adapter, rfl, hunwrap⟩

instance : CountsReads TCPOverIPv4OverEthernetAdapter TunKernel where
  read h := by
    obtain ⟨bytes, tap, -, hcount, hreads, -⟩ := read_ok h
    exact hreads.trans hcount

theorem holds_read {a b : TCPOverIPv4OverEthernetAdapter} {kernel : TunKernel}
    {ret : Option TCPSegment} {segs : List TCPSegment} (h : Holds a segs) (hwhole : kernel.Whole)
    (hr : a.read kernel = .ok (ret, b)) : Holds b segs := by
  obtain ⟨bytes, tap, -, -, -, hcase⟩ := read_ok hr
  rcases hcase with ⟨rfl, -⟩ | ⟨frame, ipDgram, m, pending, -, hrecv, hpending, hi, hs, -⟩
  · exact ⟨h.sent, h.framesOut, h.waiting⟩
  · have hm : Holds { a with tap := tap, interface := m } segs := by
      have hreceived := holds_received h (NetworkInterface.recvFrame_spec hrecv)
      exact ⟨hreceived.sent, hreceived.framesOut, hreceived.waiting⟩
    have hp := holds_sendPending hm hwhole hpending
    exact ⟨by rw [hs]; exact hp.sent, by rw [hi]; exact hp.framesOut, by rw [hi]; exact hp.waiting⟩

theorem holds_write {a b : TCPOverIPv4OverEthernetAdapter} {kernel : TunKernel} {seg : TCPSegment}
    {segs : List TCPSegment} (h : Holds a segs) (hwhole : kernel.Whole) (hs : seg.Sendable)
    (hw : a.write seg kernel = .ok b) : Holds b (segs ++ [seg]) := by
  obtain ⟨⟨d, sent⟩, hwrap, hw⟩ := Exec.bind_eq_ok.mp hw
  obtain ⟨m, hm, hw⟩ := Exec.bind_eq_ok.mp hw
  have hd := (TCPOverIPv4Adapter.contains_wrap hs hwrap).mono (List.subset_append_right segs [seg])
  have hmore := h.mono (List.subset_append_left segs [seg])
  exact holds_sendPending (holds_sent hmore hd (NetworkInterface.sendDatagram_spec hm)) hwhole hw

theorem holds_tick {a b : TCPOverIPv4OverEthernetAdapter} {kernel : TunKernel} {ms : Nat}
    {segs : List TCPSegment} (h : Holds a segs) (hwhole : kernel.Whole)
    (ht : a.tick ms kernel = .ok b) : Holds b segs := by
  have hticked : Holds { a with interface := a.interface.tick ms } segs := by
    refine ⟨h.sent, h.framesOut, ?_⟩
    rw [NetworkInterface.waiting_tick]
    exact h.waiting
  exact holds_sendPending hticked hwhole ht

/-- Whoever reads a frame of the adapter, what comes out of it is one of its segments. -/
theorem Holds.heard {a b c : TCPOverIPv4OverEthernetAdapter} {kernel : TunKernel}
    {seg : TCPSegment} {segs : List TCPSegment} (h : Holds a segs)
    (hsent : ∀ bytes, kernel.read FileDescriptor.maxRead = some bytes → bytes ∈ a.sent)
    (hr : b.read kernel = .ok (some seg, c)) : ∃ old ∈ segs, seg.core = old.core := by
  obtain ⟨bytes, tap, hbytes, -, -, hcase⟩ := read_ok hr
  rcases hcase with ⟨-, hnone⟩ | ⟨frame, ipDgram, m, pending, hparse, hrecv, -, -, -, hseg⟩
  · cases hnone
  · obtain ⟨d, c', rfl, hunwrap⟩ := hseg seg rfl
    obtain ⟨sentFrame, hframe, hof⟩ := h.sent bytes (hsent bytes hbytes)
    obtain ⟨rest, hread, hrest⟩ := @EthernetFrame.parse_serialized {} sentFrame (.ofString bytes)
      hframe
    cases hread.symm.trans hparse
    obtain ⟨-, htype, buffer, hbuffer, hdgram⟩ := NetworkInterface.recvFrame_handed hrecv
    cases hbuffer
    have henc := hof htype
    rw [← hrest] at henc
    exact henc.heard hdgram hunwrap

instance : Authentic TCPOverIPv4OverEthernetAdapter TunKernel where
  sent := sent
  packet kernel := kernel.read FileDescriptor.maxRead
  Whole := TunKernel.Whole
  Holds := Holds
  read := holds_read
  write := holds_write
  tick := holds_tick
  setConfig _ h := ⟨h.sent, h.framesOut, h.waiting⟩
  setListening _ h := ⟨h.sent, h.framesOut, h.waiting⟩
  heard := Holds.heard

/-- No frame is left in the interface. -/
theorem pending_call {x y : TCPOverIPv4OverEthernetAdapter × List TCPSegment}
    {c : FdAdapter.Call TunKernel} (hx : x.1.interface.framesOut = [])
    (h : FdAdapter.call x c = .ok y) : y.1.interface.framesOut = [] := by
  have hpending : ∀ {a b : TCPOverIPv4OverEthernetAdapter} {kernel : TunKernel},
      a.sendPending kernel = .ok b → b.interface.framesOut = [] := by
    intro a b kernel hb
    rw [(sendPending_ok hb).2.2.1]
  cases c with
  | read kernel =>
    obtain ⟨⟨ret, a⟩, hread, h⟩ := Exec.bind_eq_ok.mp h
    cases h
    obtain ⟨bytes, tap, -, -, -, hcase⟩ := read_ok hread
    rcases hcase with ⟨rfl, -⟩ | ⟨_, _, _, pending, -, -, hsent, hi, -, -⟩
    · exact hx
    · rw [hi]
      exact hpending hsent
  | write seg kernel =>
    obtain ⟨a, hwrite, h⟩ := Exec.bind_eq_ok.mp h
    cases h
    obtain ⟨_, -, hwrite⟩ := Exec.bind_eq_ok.mp hwrite
    obtain ⟨_, -, hwrite⟩ := Exec.bind_eq_ok.mp hwrite
    exact hpending hwrite
  | tick ms kernel =>
    obtain ⟨a, htick, h⟩ := Exec.bind_eq_ok.mp h
    cases h
    exact hpending htick
  | setConfig cfg =>
    cases h
    exact hx
  | setListening l =>
    cases h
    exact hx

/-- **What is on the wire.** After any calls on an adapter, whatever frames arrive in between: no
frame is left in the interface, and whoever reads a frame of the adapter finds in it one of the
segments written to the adapter, or none. -/
theorem frames_authentic (tap : FileDescriptor) (ethAddress : EthernetAddress)
    (ipAddress nextHop : Address) (kernel₀ : TunKernel)
    (a₀ a : TCPOverIPv4OverEthernetAdapter) (written : List TCPSegment) (hwhole : kernel₀.Whole)
    (hnew : new tap ethAddress ipAddress nextHop kernel₀ = .ok a₀)
    (h : Exec.Reach FdAdapter.call
      (fun _ (c : FdAdapter.Call TunKernel) => c.Fair TCPOverIPv4OverEthernetAdapter)
      (a₀, []) (a, written)) :
    a.interface.framesOut = [] ∧
    ∀ (b c : TCPOverIPv4OverEthernetAdapter) (kernel : TunKernel) (bytes : List Byte)
      (seg : TCPSegment), bytes ∈ a.sent → kernel.read FileDescriptor.maxRead = some bytes →
      b.read kernel = .ok (some seg, c) → ∃ old ∈ written, seg.core = old.core := by
  have hstart : a₀.interface.framesOut = [] := by
    obtain ⟨w, -, hw⟩ := Exec.bind_eq_ok.mp hnew
    cases hw
    rfl
  have hall := h.invariant (I := fun x : TCPOverIPv4OverEthernetAdapter × List TCPSegment =>
      Holds x.1 x.2 ∧ x.1.interface.framesOut = []) ⟨holds_new hwhole hnew, hstart⟩
    fun _ _ _ hi hfair hcall => ⟨Authentic.holds_call hi.1 hfair hcall, pending_call hi.2 hcall⟩
  refine ⟨hall.2, ?_⟩
  intro b c kernel bytes seg hsent hbytes hread
  apply hall.1.heard _ hread
  intro other hother
  rw [hbytes] at hother
  cases hother
  exact hsent

/-- A device that has a frame to read and takes what it is given. -/
def device (frame : List Byte) : TunKernel where
  read _ := some frame
  write _ _ size := some size

theorem device_whole (frame : List Byte) : (device frame).Whole := fun _ _ _ => .inr rfl

/-- An ARP reply of the host `2` to the host `1`. -/
def replyFrame : List Byte :=
  let message : ARPMessage :=
    { opcode := ARPMessage.opcodeReply
      senderEthernetAddress := Vector.replicate 6 2
      senderIpAddress := 2
      targetEthernetAddress := Vector.replicate 6 1
      targetIpAddress := 1 }
  let payload := message.serialize.toOption.getD []
  (EthernetFrame.serialize
    { header := ⟨Vector.replicate 6 1, Vector.replicate 6 2, EthernetHeader.typeARP⟩
      payload := .ofString payload }).concatenate

/-- A SYN waits for the reply and is sent when it has come. -/
def synCalls : List (FdAdapter.Call TunKernel) :=
  [.setConfig { source := ⟨1, 4000⟩, destination := ⟨2, 5000⟩ },
    .write { header := { syn := true, seqno := ⟨7⟩ } } (device []),
    .read (device replyFrame)]

/-- The other host, which listens. -/
def listener : TCPOverIPv4OverEthernetAdapter :=
  { adapter := { cfg := { source := ⟨2, 5000⟩ }, listen := true }
    interface := .new (Vector.replicate 6 2) 2
    nextHop := ⟨1, 0⟩ }

/-- The host `1`, whose next hop is the other. -/
def caller : Except Fault TCPOverIPv4OverEthernetAdapter :=
  new {} (Vector.replicate 6 1) ⟨1, 0⟩ ⟨2, 0⟩ (device [])

theorem frames_authentic_syn :
    ∃ a₀ a written bytes seg c, caller = .ok a₀ ∧
      Exec.Reach FdAdapter.call
        (fun _ (c : FdAdapter.Call TunKernel) => c.Fair TCPOverIPv4OverEthernetAdapter)
        (a₀, []) (a, written) ∧
      bytes ∈ a.sent ∧ listener.read (device bytes) = .ok (some seg, c) ∧
      seg.header.syn = true ∧ ∃ old ∈ written, seg.core = old.core := by
  obtain ⟨a₀, hnew, hv⟩ := Exec.ok_of_view (x := caller)
    (fun a₀ => (Exec.drive FdAdapter.call (fun _ _ => True) synCalls (a₀, [])).map
      fun x => (x.1.sent.getLast?.bind fun bytes => (listener.read (device bytes)).toOption).map
        fun r => r.1.map fun seg => seg.header.syn)
    (some (some (some true))) (by decide +kernel)
  have hfair : ∀ c ∈ synCalls, c.Fair TCPOverIPv4OverEthernetAdapter := by
    intro c hc
    simp only [synCalls, List.mem_cons, List.not_mem_nil, or_false] at hc
    rcases hc with rfl | rfl | rfl
    · trivial
    · exact ⟨device_whole _, by decide, by decide, by decide⟩
    · exact device_whole _
  obtain ⟨⟨a, written⟩, reached, hread⟩ := Exec.reach_of_all FdAdapter.call _ _ _ hfair _ _ hv
  obtain ⟨⟨ret, c⟩, hread, hret⟩ := Option.map_eq_some_iff.mp hread
  obtain ⟨bytes, hlast, hread⟩ := Option.bind_eq_some_iff.mp hread
  obtain ⟨seg, rfl, hsyn⟩ := Option.map_eq_some_iff.mp hret
  have hsent := List.mem_of_getLast? hlast
  have hheard := Exec.ok_of_toOption hread
  obtain ⟨-, hauthentic⟩ := frames_authentic _ _ _ _ _ a₀ a written (device_whole []) hnew reached
  exact ⟨a₀, a, written, bytes, seg, c, hnew, reached, hsent, hheard, hsyn,
    hauthentic listener c (device bytes) bytes seg hsent rfl hheard⟩

end TCPOverIPv4OverEthernetAdapter

end Sponge
