import Sponge.ConnectionSpec
import Sponge.EthernetAdapter

/-!
# What is thrown

Two of the exceptions of the socket's loop complain of what cannot be: `TCPConnection::write()`
took less than it had promised, or a callback did nothing. Here, that they come from nowhere else:
not from a connection that is given a segment, and not from an adapter.

* `TCPConnection.segmentReceived_failsIn`: a connection;
* `Discreet`: an adapter, with an instance for each adapter of the source.
-/

namespace Sponge

open Exec (FailsIn failsIn_ok failsIn_error failsIn_of_returns)

/-- A fault that is none of the two complaints. -/
def Fault.Other (fault : Fault) : Prop :=
  fault ≠ .throws "TCPConnection::write() accepted less than advertised length" ∧
    fault ≠ .throws
      "EventLoop: busy wait detected: callback did not read/write fd and is still interested"

instance : DecidablePred Fault.Other := fun fault =>
  inferInstanceAs (Decidable (fault ≠ _ ∧ fault ≠ _))

theorem Fault.other_outOfRange : Other .outOfRange := by decide

theorem Fault.other_spins : Other .spins := by decide

open Fault (Other other_outOfRange other_spins)

theorem subscript_failsIn {α : Type} (xs : List α) (i : Nat) : FailsIn Other (subscript xs i) := by
  unfold subscript
  split
  · exact failsIn_ok _
  · exact failsIn_error.mpr other_outOfRange

theorem unwrap_failsIn (n isn : WrappingInt32) (checkpoint : Nat) :
    FailsIn Other (unwrap n isn checkpoint) := by
  unfold unwrap
  refine .ite (failsIn_ok _) (.bind (.loop other_spins ?_ _ _) fun _ => failsIn_ok _)
  exact fun _ => failsIn_ok _

/-! ## A connection -/

namespace StreamReassembler

theorem slide_failsIn (x : List Byte × List Byte × List Bool) : FailsIn Other (slide x) := by
  unfold slide
  refine .bind (subscript_failsIn _ _) fun _ => .ite ?_ (failsIn_ok _)
  exact .bind (subscript_failsIn _ _) fun _ => failsIn_ok _

theorem checkContiguous_failsIn (r : StreamReassembler) : FailsIn Other r.checkContiguous :=
  .bind (.loop other_spins slide_failsIn _ _) fun _ => .ite (failsIn_ok _) (failsIn_ok _)

theorem storeByte_failsIn (data : List Byte) (dataOff bufOff : Nat) (r : StreamReassembler)
    (i : Nat) : FailsIn Other (storeByte data dataOff bufOff r i) := by
  unfold storeByte
  refine .bind (subscript_failsIn _ _) fun _ => .ite (failsIn_ok _) ?_
  exact .bind (subscript_failsIn _ _) fun _ => .bind (subscript_failsIn _ _) fun _ => failsIn_ok _

theorem place_failsIn (r : StreamReassembler) (data : List Byte) (index : Nat) :
    FailsIn Other (r.place data index) :=
  .ite (.foldlM (storeByte_failsIn _ _ _) _ _)
    (.ite (.foldlM (storeByte_failsIn _ _ _) _ _) (failsIn_ok _))

theorem pushSubstring_failsIn (r : StreamReassembler) (data : List Byte) (index : Nat)
    (eof : Bool) : FailsIn Other (r.pushSubstring data index eof) := by
  unfold pushSubstring
  refine .ite (failsIn_ok _) (.ite (failsIn_ok _) ?_)
  exact .bind (place_failsIn _ _ _) fun _ => .bind (checkContiguous_failsIn _) fun _ => failsIn_ok _

end StreamReassembler

theorem TCPReceiver.segmentReceived_failsIn (t : TCPReceiver) (seg : TCPSegment) :
    FailsIn Other (t.segmentReceived seg) := by
  unfold segmentReceived
  have hpush := fun i eof => t.reassembler.pushSubstring_failsIn seg.payload i eof
  refine .ite (failsIn_ok _) (.ite (.bind (hpush _ _) fun _ => failsIn_ok _) ?_)
  exact .bind (unwrap_failsIn _ _ _) fun _ => .bind (hpush _ _) fun _ => failsIn_ok _

namespace TCPSender

theorem fillWindow_failsIn (s : TCPSender) : FailsIn Other s.fillWindow := by
  obtain ⟨t, ht, -⟩ := fillWindow_spec s
  exact failsIn_of_returns ⟨t, ht⟩

theorem ackValid_failsIn (s : TCPSender) (absAckno : Nat) :
    FailsIn Other (s.ackValid absAckno) := by
  unfold ackValid
  split
  · exact failsIn_ok _
  · exact .ite (.bind (unwrap_failsIn _ _ _) fun _ => failsIn_ok _) (failsIn_ok _)

theorem popAcked_failsIn (absAckno : Nat) (segs : List TCPSegment) (s : TCPSender) :
    FailsIn Other (popAcked absAckno segs s) := by
  induction segs generalizing s with
  | nil => exact failsIn_ok _
  | cons seg rest ih =>
    unfold popAcked
    exact .bind (unwrap_failsIn _ _ _) fun _ => .ite (ih _) (failsIn_ok _)

theorem setFreeSpace_failsIn (s : TCPSender) (absAckno : Nat) (windowSize : UInt16) :
    FailsIn Other (s.setFreeSpace absAckno windowSize) := by
  unfold setFreeSpace
  split
  · exact failsIn_ok _
  · exact .bind (unwrap_failsIn _ _ _) fun _ => failsIn_ok _

theorem ackReceived_failsIn (s : TCPSender) (ackno : WrappingInt32) (windowSize : UInt16) :
    FailsIn Other (s.ackReceived ackno windowSize) := by
  unfold ackReceived
  refine .bind (unwrap_failsIn _ _ _) fun _ => .bind (ackValid_failsIn _ _) fun _ =>
    .ite (failsIn_ok _) ?_
  exact .bind (popAcked_failsIn _ _ _) fun _ => .bind (setFreeSpace_failsIn _ _ _) fun _ =>
    fillWindow_failsIn _

end TCPSender

namespace TCPConnection

theorem takeAck_failsIn (c : TCPConnection) (seg : TCPSegment) : FailsIn Other (c.takeAck seg) :=
  .ite (.bind (c.sender.ackReceived_failsIn _ _) fun _ => failsIn_ok _) (failsIn_ok _)

theorem replyTo_failsIn (c : TCPConnection) (seg : TCPSegment) : FailsIn Other (c.replyTo seg) := by
  refine .ite (.bind (.bind (TCPSender.fillWindow_failsIn _) fun _ => failsIn_ok _) fun x => ?_)
    (failsIn_ok _)
  refine .ite (failsIn_ok _) (.bind ?_ fun _ => failsIn_ok _)
  unfold takeSegment
  split
  · exact failsIn_error.mpr other_outOfRange
  · exact failsIn_ok _

theorem segmentReceived_failsIn (c : TCPConnection) (seg : TCPSegment) :
    FailsIn Other (c.segmentReceived seg) := by
  unfold segmentReceived
  refine .ite (failsIn_ok _) (.bind (c.receiver.segmentReceived_failsIn seg) fun _ => ?_)
  exact .bind (takeAck_failsIn _ _) fun _ => replyTo_failsIn _ _

end TCPConnection

/-! ## File descriptors -/

namespace FileDescriptor

theorem other_texts : ∀ what ∈ readTexts ++ writeTexts, Other (.throws what) := by
  decide

theorem read_failsIn (fd : FileDescriptor) (limit : Nat) (kernel : Nat → Option (List Byte)) :
    FailsIn Other (fd.read limit kernel) := by
  rcases fd.read_outcome limit kernel with ⟨-, what, htext, h⟩ | ⟨_, _, h, -⟩
  · rw [h]
    exact failsIn_error.mpr (other_texts what (List.mem_append_left _ htext))
  · exact failsIn_of_returns ⟨_, h⟩

theorem write_failsIn (fd : FileDescriptor) (buffer : BufferViewList) (writeAll : Bool)
    (kernel : Nat → Nat → Option Nat) : FailsIn Other (fd.write buffer writeAll kernel) := by
  rcases fd.write_outcome buffer writeAll kernel with ⟨-, what, htext, h⟩ | ⟨w, h, -⟩
  · rw [h]
    exact failsIn_error.mpr (other_texts what (List.mem_append_right _ htext))
  · exact failsIn_of_returns ⟨w, h⟩

end FileDescriptor

/-! ## Formats -/

theorem BufferList.toBuffer_failsIn (l : BufferList) : FailsIn Other l.toBuffer := by
  unfold toBuffer
  split
  · exact failsIn_ok _
  · exact failsIn_ok _
  · exact failsIn_error.mpr (by decide)

theorem InternetChecksum.value_failsIn (c : InternetChecksum) : FailsIn Other c.value :=
  failsIn_of_returns ⟨_, c.value_eq⟩

theorem TCPHeader.serialize_failsIn (h : TCPHeader) : FailsIn Other h.serialize := by
  unfold serialize
  exact .ite (failsIn_error.mpr (by decide)) (failsIn_ok _)

theorem TCPSegment.serialize_failsIn (seg : TCPSegment) (datagramLayerChecksum : UInt32) :
    FailsIn Other (seg.serialize datagramLayerChecksum) := by
  unfold serialize
  refine .bind (TCPHeader.serialize_failsIn _) fun _ =>
    .bind (InternetChecksum.value_failsIn _) fun _ => ?_
  exact .bind (TCPHeader.serialize_failsIn _) fun _ => failsIn_ok _

theorem IPv4Header.serialize_failsIn (h : IPv4Header) : FailsIn Other h.serialize := by
  unfold serialize
  exact .ite (failsIn_error.mpr (by decide)) (.ite (failsIn_error.mpr (by decide)) (failsIn_ok _))

theorem IPv4Datagram.serialize_failsIn (d : IPv4Datagram) : FailsIn Other d.serialize := by
  unfold serialize
  refine .ite (failsIn_error.mpr (by decide)) (.bind (IPv4Header.serialize_failsIn _) fun _ => ?_)
  refine .bind (InternetChecksum.value_failsIn _) fun _ => ?_
  exact .bind (IPv4Header.serialize_failsIn _) fun _ => failsIn_ok _

theorem ARPMessage.serialize_failsIn (m : ARPMessage) : FailsIn Other m.serialize := by
  unfold serialize
  exact .ite (failsIn_error.mpr (by decide)) (failsIn_ok _)

/-! ## Adapters -/

/-- An adapter that throws neither of the complaints. -/
class Discreet (α : Type) (ι : outParam Type) [FdAdapter α ι] : Prop where
  read : ∀ (a : α) (kernel : ι), FailsIn Other (FdAdapter.read a kernel)
  write : ∀ (a : α) (seg : TCPSegment) (kernel : ι), FailsIn Other (FdAdapter.write a seg kernel)
  tick : ∀ (a : α) (ms : Nat) (kernel : ι), FailsIn Other (FdAdapter.tick a ms kernel)

namespace UDPSocket

theorem recv_failsIn (sock : UDPSocket) (mtu : Nat) (answer : Option ReceivedDatagram) :
    FailsIn Other (sock.recv mtu answer) := by
  unfold recv
  split
  · exact failsIn_error.mpr (by decide)
  · exact .ite (failsIn_error.mpr (by decide)) (failsIn_ok _)

theorem sendto_failsIn (sock : UDPSocket) (destination : Address) (payload : BufferViewList)
    (kernel : Nat → Option Nat) : FailsIn Other (sock.sendto destination payload kernel) := by
  unfold sendto
  split
  · exact failsIn_error.mpr (by decide)
  · exact .ite (failsIn_error.mpr (by decide)) (failsIn_ok _)

end UDPSocket

theorem TCPSegment.parse_failsIn (seg : TCPSegment) (buffer : Buffer)
    (datagramLayerChecksum : UInt32) : FailsIn Other (seg.parse buffer datagramLayerChecksum) := by
  obtain ⟨res, seg', h⟩ := seg.parse_returns buffer datagramLayerChecksum
  exact failsIn_of_returns ⟨_, h⟩

theorem IPv4Datagram.parse_failsIn (buffer : Buffer) : FailsIn Other (parse {} buffer) := by
  obtain ⟨res, d, h⟩ := parse_returns buffer
  exact failsIn_of_returns ⟨_, h⟩

instance : Discreet TCPOverUDPSocketAdapter TCPOverUDPSocketAdapter.Kernel where
  read a kernel := by
    refine .bind (a.sock.recv_failsIn _ _) fun _ => .ite (failsIn_ok _) ?_
    refine .bind (TCPSegment.parse_failsIn _ _ _) fun _ => .ite (failsIn_ok _) ?_
    exact .ite (.ite (failsIn_ok _) (failsIn_ok _)) (failsIn_ok _)
  write a seg kernel := by
    refine .bind (TCPSegment.serialize_failsIn _ _) fun _ => ?_
    exact .bind (a.sock.sendto_failsIn _ _ _) fun _ => failsIn_ok _
  tick a _ _ := failsIn_ok a

namespace TCPOverIPv4Adapter

theorem unwrapTcpInIp_failsIn (a : TCPOverIPv4Adapter) (ipDgram : IPv4Datagram) :
    FailsIn Other (a.unwrapTcpInIp ipDgram) := by
  refine .ite (failsIn_ok _) (.ite (failsIn_ok _) (.ite (failsIn_ok _) ?_))
  refine .bind (BufferList.toBuffer_failsIn _) fun _ =>
    .bind (TCPSegment.parse_failsIn _ _ _) fun _ => ?_
  refine .ite (failsIn_ok _) (.ite (failsIn_ok _) (.ite (failsIn_ok _) ?_))
  exact .ite (failsIn_ok _) (failsIn_ok _)

theorem wrapTcpInIp_failsIn (a : TCPOverIPv4Adapter) (seg : TCPSegment) :
    FailsIn Other (a.wrapTcpInIp seg) :=
  .bind (TCPSegment.serialize_failsIn _ _) fun _ => failsIn_ok _

end TCPOverIPv4Adapter

instance : Discreet TCPOverIPv4OverTunFdAdapter TunKernel where
  read a kernel := by
    refine .bind (a.tun.read_failsIn _ _) fun _ => .bind (IPv4Datagram.parse_failsIn _) fun _ => ?_
    exact .ite (failsIn_ok _) (.bind (a.adapter.unwrapTcpInIp_failsIn _) fun _ => failsIn_ok _)
  write a seg kernel := by
    refine .bind (a.adapter.wrapTcpInIp_failsIn seg) fun _ =>
      .bind (IPv4Datagram.serialize_failsIn _) fun _ => ?_
    exact .bind (a.tun.write_failsIn _ _ _) fun _ => failsIn_ok _
  tick a _ _ := failsIn_ok a

instance {α ι : Type} [FdAdapter α ι] [Discreet α ι] :
    Discreet (LossyFdAdapter α) (ι × UInt16) where
  read a kernel :=
    .bind (Discreet.read a.adapter kernel.1) fun _ => .ite (failsIn_ok _) (failsIn_ok _)
  write a seg kernel :=
    .ite (failsIn_ok _) (.bind (Discreet.write a.adapter seg kernel.1) fun _ => failsIn_ok _)
  tick a ms kernel := .bind (Discreet.tick a.adapter ms kernel.1) fun _ => failsIn_ok _

namespace NetworkInterface

theorem sendHelper_failsIn (n : NetworkInterface) (macAddr : EthernetAddress)
    (dgram : IPv4Datagram) : FailsIn Other (n.sendHelper macAddr dgram) :=
  .bind dgram.serialize_failsIn fun _ => failsIn_ok _

theorem sendARPRequest_failsIn (n : NetworkInterface) (ipAddr : UInt32) :
    FailsIn Other (n.sendARPRequest ipAddr) :=
  .bind (ARPMessage.serialize_failsIn _) fun _ => failsIn_ok _

theorem sendDatagram_failsIn (n : NetworkInterface) (dgram : IPv4Datagram) (nextHop : UInt32) :
    FailsIn Other (n.sendDatagram dgram nextHop) := by
  unfold sendDatagram
  split
  · exact sendHelper_failsIn _ _ _
  · unfold queueHelper
    split
    · exact .ite (sendARPRequest_failsIn _ _) (failsIn_ok _)
    · exact sendARPRequest_failsIn _ _

theorem clearWaitinglist_failsIn (n : NetworkInterface) (ipAddr : UInt32)
    (macAddr : EthernetAddress) : FailsIn Other (n.clearWaitinglist ipAddr macAddr) := by
  unfold clearWaitinglist
  dsimp only
  split
  · exact .bind (.foldlM (fun n dgram => n.sendHelper_failsIn _ dgram) _ _) fun _ => failsIn_ok _
  · exact failsIn_ok _

theorem learn_failsIn (n : NetworkInterface) (arp : ARPMessage) : FailsIn Other (n.learn arp) := by
  refine .bind (clearWaitinglist_failsIn _ _ _) fun _ => .ite ?_ (failsIn_ok _)
  exact .bind (ARPMessage.serialize_failsIn _) fun _ => failsIn_ok _

theorem recvFrame_failsIn (n : NetworkInterface) (frame : EthernetFrame) :
    FailsIn Other (n.recvFrame frame) := by
  unfold recvFrame
  refine .ite (failsIn_ok _) (.ite ?_ ?_)
  · exact .bind (BufferList.toBuffer_failsIn _) fun _ => .bind (IPv4Datagram.parse_failsIn _)
      fun _ => failsIn_ok _
  · refine .bind (BufferList.toBuffer_failsIn _) fun buffer => .bind ?_ fun _ => ?_
    · obtain ⟨res, m, h, -⟩ := ARPMessage.parse_spec {} buffer
      exact failsIn_of_returns ⟨_, h⟩
    · exact .ite (.bind (n.learn_failsIn _) fun _ => failsIn_ok _) (failsIn_ok _)

end NetworkInterface

namespace TCPOverIPv4OverEthernetAdapter

theorem sendFrames_failsIn (kernel : TunKernel) (i : Nat) (frames : List EthernetFrame)
    (out : FileDescriptor × List (List Byte)) : FailsIn Other (sendFrames kernel i frames out) := by
  induction frames generalizing i out with
  | nil => exact failsIn_ok _
  | cons frame frames ih =>
    unfold sendFrames
    exact .bind (out.1.write_failsIn _ _ _) fun _ => ih _ _

theorem sendPending_failsIn (a : TCPOverIPv4OverEthernetAdapter) (kernel : TunKernel) :
    FailsIn Other (a.sendPending kernel) :=
  .bind (sendFrames_failsIn _ _ _ _) fun _ => failsIn_ok _

instance : Discreet TCPOverIPv4OverEthernetAdapter TunKernel where
  read a kernel := by
    refine .bind (a.tap.read_failsIn _ _) fun _ => .bind ?_ fun _ => .ite (failsIn_ok _) ?_
    · obtain ⟨res, frame, h⟩ := EthernetFrame.parse_returns {} _
      exact failsIn_of_returns ⟨_, h⟩
    · refine .bind (a.interface.recvFrame_failsIn _) fun x => .bind (sendPending_failsIn _ _)
        fun b => ?_
      obtain ⟨ipDgram, interface⟩ := x
      cases ipDgram with
      | none => exact failsIn_ok _
      | some ipDgram => exact .bind (b.adapter.unwrapTcpInIp_failsIn _) fun _ => failsIn_ok _
  write a seg kernel := by
    refine .bind (a.adapter.wrapTcpInIp_failsIn seg) fun _ => ?_
    exact .bind (a.interface.sendDatagram_failsIn _ _) fun _ => sendPending_failsIn _ _
  tick a ms kernel := sendPending_failsIn _ _

end TCPOverIPv4OverEthernetAdapter

end Sponge
