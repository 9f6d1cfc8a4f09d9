import Sponge.EndpointRuns
import Sponge.Exceptions
import Sponge.GiveUp
import Sponge.SpongeSocket
import Sponge.StreamRuns

/-!
# The socket as an endpoint

What a `TCPSpongeSocket` does to its `TCPConnection` over any number of rounds of its loops. The
abstraction of a socket is an `Endpoint`: the connection as if no segment were ever taken off its
queue, with the bytes that came from the owner and went to the owner.

* `drives_lawfully`: every run of the loops is a run of calls on the endpoint, and one of calls on
  the adapter;
* `throws_for_cause`: a round throws only when the kernel, the adapter or a segment is to blame;
* `left_when_over`: what has been done when the last loop is left.
-/

namespace Sponge

/-! ## What the callbacks do -/

namespace TCPSpongeSocket

open FileDescriptor

variable {α ι : Type} [FdAdapter α ι]

/-- The bytes that are offered to the owner. -/
def offered (s : TCPSpongeSocket α) : List Byte :=
  s.tcp.inboundStream.peekOutput (min 65536 s.tcp.inboundStream.bufferSize)

/-- A callback that returns. -/
inductive Did (s : TCPSpongeSocket α) (kernel : SocketKernel ι) : Name → TCPSpongeSocket α → Prop
  | ignored {adapter : α} :
      FdAdapter.read s.datagramAdapter kernel.datagram = .ok (none, adapter) →
      Did s kernel .receiveDatagram { s with datagramAdapter := adapter }
  | heard {seg : TCPSegment} {adapter : α} {tcp : TCPConnection} :
      FdAdapter.read s.datagramAdapter kernel.datagram = .ok (some seg, adapter) →
      s.tcp.segmentReceived seg = .ok tcp →
      Did s kernel .receiveDatagram { s with datagramAdapter := adapter, tcp := tcp }
  | took {data : List Byte} {fd : FileDescriptor} {tcp : TCPConnection} :
      HasRead s.threadData s.tcp.remainingOutboundCapacity kernel.read data fd → fd.eof = false →
      s.tcp.write data = .ok (tcp, data.length) →
      Did s kernel .readOwner
        { s with threadData := fd, tcp := tcp, fromOwner := s.fromOwner ++ data }
  | tookLast {data : List Byte} {fd : FileDescriptor} {tcp ended : TCPConnection} :
      HasRead s.threadData s.tcp.remainingOutboundCapacity kernel.read data fd → fd.eof = true →
      s.tcp.write data = .ok (tcp, data.length) → tcp.endInputStream = .ok ended →
      Did s kernel .readOwner
        { s with
          threadData := fd
          tcp := ended
          outboundShutdown := true
          fromOwner := s.fromOwner ++ data }
  | gave {w : Writing} {tcp : TCPConnection} : HasWritten s.threadData s.offered w →
      tcp = s.tcp.popInbound w.totalBytesWritten →
      (tcp.inboundStream.eof || tcp.inboundStream.error) = false →
      Did s kernel .writeOwner
        { s with threadData := w.fd, tcp := tcp, toOwner := s.toOwner ++ w.taken.flatten }
  | gaveLast {w : Writing} {tcp : TCPConnection} : HasWritten s.threadData s.offered w →
      tcp = s.tcp.popInbound w.totalBytesWritten →
      (tcp.inboundStream.eof || tcp.inboundStream.error) = true →
      Did s kernel .writeOwner
        { s with
          threadData := w.fd.registerWrite
          tcp := tcp
          inboundShutdown := true
          toOwner := s.toOwner ++ w.taken.flatten }
  | sent {adapter : α} : writeSegments kernel 0 s.tcp.segmentsOut s.datagramAdapter = .ok adapter →
      Did s kernel .sendDatagrams
        { s with
          datagramAdapter := adapter
          tcp := { s.tcp with segmentsOut := [] }
          wrote := s.wrote ++ s.tcp.segmentsOut }

/-- Who is to blame for a callback that throws: the adapter, the segment that it has read, or
the kernel, which breaks a promise on the owner's side. -/
inductive Blame (s : TCPSpongeSocket α) (kernel : SocketKernel ι) : Name → Fault → Prop
  | read {fault : Fault} : FdAdapter.read s.datagramAdapter kernel.datagram = .error fault →
      Blame s kernel .receiveDatagram fault
  | segment {seg : TCPSegment} {adapter : α} {fault : Fault} :
      FdAdapter.read s.datagramAdapter kernel.datagram = .ok (some seg, adapter) →
      ¬ Replies.Receivable s.tcp seg → s.tcp.segmentReceived seg = .error fault →
      Blame s kernel .receiveDatagram fault
  | owner {what : String} : ¬ HonestRead kernel.read → what ∈ readTexts →
      s.threadData.read s.tcp.remainingOutboundCapacity kernel.read = .error (.throws what) →
      Blame s kernel .readOwner (.throws what)
  | pipe {what : String} : ¬ HonestWrite kernel.write → what ∈ writeTexts →
      s.threadData.write (.ofString s.offered) false kernel.write = .error (.throws what) →
      Blame s kernel .writeOwner (.throws what)
  | shutdown {w : Writing} {tcp : TCPConnection} :
      s.threadData.write (.ofString s.offered) false kernel.write = .ok w →
      tcp = s.tcp.popInbound w.totalBytesWritten →
      (tcp.inboundStream.eof || tcp.inboundStream.error) = true → kernel.shutdown = false →
      Blame s kernel .writeOwner (.throws "shutdown")
  | write {done left : List TCPSegment} {seg : TCPSegment} {adapter : α} {fault : Fault} :
      s.tcp.segmentsOut = done ++ seg :: left →
      writeSegments kernel 0 done s.datagramAdapter = .ok adapter →
      FdAdapter.write adapter seg (kernel.segment done.length) = .error fault →
      Blame s kernel .sendDatagrams fault

theorem endInputStream_returns (c : TCPConnection) : ∃ d, c.endInputStream = .ok d := by
  obtain ⟨s, hs, -⟩ := TCPSender.fillWindow_spec
    { c.sender with stream := c.sender.stream.endInput }
  simp only [TCPConnection.endInputStream, TCPConnection.fillAndSend, hs, Exec.ok_bind,
    Exec.pure_ok]
  exact ⟨_, rfl⟩

/-- What fits is written. -/
theorem write_fits {c : TCPConnection} {data : List Byte}
    (h : data.length ≤ c.remainingOutboundCapacity) :
    ∃ d, c.write data = .ok (d, data.length) := by
  obtain ⟨d, hd⟩ := ByteStream.connection_write c data
  have hn : (c.sender.stream.write data).2 = data.length := Nat.min_eq_right h
  exact ⟨d, by rw [hd, hn]⟩

theorem receiveDatagram_outcome {s : TCPSpongeSocket α} (hs : Replies.Sound s.tcp)
    (kernel : SocketKernel ι) :
    (∃ fault, s.receiveDatagram kernel = .error fault ∧ Blame s kernel .receiveDatagram fault) ∨
    ∃ t, s.receiveDatagram kernel = .ok t ∧ Did s kernel .receiveDatagram t := by
  unfold receiveDatagram
  cases hread : FdAdapter.read s.datagramAdapter kernel.datagram with
  | error fault => exact .inl ⟨fault, rfl, .read hread⟩
  | ok r =>
    obtain ⟨seg, adapter⟩ := r
    cases seg with
    | none => exact .inr ⟨_, rfl, .ignored hread⟩
    | some seg =>
      rw [Exec.ok_bind]
      dsimp only
      cases hseg : s.tcp.segmentReceived seg with
      | ok tcp => exact .inr ⟨_, rfl, .heard hread hseg⟩
      | error fault =>
        refine .inl ⟨fault, rfl, .segment hread ?_ hseg⟩
        intro hr
        obtain ⟨d, hd⟩ := Replies.segmentReceived_returns hs hr
        rw [hseg] at hd
        cases hd

theorem readOwner_outcome (s : TCPSpongeSocket α) (kernel : SocketKernel ι) :
    (∃ fault, s.readOwner kernel = .error fault ∧ Blame s kernel .readOwner fault) ∨
    ∃ t, s.readOwner kernel = .ok t ∧ Did s kernel .readOwner t := by
  unfold readOwner
  rcases s.threadData.read_outcome s.tcp.remainingOutboundCapacity kernel.read with
    ⟨hbad, what, htext, hr⟩ | ⟨data, fd, hr, hread⟩
  · exact .inl ⟨_, by rw [hr]; rfl, .owner hbad htext hr⟩
  · right
    obtain ⟨tcp, hw⟩ := write_fits (Nat.le_trans hread.fits (Nat.min_le_right _ _))
    have hall : (data.length != data.length) = false := by simp
    simp only [hr, hw, Exec.ok_bind, hall, Bool.false_eq_true, ↓reduceIte]
    cases heof : fd.eof with
    | false => exact ⟨_, rfl, .took hread heof hw⟩
    | true =>
      obtain ⟨ended, hend⟩ := endInputStream_returns tcp
      refine ⟨_, ?_, .tookLast hread heof hw hend⟩
      simp only [endInputStream, ↓reduceIte, hend, Exec.ok_bind]
      rfl

theorem writeOwner_outcome (s : TCPSpongeSocket α) (kernel : SocketKernel ι) :
    (∃ fault, s.writeOwner kernel = .error fault ∧ Blame s kernel .writeOwner fault) ∨
    ∃ t, s.writeOwner kernel = .ok t ∧ Did s kernel .writeOwner t := by
  unfold writeOwner
  dsimp only
  rcases s.threadData.write_once_outcome s.offered kernel.write with
    ⟨hbad, what, htext, hw⟩ | ⟨w, hw, hwritten⟩
  · refine .inl ⟨_, ?_, .pipe hbad htext hw⟩
    rw [offered] at hw
    rw [hw]
    rfl
  · have hcall := hw
    rw [offered] at hcall
    rw [hcall, Exec.ok_bind]
    cases hend : ((s.tcp.popInbound w.totalBytesWritten).inboundStream.eof ||
        (s.tcp.popInbound w.totalBytesWritten).inboundStream.error) with
    | false => exact .inr ⟨_, rfl, .gave hwritten rfl hend⟩
    | true =>
      cases hshut : kernel.shutdown with
      | true => exact .inr ⟨_, rfl, .gaveLast hwritten rfl hend⟩
      | false => exact .inl ⟨_, rfl, .shutdown hw rfl hend hshut⟩

/-- The segments before the one that the adapter throws for have been written. -/
theorem writeSegments_error {kernel : SocketKernel ι} {i : Nat} {segs : List TCPSegment} {a : α}
    {fault : Fault} (h : writeSegments kernel i segs a = .error fault) :
    ∃ done seg left, ∃ adapter : α, segs = done ++ seg :: left ∧
      writeSegments kernel i done a = .ok adapter ∧
      FdAdapter.write adapter seg (kernel.segment (i + done.length)) = .error fault := by
  induction segs generalizing i a with
  | nil => cases h
  | cons seg segs ih =>
    rw [writeSegments] at h
    cases hw : FdAdapter.write a seg (kernel.segment i) with
    | error e =>
      rw [hw] at h
      cases h
      exact ⟨[], seg, segs, a, rfl, rfl, hw⟩
    | ok b =>
      rw [hw, Exec.ok_bind] at h
      obtain ⟨done, bad, left, adapter, rfl, hdone, hbad⟩ := ih h
      refine ⟨seg :: done, bad, left, adapter, rfl, ?_, ?_⟩
      · rw [writeSegments, hw, Exec.ok_bind, hdone]
      · rwa [List.length_cons, Nat.add_comm done.length, ← Nat.add_assoc]

theorem sendDatagrams_outcome (s : TCPSpongeSocket α) (kernel : SocketKernel ι) :
    (∃ fault, s.sendDatagrams kernel = .error fault ∧ Blame s kernel .sendDatagrams fault) ∨
    ∃ t, s.sendDatagrams kernel = .ok t ∧ Did s kernel .sendDatagrams t := by
  unfold sendDatagrams
  cases hw : writeSegments kernel 0 s.tcp.segmentsOut s.datagramAdapter with
  | error fault =>
    obtain ⟨done, seg, left, adapter, hsplit, hdone, hseg⟩ := writeSegments_error hw
    rw [Nat.zero_add] at hseg
    exact .inl ⟨fault, rfl, .write hsplit hdone hseg⟩
  | ok adapter => exact .inr ⟨_, rfl, .sent hw⟩

/-- **A callback.** -/
theorem callback_outcome {s : TCPSpongeSocket α} (hs : Replies.Sound s.tcp) (k : Name)
    (kernel : SocketKernel ι) :
    (∃ fault, (table k).callback s kernel = .error fault ∧ Blame s kernel k fault) ∨
    ∃ t, (table k).callback s kernel = .ok t ∧ Did s kernel k t := by
  cases k with
  | receiveDatagram => exact receiveDatagram_outcome hs kernel
  | readOwner => exact readOwner_outcome s kernel
  | writeOwner => exact writeOwner_outcome s kernel
  | sendDatagrams => exact sendDatagrams_outcome s kernel

/-- The cancellation of rule 2 ends the input; those of the others do nothing. -/
theorem cancel_outcome (s : TCPSpongeSocket α) (k : Name) :
    (k ≠ .readOwner ∧ (table k).cancel s = .ok s) ∨
    (k = .readOwner ∧ ∃ tcp, s.tcp.endInputStream = .ok tcp ∧
      (table k).cancel s = .ok { s with tcp := tcp, outboundShutdown := true }) := by
  cases k with
  | readOwner =>
    obtain ⟨tcp, htcp⟩ := endInputStream_returns s.tcp
    refine .inr ⟨rfl, tcp, htcp, ?_⟩
    simp only [table, endInputStream, htcp, Exec.ok_bind, Exec.pure_ok]
  | receiveDatagram | writeOwner | sendDatagrams => exact .inl ⟨by decide, rfl⟩

/-! ## The rules -/

/-- The order in which the rules are added. -/
def Name.place : Name → Nat
  | .receiveDatagram => 0
  | .readOwner => 1
  | .writeOwner => 2
  | .sendDatagrams => 3

/-- What is not touched while the rules of a round that starts in `s₀` are set up. -/
def SettingUp (s₀ s : TCPSpongeSocket α) : Prop :=
  s.datagramAdapter = s₀.datagramAdapter ∧ s.tcp.receiver = s₀.tcp.receiver

/-- What a rule knows when it is set up in a round that starts in `s₀`. -/
structure Guard (s₀ : TCPSpongeSocket α) (k : Name) (polled : Bool) (s : TCPSpongeSocket α) :
    Prop where
  first : k = .receiveDatagram → SettingUp s₀ s ∧ s.tcp.active = polled
  unended : k = .readOwner → s.threadData.eof = false
  idle : polled = false → (table k).interest s = false

theorem receiveDatagram_threadData {s t : TCPSpongeSocket α} {kernel : SocketKernel ι}
    (h : s.receiveDatagram kernel = .ok t) : t.threadData = s.threadData := by
  obtain ⟨⟨seg, adapter⟩, -, h⟩ := Exec.bind_eq_ok.mp h
  cases seg with
  | none =>
    cases h
    rfl
  | some seg =>
    obtain ⟨tcp, -, h⟩ := Exec.bind_eq_ok.mp h
    cases h
    rfl

/-- A cancellation leaves what comes in and whether the connection is active alone. -/
theorem cancel_frame {s t : TCPSpongeSocket α} {k : Name} (h : (table k).cancel s = .ok t) :
    t.datagramAdapter = s.datagramAdapter ∧ t.tcp.receiver = s.tcp.receiver ∧
      t.tcp.active = s.tcp.active ∧ t.threadData = s.threadData := by
  rcases cancel_outcome s k with ⟨-, hc⟩ | ⟨-, tcp, htcp, hc⟩
  · rw [hc] at h
    cases h
    exact ⟨rfl, rfl, rfl, rfl⟩
  · rw [hc] at h
    cases h
    obtain ⟨_, -, rfl⟩ := TCPConnection.endInputStream_spec htcp
    exact ⟨rfl, rfl, rfl, rfl⟩

/-- Rule 1 is the first to be served, and only rule 2 minds what a rule before it does. -/
theorem guards (s₀ : TCPSpongeSocket α) :
    EventLoop.Guards table (SettingUp s₀) (fun j k => j.place < k.place) (Guard s₀) where
  irrefl k := Nat.lt_irrefl _
  settingUp hp hc := by
    obtain ⟨hadapter, hreceiver, -⟩ := cancel_frame hc
    exact ⟨hadapter.trans hp.1, hreceiver.trans hp.2⟩
  fresh k s hp hexp := by
    refine ⟨?_, ?_, id⟩
    · rintro rfl
      exact ⟨hp, rfl⟩
    · rintro rfl
      simp only [Rule.expired, table, Bool.or_eq_false_iff, Bool.and_eq_false_iff] at hexp
      simpa using hexp.1
  later {j k polled s t} hkj hg hc := by
    obtain ⟨hadapter, hreceiver, hactive, hthread⟩ := cancel_frame hc
    have hfirst : k = .receiveDatagram → SettingUp s₀ t ∧ t.tcp.active = polled := by
      intro hk
      obtain ⟨hp, hpolled⟩ := hg.first hk
      exact ⟨⟨hadapter.trans hp.1, hreceiver.trans hp.2⟩, hactive.trans hpolled⟩
    refine ⟨hfirst, fun hk => by rw [hthread]; exact hg.unended hk, fun hpolled => ?_⟩
    rcases cancel_outcome s j with ⟨-, hsame⟩ | ⟨rfl, -⟩
    · rw [hsame] at hc
      cases hc
      exact hg.idle hpolled
    · have hk : k = .receiveDatagram := by
        cases k with
        | receiveDatagram => rfl
        | readOwner | writeOwner | sendDatagrams => exact absurd hkj (by decide)
      rw [hk]
      exact (hfirst hk).2.trans hpolled
  cancel {j k s t} hjk hg hc := by
    obtain ⟨-, -, -, hthread⟩ := cancel_frame hc
    refine ⟨?_, fun hk => by rw [hthread]; exact hg.unended hk, fun h => nomatch h⟩
    rintro rfl
    exact absurd hjk (Nat.not_lt_zero _)
  callback {j k s t kernel} hjk hg hc := by
    refine ⟨?_, ?_, fun h => nomatch h⟩
    · rintro rfl
      exact absurd hjk (Nat.not_lt_zero _)
    · rintro rfl
      cases j with
      | receiveDatagram =>
        rw [receiveDatagram_threadData hc]
        exact hg.unended rfl
      | readOwner | writeOwner | sendDatagrams => exact absurd hjk (by decide)

/-- Every callback but that of rule 4 is counted, and rule 4 has nothing left to do. -/
theorem Did.serves [CountsReads α ι] {s t : TCPSpongeSocket α} {kernel : SocketKernel ι}
    {k : Name} (h : Did s kernel k t) :
    (table k).serviceCount s ≠ (table k).serviceCount t ∨ (table k).interest t = false := by
  cases h with
  | ignored hread =>
    left
    have hcount := CountsReads.read hread
    simp [Rule.serviceCount, table, hcount]
  | heard hread _ =>
    left
    have hcount := CountsReads.read hread
    simp [Rule.serviceCount, table, hcount]
  | took hread _ _ => exact .inl (by simp [Rule.serviceCount, table, hread.fd])
  | tookLast hread _ _ _ => exact .inl (by simp [Rule.serviceCount, table, hread.fd])
  | gave hw _ _ => exact .inl (by simp [Rule.serviceCount, table, hw.fd, registerWrite])
  | gaveLast hw _ _ =>
    exact .inl (by simp [Rule.serviceCount, table, hw.fd, registerWrite, UInt32.add_assoc])
  | sent _ => exact .inr rfl

/-! ## Calls on the endpoint -/

/-- The socket as an endpoint whose segments stay in the queue. -/
def endpoint (s : TCPSpongeSocket α) : Endpoint :=
  ⟨s.tcp.before s.wrote, s.fromOwner, s.toOwner⟩

theorem endpoint_call {s : TCPSpongeSocket α} {event : TCPConnection.Event} {tcp : TCPConnection}
    (hne : event ≠ .collect) (hwrite : ∀ data, event ≠ .write data)
    (hread : ∀ len, event ≠ .read len) (h : s.tcp.call event = .ok tcp) :
    s.endpoint.call event = .ok { s.endpoint with conn := tcp.before s.wrote } := by
  have hcall := TCPConnection.call_before s.wrote hne h
  cases event with
  | write data => exact absurd rfl (hwrite data)
  | read len => exact absurd rfl (hread len)
  | collect => exact absurd rfl hne
  | connect | endInputStream | tick _ | segmentReceived _ =>
    exact Exec.bind_eq_ok.mpr ⟨_, hcall, rfl⟩

theorem endpoint_write {s : TCPSpongeSocket α} {data : List Byte} {tcp : TCPConnection}
    (h : s.tcp.write data = .ok (tcp, data.length)) : s.endpoint.call (.write data) =
      .ok { s.endpoint with conn := tcp.before s.wrote, written := s.fromOwner ++ data } := by
  refine Exec.bind_eq_ok.mpr ⟨_, TCPConnection.write_before s.wrote h, ?_⟩
  simp only [List.take_length]
  rfl

/-- A read of what is there is a pop. -/
theorem readInbound_eq {c : TCPConnection} {len : Nat} (h : len ≤ c.inboundStream.bufferSize) :
    c.readInbound len = (c.popInbound len, c.inboundStream.buffer.take len) := by
  have hread : c.receiver.reassembler.output.read len =
      (c.receiver.reassembler.output.popOutput len, c.inboundStream.buffer.take len) := by
    rw [ByteStream.read, if_neg (Nat.not_lt.mpr (by exact h))]
    rfl
  simp only [TCPConnection.readInbound, TCPReceiver.readOut, hread]
  rfl

theorem endpoint_read {s : TCPSpongeSocket α} {len : Nat}
    (h : len ≤ s.tcp.inboundStream.bufferSize) : s.endpoint.call (.read len) =
      .ok { s.endpoint with
        conn := (s.tcp.popInbound len).before s.wrote
        delivered := s.toOwner ++ s.tcp.inboundStream.buffer.take len } := by
  have hread := @readInbound_eq s.endpoint.conn len h
  simp only [Endpoint.call, hread]
  rfl

/-- Taking segments off the queue to give them to the adapter changes nothing. -/
theorem endpoint_sent (s : TCPSpongeSocket α) (adapter : α) :
    TCPSpongeSocket.endpoint { s with
      datagramAdapter := adapter
      tcp := { s.tcp with segmentsOut := [] }
      wrote := s.wrote ++ s.tcp.segmentsOut } = s.endpoint := by
  simp only [endpoint, TCPConnection.before, List.append_nil]

/-! ## The end of a connection -/

/-- Both streams are done. -/
def Done (c : TCPConnection) : Prop := c.checkInboundEnded = true ∧ c.checkOutboundEnded = true

/-- A sender whose FIN has gone out has no more to send. -/
theorem fillWindow_finSent {s t : TCPSender} (hsyn : s.synSent = true) (hfin : s.finSent = true)
    (h : s.fillWindow = .ok t) : t = s := by
  apply TCPSender.fillWindow_invariant (P := fun t => t = s) _ rfl h
  rintro u v rfl he
  cases he with
  | syn hs =>
    rw [hsyn] at hs
    cases hs
  | bytes may =>
    have hgoing := may.going
    rw [hfin] at hgoing
    cases hgoing

theorem Done.finSent {W : List Byte} {c : TCPConnection} (h : Done c)
    (hc : TCPSender.Counted W c.sender) : c.sender.synSent = true ∧ c.sender.finSent = true := by
  obtain ⟨-, hout⟩ := h
  simp only [TCPConnection.checkOutboundEnded, Bool.and_eq_true, beq_iff_eq] at hout
  have hnumber : c.sender.nextSeqno = c.sender.stream.writtenBytes + 2 := hout.1.2
  have hnext := hc.next
  have hread := c.sender.stream.read_le_written
  have hsyn := Bool.toNat_le c.sender.synSent
  have hfin := Bool.toNat_le c.sender.finSent
  exact ⟨Bool.toNat_eq_one.mp (by omega), Bool.toNat_eq_one.mp (by omega)⟩

/-- To end the input of a connection that is done changes nothing. -/
theorem Done.endInputStream {W : List Byte} {c d : TCPConnection} (h : Done c)
    (hs : Replies.Sound c) (hc : TCPSender.Counted W c.sender) (hd : c.endInputStream = .ok d) :
    d = c := by
  obtain ⟨hsyn, hfin⟩ := h.finSent hc
  obtain ⟨s, hfill, rfl⟩ := TCPConnection.endInputStream_spec hd
  have hended : c.sender.stream.endWrite = true := by
    have hout := h.2
    simp only [TCPConnection.checkOutboundEnded, ByteStream.eof, Bool.and_eq_true] at hout
    exact hout.1.1.2
  have hsame : { c.sender with stream := c.sender.stream.endInput } = c.sender := by
    have hstream : c.sender.stream.endInput = c.sender.stream := by
      rw [ByteStream.endInput, ← hended]
    rw [hstream]
  rw [hsame] at hfill
  rw [fillWindow_finSent hsyn hfin hfill, hs.drained]
  exact TCPConnection.sent_self hs.drained

theorem Done.popInbound {c : TCPConnection} (h : Done c) (len : Nat) : Done (c.popInbound len) := by
  refine ⟨?_, h.2⟩
  have hin := h.1
  simp only [TCPConnection.checkInboundEnded, Bool.and_eq_true] at hin ⊢
  exact ⟨hin.1, (ByteStream.popOutput_endWrite _ _).trans hin.2⟩

theorem failed_sent {c : TCPConnection} {s t : TCPSender} (h : TCPConnection.Failed c)
    (hs : s.stream.error = true) (ht : s.fillWindow = .ok t) (segs : List TCPSegment) :
    TCPConnection.Failed (c.sent t segs) := by
  refine ⟨?_, h.2⟩
  apply TCPSender.fillWindow_invariant (P := fun t => t.stream.error = true) _ hs ht
  intro u v hu he
  exact he.later.error hu

theorem failed_endInputStream {c d : TCPConnection} (h : TCPConnection.Failed c)
    (hd : c.endInputStream = .ok d) : TCPConnection.Failed d := by
  obtain ⟨s, hfill, rfl⟩ := TCPConnection.endInputStream_spec hd
  exact failed_sent h (by exact h.1) hfill _

theorem failed_write {c d : TCPConnection} {data : List Byte} {n : Nat}
    (h : TCPConnection.Failed c) (hd : c.write data = .ok (d, n)) : TCPConnection.Failed d := by
  rcases TCPConnection.write_spec hd with ⟨-, rfl⟩ | ⟨s, hfill, rfl⟩
  · exact h
  · exact failed_sent h (by exact h.1) hfill _

theorem failed_popInbound {c : TCPConnection} (h : TCPConnection.Failed c) (len : Nat) :
    TCPConnection.Failed (c.popInbound len) :=
  ⟨h.1, ByteStream.popOutput_error _ _ h.2⟩

/-! ## Runs -/

/-- An answer of the kernel in a round. -/
def Round.Answer (r : Round ι) (revents : Revents) (kernel : SocketKernel ι) : Prop :=
  ∃ answers, r.poll = .ready answers ∧ (revents, kernel) ∈ answers

theorem answered (r : Round ι) (rules : List Name) (s : TCPSpongeSocket α) :
    EventLoop.Answered table (fun _ => r.Answer) rules s r.poll := by
  intro pollfds t answers _ hpoll x hx
  exact ⟨answers, hpoll, (List.of_mem_zip hx).2⟩

/-- The adapter returns no other segments than those that can be heard. -/
def Hears (heard : TCPReceiver → TCPSegment → Prop) (s : TCPSpongeSocket α) (r : Round ι) : Prop :=
  ∀ revents kernel, r.Answer revents kernel → ∀ seg adapter,
    FdAdapter.read s.datagramAdapter kernel.datagram = .ok (some seg, adapter) →
    heard s.tcp.receiver seg

/-- What holds between events, since the socket was the endpoint `e₀`. -/
structure Inv (heard : TCPReceiver → TCPSegment → Prop) (cfg : TCPConfig) (e₀ : Endpoint)
    (x : List Name × TCPSpongeSocket α) : Prop where
  nodup : x.1.Nodup
  course : Endpoint.Course heard cfg e₀ x.2.endpoint
  /-- While there is more to read from the owner, the outbound stream has not been ended. -/
  reading : .readOwner ∈ x.1 → x.2.threadData.eof = false →
    x.2.tcp.sender.stream.endWrite = false
  stopped : x.2.tcp.active = false → TCPConnection.Failed x.2.tcp ∨ Done x.2.tcp

section
variable {heard : TCPReceiver → TCPSegment → Prop} {cfg : TCPConfig} {e₀ : Endpoint}

theorem Inv.sound {x : List Name × TCPSpongeSocket α} (h : Inv heard cfg e₀ x) :
    Replies.Sound x.2.tcp :=
  ⟨h.course.runs.sound.drained, h.course.runs.sound.tally, h.course.runs.sound.intact⟩

theorem Inv.counted {x : List Name × TCPSpongeSocket α} (h : Inv heard cfg e₀ x) :
    TCPSender.Counted x.2.fromOwner x.2.tcp.sender := by
  obtain ⟨_, houtgoing⟩ := h.course.runs.outgoing
  exact houtgoing.counted

theorem Done.endWrite {c : TCPConnection} (h : Done c) : c.sender.stream.endWrite = true := by
  have hout := h.2
  simp only [TCPConnection.checkOutboundEnded, ByteStream.eof, Bool.and_eq_true] at hout
  exact hout.1.1.2

theorem write_active {c d : TCPConnection} {data : List Byte} {n : Nat}
    (h : c.write data = .ok (d, n)) : d.active = c.active := by
  rcases TCPConnection.write_spec h with ⟨-, rfl⟩ | ⟨s, -, rfl⟩
  · rfl
  · rfl

theorem endInputStream_active {c d : TCPConnection} (h : c.endInputStream = .ok d) :
    d.active = c.active := by
  obtain ⟨s, -, rfl⟩ := TCPConnection.endInputStream_spec h
  rfl

/-- Bytes are read from the owner while the rule is there and the input goes on. -/
theorem inv_took {rules : List Name} {s : TCPSpongeSocket α} {data : List Byte}
    {tcp : TCPConnection} (hi : Inv heard cfg e₀ (rules, s)) (fd : FileDescriptor)
    (hk : .readOwner ∈ rules) (hopen : s.threadData.eof = false)
    (hfits : data.length ≤ s.tcp.remainingOutboundCapacity)
    (hw : s.tcp.write data = .ok (tcp, data.length)) :
    Inv heard cfg e₀ (rules,
      { s with threadData := fd, tcp := tcp, fromOwner := s.fromOwner ++ data }) := by
  have hending := hi.reading hk hopen
  have hlaw : Endpoint.Lawful heard s.endpoint (.write data) := ⟨hending, hfits⟩
  have hcall := endpoint_write hw
  refine ⟨hi.nodup, hi.course.next hlaw hcall, fun _ _ => ?_, fun hinactive => ?_⟩
  · exact (hi.course.runs.call_endWrite hlaw (fun h => nomatch h) hcall).trans hending
  · rcases hi.stopped ((write_active hw).symm.trans hinactive) with hfailed | hdone
    · exact .inl (failed_write hfailed hw)
    · have hended := hdone.endWrite
      rw [hending] at hended
      cases hended

/-- The input is ended, by rule 2 or by its cancellation. -/
theorem inv_ended {rules : List Name} {s : TCPSpongeSocket α} {tcp : TCPConnection}
    (hi : Inv heard cfg e₀ (rules, s)) (hend : s.tcp.endInputStream = .ok tcp) {left : List Name}
    (hleft : left.Sublist rules) (hover : .readOwner ∈ left → s.threadData.eof = true) :
    Inv heard cfg e₀ (left, { s with tcp := tcp, outboundShutdown := true }) := by
  have hlaw : Endpoint.Lawful heard s.endpoint .endInputStream := trivial
  have hcall : s.endpoint.call .endInputStream = _ :=
    endpoint_call (by simp) (by simp) (by simp) hend
  refine ⟨hi.nodup.sublist hleft, hi.course.next hlaw hcall, fun hk heof => ?_,
    fun hinactive => ?_⟩
  · rw [hover hk] at heof
    cases heof
  · rcases hi.stopped ((endInputStream_active hend).symm.trans hinactive) with hfailed | hdone
    · exact .inl (failed_endInputStream hfailed hend)
    · right
      rw [hdone.endInputStream hi.sound hi.counted hend]
      exact hdone

/-- Bytes are given to the owner. -/
theorem inv_gave {rules : List Name} {s : TCPSpongeSocket α} {w : Writing} {fd : FileDescriptor}
    {shut : Bool} (hi : Inv heard cfg e₀ (rules, s)) (hw : HasWritten s.threadData s.offered w)
    (heof : fd.eof = s.threadData.eof) :
    Inv heard cfg e₀ (rules,
      { s with
        threadData := fd
        tcp := s.tcp.popInbound w.totalBytesWritten
        inboundShutdown := shut
        toOwner := s.toOwner ++ w.taken.flatten }) := by
  have hlength : s.offered.length ≤ s.tcp.inboundStream.bufferSize := by
    rw [offered, ByteStream.peekOutput, List.length_take, ByteStream.bufferSize]
    omega
  have hlaw : Endpoint.Lawful heard s.endpoint (.read w.totalBytesWritten) :=
    Nat.le_trans hw.fits hlength
  have htaken : w.taken.flatten = s.tcp.inboundStream.buffer.take w.totalBytesWritten := by
    rw [hw.taken, offered, ByteStream.peekOutput, List.take_take]
    congr 1
    have hoffered := hw.fits
    rw [offered, ByteStream.peekOutput, List.length_take] at hoffered
    omega
  have hcall := endpoint_read hlaw
  rw [← htaken] at hcall
  refine ⟨hi.nodup, hi.course.next hlaw hcall, fun hk hopen => ?_, fun hinactive => ?_⟩
  · exact hi.reading hk (heof.symm.trans hopen)
  · rcases hi.stopped hinactive with hfailed | hdone
    · exact .inl (failed_popInbound hfailed _)
    · exact .inr (hdone.popInbound _)

theorem inv_did {s₀ s t : TCPSpongeSocket α} {r : Round ι} {rules : List Name} {k : Name}
    {revents : Revents} {kernel : SocketKernel ι} (hears : Hears heard s₀ r)
    (hi : Inv heard cfg e₀ (rules, s)) (hk : k ∈ rules) (hg : Guard s₀ k true s)
    (ha : r.Answer revents kernel) (hd : Did s kernel k t) : Inv heard cfg e₀ (rules, t) := by
  cases hd with
  | ignored _ => exact ⟨hi.nodup, hi.course, hi.reading, hi.stopped⟩
  | @heard seg adapter tcp hread hseg =>
    obtain ⟨⟨hadapter, hreceiver⟩, hactive⟩ := hg.first rfl
    rw [hadapter] at hread
    have hlaw : Endpoint.Lawful heard s.endpoint (.segmentReceived seg) := by
      change heard s.tcp.receiver seg
      rw [hreceiver]
      exact hears revents kernel ha seg adapter hread
    have hcall : s.endpoint.call (.segmentReceived seg) = _ :=
      endpoint_call (by simp) (by simp) (by simp) hseg
    refine ⟨hi.nodup, hi.course.next hlaw hcall, fun hmem hopen => ?_, fun hinactive => ?_⟩
    · have hsame := hi.course.runs.call_endWrite hlaw (fun h => nomatch h) hcall
      exact hsame.trans (hi.reading hmem hopen)
    · rcases TCPConnection.call_inactive (e := .segmentReceived seg) hi.sound.drained hseg
        hinactive with hold | hfailed | ⟨ms, hms, -⟩
      · rw [hactive] at hold
        cases hold
      · exact .inl hfailed
      · cases hms
  | took hread _ hw =>
    exact inv_took hi _ hk (hg.unended rfl) (Nat.le_trans hread.fits (Nat.min_le_right _ _)) hw
  | @tookLast _ fd _ _ hread heof hw hend =>
    have htook := inv_took hi fd hk (hg.unended rfl)
      (Nat.le_trans hread.fits (Nat.min_le_right _ _)) hw
    exact inv_ended htook hend (List.Sublist.refl _) fun _ => heof
  | gave hw htcp _ =>
    subst htcp
    exact inv_gave hi hw (by rw [hw.fd]; rfl)
  | gaveLast hw htcp _ =>
    subst htcp
    exact inv_gave hi hw (by rw [hw.fd]; rfl)
  | sent _ =>
    refine ⟨hi.nodup, ?_, hi.reading, hi.stopped⟩
    have hcourse := hi.course
    rw [← endpoint_sent] at hcourse
    exact hcourse

theorem Inv.fewer {x : List Name × TCPSpongeSocket α} (h : Inv heard cfg e₀ x) {left : List Name}
    (hleft : left.Sublist x.1) : Inv heard cfg e₀ (left, x.2) :=
  ⟨h.nodup.sublist hleft, h.course, fun hk => h.reading (hleft.subset hk), h.stopped⟩

theorem inv_cancel {x : List Name × TCPSpongeSocket α} {t : TCPSpongeSocket α} {k : Name}
    (hi : Inv heard cfg e₀ x) (hc : (table k).cancel x.2 = .ok t) :
    Inv heard cfg e₀ (x.1.erase k, t) := by
  have hleft : (x.1.erase k).Sublist x.1 := List.erase_sublist
  rcases cancel_outcome x.2 k with ⟨-, hsame⟩ | ⟨rfl, tcp, htcp, hended⟩
  · rw [hsame] at hc
    cases hc
    exact hi.fewer hleft
  · rw [hended] at hc
    cases hc
    apply inv_ended hi htcp hleft
    intro hmem
    exact absurd hmem hi.nodup.not_mem_erase

/-- **One event.** -/
theorem inv_step {s₀ : TCPSpongeSocket α} {r : Round ι} {x y : List Name × TCPSpongeSocket α}
    {e : EventLoop.Event Name (SocketKernel ι)} (hears : Hears heard s₀ r)
    (hi : Inv heard cfg e₀ x) (ha : EventLoop.Allowed table (Guard s₀) (fun _ => r.Answer) x e)
    (h : EventLoop.step table x e = .ok y) : Inv heard cfg e₀ y := by
  cases e with
  | callback k kernel =>
    obtain ⟨hk, hg, revents, hanswer⟩ := ha
    obtain ⟨t, ht, h⟩ := Exec.bind_eq_ok.mp h
    cases h
    rcases callback_outcome hi.sound k kernel with ⟨fault, hf, -⟩ | ⟨u, hu, hdid⟩
    · rw [ht] at hf
      cases hf
    · rw [ht] at hu
      cases hu
      exact inv_did hears hi hk hg hanswer hdid
  | cancel k =>
    obtain ⟨t, ht, h⟩ := Exec.bind_eq_ok.mp h
    cases h
    exact inv_cancel hi ht

theorem inv_tick {rules : List Name} {s t : TCPSpongeSocket α} {ms : Nat} {kernel : ι}
    (hi : Inv heard cfg e₀ (rules, s)) (hactive : s.tcp.active = true)
    (h : s.tick ms kernel = .ok t) : Inv heard cfg e₀ (rules, t) := by
  obtain ⟨tcp, htcp, h⟩ := Exec.bind_eq_ok.mp h
  obtain ⟨adapter, -, h⟩ := Exec.bind_eq_ok.mp h
  cases h
  have hlaw : Endpoint.Lawful heard s.endpoint (.tick ms) := trivial
  have hcall : s.endpoint.call (.tick ms) = _ := endpoint_call (by simp) (by simp) (by simp) htcp
  refine ⟨hi.nodup, hi.course.next hlaw hcall, fun hmem hopen => ?_, fun hinactive => ?_⟩
  · have hsame := hi.course.runs.call_endWrite hlaw (fun h => nomatch h) hcall
    exact hsame.trans (hi.reading hmem hopen)
  · rcases TCPConnection.call_inactive (e := .tick ms) hi.sound.drained htcp hinactive with
      hold | hfailed | ⟨_, -, hmay⟩
    · rw [hactive] at hold
      cases hold
    · exact .inl hfailed
    · exact .inr ⟨hmay.inbound, hmay.outbound⟩

/-- What holds between rounds. -/
structure Loop.Sound (heard : TCPReceiver → TCPSegment → Prop) (cfg : TCPConfig) (e₀ : Endpoint)
    (l : Loop α) : Prop where
  sorted : l.rules.Pairwise fun j k => j.place < k.place
  inv : Inv heard cfg e₀ (l.rules, l.socket)

/-- The events of a round: what is left of the rules and of the socket. -/
def Events (l : Loop α) (r : Round ι) (rules : List Name) (s : TCPSpongeSocket α) : Prop :=
  Exec.Reach (EventLoop.step table) (EventLoop.Allowed table (Guard l.socket) fun _ => r.Answer)
    (l.rules, l.socket) (rules, s)

/-- A round that returns: its condition was not met; or after its events the loop is left, for a
reason, or goes on, with the time if the connection is active. -/
inductive Turn (l : Loop α) (r : Round ι) : Loop α → Prop
  | met : l.phase.condition l.socket.tcp = false → Turn l r (l.next r.now)
  | left {rules : List Name} {s : TCPSpongeSocket α} : Events l r rules s →
      rules.Sublist l.rules →
      (r.abort = true ∨ r.poll = .interrupted ∨ ∀ k ∈ rules, Guard l.socket k false s) →
      Turn l r ({ l with rules := rules, socket := s }.next r.now)
  | stays {rules : List Name} {s : TCPSpongeSocket α} : Events l r rules s →
      rules.Sublist l.rules → Turn l r { l with rules := rules, socket := s }
  | ticks {rules : List Name} {s t : TCPSpongeSocket α} : Events l r rules s →
      rules.Sublist l.rules → s.tcp.active = true →
      s.tick (Words.sub64 r.now l.baseTime) r.tick = .ok t →
      Turn l r { l with rules := rules, socket := t, baseTime := r.now }

theorem round_turn {l m : Loop α} {r : Round ι}
    (hsorted : l.rules.Pairwise fun j k => j.place < k.place) (h : l.round r = .ok m) :
    Turn l r m := by
  unfold Loop.round at h
  by_cases hcond : l.phase.condition l.socket.tcp = true
  · rw [if_pos hcond] at h
    obtain ⟨⟨ret, rules, socket⟩, hwait, h⟩ := Exec.bind_eq_ok.mp h
    dsimp only at h
    rcases EventLoop.waitNextEvent_outcome (guards l.socket) ⟨rfl, rfl⟩ hsorted
        (answered r l.rules l.socket) with ⟨fault, hf, -⟩ | ⟨res, left, t, ht, hreach, hsub, hexit⟩
    · rw [hwait] at hf
      cases hf
    rw [hwait] at ht
    cases ht
    obtain ⟨hleave, hm⟩ | ⟨-, h⟩ := Exec.ite_pure_eq_ok.mp h
    · cases hm
      apply Turn.left hreach hsub
      rcases Bool.or_eq_true_iff.mp hleave with hret | habort
      · rcases hexit (beq_iff_eq.mp hret) with hidle | hinterrupted
        · exact .inr (.inr hidle)
        · exact .inr (.inl hinterrupted)
      · exact .inl habort
    · by_cases hactive : socket.tcp.active = true
      · rw [if_pos hactive] at h
        obtain ⟨ticked, htick, h⟩ := Exec.bind_eq_ok.mp h
        cases h
        exact .ticks hreach hsub hactive htick
      · rw [if_neg hactive] at h
        cases h
        exact .stays hreach hsub
  · rw [if_neg hcond] at h
    cases h
    exact .met (by simpa using hcond)

theorem inv_events {l : Loop α} {r : Round ι} {rules : List Name} {s : TCPSpongeSocket α}
    (hs : l.Sound heard cfg e₀) (hears : Hears heard l.socket r) (h : Events l r rules s) :
    Inv heard cfg e₀ (rules, s) :=
  h.invariant (I := Inv heard cfg e₀) hs.inv fun _ _ _ hi ha hs => inv_step hears hi ha hs

/-- **A round that returns.** -/
theorem sound_turn {l m : Loop α} {r : Round ι} (hs : l.Sound heard cfg e₀)
    (hears : Hears heard l.socket r) (h : Turn l r m) : m.Sound heard cfg e₀ := by
  cases h with
  | met _ => exact ⟨hs.sorted, hs.inv⟩
  | left hevents hsub _ => exact ⟨hs.sorted.sublist hsub, inv_events hs hears hevents⟩
  | stays hevents hsub => exact ⟨hs.sorted.sublist hsub, inv_events hs hears hevents⟩
  | ticks hevents hsub hactive htick =>
    exact ⟨hs.sorted.sublist hsub, inv_tick (inv_events hs hears hevents) hactive htick⟩

/-! ## Calls on the adapter -/

/-- From `s` to `t` the adapter has had calls that are in `P`, and the segments noted are those
that were written to it. -/
def Calls (P : FdAdapter.Call ι → Prop) (s t : TCPSpongeSocket α) : Prop :=
  Exec.Reach FdAdapter.call (fun _ c => P c) (s.datagramAdapter, s.wrote)
    (t.datagramAdapter, t.wrote)

/-- The calls that a round can make are in `P`. -/
structure Round.Grants (P : FdAdapter.Call ι → Prop) (r : Round ι) : Prop where
  tick : ∀ ms, P (.tick ms r.tick)
  read : ∀ revents kernel, r.Answer revents kernel → P (.read kernel.datagram)
  write : ∀ revents kernel, r.Answer revents kernel → ∀ i seg, seg.Plain →
    P (.write seg (kernel.segment i))

section
variable {P : FdAdapter.Call ι → Prop}

theorem calls_read {s : TCPSpongeSocket α} {kernel : ι} {seg : Option TCPSegment} {adapter : α}
    (hp : P (.read kernel)) (h : FdAdapter.read s.datagramAdapter kernel = .ok (seg, adapter)) :
    Exec.Reach FdAdapter.call (fun _ c => P c) (s.datagramAdapter, s.wrote) (adapter, s.wrote) :=
  .one (e := .read kernel) hp (Exec.bind_eq_ok.mpr ⟨_, h, rfl⟩)

theorem calls_writeSegments {kernel : SocketKernel ι} {segs given : List TCPSegment} {i : Nat}
    {a b : α} (hp : ∀ i, ∀ seg ∈ segs, P (.write seg (kernel.segment i)))
    (h : writeSegments kernel i segs a = .ok b) :
    Exec.Reach FdAdapter.call (fun _ c => P c) (a, given) (b, given ++ segs) := by
  induction segs generalizing i a given with
  | nil =>
    cases h
    rw [List.append_nil]
    exact .start
  | cons seg segs ih =>
    rw [writeSegments] at h
    obtain ⟨c, hc, h⟩ := Exec.bind_eq_ok.mp h
    have hfirst : FdAdapter.call (a, given) (.write seg (kernel.segment i)) =
        .ok (c, given ++ [seg]) := Exec.bind_eq_ok.mpr ⟨c, hc, rfl⟩
    have hrest : Exec.Reach FdAdapter.call (fun _ c => P c) (c, given ++ [seg])
        (b, given ++ [seg] ++ segs) :=
      ih (fun i x hx => hp i x (List.mem_cons_of_mem _ hx)) h
    rw [List.append_assoc, List.singleton_append] at hrest
    exact (Exec.Reach.one (hp i seg List.mem_cons_self) hfirst).trans hrest

theorem calls_did {rules : List Name} {s t : TCPSpongeSocket α} {r : Round ι} {k : Name}
    {revents : Revents} {kernel : SocketKernel ι} (hi : Inv heard cfg e₀ (rules, s))
    (hgrants : r.Grants P) (ha : r.Answer revents kernel) (hd : Did s kernel k t) :
    Calls P s t := by
  cases hd with
  | ignored h => exact calls_read (hgrants.read revents kernel ha) h
  | heard h _ => exact calls_read (hgrants.read revents kernel ha) h
  | took _ _ _ | tookLast _ _ _ _ | gave _ _ _ | gaveLast _ _ _ => exact .start
  | sent h =>
    obtain ⟨_, houtgoing⟩ := hi.course.runs.outgoing
    apply calls_writeSegments _ h
    intro i seg hseg
    exact hgrants.write revents kernel ha i seg (houtgoing.out seg (List.mem_append_right _ hseg))

theorem calls_events {l : Loop α} {r : Round ι} {rules : List Name} {s : TCPSpongeSocket α}
    (hl : l.Sound heard cfg e₀) (hears : Hears heard l.socket r) (hgrants : r.Grants P)
    (h : Events l r rules s) : Calls P l.socket s := by
  suffices hboth : Inv heard cfg e₀ (rules, s) ∧ Calls P l.socket s from hboth.2
  apply h.invariant (I := fun x => Inv heard cfg e₀ x ∧ Calls P l.socket x.2) ⟨hl.inv, .start⟩
  rintro x e y ⟨hi, hx⟩ ha hstep
  refine ⟨inv_step hears hi ha hstep, ?_⟩
  cases e with
  | callback k kernel =>
    obtain ⟨-, -, revents, hanswer⟩ := ha
    obtain ⟨t, ht, hy⟩ := Exec.bind_eq_ok.mp hstep
    cases hy
    rcases callback_outcome hi.sound k kernel with ⟨fault, hf, -⟩ | ⟨u, hu, hdid⟩
    · rw [ht] at hf
      cases hf
    · rw [ht] at hu
      cases hu
      exact hx.trans (calls_did hi hgrants hanswer hdid)
  | cancel k =>
    obtain ⟨t, ht, hy⟩ := Exec.bind_eq_ok.mp hstep
    cases hy
    rcases cancel_outcome x.2 k with ⟨-, hc⟩ | ⟨-, tcp, -, hc⟩
    · rw [hc] at ht
      cases ht
      exact hx
    · rw [hc] at ht
      cases ht
      exact hx

theorem calls_turn {l m : Loop α} {r : Round ι} (hl : l.Sound heard cfg e₀)
    (hears : Hears heard l.socket r) (hgrants : r.Grants P) (h : Turn l r m) :
    Calls P l.socket m.socket := by
  cases h with
  | met _ => exact .start
  | left hevents _ _ => exact calls_events hl hears hgrants hevents
  | stays hevents _ => exact calls_events hl hears hgrants hevents
  | ticks hevents _ _ htick =>
    obtain ⟨tcp, -, htick⟩ := Exec.bind_eq_ok.mp htick
    obtain ⟨adapter, hadapter, htick⟩ := Exec.bind_eq_ok.mp htick
    cases htick
    have hcalls := calls_events hl hears hgrants hevents
    exact hcalls.next (hgrants.tick _) (Exec.bind_eq_ok.mpr ⟨adapter, hadapter, rfl⟩)

end

/-! ## Faults -/

/-- Why a round throws: for one of the reasons that a callback can have in a state that the round
has come to, because an error is reported for a descriptor, or because the adapter's `tick`
throws. -/
inductive Cause (l : Loop α) (r : Round ι) : Fault → Prop
  | callback {rules : List Name} {s : TCPSpongeSocket α} {k : Name} {revents : Revents}
      {kernel : SocketKernel ι} {fault : Fault} : Events l r rules s → k ∈ rules →
      r.Answer revents kernel → Blame s kernel k fault → Cause l r fault
  | reported {revents : Revents} {kernel : SocketKernel ι} : r.Answer revents kernel →
      (revents.pollErr || revents.pollNval) = true →
      Cause l r (.throws "EventLoop: error on polled file descriptor")
  | tick {rules : List Name} {s : TCPSpongeSocket α} {fault : Fault} : Events l r rules s →
      s.tcp.active = true →
      FdAdapter.tick s.datagramAdapter (Words.sub64 r.now l.baseTime) r.tick = .error fault →
      Cause l r fault

/-- None of these reasons is one of the two complaints, unless the adapter throws it. -/
theorem Blame.other [Discreet α ι] {s : TCPSpongeSocket α} {kernel : SocketKernel ι} {k : Name}
    {fault : Fault} (h : Blame s kernel k fault) : fault.Other := by
  cases h with
  | read hread => exact Discreet.read _ _ _ hread
  | segment _ _ hseg => exact s.tcp.segmentReceived_failsIn _ _ hseg
  | owner _ _ hread => exact read_failsIn _ _ _ _ hread
  | pipe _ _ hwrite => exact write_failsIn _ _ _ _ _ hwrite
  | shutdown _ _ _ _ => decide
  | write _ _ hwrite => exact Discreet.write _ _ _ _ hwrite

theorem Cause.other [Discreet α ι] {l : Loop α} {r : Round ι} {fault : Fault}
    (h : Cause l r fault) : fault.Other := by
  cases h with
  | callback _ _ _ hblame => exact hblame.other
  | reported _ _ => decide
  | tick _ _ htick => exact Discreet.tick _ _ _ _ htick

theorem tick_returns {c : TCPConnection} (hs : Replies.Sound c) (ms : Nat) :
    ∃ d, c.tick ms = .ok d := by
  obtain ⟨s, ht⟩ := TCPSender.tick_returns hs.tally.timer.mp ms
  exact GiveUp.tick_call_returns ht

/-- A call of `wait_next_event` throws for one of these reasons. In particular no callback is
ever found to have done nothing. -/
theorem throws_cause [CountsReads α ι] {l : Loop α} {r : Round ι} {fault : Fault}
    (hs : l.Sound heard cfg e₀) (hears : Hears heard l.socket r)
    (h : EventLoop.Throws table (Guard l.socket) (fun _ => r.Answer) (l.rules, l.socket) fault) :
    Cause l r fault := by
  cases h with
  | @event y e _ hreach ha he =>
    cases e with
    | callback k kernel =>
      obtain ⟨hk, -, revents, hanswer⟩ := ha
      rcases callback_outcome (inv_events hs hears hreach).sound k kernel with
        ⟨fault', hf, hblame⟩ | ⟨t, ht, -⟩
      · simp only [EventLoop.step, hf, Exec.error_bind] at he
        cases he
        exact .callback hreach hk hanswer hblame
      · simp only [EventLoop.step, ht, Exec.ok_bind] at he
        cases he
    | cancel k =>
      rcases cancel_outcome y.2 k with ⟨-, hc⟩ | ⟨-, tcp, -, hc⟩
      · simp only [EventLoop.step, hc, Exec.ok_bind] at he
        cases he
      · simp only [EventLoop.step, hc, Exec.ok_bind] at he
        cases he
  | @busy y z k kernel hreach ha hstep hcount hinterest =>
    obtain ⟨t, ht, hz⟩ := Exec.bind_eq_ok.mp hstep
    cases hz
    rcases callback_outcome (inv_events hs hears hreach).sound k kernel with
      ⟨fault', hf, -⟩ | ⟨u, hu, hdid⟩
    · rw [ht] at hf
      cases hf
    · rw [ht] at hu
      cases hu
      rcases hdid.serves with hserved | hidle
      · exact absurd hcount hserved
      · rw [hidle] at hinterest
        cases hinterest
  | reported hanswer herr => exact .reported hanswer herr

theorem round_error [CountsReads α ι] {l : Loop α} {r : Round ι} {fault : Fault}
    (hs : l.Sound heard cfg e₀) (hears : Hears heard l.socket r) (h : l.round r = .error fault) :
    Cause l r fault := by
  unfold Loop.round at h
  by_cases hcond : l.phase.condition l.socket.tcp = true
  · rw [if_pos hcond] at h
    unfold Loop.body at h
    rcases EventLoop.waitNextEvent_outcome (guards l.socket) ⟨rfl, rfl⟩ hs.sorted
        (answered r l.rules l.socket) with ⟨fault', hf, hthrows⟩ | ⟨res, left, t, ht, hreach, -, -⟩
    · rw [hf] at h
      cases h
      exact throws_cause hs hears hthrows
    · have hinv := inv_events hs hears hreach
      rw [ht, Exec.ok_bind] at h
      dsimp only at h
      by_cases hleave : (res == .exit || r.abort) = true
      · rw [if_pos hleave] at h
        cases h
      rw [if_neg hleave] at h
      by_cases hactive : t.tcp.active = true
      · obtain ⟨tcp, htcp⟩ := tick_returns hinv.sound (Words.sub64 r.now l.baseTime)
        simp only [hactive, ↓reduceIte, tick, htcp, Exec.ok_bind] at h
        cases hadapter : FdAdapter.tick t.datagramAdapter (Words.sub64 r.now l.baseTime) r.tick with
        | error fault' =>
          rw [hadapter] at h
          cases h
          exact .tick hreach hactive hadapter
        | ok adapter =>
          rw [hadapter] at h
          cases h
      · simp only [hactive] at h
        cases h
  · rw [if_neg hcond] at h
    cases h

/-! ## From `connect` or `listen_and_accept` on -/

/-- The loop that `connect` or `listen_and_accept` enters. -/
inductive Opens (adapter : α) (cfg : TCPConfig) : Loop α → Prop
  | connects {cAd : FdAdapterConfig} {now : Nat} {l : Loop α} :
      connect adapter cfg cAd now = .ok l → Opens adapter cfg l
  | listens (cAd : FdAdapterConfig) (now : Nat) :
      Opens adapter cfg (listenAndAccept adapter cfg cAd now)

/-- A connection that has not been used is in `SYN_SENT` after `connect`. -/
theorem connect_eq (adapter : α) (cfg : TCPConfig) (cAd : FdAdapterConfig) (now : Nat) :
    ∃ tcp, (TCPConnection.new cfg).connect = .ok tcp ∧ connect adapter cfg cAd now = .ok
      { phase := .connecting
        socket := { initializeTCP adapter cfg cAd with tcp := tcp }
        baseTime := now } := by
  obtain ⟨tcp, htcp, hstate⟩ : ∃ tcp, (TCPConnection.new cfg).connect = .ok tcp ∧
      tcp.state = .ofState .synSent := ⟨_, rfl, rfl⟩
  refine ⟨tcp, htcp, ?_⟩
  have hexpected : (tcp.state != .ofState .synSent) = false := by simp [hstate]
  simp only [connect, initializeTCP, htcp, Exec.ok_bind, hexpected, Bool.false_eq_true, ↓reduceIte]
  rfl

theorem inv_new (adapter : α) : Inv heard cfg (.new cfg)
    ([.receiveDatagram, .readOwner, .writeOwner, .sendDatagrams],
      { datagramAdapter := adapter, tcp := .new cfg }) := by
  refine ⟨?_, .start .start, fun _ _ => rfl, fun hinactive => ?_⟩
  · change [Name.receiveDatagram, .readOwner, .writeOwner, .sendDatagrams].Nodup
    decide
  · cases hinactive

theorem inv_connect (adapter : α) (cAd : FdAdapterConfig) {tcp : TCPConnection}
    (h : (TCPConnection.new cfg).connect = .ok tcp) : Inv heard cfg (.new cfg)
      ([.receiveDatagram, .readOwner, .writeOwner, .sendDatagrams],
        { initializeTCP adapter cfg cAd with tcp := tcp }) := by
  have hnew : Inv heard cfg (.new cfg) ([.receiveDatagram, .readOwner, .writeOwner, .sendDatagrams],
    initializeTCP adapter cfg cAd) := inv_new _
  have hlaw : Endpoint.Lawful heard (initializeTCP adapter cfg cAd).endpoint .connect := trivial
  have hcall : (initializeTCP adapter cfg cAd).endpoint.call .connect = _ :=
    endpoint_call (by simp) (by simp) (by simp) h
  refine ⟨hnew.nodup, hnew.course.next hlaw hcall, fun _ _ => ?_, fun hinactive => ?_⟩
  · exact hnew.course.runs.call_endWrite hlaw (fun h => nomatch h) hcall
  · obtain ⟨s, -, rfl⟩ := TCPConnection.connect_spec h
    cases hinactive

theorem Opens.sound {adapter : α} {l : Loop α} (h : Opens adapter cfg l) :
    l.Sound heard cfg (.new cfg) := by
  cases h with
  | @connects cAd now l h =>
    obtain ⟨tcp, htcp, heq⟩ := connect_eq adapter cfg cAd now
    rw [heq] at h
    cases h
    exact ⟨by simp [Name.place], inv_connect adapter cAd htcp⟩
  | listens cAd now => exact ⟨by simp [listenAndAccept, Name.place], inv_new _⟩

/-- The adapter is given its configuration, and told to listen. -/
theorem Opens.calls {P : FdAdapter.Call ι → Prop} {adapter : α} {l : Loop α}
    (hconfig : ∀ cAd, P (.setConfig cAd)) (hlisten : ∀ b, P (.setListening b))
    (h : Opens adapter cfg l) : Exec.Reach FdAdapter.call (fun _ c => P c) (adapter, [])
      (l.socket.datagramAdapter, l.socket.wrote) := by
  cases h with
  | @connects cAd now l h =>
    obtain ⟨tcp, -, heq⟩ := connect_eq adapter cfg cAd now
    rw [heq] at h
    cases h
    exact .one (hconfig cAd) rfl
  | listens cAd now => exact (Exec.Reach.one (hconfig cAd) rfl).next (hlisten true) rfl

theorem reach_sound {adapter : α} {l₀ l : Loop α} (hopen : Opens adapter cfg l₀)
    (h : Exec.Reach Loop.round (fun l r => Hears heard l.socket r) l₀ l) :
    l.Sound heard cfg (.new cfg) :=
  h.invariant (I := Loop.Sound heard cfg (.new cfg)) hopen.sound fun _ _ _ hs hears hround =>
    sound_turn hs hears (round_turn hs.sorted hround)

theorem reach_calls {adapter : α} {l₀ l : Loop α} (hopen : Opens adapter cfg l₀)
    (h : Exec.Reach Loop.round (fun l r => Hears heard l.socket r) l₀ l) :
    Exec.Reach FdAdapter.call (fun _ _ => True) (adapter, [])
      (l.socket.datagramAdapter, l.socket.wrote) := by
  suffices hboth : l.Sound heard cfg (.new cfg) ∧ Exec.Reach FdAdapter.call (fun _ _ => True)
      (adapter, []) (l.socket.datagramAdapter, l.socket.wrote) from hboth.2
  apply h.invariant (I := fun l => l.Sound heard cfg (.new cfg) ∧
    Exec.Reach FdAdapter.call (fun _ _ => True) (adapter, [])
      (l.socket.datagramAdapter, l.socket.wrote))
    ⟨hopen.sound, hopen.calls (fun _ => trivial) fun _ => trivial⟩
  rintro l r m ⟨hs, hcalls⟩ hears hround
  have hturn := round_turn hs.sorted hround
  refine ⟨sound_turn hs hears hturn, hcalls.trans (calls_turn hs hears ?_ hturn)⟩
  exact ⟨fun _ => trivial, fun _ _ _ => trivial, fun _ _ _ _ _ _ => trivial⟩

end

/-- **The socket is a well-behaved owner.** Whatever the kernel answers, what the loops have done
to the connection between two rounds is a run of calls of a well-behaved owner: the bytes read
from the owner have been written, each accepted and none after the end of input; the bytes given
to the owner have been read; and the segments put out are those given to the adapter, in order,
and those still in the queue. A segment that arrives is one that the adapter returned. The adapter
has come to where it is by calls of its functions, and the segments given to it are those of the
calls of `write` that returned. -/
theorem drives_lawfully (heard : TCPReceiver → TCPSegment → Prop) (adapter : α) (cfg : TCPConfig)
    (l₀ l : Loop α) (hopen : Opens adapter cfg l₀)
    (h : Exec.Reach Loop.round (fun l r => Hears heard l.socket r) l₀ l) :
    Exec.Reach Endpoint.call (Endpoint.Lawful heard) (.new cfg)
        ⟨{ l.socket.tcp with segmentsOut := l.socket.wrote ++ l.socket.tcp.segmentsOut },
          l.socket.fromOwner, l.socket.toOwner⟩ ∧
      Exec.Reach FdAdapter.call (fun _ _ => True) (adapter, [])
        (l.socket.datagramAdapter, l.socket.wrote) ∧
      l.socket.fromOwner.length = l.socket.tcp.sender.stream.bytesWritten ∧
      l.socket.toOwner.length = l.socket.tcp.inboundStream.bytesRead := by
  have hsound := reach_sound hopen h
  refine ⟨hsound.inv.course.since, reach_calls hopen h, ?_, ?_⟩
  · exact hsound.inv.counted.written.symm
  · exact hsound.inv.course.runs.delivered

/-! ### A server over UDP -/

open TCPOverUDPSocketAdapter (Kernel)

/-- A kernel with a datagram of the peer or none, and some bytes of the owner, which takes whatever
is written. -/
def answering (peer : Address) (seg : Option TCPSegment) (bytes : List Byte) :
    SocketKernel Kernel where
  datagram :=
    { recv := (seg.bind fun seg => (seg.serialize 0).toOption).map
        fun payload => ⟨peer, payload.concatenate⟩
      send := some }
  read _ := some bytes
  write _ size := some size
  shutdown := true
  segment _ := { recv := none, send := some }

/-- A round in which the descriptors are ready or not. -/
def served (ready : List Bool) (peer : Address) (seg : Option TCPSegment) (bytes : List Byte) :
    Round Kernel where
  poll := .ready (ready.map fun b => ({ pollIn := b, pollOut := b }, answering peer seg bytes))
  now := 0
  tick := { recv := none, send := some }

/-- A peer connects, is sent two bytes, and closes first. -/
def serverRounds : List (Round Kernel) :=
  let peer : Address := ⟨2, 5000⟩
  let segment (header : TCPHeader) : Option TCPSegment := some { header := header }
  [served [true] peer (segment { syn := true, seqno := ⟨100⟩, win := 1000 }) [],
    served [false, false, false, true] peer none [],
    served [true] peer (segment { ack := true, seqno := ⟨101⟩, ackno := ⟨8⟩, win := 1000 }) [],
    served [] peer none [],
    served [false, true, false, true] peer none [104, 105],
    served [true, true, false, true] peer
      (segment { fin := true, ack := true, seqno := ⟨101⟩, ackno := ⟨10⟩, win := 1000 }) [],
    served [true, true, true] peer
      (segment { ack := true, seqno := ⟨102⟩, ackno := ⟨11⟩, win := 1000 }) []]

/-- The server before its first round. -/
def server : Loop TCPOverUDPSocketAdapter :=
  listenAndAccept {} { fixedIsn := ⟨7⟩ } { source := ⟨1, 4000⟩ } 0

theorem drives_lawfully_server :
    ∃ l, Exec.Reach Loop.round (fun l r => Hears (fun _ _ => True) l.socket r) server l ∧
      l.socket.fromOwner = [104, 105] ∧ l.socket.wrote.length = 4 ∧
      Exec.Reach FdAdapter.call (fun _ _ => True) ({}, [])
        (l.socket.datagramAdapter, l.socket.wrote) ∧
      l.socket.tcp.sender.stream.bytesWritten = 2 := by
  obtain ⟨l, reached, hv⟩ := Exec.reach_of_view Loop.round (fun _ _ => True) server serverRounds
    (fun l => (l.socket.fromOwner, l.socket.wrote.length)) ([104, 105], 4) (by decide +kernel)
  obtain ⟨hfrom, hwrote⟩ := Prod.mk.inj hv
  have heard : Exec.Reach Loop.round (fun l r => Hears (fun _ _ => True) l.socket r) server l :=
    reached.mono fun _ _ _ _ _ _ _ _ _ => trivial
  obtain ⟨-, hcalls, hwritten, -⟩ :=
    drives_lawfully (fun _ _ => True) {} _ server l (.listens _ _) heard
  exact ⟨l, heard, hfrom, hwrote, hcalls, by rw [← hwritten, hfrom]; rfl⟩

/-- **What is thrown for.** `connect` always finds the state that it expects. Whatever the kernel
answers, a round throws only because the kernel breaks its promises to the owner's side, the
adapter throws, an error is reported for a descriptor, or a segment arrives that the connection
cannot take. It never complains that less was written than there was room for, or that a callback
did nothing. -/
theorem throws_for_cause [CountsReads α ι] [Discreet α ι] (adapter : α) (cfg : TCPConfig) :
    (∀ (cAd : FdAdapterConfig) (now : Nat), ∃ l, connect adapter cfg cAd now = .ok l) ∧
    ∀ (l₀ l : Loop α) (r : Round ι) (fault : Fault), Opens adapter cfg l₀ →
      Exec.Reach Loop.round (fun _ _ => True) l₀ l → l.round r = .error fault →
    Cause l r fault ∧
    fault ≠ .throws "TCPConnection::write() accepted less than advertised length" ∧
    fault ≠ .throws
      "EventLoop: busy wait detected: callback did not read/write fd and is still interested" := by
  constructor
  · intro cAd now
    obtain ⟨tcp, -, h⟩ := connect_eq adapter cfg cAd now
    exact ⟨_, h⟩
  · intro l₀ l r fault hopen h hfault
    have hany : Exec.Reach Loop.round (fun l (r : Round ι) => Hears (fun _ _ => True) l.socket r)
        l₀ l := h.mono fun _ _ _ _ _ _ _ _ _ => trivial
    have hcause := round_error (reach_sound hopen hany) (fun _ _ _ _ _ _ => trivial) hfault
    exact ⟨hcause, hcause.other⟩

/-- Nothing can be read from the adapter. -/
theorem throws_for_cause_recvfrom :
    server.round (served [true] ⟨2, 5000⟩ none []) = .error (.throws "recvfrom") ∧
      Cause server (served [true] ⟨2, 5000⟩ none []) (.throws "recvfrom") := by
  have hround : server.round (served [true] ⟨2, 5000⟩ none []) = .error (.throws "recvfrom") :=
    Exec.error_of_fault (by decide +kernel)
  exact ⟨hround, ((throws_for_cause {} { fixedIsn := ⟨7⟩ }).2 server server _ _ (.listens _ _)
    .start hround).1⟩

end TCPSpongeSocket

end Sponge
