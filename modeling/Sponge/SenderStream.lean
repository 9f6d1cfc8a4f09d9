import Sponge.SenderSpec
import Sponge.Receiver

/-!
# What the sender sends

Every segment on the sender's queues is a slice of the bytes written to it, numbered
from its initial sequence number: `SendsSlices W s`, with `W` the bytes written so far, whose
counters are `Counted W s`. The bytes sent, `sentBytes`, only grow, and not any more once a
FIN has been sent.
-/

namespace Sponge.TCPSender

open WrappingInt32 StreamReassembler TCPReceiver

/-! ## The counters -/

/-- The counters of a sender whose stream has taken `W`. -/
structure Counted (W : List Byte) (s : TCPSender) : Prop where
  written : s.stream.writtenBytes = W.length
  buffer : s.stream.buffer = W.drop s.stream.readBytes
  next : s.nextSeqno = s.synSent.toNat + s.stream.readBytes + s.finSent.toNat
  closed : s.synSent = false → s.stream.readBytes = 0 ∧ s.finSent = false

theorem counted_new (capacity : Nat) (retxTimeout : UInt16) (isn : WrappingInt32) :
    Counted [] (new capacity retxTimeout isn) where
  written := rfl
  buffer := by simp [new, ByteStream.new]
  next := rfl
  closed := fun _ => ⟨rfl, rfl⟩

/-- Only the stream's bytes, the next number and whether SYN and FIN were sent count. -/
theorem Counted.frame {W : List Byte} {s t : TCPSender} (h : Counted W s)
    (bytes : (t.stream.writtenBytes, t.stream.readBytes, t.stream.buffer) =
      (s.stream.writtenBytes, s.stream.readBytes, s.stream.buffer))
    (numbers : (t.nextSeqno, t.synSent, t.finSent) = (s.nextSeqno, s.synSent, s.finSent)) :
    Counted W t := by
  simp only [Prod.mk.injEq] at bytes numbers
  obtain ⟨hwritten, hread, hbuffer⟩ := bytes
  obtain ⟨hnext, hsyn, hfin⟩ := numbers
  constructor
  · rw [hwritten, h.written]
  · rw [hbuffer, hread, h.buffer]
  · rw [hnext, hsyn, hread, hfin, h.next]
  · rw [hsyn, hread, hfin]
    exact h.closed

theorem Counted.before_syn {W : List Byte} {s : TCPSender} (h : Counted W s)
    (hs : s.synSent = false) : s.nextSeqno = 0 := by
  obtain ⟨hread, hfin⟩ := h.closed hs
  rw [h.next, hs, hread, hfin]
  rfl

theorem counted_syn {W : List Byte} {s : TCPSender} (h : Counted W s) (hs : s.synSent = false) :
    Counted W s.syn := by
  obtain ⟨hread, hfin⟩ := h.closed hs
  refine ⟨h.written, h.buffer, ?_, by simp [syn, push]⟩
  simp [syn, push, h.before_syn hs, hread, hfin]

theorem Counted.before_bytes {W : List Byte} {s : TCPSender} {size : Nat} {fin : Bool}
    (h : Counted W s) (may : MaySend s size fin) : s.nextSeqno = 1 + s.stream.readBytes := by
  rw [h.next, may.started, may.going]
  rfl

theorem counted_bytes {W : List Byte} {s : TCPSender} {size : Nat} {fin : Bool} (h : Counted W s)
    (may : MaySend s size fin) : Counted W (s.bytes size fin) := by
  have hread := bytes_readBytes fin may.buffered
  constructor
  · simpa only [bytes, push, ByteStream.popOutput_writtenBytes] using h.written
  · rw [bytes_buffer fin may.buffered, h.buffer, List.drop_drop, hread]
  · rw [bytes_nextSeqno fin may.buffered, hread, h.before_bytes may]
    simp only [bytes, push, may.started, Bool.toNat_true]
    omega
  · intro hs
    have : s.synSent = false := hs
    rw [may.started] at this
    cases this

/-- Writing appends what the stream accepted. -/
theorem counted_write {W : List Byte} {s : TCPSender} (h : Counted W s) (data : List Byte) :
    Counted (W ++ data.take (s.stream.write data).2)
      { s with stream := (s.stream.write data).1 } := by
  have hread := s.stream.read_le_written
  have hwritten := h.written
  refine ⟨?_, ?_, h.next, h.closed⟩
  · simp only [ByteStream.write, List.length_append, List.length_take]
    omega
  · simp only [ByteStream.write, h.buffer]
    rw [List.drop_append_of_le_length (by omega)]

/-! ## The segments -/

/-- The bytes of `W` that have left the stream. -/
def sentBytes (W : List Byte) (s : TCPSender) : List Byte := W.take s.stream.readBytes

/-- The segment starts at the absolute number `a` of the stream `U`. -/
structure SentAt (U : List Byte) (isn : WrappingInt32) (seg : TCPSegment) (a : Nat) : Prop where
  seqno : seg.header.seqno = wrap a isn
  syn : seg.header.syn = true ↔ a = 0
  slice : SliceAt U (a - 1) seg.payload
  fin : seg.header.fin = true → a - 1 + seg.payload.length = U.length

/-- A segment of `U` below the number `next`; a FIN only when one has been sent. -/
def Slice (U : List Byte) (isn : WrappingInt32) (next : Nat) (finSent : Bool) (seg : TCPSegment) :
    Prop :=
  ∃ a, a ≤ next ∧ SentAt U isn seg a ∧ (seg.header.fin = true → finSent = true)

/-- The segments on both queues are slices of what has been sent. -/
structure SendsSlices (W : List Byte) (s : TCPSender) : Prop extends Counted W s where
  out : ∀ seg ∈ s.segmentsOut, Slice (sentBytes W s) s.isn s.nextSeqno s.finSent seg
  outstanding : ∀ seg ∈ s.segmentsOutstanding,
    Slice (sentBytes W s) s.isn s.nextSeqno s.finSent seg

theorem sendsSlices_new (capacity : Nat) (retxTimeout : UInt16) (isn : WrappingInt32) :
    SendsSlices [] (new capacity retxTimeout isn) where
  toCounted := counted_new capacity retxTimeout isn
  out := by simp [new]
  outstanding := by simp [new]

theorem Counted.length_sent {W : List Byte} {s : TCPSender} (h : Counted W s) :
    (sentBytes W s).length = s.stream.readBytes := by
  have := s.stream.read_le_written
  have := h.written
  rw [sentBytes, List.length_take]
  omega

theorem sentBytes_append {W : List Byte} {s : TCPSender} (h : Counted W s) (more : List Byte) :
    sentBytes (W ++ more) s = sentBytes W s := by
  have := s.stream.read_le_written
  rw [sentBytes, sentBytes, List.take_append_of_le_length]
  rw [← h.written]
  exact this

theorem sliceAt_mono {U V data : List Byte} {index : Nat} (h : U <+: V)
    (hs : SliceAt U index data) : SliceAt V index data := by
  obtain ⟨more, rfl⟩ := h
  intro i c hi
  have hU := hs i c hi
  rw [List.getElem?_append_left (List.getElem?_eq_some_iff.mp hU).1, hU]

/-- A slice stays one when the stream grows, as long as it has no FIN. -/
theorem Slice.mono {U V : List Byte} {isn : WrappingInt32} {n m : Nat} {f g : Bool}
    {seg : TCPSegment} (h : Slice U isn n f seg) (hUV : U <+: V) (hnm : n ≤ m)
    (hend : f = true → U = V ∧ g = true) : Slice V isn m g seg := by
  obtain ⟨a, ha, hs, hf⟩ := h
  refine ⟨a, Nat.le_trans ha hnm, ⟨hs.seqno, hs.syn, sliceAt_mono hUV hs.slice, ?_⟩, ?_⟩
  · intro hfin
    rw [← (hend (hf hfin)).1]
    exact hs.fin hfin
  · intro hfin
    exact (hend (hf hfin)).2

/-- A slice below `2 ^ 32` is a segment of the stream as the receiver numbers it. -/
theorem Slice.carries {U : List Byte} {isn : WrappingInt32} {next : Nat} {finSent : Bool}
    {seg : TCPSegment} (h : Slice U isn next finSent seg) (hn : next < 2 ^ 32) :
    Carries U isn seg := by
  obtain ⟨a, ha, hs, _⟩ := h
  have hp : TCPReceiver.place isn seg = a := by
    rw [TCPReceiver.place, hs.seqno, offset_wrap, Nat.mod_eq_of_lt (by omega)]
  exact ⟨by rw [hp]; exact hs.syn, by rw [hp]; exact hs.slice, by rw [hp]; exact hs.fin⟩

/-- A queue of slices of a stream without a FIN, and the next one. -/
theorem slices_snoc {U V : List Byte} {isn : WrappingInt32} {n m : Nat} {g : Bool}
    {segs : List TCPSegment} {seg : TCPSegment} (h : ∀ x ∈ segs, Slice U isn n false x)
    (hUV : U <+: V) (hnm : n ≤ m) (hseg : Slice V isn m g seg) :
    ∀ x ∈ segs ++ [seg], Slice V isn m g x :=
  forall_mem_snoc (fun x hx => (h x hx).mono hUV hnm (by simp)) hseg

theorem sendsSlices_syn {W : List Byte} {s : TCPSender} (h : SendsSlices W s)
    (hs : s.synSent = false) : SendsSlices W s.syn := by
  have h0 := h.toCounted.before_syn hs
  have hfin := (h.closed hs).2
  have hseg : Slice (sentBytes W s) s.isn s.syn.nextSeqno s.finSent (s.segment true false []) :=
    ⟨0, Nat.zero_le _, ⟨by rw [segment, h0], by simp [segment], by simp [SliceAt, segment],
      by simp [segment]⟩, by simp [segment]⟩
  have hle : s.nextSeqno ≤ s.syn.nextSeqno := Nat.le_add_right _ _
  have hout := h.out
  have hqueue := h.outstanding
  rw [hfin] at hout hqueue hseg
  refine ⟨counted_syn h.toCounted hs, ?_, ?_⟩
  · rw [show s.syn.finSent = false from hfin]
    exact slices_snoc hout (List.prefix_refl _) hle hseg
  · rw [show s.syn.finSent = false from hfin]
    exact slices_snoc hqueue (List.prefix_refl _) hle hseg

/-- The segment sent is the next piece of what has then been sent. -/
theorem slice_bytes {W : List Byte} {s : TCPSender} {size : Nat} {fin : Bool} (h : Counted W s)
    (may : MaySend s size fin) :
    Slice (sentBytes W (s.bytes size fin)) s.isn (s.bytes size fin).nextSeqno fin
      (s.segment false fin (s.stream.buffer.take size)) := by
  have hread := bytes_readBytes fin may.buffered
  have hnext := h.before_bytes may
  have hnext' := bytes_nextSeqno fin may.buffered
  have hsize := may.buffered
  have hW : s.stream.readBytes + size ≤ W.length := by
    have := h.written
    have := s.stream.counts
    omega
  refine ⟨s.nextSeqno, by omega, ⟨rfl, ?_, ?_, ?_⟩, by simp [segment]⟩
  · simp only [segment, Bool.false_eq_true, false_iff]
    omega
  · rw [hnext, Nat.add_sub_cancel_left, segment, sliceAt_iff, sentBytes, hread, h.buffer,
      List.length_take, List.length_drop, Nat.min_eq_left (by omega), List.drop_take,
      List.take_take]
    congr 1
    omega
  · intro _
    rw [sentBytes, List.length_take, hread, hnext, Nat.add_sub_cancel_left]
    simp only [segment, List.length_take]
    omega

theorem sendsSlices_bytes {W : List Byte} {s : TCPSender} {size : Nat} {fin : Bool}
    (h : SendsSlices W s) (may : MaySend s size fin) : SendsSlices W (s.bytes size fin) := by
  have hnext := bytes_nextSeqno fin may.buffered
  have hseg := slice_bytes h.toCounted may
  have hgrow : sentBytes W s <+: sentBytes W (s.bytes size fin) := by
    rw [sentBytes, sentBytes, bytes_readBytes fin may.buffered]
    exact List.take_prefix_take_left (Nat.le_add_right _ _)
  have hout := h.out
  have hqueue := h.outstanding
  rw [may.going] at hout hqueue
  exact ⟨counted_bytes h.toCounted may, slices_snoc hout hgrow (by omega) hseg,
    slices_snoc hqueue hgrow (by omega) hseg⟩

/-! ## Later states -/

/-- What has been sent stays sent, a FIN is the end, and so are the end of the input and
an error. -/
structure Later (s t : TCPSender) : Prop where
  isn : t.isn = s.isn
  read : s.stream.readBytes ≤ t.stream.readBytes
  next : s.nextSeqno ≤ t.nextSeqno
  fin : s.finSent = true → t.stream.readBytes = s.stream.readBytes ∧ t.finSent = true
  syn : s.synSent = true → t.synSent = true
  ended : s.stream.endWrite = true → t.stream.endWrite = true
  error : s.stream.error = true → t.stream.error = true

/-- A change of the queues, the timer or the stream's flags sends nothing. -/
theorem Later.of_eq {s t : TCPSender} (isn : t.isn = s.isn)
    (read : t.stream.readBytes = s.stream.readBytes) (next : t.nextSeqno = s.nextSeqno)
    (fin : t.finSent = s.finSent) (syn : t.synSent = s.synSent)
    (ended : s.stream.endWrite = true → t.stream.endWrite = true)
    (error : s.stream.error = true → t.stream.error = true) : Later s t :=
  ⟨isn, Nat.le_of_eq read.symm, Nat.le_of_eq next.symm, fun h => ⟨read, fin.trans h⟩,
    fun h => syn.trans h, ended, error⟩

theorem Later.refl (s : TCPSender) : Later s s := .of_eq rfl rfl rfl rfl rfl id id

theorem Later.trans {s t u : TCPSender} (h : Later s t) (h' : Later t u) : Later s u where
  isn := h'.isn.trans h.isn
  read := Nat.le_trans h.read h'.read
  next := Nat.le_trans h.next h'.next
  fin := by
    intro hf
    obtain ⟨hr, hf'⟩ := h.fin hf
    exact ⟨(h'.fin hf').1.trans hr, (h'.fin hf').2⟩
  syn := fun hs => h'.syn (h.syn hs)
  ended := fun hs => h'.ended (h.ended hs)
  error := fun hs => h'.error (h.error hs)

theorem Emits.later {s t : TCPSender} (h : Emits s t) : Later s t := by
  cases h with
  | syn _ =>
    exact ⟨rfl, Nat.le_refl _, Nat.le_add_right _ _, fun hf => ⟨rfl, hf⟩, fun _ => rfl, id, id⟩
  | @bytes size fin may =>
    refine ⟨rfl, s.stream.readBytes_le_popOutput size, Nat.le_add_right _ _, ?_, id, ?_,
      s.stream.popOutput_error size⟩
    · intro hf
      rw [may.going] at hf
      cases hf
    · intro he
      exact (s.stream.popOutput_endWrite size).trans he

theorem Later.sentBytes {W : List Byte} {s t : TCPSender} (h : Later s t) :
    sentBytes W s <+: sentBytes W t :=
  List.take_prefix_take_left h.read

theorem Slice.later {W : List Byte} {s t : TCPSender} {seg : TCPSegment} (h : Later s t)
    (hs : Slice (TCPSender.sentBytes W s) s.isn s.nextSeqno s.finSent seg) :
    Slice (TCPSender.sentBytes W t) t.isn t.nextSeqno t.finSent seg := by
  rw [h.isn]
  apply hs.mono h.sentBytes h.next
  intro hf
  obtain ⟨hr, hf'⟩ := h.fin hf
  exact ⟨by rw [TCPSender.sentBytes, TCPSender.sentBytes, hr], hf'⟩

/-- `fill_window` sends slices only. -/
theorem sendsSlices_fillWindow {W : List Byte} {s t : TCPSender} (h : SendsSlices W s)
    (ht : s.fillWindow = .ok t) : SendsSlices W t ∧ Later s t := by
  apply fillWindow_invariant (P := fun t => SendsSlices W t ∧ Later s t) _ ⟨h, .refl s⟩ ht
  rintro u v ⟨hu, hl⟩ he
  refine ⟨?_, hl.trans he.later⟩
  cases he with
  | syn hs => exact sendsSlices_syn hu hs
  | bytes may => exact sendsSlices_bytes hu may

theorem sendsSlices_write {W : List Byte} {s : TCPSender} (h : SendsSlices W s) (data : List Byte) :
    SendsSlices (W ++ data.take (s.stream.write data).2)
      { s with stream := (s.stream.write data).1 } := by
  have hsame := sentBytes_append h.toCounted (data.take (s.stream.write data).2)
  refine ⟨counted_write h.toCounted data, ?_, ?_⟩
  · intro seg hseg
    exact hsame.symm ▸ h.out seg hseg
  · intro seg hseg
    exact hsame.symm ▸ h.outstanding seg hseg

theorem sendsSlices_ackReceived {W : List Byte} {s t : TCPSender} (h : SendsSlices W s)
    (hb : Book s) (near : s.bytesInFlight < 2 ^ 31) {ackno : WrappingInt32} {windowSize : UInt16}
    (ht : s.ackReceived ackno windowSize = .ok t) : SendsSlices W t ∧ Later s t ∧ Book t := by
  obtain ⟨absAckno, _, ⟨_, rfl⟩ | ⟨_, _, gone, rest, m, hd, hbook, _, hfill⟩⟩ :=
    ackReceived_spec hb near ht
  · exact ⟨h, .refl _, hb⟩
  · have hacked : SendsSlices W (s.acked absAckno windowSize gone rest) := by
      refine ⟨h.toCounted.frame rfl rfl, h.out, ?_⟩
      intro seg hseg
      exact h.outstanding seg (by rw [hd.split]; exact List.mem_append_right _ hseg)
    have hlater : Later s (s.acked absAckno windowSize gone rest) :=
      .of_eq rfl rfl rfl rfl rfl id id
    obtain ⟨ht', hl⟩ := sendsSlices_fillWindow hacked hfill
    exact ⟨ht', hlater.trans hl, (book_fillWindow hbook hfill).1⟩

theorem sendsSlices_tick {W : List Byte} {s t : TCPSender} (h : SendsSlices W s) {ms : Nat}
    (ht : s.tick ms = .ok t) : SendsSlices W t ∧ Later s t := by
  obtain ⟨out, _, _, _, hout, rfl⟩ := tick_ok ht
  refine ⟨⟨h.toCounted.frame rfl rfl, ?_, h.outstanding⟩, .of_eq rfl rfl rfl rfl rfl id id⟩
  rcases hout with rfl | ⟨x, rest, hx, rfl⟩
  · rw [List.append_nil]
    exact h.out
  · exact forall_mem_snoc h.out (h.outstanding x (by rw [hx]; exact List.mem_cons_self))

/-- An empty segment after the SYN is a slice. -/
theorem sendsSlices_sendEmptySegment {W : List Byte} {s : TCPSender} (h : SendsSlices W s)
    (hs : s.synSent = true) : SendsSlices W s.sendEmptySegment := by
  refine ⟨h.toCounted.frame rfl rfl, forall_mem_snoc h.out ?_, h.outstanding⟩
  have hnext := h.next
  rw [hs, Bool.toNat_true] at hnext
  refine ⟨s.nextSeqno, Nat.le_refl _, ⟨rfl, ?_, by simp [SliceAt], by simp⟩, by simp⟩
  simp only [Bool.false_eq_true, false_iff]
  omega

end Sponge.TCPSender
