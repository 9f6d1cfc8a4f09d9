import Sponge.ConnectionRuns

/-!
# Runs of a byte stream

Any sequence of the operations of a `ByteStream`. The history beside it is the bytes its
writes accepted and the bytes its reads and pops removed.

* `bounded_fifo`: what was removed and what is buffered are what was accepted, in order;
* `ended_stays_iff`: `write` never looks at the end of input, so an ended stream stays ended
  just when each later write is empty or finds no room, and the same goes for `write` of a
  connection;
* `write_after_end`: runs in which bytes are accepted after the end.
-/

namespace Sponge.ByteStream

inductive Op
  | write (data : List Byte)
  | peekOutput (len : Nat)
  | popOutput (len : Nat)
  | read (len : Nat)
  | endInput

def exec (s : ByteStream) : Op → ByteStream
  | .write data => (s.write data).1
  | .peekOutput _ => s
  | .popOutput len => s.popOutput len
  | .read len => (s.read len).1
  | .endInput => s.endInput

/-- The bytes that an operation takes in. -/
def taking (s : ByteStream) : Op → List Byte
  | .write data => data.take (s.write data).2
  | _ => []

/-- The bytes that an operation takes off the front: those `read` returns, and those
`pop_output` drops. -/
def removing (s : ByteStream) : Op → List Byte
  | .read len => (s.read len).2
  | .popOutput len => s.buffer.take (s.buffer.length - (s.popOutput len).buffer.length)
  | _ => []

structure History where
  stream : ByteStream
  accepted : List Byte
  removed : List Byte

def History.next (h : History) (op : Op) : History where
  stream := h.stream.exec op
  accepted := h.accepted ++ h.stream.taking op
  removed := h.removed ++ h.stream.removing op

def history (capacity : Nat) (ops : List Op) : History :=
  ops.foldl History.next ⟨new capacity, [], []⟩

/-! ## A bounded queue -/

/-- The buffer is what was accepted without what was removed, and the counters are the
lengths of the two. -/
structure Queue (capacity : Nat) (h : History) : Prop where
  capacity : h.stream.capacity = capacity
  contents : h.removed ++ h.stream.buffer = h.accepted
  read : h.stream.readBytes = h.removed.length

theorem Queue.written {capacity : Nat} {h : History} (hq : Queue capacity h) :
    h.stream.writtenBytes = h.accepted.length := by
  rw [h.stream.counts, hq.read, ← hq.contents, List.length_append]

theorem removing_popOutput (s : ByteStream) (len : Nat) :
    s.removing (.popOutput len) = s.buffer.take ((s.popOutput len).readBytes - s.readBytes) := by
  obtain ⟨_, hp⟩ | ⟨hle, hb, hr⟩ := s.popOutput_cases len
  · simp [removing, hp, setError]
  · rw [removing, hb, hr, List.length_drop, Nat.add_sub_cancel_left]
    congr 1
    omega

/-- What a pop removes comes off the front, and is counted. -/
theorem queue_pop {capacity : Nat} {h : History} (hq : Queue capacity h) (len : Nat) :
    Queue capacity ⟨h.stream.popOutput len, h.accepted,
      h.removed ++ h.stream.buffer.take
        ((h.stream.popOutput len).readBytes - h.stream.readBytes)⟩ := by
  have hfront := h.stream.popOutput_buffer len
  have hle := h.stream.readBytes_le_popOutput len
  have hcount : (h.stream.popOutput len).readBytes - h.stream.readBytes ≤
      h.stream.buffer.length := by
    have := (h.stream.popOutput len).counts
    have := h.stream.counts
    rw [popOutput_writtenBytes] at *
    omega
  constructor
  · exact (popOutput_capacity _ _).trans hq.capacity
  · rw [hfront, List.append_assoc, List.take_append_drop, hq.contents]
  · rw [List.length_append, List.length_take, Nat.min_eq_left hcount, ← hq.read]
    dsimp only
    omega

theorem queue_next {capacity : Nat} {h : History} (hq : Queue capacity h) (op : Op) :
    Queue capacity (h.next op) := by
  cases op with
  | write data =>
    constructor
    · exact hq.capacity
    · simp only [History.next, exec, taking, removing, write, List.append_nil]
      rw [← List.append_assoc, hq.contents]
    · simp only [History.next, exec, removing, List.append_nil]
      exact hq.read
  | peekOutput _ | endInput =>
    constructor
    · exact hq.capacity
    · simp only [History.next, exec, taking, removing, endInput, List.append_nil]
      exact hq.contents
    · simp only [History.next, exec, removing, List.append_nil]
      exact hq.read
  | popOutput len =>
    simp only [History.next, exec, taking, List.append_nil, removing_popOutput]
    exact queue_pop hq len
  | read len =>
    simp only [History.next, exec, taking, List.append_nil, removing, read_fst, read_snd]
    exact queue_pop hq len

theorem queue_history (capacity : Nat) (ops : List Op) : Queue capacity (history capacity ops) := by
  suffices hfold : ∀ h, Queue capacity h → Queue capacity (ops.foldl History.next h) from
    hfold _ ⟨rfl, rfl, rfl⟩
  induction ops with
  | nil => exact fun h hq => hq
  | cons op ops ih => exact fun h hq => ih _ (queue_next hq op)

theorem peekOutput_eq (s : ByteStream) (len : Nat) : s.peekOutput len = s.buffer.take len := by
  rw [peekOutput, List.take_eq_take_iff, Nat.min_assoc, Nat.min_self]

theorem read_too_much {s : ByteStream} {len : Nat} (h : s.bufferSize < len) :
    s.popOutput len = s.setError ∧ s.read len = (s.setError, []) := by
  have h : s.buffer.length < len := h
  simp [popOutput, read, h]

/-- **A bounded queue.** After any operations

* the bytes removed and then those buffered are the bytes accepted;
* a write accepts as many bytes as there are and as fit, and appends them to the buffer;
* the buffer fits the capacity, and the counters differ by what is buffered;
* asking for more than is buffered removes nothing and only raises the error flag. -/
theorem bounded_fifo (capacity : Nat) (ops : List Op) :
    let h := history capacity ops
    h.removed ++ h.stream.buffer = h.accepted ∧
    (∀ data, (h.stream.write data).2 = min data.length h.stream.remainingCapacity ∧
      (h.stream.write data).1.buffer = h.stream.buffer ++ data.take (h.stream.write data).2) ∧
    (∀ len, h.stream.peekOutput len = h.stream.buffer.take len) ∧
    h.stream.bufferSize ≤ capacity ∧
    h.stream.bytesWritten = h.stream.bytesRead + h.stream.bufferSize ∧
    h.stream.bytesWritten = h.accepted.length ∧ h.stream.bytesRead = h.removed.length ∧
    (∀ len, h.stream.bufferSize < len →
      h.stream.popOutput len = { h.stream with error := true } ∧
      h.stream.read len = ({ h.stream with error := true }, [])) := by
  intro h
  have hq : Queue capacity h := queue_history capacity ops
  refine ⟨hq.contents, ?_, ?_, ?_, h.stream.counts, hq.written, hq.read, ?_⟩
  · intro data
    exact ⟨Nat.min_comm _ _, rfl⟩
  · intro len
    exact peekOutput_eq _ len
  · rw [← hq.capacity]
    exact h.stream.fits
  · intro len hlen
    exact read_too_much hlen

/-! ## After the end of input -/

def after (s : ByteStream) (ops : List Op) : ByteStream := ops.foldl exec s

/-- A write of nothing, or into a full buffer. -/
def AddsNothing (s : ByteStream) : Op → Prop
  | .write data => data = [] ∨ s.remainingCapacity = 0
  | _ => True

/-- No byte is added by any of the operations, and once the stream is at its end it stays
there. -/
structure StaysEnded (s : ByteStream) (ops : List Op) : Prop where
  written : ∀ n, (s.after (ops.take n)).bytesWritten = s.bytesWritten
  eof : ∀ m n, m ≤ n → (s.after (ops.take m)).eof = true → (s.after (ops.take n)).eof = true

theorem write_zero_iff (s : ByteStream) (data : List Byte) :
    (s.write data).2 = 0 ↔ data = [] ∨ s.remainingCapacity = 0 := by
  rw [← List.length_eq_zero_iff]
  simp only [write, remainingCapacity]
  omega

theorem addsNothing_iff (s : ByteStream) (op : Op) :
    s.AddsNothing op ↔ (s.exec op).bytesWritten = s.bytesWritten := by
  cases op with
  | write data =>
    rw [AddsNothing, ← write_zero_iff]
    exact Nat.add_eq_left.symm
  | peekOutput _ => exact iff_of_true trivial rfl
  | endInput => exact iff_of_true trivial rfl
  | popOutput len => exact iff_of_true trivial (popOutput_writtenBytes s len)
  | read len =>
    rw [exec, read_fst]
    exact iff_of_true trivial (popOutput_writtenBytes s len)

theorem popOutput_eof {s : ByteStream} (h : s.eof = true) (len : Nat) :
    (s.popOutput len).eof = true := by
  simp only [eof, Bool.and_eq_true, List.isEmpty_iff] at h ⊢
  rw [popOutput_buffer, popOutput_endWrite, h.1, List.drop_nil]
  exact ⟨rfl, h.2⟩

/-- An operation that adds nothing leaves a stream at its end there. -/
theorem exec_eof {s : ByteStream} {op : Op} (h : s.eof = true) (hop : s.AddsNothing op) :
    (s.exec op).eof = true := by
  cases op with
  | write data =>
    have hzero := (s.write_zero_iff data).mpr hop
    simp only [eof, exec, Bool.and_eq_true, List.isEmpty_iff] at h ⊢
    refine ⟨?_, h.2⟩
    change s.buffer ++ data.take (s.write data).2 = []
    rw [hzero, h.1, List.take_zero, List.append_nil]
  | peekOutput _ => exact h
  | popOutput len => exact popOutput_eof h len
  | read len =>
    rw [exec, read_fst]
    exact popOutput_eof h len
  | endInput =>
    simp only [eof, exec, endInput, Bool.and_eq_true] at h ⊢
    exact ⟨h.1, trivial⟩

/-- One more operation of the run, or none at its end. -/
theorem after_take_succ (s : ByteStream) (ops : List Op) (n : Nat) :
    (∃ op, ops[n]? = some op ∧ s.after (ops.take (n + 1)) = (s.after (ops.take n)).exec op) ∨
      ops[n]? = none ∧ s.after (ops.take (n + 1)) = s.after (ops.take n) := by
  cases hop : ops[n]? with
  | some op => exact .inl ⟨op, rfl, by simp [after, List.take_add_one, hop]⟩
  | none => exact .inr ⟨rfl, by simp [after, List.take_add_one, hop]⟩

theorem staysEnded_of_addsNothing {s : ByteStream} {ops : List Op}
    (h : ∀ n op, ops[n]? = some op → (s.after (ops.take n)).AddsNothing op) :
    StaysEnded s ops := by
  constructor
  · intro n
    induction n with
    | zero => rfl
    | succ n ih =>
      rcases s.after_take_succ ops n with ⟨op, hop, heq⟩ | ⟨-, heq⟩
      · rw [heq, (addsNothing_iff _ op).mp (h n op hop), ih]
      · rw [heq, ih]
  · intro m n hmn heof
    induction hmn with
    | refl => exact heof
    | @step n _ ih =>
      rcases s.after_take_succ ops n with ⟨op, hop, heq⟩ | ⟨-, heq⟩
      · rw [heq]
        exact exec_eof ih (h n op hop)
      · rw [heq]
        exact ih

theorem addsNothing_of_staysEnded {s : ByteStream} {ops : List Op} (h : StaysEnded s ops)
    {n : Nat} {op : Op} (hop : ops[n]? = some op) : (s.after (ops.take n)).AddsNothing op := by
  rcases s.after_take_succ ops n with ⟨op', hop', heq⟩ | ⟨hnone, -⟩
  · rw [hop] at hop'
    cases hop'
    rw [addsNothing_iff, ← heq, h.written (n + 1), h.written n]
  · rw [hop] at hnone
    cases hnone

/-- What the connection's `write` returns does not depend on `end_input_stream`. -/
theorem connection_write (c : TCPConnection) (data : List Byte) :
    ∃ d, c.write data = .ok (d, (c.sender.stream.write data).2) := by
  unfold TCPConnection.write
  split
  · rename_i hlen
    rw [List.length_eq_zero_iff.mp hlen]
    exact ⟨c, by simp [write]⟩
  · obtain ⟨t, ht, -⟩ := TCPSender.fillWindow_spec
      { c.sender with stream := (c.sender.stream.write data).1 }
    simp only [TCPConnection.fillAndSend, ht, Exec.ok_bind, Exec.pure_ok]
    exact ⟨_, rfl⟩

/-- **An ended stream.** After `end_input` no operation of a run adds a byte, and the end
stays the end, exactly when each write is empty or finds no room. A connection's `write`
returns 0 under the same condition only, whatever was called before. -/
theorem ended_stays_iff (s : ByteStream) (ops : List Op) :
    (StaysEnded s.endInput ops ↔
      ∀ n op, ops[n]? = some op → (s.endInput.after (ops.take n)).AddsNothing op) ∧
    ∀ (c : TCPConnection) (data : List Byte), ∃ d n, c.write data = .ok (d, n) ∧
      (n = 0 ↔ data = [] ∨ c.remainingOutboundCapacity = 0) := by
  constructor
  · constructor
    · intro h n op hop
      exact addsNothing_of_staysEnded h hop
    · exact staysEnded_of_addsNothing
  · intro c data
    obtain ⟨d, hd⟩ := connection_write c data
    exact ⟨d, _, hd, write_zero_iff _ data⟩

/-- A stream of one byte at its end takes the byte, and is no longer at its end. A connection
whose FIN has gone out takes a byte that is then never sent. -/
theorem write_after_end :
    ((new 1).endInput.eof = true ∧ ((new 1).endInput.after [.write [97]]).eof = false ∧
      ((new 1).endInput.after [.write [97]]).bytesWritten = 1) ∧
    ∃ c d, Exec.Reach TCPConnection.call (fun _ _ => True) (.new { fixedIsn := ⟨7⟩ }) c ∧
      c.sender.stream.inputEnded = true ∧ c.sender.finSent = true ∧
      c.write [97] = .ok (d, 1) ∧ d.sender.stream.buffer = [97] ∧
      d.segmentsOut = c.segmentsOut := by
  refine ⟨by decide, ?_⟩
  obtain ⟨c, reached, hv⟩ := Exec.reach_of_view TCPConnection.call (fun _ _ => True)
    (.new { fixedIsn := ⟨7⟩ })
    [.connect,
      .segmentReceived
        { header := { syn := true, ack := true, seqno := ⟨100⟩, ackno := ⟨8⟩, win := 5 } },
      .endInputStream]
    (fun c => (c.sender.stream.inputEnded, c.sender.finSent,
      (c.write [97]).toOption.map fun (r : TCPConnection × Nat) => (r.2,
        decide (r.1.sender.stream.buffer = [97] ∧ r.1.segmentsOut = c.segmentsOut))))
    (true, true, some (1, true)) (by decide +kernel)
  simp only [Prod.mk.injEq] at hv
  obtain ⟨hended, hfin, hv⟩ := hv
  obtain ⟨⟨d, n⟩, hd, hview⟩ := Exec.ok_of_view _ _ hv
  simp only [Prod.mk.injEq, decide_eq_true_eq] at hview
  obtain ⟨rfl, hbuffer, hsame⟩ := hview
  exact ⟨c, d, reached, hended, hfin, hd, hbuffer, hsame⟩

end Sponge.ByteStream
