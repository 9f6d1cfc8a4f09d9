import Sponge.Bookkeeping
import Sponge.Lib.History
import Sponge.SenderStream

/-!
# Everything a sender has sent

Runs of the sender with any acknowledgements and any number of segments in flight, beside
the bytes its stream has accepted and a log of all that was ever pushed to
`segments_out()`.

* `Record`: the segments sent for the first time, each where the ones before it end, are
  slices of those bytes;
* `CounterLow`: the 64-bit counter stays below the numbers `unwrap` cannot return from;
* `emitted_slices`: the whole log.
-/

namespace Sponge.Transmission

open History Relation TCPSender WrappingInt32
open StreamReassembler (SliceAt)

/-- A push to `segments_out()`, by what pushed it. -/
inductive Entry
  /-- `_send_segment`. -/
  | first (seg : TCPSegment)
  /-- `tick`. -/
  | again (seg : TCPSegment)
  /-- `send_empty_segment`. -/
  | empty (seg : TCPSegment)
  deriving DecidableEq

def Entry.seg : Entry → TCPSegment
  | .first seg | .again seg | .empty seg => seg

structure State where
  tx : TCPSender
  written : List Byte
  log : List Entry

inductive Event
  | call (op : Op)
  /-- The owner takes the segments off `segments_out()`. -/
  | collect

def init (capacity : Nat) (retxTimeout : UInt16) (isn : WrappingInt32) : State :=
  ⟨.new capacity retxTimeout isn, [], []⟩

def entry : Op → TCPSegment → Entry
  | .tick _ => .again
  | .sendEmptySegment => .empty
  | .write _ | .endInput | .fillWindow | .ackReceived _ _ => .first

/-- The bytes the stream accepts in a call. -/
def accepted (s : TCPSender) : Op → List Byte
  | .write data => data.take (s.stream.write data).2
  | _ => []

def step (s : State) : Event → Except Fault State
  | .call op => do
    let tx ← s.tx.step op
    let pushed := tx.segmentsOut.drop s.tx.segmentsOut.length
    return ⟨tx, s.written ++ accepted s.tx op, s.log ++ pushed.map (entry op)⟩
  | .collect => .ok { s with tx := { s.tx with segmentsOut := [] } }

/-- Nothing is written after the end of input. -/
def Lawful (s : State) : Event → Prop
  | .call (.write _) => s.tx.stream.inputEnded = false
  | _ => True

instance (s : State) : (ev : Event) → Decidable (Lawful s ev)
  | .call (.write _) => inferInstanceAs (Decidable (_ = _))
  | .call .endInput | .call .fillWindow | .call (.ackReceived _ _) | .call (.tick _)
  | .call .sendEmptySegment | .collect => inferInstanceAs (Decidable True)

/-- The segments sent for the first time, in order. -/
def firsts : List Entry → List TCPSegment
  | [] => []
  | .first seg :: log => seg :: firsts log
  | .again _ :: log | .empty _ :: log => firsts log

@[simp] theorem firsts_append (xs ys : List Entry) :
    firsts (xs ++ ys) = firsts xs ++ firsts ys := by
  induction xs with
  | nil => rfl
  | cons e xs ih => cases e <;> simp [firsts, ih]

@[simp] theorem firsts_map_first (segs : List TCPSegment) : firsts (segs.map .first) = segs := by
  induction segs with
  | nil => rfl
  | cons seg segs ih => simp [firsts, ih]

/-- A segment of `W` at the absolute number `a`: the SYN, or bytes of `W`, with a FIN only
when the input has ended and at its end. -/
def Genuine (W : List Byte) (ended : Bool) (isn : WrappingInt32) (a : Nat) (seg : TCPSegment) :
    Prop :=
  seg.header.seqno = wrap a isn ∧
    (a = 0 ∧ seg.header.syn = true ∧ seg.payload = [] ∧ seg.header.fin = false ∨
      1 ≤ a ∧ seg.header.syn = false ∧ SliceAt W (a - 1) seg.payload ∧
        seg.payload.length ≤ maxPayloadSize ∧
        (seg.header.fin = true → ended = true ∧ a - 1 + seg.payload.length = W.length))

theorem Genuine.grow {W more : List Byte} {ended ended' : Bool} {isn : WrappingInt32} {a : Nat}
    {seg : TCPSegment} (h : Genuine W ended isn a seg)
    (hfin : seg.header.fin = true → ended' = true ∧ more = []) :
    Genuine (W ++ more) ended' isn a seg := by
  obtain ⟨hseq, hsyn | ⟨ha, hs, hslice, hlen, hf⟩⟩ := h
  · exact ⟨hseq, .inl hsyn⟩
  · refine ⟨hseq, .inr ⟨ha, hs, sliceAt_mono (List.prefix_append _ _) hslice, hlen, ?_⟩⟩
    intro h
    obtain ⟨he, rfl⟩ := hfin h
    exact ⟨he, by rw [List.append_nil]; exact (hf h).2⟩

/-! ## The segments sent for the first time -/

/-- What `sent`, the segments sent for the first time, are. -/
structure Record (W : List Byte) (sent : List TCPSegment) (s : TCPSender) : Prop
    extends Counted W s where
  finished : s.finSent = true → s.stream.endWrite = true ∧ s.stream.buffer = []
  chain : Chain s.isn sent 0 s.nextSeqno
  genuine : Throughout (fun before => Genuine W s.stream.endWrite s.isn (totalLength before)) sent
  fins : sent.countP (fun seg => seg.header.fin) = s.finSent.toNat
  kept : ∀ seg ∈ s.segmentsOutstanding, seg ∈ sent

theorem record_new (capacity : Nat) (retxTimeout : UInt16) (isn : WrappingInt32) :
    Record [] [] (new capacity retxTimeout isn) where
  toCounted := counted_new capacity retxTimeout isn
  finished := by simp [new]
  chain := rfl
  genuine := throughout_nil
  fins := rfl
  kept := by simp [new]

/-- The end of what has been sent is the next number. -/
theorem Record.total {W : List Byte} {sent : List TCPSegment} {s : TCPSender}
    (h : Record W sent s) : totalLength sent = s.nextSeqno := by
  have := h.chain.end_eq
  omega

/-- Before a FIN is sent no segment carries one. -/
theorem Record.no_fin {W : List Byte} {sent : List TCPSegment} {s : TCPSender}
    (h : Record W sent s) (hf : s.finSent = false) : ∀ seg ∈ sent, seg.header.fin = false := by
  have hcount := h.fins
  rw [hf, Bool.toNat_false, List.countP_eq_zero] at hcount
  intro seg hseg
  simpa using hcount seg hseg

theorem kept_snoc {outstanding sent : List TCPSegment} {seg : TCPSegment}
    (h : ∀ x ∈ outstanding, x ∈ sent) : ∀ x ∈ outstanding ++ [seg], x ∈ sent ++ [seg] := by
  intro x hx
  rcases List.mem_append.mp hx with hx | hx
  · exact List.mem_append_left _ (h x hx)
  · exact List.mem_append_right _ hx

theorem record_syn {W : List Byte} {sent : List TCPSegment} {s : TCPSender} (h : Record W sent s)
    (hs : s.synSent = false) : Record W (sent ++ [s.segment true false []]) s.syn := by
  have h0 := h.toCounted.before_syn hs
  have hlast : Genuine W s.stream.endWrite s.isn (totalLength sent) (s.segment true false []) :=
    ⟨by rw [h.total]; rfl, .inl ⟨h.total.trans h0, rfl, rfl, rfl⟩⟩
  refine ⟨counted_syn h.toCounted hs, h.finished, ?_, h.genuine.snoc hlast, ?_,
    kept_snoc h.kept⟩
  · exact h.chain.snoc rfl (by simp)
  · simpa [syn, push, TCPSender.segment, List.countP_append] using h.fins

/-- The next bytes of the stream, with a FIN at its end. -/
theorem genuine_bytes {W : List Byte} {s : TCPSender} {size : Nat} {fin : Bool} (h : Counted W s)
    (may : MaySend s size fin) :
    Genuine W s.stream.endWrite s.isn s.nextSeqno
      (s.segment false fin (s.stream.buffer.take size)) := by
  have hnext := h.before_bytes may
  have hW : s.stream.readBytes + s.stream.buffer.length = W.length := by
    rw [← h.written, s.stream.counts]
  refine ⟨rfl, .inr ⟨by omega, rfl, ?_, ?_, ?_⟩⟩
  · rw [hnext, Nat.add_sub_cancel_left, h.buffer]
    intro i c hi
    rw [TCPSender.segment, List.getElem?_take] at hi
    split at hi
    · rwa [List.getElem?_drop] at hi
    · cases hi
  · exact Nat.le_trans (List.length_take_le _ _) may.bounded
  · intro hf
    obtain ⟨hend, hall⟩ := may.last hf
    refine ⟨hend, ?_⟩
    simp only [TCPSender.segment, List.length_take]
    omega

theorem record_bytes {W : List Byte} {sent : List TCPSegment} {s : TCPSender} {size : Nat}
    {fin : Bool} (h : Record W sent s) (may : MaySend s size fin) :
    Record W (sent ++ [s.segment false fin (s.stream.buffer.take size)]) (s.bytes size fin) := by
  have hended : (s.bytes size fin).stream.endWrite = s.stream.endWrite :=
    s.stream.popOutput_endWrite size
  have hlast := genuine_bytes h.toCounted may
  rw [← h.total] at hlast
  have hgoing := h.fins
  rw [may.going, Bool.toNat_false] at hgoing
  refine ⟨counted_bytes h.toCounted may, ?_, ?_, ?_, ?_, kept_snoc h.kept⟩
  · intro hf
    obtain ⟨hend, hall⟩ := may.last hf
    exact ⟨hended.trans hend, by rw [bytes_buffer fin may.buffered, hall, List.drop_length]⟩
  · have hlen := may.nonempty
    rw [bytes_nextSeqno fin may.buffered]
    have hchain := h.chain.snoc (b := s.nextSeqno)
      (show (s.segment false fin (s.stream.buffer.take size)).header.seqno = _ from rfl)
      (by simpa [Nat.min_eq_left may.buffered] using hlen)
    rw [length_segment, List.length_take, Nat.min_eq_left may.buffered] at hchain
    exact hchain
  · rw [hended]
    exact h.genuine.snoc hlast
  · rw [List.countP_append, hgoing]
    cases fin <;> rfl

theorem Emits.record {W : List Byte} {sent : List TCPSegment} {s t : TCPSender} (he : Emits s t)
    (h : Record W sent s) :
    ∃ seg, t.segmentsOut = s.segmentsOut ++ [seg] ∧ Record W (sent ++ [seg]) t := by
  cases he with
  | syn hs => exact ⟨_, rfl, record_syn h hs⟩
  | bytes may => exact ⟨_, rfl, record_bytes h may⟩

/-- `fill_window` appends what it pushes to the record. -/
theorem record_fillWindow {W : List Byte} {sent : List TCPSegment} {s t : TCPSender}
    (h : Record W sent s) (ht : s.fillWindow = .ok t) :
    ∃ new, t.segmentsOut = s.segmentsOut ++ new ∧ Record W (sent ++ new) t := by
  refine fillWindow_invariant (P := fun t => ∃ new, t.segmentsOut = s.segmentsOut ++ new ∧
    Record W (sent ++ new) t) ?_ ⟨[], by simp, by simpa using h⟩ ht
  rintro u v ⟨new, hout, hu⟩ he
  obtain ⟨seg, hseg, hv⟩ := Emits.record he hu
  exact ⟨new ++ [seg], by rw [hseg, hout, List.append_assoc], by rwa [← List.append_assoc]⟩

/-- An acknowledgement only takes segments off the queue before that. -/
theorem record_ackReceived {W : List Byte} {sent : List TCPSegment} {s t : TCPSender}
    (h : Record W sent s) (hc : Tally s) {ackno : WrappingInt32} {windowSize : UInt16}
    (ht : s.ackReceived ackno windowSize = .ok t) :
    ∃ new, t.segmentsOut = s.segmentsOut ++ new ∧ Record W (sent ++ new) t := by
  obtain rfl | ⟨_, gone, rest, freeSpace, _, _, hsplit, _, hfill⟩ := ackReceived_any hc ht
  · exact ⟨[], by simp, by simpa using h⟩
  · have htrim : Record W sent (s.trimmed windowSize freeSpace gone rest) := by
      refine ⟨h.toCounted.frame rfl rfl, h.finished, h.chain, h.genuine, h.fins, ?_⟩
      intro seg hseg
      exact h.kept seg (by rw [hsplit]; exact List.mem_append_right _ hseg)
    obtain ⟨new, hout, hrec⟩ := record_fillWindow htrim hfill
    exact ⟨new, hout, hrec⟩

/-- Bytes written before the end of input come after all that was sent. -/
theorem record_write {W : List Byte} {sent : List TCPSegment} {s : TCPSender} (h : Record W sent s)
    (hopen : s.stream.endWrite = false) (data : List Byte) :
    Record (W ++ data.take (s.stream.write data).2) sent
      { s with stream := (s.stream.write data).1 } := by
  have hgoing : s.finSent = false := by
    apply Bool.eq_false_iff.mpr
    intro hf
    rw [(h.finished hf).1] at hopen
    cases hopen
  refine ⟨counted_write h.toCounted data, ?_, h.chain, ?_, h.fins, h.kept⟩
  · intro hf
    rw [hgoing] at hf
    cases hf
  · refine h.genuine.mono ?_
    intro before seg hseg hg
    exact hg.grow fun hf => absurd hf (by simp [h.no_fin hgoing seg hseg])

theorem record_endInput {W : List Byte} {sent : List TCPSegment} {s : TCPSender}
    (h : Record W sent s) : Record W sent { s with stream := s.stream.endInput } := by
  refine ⟨h.toCounted.frame rfl rfl, fun hf => ⟨rfl, (h.finished hf).2⟩, h.chain, ?_,
    h.fins, h.kept⟩
  refine h.genuine.mono ?_
  intro before seg _ hg
  rw [← List.append_nil W]
  exact hg.grow fun _ => ⟨rfl, rfl⟩

/-! ## The counter -/

/-- The numbers that can still be sent before the next acknowledgement. -/
def room (s : TCPSender) : Nat :=
  if s.synSent then
    if s.receiverWindowSize ≠ 0 then s.receiverFreeSpace.toNat
    else if s.receiverFreeSpace = 0 then 1 else 0
  else 2 ^ 16

theorem room_le (s : TCPSender) : room s ≤ 2 ^ 16 := by
  have := s.receiverFreeSpace.toNat_lt
  unfold room
  split
  · split
    · omega
    · split <;> omega
  · omega

theorem Emits.room {s t : TCPSender} (h : Emits s t) :
    t.nextSeqno + room t ≤ s.nextSeqno + Transmission.room s := by
  cases h with
  | syn hs =>
    have := (s.receiverFreeSpace - UInt16.ofNat 1).toNat_lt
    simp only [Transmission.room, hs, syn, push, length_segment, Bool.toNat_true, Bool.toNat_false,
      List.length_nil, ↓reduceIte, Bool.false_eq_true]
    split
    · simp only [Nat.zero_add, Nat.add_zero]
      omega
    · split <;> omega
  | @bytes size fin may =>
    have hsyn : (s.bytes size fin).synSent = true := may.started
    have hwin : (s.bytes size fin).receiverWindowSize = s.receiverWindowSize := rfl
    rw [bytes_nextSeqno fin may.buffered]
    unfold Transmission.room
    rw [hsyn, may.started, hwin]
    obtain ⟨hopen, hle⟩ | ⟨hclosed, hzero, hone⟩ := may.room
    · have := bytes_freeSpace may hle
      rw [if_pos rfl, if_pos rfl, if_pos hopen, if_pos hopen]
      omega
    · -- the probe takes the free space to 65535, where nothing more is sent
      have hfree : (s.bytes size fin).receiverFreeSpace ≠ 0 := by
        have hlen :
            (s.segment false fin (s.stream.buffer.take size)).lengthInSequenceSpace = 1 := by
          simpa [Nat.min_eq_left may.buffered] using hone
        simp only [bytes, push, hlen, hzero]
        decide
      simp [hclosed, hzero, hfree]
      omega

/-- The next number, with all that can follow it unacknowledged, is far below `2 ^ 64`. -/
def CounterLow (s : TCPSender) : Prop := s.nextSeqno + room s ≤ 2 ^ 64 - 2 ^ 31 + 2 ^ 16

theorem CounterLow.lt {s : TCPSender} (h : CounterLow s) : s.nextSeqno < 2 ^ 64 := by
  unfold CounterLow at h
  omega

theorem counterLow_fillWindow {s t : TCPSender} (h : CounterLow s) (ht : s.fillWindow = .ok t) :
    CounterLow t :=
  fillWindow_invariant (P := CounterLow) (fun _ _ hu he => Nat.le_trans (Emits.room he) hu) h ht

/-- An acknowledgement that is accepted comes from below `2 ^ 64 - 2 ^ 32`. -/
theorem counterLow_ackReceived {s t : TCPSender} (h : CounterLow s) (hc : Tally s)
    {ackno : WrappingInt32} {windowSize : UInt16} (ht : s.ackReceived ackno windowSize = .ok t) :
    CounterLow t := by
  obtain rfl | ⟨absAckno, gone, rest, freeSpace, habs, hle, _, _, hfill⟩ := ackReceived_any hc ht
  · exact h
  · refine counterLow_fillWindow ?_ hfill
    have hroom := room_le (s.trimmed windowSize freeSpace gone rest)
    have hv := unwrap_ok h.lt habs
    have hlow : s.nextSeqno < 2 ^ 64 - 2 ^ 31 := by omega
    have hsame : (s.trimmed windowSize freeSpace gone rest).nextSeqno = s.nextSeqno := rfl
    unfold CounterLow
    omega

/-! ## The log -/

/-- A segment sent again is one of those before, and an empty segment has the number after
them. -/
def Explained (isn : WrappingInt32) (before : List Entry) : Entry → Prop
  | .first _ => True
  | .again seg => seg ∈ firsts before
  | .empty seg => seg = { header := { seqno := wrap (totalLength (firsts before)) isn } }

structure Sound (isn : WrappingInt32) (s : State) : Prop where
  start : s.tx.isn = isn
  tally : Tally s.tx
  low : CounterLow s.tx
  record : Record s.written (firsts s.log) s.tx
  explained : Throughout (Explained isn) s.log
  /-- The queue is the end of the log. -/
  queue : ∃ taken, s.log.map Entry.seg = taken ++ s.tx.segmentsOut

theorem sound_init (capacity : Nat) (retxTimeout : UInt16) (isn : WrappingInt32) :
    Sound isn (init capacity retxTimeout isn) :=
  ⟨rfl, tally_new _ _ _, by simp [CounterLow, init, new, room], record_new _ _ _, throughout_nil,
    [], rfl⟩

theorem fillWindow_isn {s t : TCPSender} (ht : s.fillWindow = .ok t) : t.isn = s.isn := by
  refine fillWindow_invariant (P := fun t => t.isn = s.isn) ?_ rfl ht
  intro u v hu he
  cases he <;> exact hu

theorem ackReceived_isn {s t : TCPSender} (hc : Tally s) {ackno : WrappingInt32}
    {windowSize : UInt16} (ht : s.ackReceived ackno windowSize = .ok t) : t.isn = s.isn := by
  obtain rfl | ⟨_, _, _, _, _, _, _, _, hfill⟩ := ackReceived_any hc ht
  · rfl
  · exact (fillWindow_isn hfill).trans rfl

/-- What is pushed is appended to the queue and to the log. -/
theorem queue_append {log : List Entry} {queue new : List TCPSegment} {f : TCPSegment → Entry}
    (hf : ∀ seg, (f seg).seg = seg) (h : ∃ taken, log.map Entry.seg = taken ++ queue) :
    ∃ taken, (log ++ new.map f).map Entry.seg = taken ++ (queue ++ new) := by
  obtain ⟨taken, htaken⟩ := h
  have hmap : (new.map f).map Entry.seg = new := by
    rw [List.map_map]
    conv => rhs; rw [← List.map_id new]
    exact List.map_congr_left fun seg _ => hf seg
  exact ⟨taken, by rw [List.map_append, htaken, hmap, List.append_assoc]⟩

/-- A call that sends new segments only. -/
theorem sound_new {isn : WrappingInt32} {s : State} {tx : TCPSender} {new : List TCPSegment}
    (h : Sound isn s) (hout : tx.segmentsOut = s.tx.segmentsOut ++ new)
    (hrec : Record s.written (firsts s.log ++ new) tx) (htally : Tally tx) (hb : CounterLow tx)
    (hisn : tx.isn = s.tx.isn) : Sound isn ⟨tx, s.written ++ [], s.log ++
      (tx.segmentsOut.drop s.tx.segmentsOut.length).map .first⟩ := by
  rw [hout, List.drop_left, List.append_nil]
  refine ⟨hisn.trans h.start, htally, hb, by simpa using hrec, ?_, ?_⟩
  · apply h.explained.append
    intro e he before
    obtain ⟨seg, _, rfl⟩ := List.mem_map.mp he
    trivial
  · rw [hout]
    exact queue_append (fun _ => rfl) h.queue

/-- A call that changes only the queue, the log and the timer's fields. -/
theorem Record.frame {W : List Byte} {sent : List TCPSegment} {s : TCPSender} (h : Record W sent s)
    (out : List TCPSegment) (elapsed rto : UInt32) (count : UInt16) :
    Record W sent { s with
      segmentsOut := out
      timeElapsed := elapsed
      rto := rto
      consecutiveRetransmissions := count } :=
  ⟨h.toCounted.frame rfl rfl, h.finished, h.chain, h.genuine, h.fins, h.kept⟩

theorem sound_tick {isn : WrappingInt32} {s t : State} {ms : Nat} (h : Sound isn s)
    (ht : step s (.call (.tick ms)) = .ok t) : Sound isn t := by
  obtain ⟨tx, htx, ht⟩ := Exec.bind_eq_ok.mp ht
  cases ht
  have hc := h.tally
  obtain ⟨out, elapsed, count, rto, hout, rfl⟩ := tick_ok htx
  dsimp only
  rw [List.drop_left]
  have hfirsts : firsts (s.log ++ out.map (entry (.tick ms))) = firsts s.log := by
    rcases hout with rfl | ⟨seg, rest, _, rfl⟩ <;> simp [entry, firsts]
  refine ⟨h.start, hc.frame rfl rfl rfl, h.low, ?_, ?_,
    queue_append (fun _ => rfl) h.queue⟩
  · simp only [hfirsts, accepted, List.append_nil]
    exact h.record.frame _ elapsed rto count
  · rcases hout with rfl | ⟨seg, rest, ho, rfl⟩
    · simpa using h.explained
    · exact h.explained.snoc (h.record.kept seg (by rw [ho]; exact List.mem_cons_self))

theorem sound_sendEmptySegment {isn : WrappingInt32} {s t : State} (h : Sound isn s)
    (ht : step s (.call .sendEmptySegment) = .ok t) : Sound isn t := by
  cases ht
  have hc := h.tally
  have hpushed : s.tx.sendEmptySegment.segmentsOut.drop s.tx.segmentsOut.length =
      [{ header := { seqno := wrap s.tx.nextSeqno s.tx.isn } }] := List.drop_left
  simp only [hpushed, accepted, List.append_nil]
  refine ⟨h.start, hc.frame rfl rfl rfl, h.low, ?_, ?_,
    queue_append (fun _ => rfl) h.queue⟩
  · simp only [firsts_append, List.map_singleton, entry, firsts, List.append_nil]
    exact h.record.frame _ _ _ _
  · apply h.explained.snoc
    simp only [entry, Explained, h.record.total, h.start]

theorem sound_step {isn : WrappingInt32} {s t : State} {ev : Event} (h : Sound isn s)
    (hl : Lawful s ev) (ht : step s ev = .ok t) : Sound isn t := by
  have hc := h.tally
  cases ev with
  | collect =>
    cases ht
    exact ⟨h.start, hc.frame rfl rfl rfl, h.low, h.record.frame _ _ _ _, h.explained,
      s.log.map Entry.seg, by simp⟩
  | call op =>
    cases op with
    | tick ms => exact sound_tick h ht
    | sendEmptySegment => exact sound_sendEmptySegment h ht
    | write data =>
      cases ht
      simp only [List.drop_length, List.map_nil, List.append_nil]
      exact ⟨h.start, hc.frame rfl rfl rfl, h.low, record_write h.record hl data,
        h.explained, h.queue⟩
    | endInput =>
      cases ht
      simp only [List.drop_length, List.map_nil, List.append_nil, accepted]
      exact ⟨h.start, hc.frame rfl rfl rfl, h.low, record_endInput h.record, h.explained,
        h.queue⟩
    | fillWindow =>
      obtain ⟨tx, htx, ht⟩ := Exec.bind_eq_ok.mp ht
      obtain ⟨new, hout, hrec⟩ := record_fillWindow h.record htx
      cases ht
      exact sound_new h hout hrec (tally_fillWindow hc htx) (counterLow_fillWindow h.low htx)
        (fillWindow_isn htx)
    | ackReceived ackno windowSize =>
      obtain ⟨tx, htx, ht⟩ := Exec.bind_eq_ok.mp ht
      obtain ⟨new, hout, hrec⟩ := record_ackReceived h.record hc htx
      cases ht
      exact sound_new h hout hrec (tally_ackReceived hc htx) (counterLow_ackReceived h.low hc htx)
        (ackReceived_isn hc htx)

/-- **Everything sent.** In every run that writes nothing after the end of input:

* the segments sent for the first time follow each other without a gap from 0 up to the
  next number, which stays below `2 ^ 64`;
* each of them is the SYN, or at most 1000 of the bytes written, at their place, with a FIN
  only at the end of an input that has ended;
* at most one of them has a FIN;
* a segment sent again is one of those sent before, and an empty segment has no flag and
  the next number of its time;
* the log has all that is in the queue. -/
theorem emitted_slices (capacity : Nat) (retxTimeout : UInt16) (isn : WrappingInt32) (s : State)
    (h : Exec.Reach step Lawful (init capacity retxTimeout isn) s) :
    Chain isn (firsts s.log) 0 s.tx.nextSeqno ∧ s.tx.nextSeqno < 2 ^ 64 ∧
    Throughout (fun before => Genuine s.written s.tx.stream.inputEnded isn (totalLength before))
      (firsts s.log) ∧
    (firsts s.log).countP (fun seg => seg.header.fin) ≤ 1 ∧
    Throughout (Explained isn) s.log ∧
    ∃ taken, s.log.map Entry.seg = taken ++ s.tx.segmentsOut := by
  have hs := h.invariant (sound_init capacity retxTimeout isn)
    (fun _ _ _ hs hl ht => sound_step hs hl ht)
  have hr := hs.record
  refine ⟨hs.start ▸ hr.chain, hs.low.lt, hs.start ▸ hr.genuine, ?_, hs.explained, hs.queue⟩
  rw [hr.fins]
  exact Bool.toNat_le _

/-- Three bytes through a window of two, with a timeout, an acknowledgement in the middle
of a segment, and a FIN. -/
theorem emitted_slices_abc :
    ∃ s, Exec.Reach step Lawful (init 8 1000 ⟨7⟩) s ∧
      s.log = [.first { header := { syn := true, seqno := ⟨7⟩ } },
        .first { header := { seqno := ⟨8⟩ }, payload := [97, 98] },
        .again { header := { seqno := ⟨8⟩ }, payload := [97, 98] },
        .empty { header := { seqno := ⟨10⟩ } },
        .first { header := { fin := true, seqno := ⟨10⟩ }, payload := [99] }] ∧
      Throughout (fun before => Genuine [97, 98, 99] true ⟨7⟩ (totalLength before))
        (firsts s.log) ∧
      Throughout (Explained ⟨7⟩) s.log := by
  obtain ⟨s, reached, hv⟩ := Exec.reach_of_view step Lawful (init 8 1000 ⟨7⟩)
    [.call .fillWindow, .collect, .call (.write [97, 98, 99]), .call (.ackReceived ⟨8⟩ 2),
      .call .endInput, .call (.tick 1000), .call .sendEmptySegment, .collect,
      .call (.ackReceived ⟨9⟩ 4)]
    (fun s => (s.log, s.written, s.tx.stream.inputEnded))
    ([.first { header := { syn := true, seqno := ⟨7⟩ } },
      .first { header := { seqno := ⟨8⟩ }, payload := [97, 98] },
      .again { header := { seqno := ⟨8⟩ }, payload := [97, 98] },
      .empty { header := { seqno := ⟨10⟩ } },
      .first { header := { fin := true, seqno := ⟨10⟩ }, payload := [99] }],
      [97, 98, 99], true) (by decide +kernel)
  obtain ⟨hlog, hv⟩ := Prod.mk.inj hv
  obtain ⟨hW, hended⟩ := Prod.mk.inj hv
  obtain ⟨_, _, hgenuine, _, hkept, _⟩ := emitted_slices 8 1000 ⟨7⟩ s reached
  rw [hW, hended] at hgenuine
  exact ⟨s, reached, hlog, hgenuine, hkept⟩

end Sponge.Transmission
