import Sponge.Sender
import Mathlib.Logic.Relation

/-!
# What the sender does

One lemma for each function of the sender, from which every invariant is derived.

* `Emits`, `fillWindow_spec`: `fill_window` returns, having sent segments one by one, each
  of them with room for it in the window;
* `Chain`: segments that follow each other without a gap;
* `Book`: the queue, the counters and the timer agree;
* `Divides`, `ackReceived_spec`: an acknowledgement is ignored, or it removes the segments
  it covers before `fill_window` runs;
* `Tally`, `RawQueues`: what holds after any call, whatever was acknowledged.
-/

namespace Sponge.TCPSender

open Words WrappingInt32 Relation

/-! ## Sending -/

/-- The segment `send_segment` puts on the queues. -/
def segment (s : TCPSender) (syn fin : Bool) (bytes : List Byte) : TCPSegment :=
  { header := { syn := syn, fin := fin, seqno := wrap s.nextSeqno s.isn }, payload := bytes }

@[simp] theorem length_segment (s : TCPSender) (syn fin : Bool) (bytes : List Byte) :
    (s.segment syn fin bytes).lengthInSequenceSpace = bytes.length + syn.toNat + fin.toNat := by
  cases syn <;> cases fin <;> rfl

/-- Put a segment on both queues. -/
def push (s : TCPSender) (seg : TCPSegment) : TCPSender :=
  { s with
    nextSeqno := s.nextSeqno + seg.lengthInSequenceSpace
    bytesInFlight := s.bytesInFlight + seg.lengthInSequenceSpace
    receiverFreeSpace := s.receiverFreeSpace - UInt16.ofNat seg.lengthInSequenceSpace
    segmentsOut := s.segmentsOut ++ [seg]
    segmentsOutstanding := s.segmentsOutstanding ++ [seg]
    timerRunning := true
    timeElapsed := if s.timerRunning then s.timeElapsed else 0 }

/-- The sender after the SYN. -/
def syn (s : TCPSender) : TCPSender := push { s with synSent := true } (s.segment true false [])

/-- The sender after the next `size` bytes of the stream. -/
def bytes (s : TCPSender) (size : Nat) (fin : Bool) : TCPSender :=
  push { s with stream := s.stream.popOutput size, finSent := fin }
    (s.segment false fin (s.stream.buffer.take size))

/-- When `size` bytes may be sent, with a FIN or without. -/
structure MaySend (s : TCPSender) (size : Nat) (fin : Bool) : Prop where
  started : s.synSent = true
  acked : s.synOutstanding = false
  going : s.finSent = false
  buffered : size ≤ s.stream.buffer.length
  bounded : size ≤ maxPayloadSize
  nonempty : 0 < size + fin.toNat
  last : fin = true → s.stream.endWrite = true ∧ size = s.stream.buffer.length
  room : s.receiverWindowSize ≠ 0 ∧ size + fin.toNat ≤ s.receiverFreeSpace.toNat ∨
    s.receiverWindowSize = 0 ∧ s.receiverFreeSpace = 0 ∧ size + fin.toNat = 1

/-- One segment sent. -/
inductive Emits : TCPSender → TCPSender → Prop
  | syn {s : TCPSender} : s.synSent = false → Emits s s.syn
  | bytes {s : TCPSender} {size : Nat} {fin : Bool} : MaySend s size fin →
      Emits s (s.bytes size fin)

theorem sendBytes_eq {s : TCPSender} {size : Nat} {fin : Bool} (h : MaySend s size fin) :
    s.sendBytes size fin = s.bytes size fin := by
  have hread : s.stream.read size = (s.stream.popOutput size, s.stream.buffer.take size) := by
    rw [ByteStream.read, if_neg (Nat.not_lt.mpr h.buffered)]
  simp only [sendBytes, hread, sendSegment, h.started, h.going, bytes, push, segment, ↓reduceIte,
    Bool.false_or]

theorem bytes_buffer {s : TCPSender} {size : Nat} (fin : Bool) (h : size ≤ s.stream.buffer.length) :
    (s.bytes size fin).stream.buffer = s.stream.buffer.drop size := by
  obtain ⟨hlt, _⟩ | ⟨_, hb, _⟩ := s.stream.popOutput_cases size
  · omega
  · exact hb

theorem bytes_readBytes {s : TCPSender} {size : Nat} (fin : Bool)
    (h : size ≤ s.stream.buffer.length) :
    (s.bytes size fin).stream.readBytes = s.stream.readBytes + size := by
  obtain ⟨hlt, _⟩ | ⟨_, _, hr⟩ := s.stream.popOutput_cases size
  · omega
  · exact hr

theorem bytes_freeSpace {s : TCPSender} {size : Nat} {fin : Bool} (h : MaySend s size fin)
    (hroom : size + fin.toNat ≤ s.receiverFreeSpace.toNat) :
    (s.bytes size fin).receiverFreeSpace.toNat + (size + fin.toNat) =
      s.receiverFreeSpace.toNat := by
  have hlt := s.receiverFreeSpace.toNat_lt
  simp only [bytes, push, length_segment, List.length_take, Nat.min_eq_left h.buffered,
    Bool.toNat_false, Nat.add_zero, toNat_sub16]
  omega

theorem bytes_synOutstanding {s : TCPSender} (size : Nat) (fin : Bool)
    (h : s.synOutstanding = false) : (s.bytes size fin).synOutstanding = false := by
  simp only [synOutstanding, bytes, push] at h ⊢
  cases ho : s.segmentsOutstanding with
  | nil => rfl
  | cons seg rest => simpa [ho] using h

theorem bytes_nextSeqno {s : TCPSender} {size : Nat} (fin : Bool)
    (h : size ≤ s.stream.buffer.length) :
    (s.bytes size fin).nextSeqno = s.nextSeqno + (size + fin.toNat) := by
  simp only [bytes, push, length_segment, List.length_take, Nat.min_eq_left h, Bool.toNat_false,
    Nat.add_zero]

theorem Emits.forward {s t : TCPSender} (h : Emits s t) : s.nextSeqno < t.nextSeqno := by
  cases h with
  | syn _ => simp [TCPSender.syn, push]
  | bytes may =>
    rw [bytes_nextSeqno _ may.buffered]
    exact Nat.lt_add_of_pos_right may.nonempty

theorem sent_forward {s t : TCPSender} (h : ReflTransGen Emits s t) :
    s.nextSeqno ≤ t.nextSeqno := by
  induction h with
  | refl => exact Nat.le_refl _
  | tail _ he ih => exact Nat.le_trans ih (Nat.le_of_lt he.forward)

/-- There is nothing to send, or no room for it. A window that was closed has room for one
segment, which takes the counter of the free space below zero. -/
def Idle (s : TCPSender) : Prop :=
  s.synSent = true ∧ (s.synOutstanding = true ∨
    (s.stream.buffer = [] ∧ s.stream.endWrite = false) ∨ s.finSent = true ∨
    (s.receiverWindowSize = 0 ↔ s.receiverFreeSpace ≠ 0))

/-- What holds each time `while (_receiver_free_space)` is tested in a call from `s`. -/
structure Filling (s u : TCPSender) : Prop where
  sent : ReflTransGen Emits s u
  started : u.synSent = true
  acked : u.synOutstanding = false
  going : u.finSent = false
  window : u.receiverWindowSize ≠ 0
  more : u.stream.buffer ≠ [] ∨ u.stream.eof = true
  within : u.nextSeqno + u.receiverFreeSpace.toNat = s.nextSeqno + s.receiverFreeSpace.toNat

/-- What a round would send, it may send: a FIN goes along when the rest of a stream that
has ended leaves room for it. -/
theorem maySend_round {s u : TCPSender} (h : Filling s u) (hpos : 0 < u.receiverFreeSpace.toNat)
    {size : Nat} {fin : Bool}
    (hsize : size = min (min u.stream.bufferSize u.receiverFreeSpace.toNat) maxPayloadSize)
    (hfin : fin = ((u.stream.read size).1.eof && u.receiverFreeSpace.toNat > size)) :
    MaySend u size fin ∧ size + fin.toNat ≤ u.receiverFreeSpace.toNat ∧
      (fin = true ↔ (u.stream.buffer.length ≤ size ∧ u.stream.endWrite = true) ∧
        size < u.receiverFreeSpace.toNat) := by
  simp only [ByteStream.bufferSize, maxPayloadSize] at hsize
  have hbuf : (u.stream.popOutput size).buffer = u.stream.buffer.drop size :=
    bytes_buffer fin (by omega)
  have hiff : fin = true ↔ (u.stream.buffer.length ≤ size ∧ u.stream.endWrite = true) ∧
      size < u.receiverFreeSpace.toNat := by
    rw [hfin, ByteStream.read_fst]
    simp [ByteStream.eof, hbuf]
  have hroom : size + fin.toNat ≤ u.receiverFreeSpace.toNat := by
    cases fin with
    | true =>
      have := (hiff.mp rfl).2
      simp only [Bool.toNat_true]
      omega
    | false =>
      simp only [Bool.toNat_false]
      omega
  refine ⟨⟨h.started, h.acked, h.going, by omega, by simp only [maxPayloadSize]; omega, ?_, ?_,
    .inl ⟨h.window, hroom⟩⟩, hroom, hiff⟩
  · rcases h.more with hb | he
    · have := List.length_pos_iff.mpr hb
      omega
    · simp only [ByteStream.eof, Bool.and_eq_true, List.isEmpty_iff] at he
      have hlen : u.stream.buffer.length = 0 := by rw [he.1]; rfl
      rw [hiff.mpr ⟨⟨by omega, he.2⟩, by omega⟩, Bool.toNat_true]
      omega
  · intro hf
    obtain ⟨⟨h1, h2⟩, _⟩ := hiff.mp hf
    exact ⟨h2, by omega⟩

/-- A round with room sends a segment, and is the last one when that empties the stream. -/
theorem fillRound_sends {s u : TCPSender} (h : Filling s u) (hz : u.receiverFreeSpace ≠ 0) :
    ∃ size fin, MaySend u size fin ∧ size + fin.toNat ≤ u.receiverFreeSpace.toNat ∧
      (fin = true ↔ (u.stream.buffer.length ≤ size ∧ u.stream.endWrite = true) ∧
        size < u.receiverFreeSpace.toNat) ∧
      fillRound u = .ok (if (u.bytes size fin).stream.bufferEmpty then .done (u.bytes size fin)
        else .yield (u.bytes size fin)) := by
  have hpos : 0 < u.receiverFreeSpace.toNat := by
    have : u.receiverFreeSpace.toNat ≠ 0 := fun h0 => hz (UInt16.toNat_inj.mp h0)
    omega
  obtain ⟨size, hsize⟩ : ∃ size,
      size = min (min u.stream.bufferSize u.receiverFreeSpace.toNat) maxPayloadSize := ⟨_, rfl⟩
  obtain ⟨fin, hfin⟩ : ∃ fin, fin = ((u.stream.read size).1.eof &&
      u.receiverFreeSpace.toNat > size) := ⟨_, rfl⟩
  obtain ⟨may, hroom, hiff⟩ := maySend_round h hpos hsize hfin
  refine ⟨size, fin, may, hroom, hiff, ?_⟩
  simp only [fillRound, hz, ↓reduceIte, ← hsize, ← hfin, sendBytes_eq may]

/-- What the loop of a call from `s` leaves: it has used some of the room there was. -/
structure Filled (s t : TCPSender) : Prop where
  sent : ReflTransGen Emits s t
  within : t.nextSeqno ≤ s.nextSeqno + s.receiverFreeSpace.toNat
  some : 0 < s.receiverFreeSpace.toNat → s.nextSeqno < t.nextSeqno

/-- A round stops, or sends a segment and goes on with less room and more bytes. -/
theorem fillRound_spec {s u : TCPSender} (h : Filling s u) :
    (∃ t, fillRound u = .ok (.done t) ∧ Filled s t) ∨
    ∃ t, fillRound u = .ok (.yield t) ∧ Filling s t ∧
      t.receiverFreeSpace.toNat < u.receiverFreeSpace.toNat := by
  have hwithin := h.within
  have hforward := sent_forward h.sent
  by_cases hz : u.receiverFreeSpace = 0
  · have hz' : u.receiverFreeSpace.toNat = 0 := by rw [hz]; rfl
    refine .inl ⟨u, ?_, h.sent, by omega, by omega⟩
    simp only [fillRound, hz, ↓reduceIte]
  · obtain ⟨size, fin, may, hroom, -, hround⟩ := fillRound_sends h hz
    have hnext := bytes_nextSeqno fin may.buffered
    have hfree := bytes_freeSpace may hroom
    have hsent : ReflTransGen Emits s (u.bytes size fin) := h.sent.tail (.bytes may)
    by_cases he : (u.bytes size fin).stream.bufferEmpty = true
    · have := may.nonempty
      exact .inl ⟨_, by rw [hround, if_pos he], hsent, by omega, by omega⟩
    · refine .inr ⟨_, by rw [hround, if_neg he], ?_, ?_⟩
      · have hbuf : (u.bytes size fin).stream.buffer ≠ [] := by
          simpa [ByteStream.bufferEmpty] using he
        have hgoing : fin = false := by
          apply Bool.eq_false_iff.mpr
          intro hf
          rw [bytes_buffer fin may.buffered, (may.last hf).2, List.drop_length] at hbuf
          exact hbuf rfl
        exact ⟨hsent, may.started, bytes_synOutstanding size fin may.acked, hgoing, h.window,
          .inl hbuf, by omega⟩
      · have := may.nonempty
        omega

/-- What `fill_window` leaves: segments have been sent one by one, and none exactly when it
is idle. -/
structure WindowFilled (s t : TCPSender) : Prop where
  sent : ReflTransGen Emits s t
  within : t.nextSeqno ≤ s.nextSeqno + 2 ^ 16
  outcome : Idle s ∧ t = s ∨ ¬ Idle s ∧ s.nextSeqno < t.nextSeqno

theorem windowFilled_idle {s : TCPSender} (h : Idle s) : WindowFilled s s :=
  ⟨.refl, by omega, .inl ⟨h, rfl⟩⟩

/-- There is something to send, and only the window decides whether it goes out. -/
structure Ready (s : TCPSender) : Prop where
  started : s.synSent = true
  acked : s.synOutstanding = false
  going : s.finSent = false
  more : s.stream.buffer ≠ [] ∨ s.stream.eof = true

theorem Ready.idle_iff {s : TCPSender} (h : Ready s) :
    Idle s ↔ (s.receiverWindowSize = 0 ↔ s.receiverFreeSpace ≠ 0) := by
  have hopen : ¬ (s.stream.buffer = [] ∧ s.stream.endWrite = false) := by
    rintro ⟨hb, he⟩
    rcases h.more with hmore | hmore
    · exact hmore hb
    · simp [ByteStream.eof, he] at hmore
  simp [Idle, h.started, h.acked, h.going, hopen]

/-- The loop over an open window. -/
theorem fillLoop_spec {s : TCPSender} (h : Ready s) (hwin : s.receiverWindowSize ≠ 0) :
    ∃ t, Exec.loop .spins fillRound (s.receiverFreeSpace.toNat + 1) s = .ok t ∧
      WindowFilled s t := by
  by_cases hz : s.receiverFreeSpace = 0
  · refine ⟨s, ?_, windowFilled_idle (h.idle_iff.mpr (by simp [hwin, hz]))⟩
    simp [Exec.loop, fillRound, hz]
  · have hfree := s.receiverFreeSpace.toNat_lt
    have hpos : 0 < s.receiverFreeSpace.toNat := by
      have : s.receiverFreeSpace.toNat ≠ 0 := fun h0 => hz (UInt16.toNat_inj.mp h0)
      omega
    obtain ⟨t, ht, filled⟩ := Exec.loop_total .spins (Filling s) (Filled s)
      (fun t => t.receiverFreeSpace.toNat) (fun u hu => fillRound_spec hu)
      (s.receiverFreeSpace.toNat + 1) s
      ⟨.refl, h.started, h.acked, h.going, hwin, h.more, rfl⟩ (Nat.lt_succ_self _)
    have hwithin := filled.within
    refine ⟨t, ht, filled.sent, by omega, .inr ⟨?_, filled.some hpos⟩⟩
    rw [h.idle_iff]
    simp [hwin, hz]

/-- The probe of a closed window is one number, the FIN or a byte. -/
theorem maySend_probe {s : TCPSender} (h : Ready s) (hwin : s.receiverWindowSize = 0)
    (hzero : s.receiverFreeSpace = 0) {size : Nat} {fin : Bool} (hone : size + fin.toNat = 1)
    (hsize : size ≤ s.stream.buffer.length)
    (hlast : fin = true → s.stream.endWrite = true ∧ size = s.stream.buffer.length) :
    MaySend s size fin := by
  have hmax : size ≤ maxPayloadSize := by
    simp only [maxPayloadSize]
    omega
  exact ⟨h.started, h.acked, h.going, hsize, hmax, by omega, hlast, .inr ⟨hwin, hzero, hone⟩⟩

theorem probe_spec {s : TCPSender} (h : Ready s) {size : Nat} {fin : Bool}
    (hwin : s.receiverWindowSize = 0) (hzero : s.receiverFreeSpace = 0)
    (hone : size + fin.toNat = 1) (may : MaySend s size fin) :
    WindowFilled s (s.sendBytes size fin) := by
  have hbusy : ¬ Idle s := by
    rw [h.idle_iff]
    simp [hwin, hzero]
  rw [sendBytes_eq may]
  have hnext := bytes_nextSeqno fin may.buffered
  exact ⟨.single (.bytes may), by omega, .inr ⟨hbusy, by omega⟩⟩

/-- All that `fill_window` can do. -/
inductive FillPath (s : TCPSender) : Except Fault TCPSender → Prop
  | syn : s.synSent = false → FillPath s (.ok s.syn)
  | idle : Idle s → FillPath s (.ok s)
  | loop : Ready s → s.receiverWindowSize ≠ 0 →
      FillPath s (Exec.loop .spins fillRound (s.receiverFreeSpace.toNat + 1) s)
  | probe {size : Nat} {fin : Bool} : Ready s → s.receiverWindowSize = 0 →
      s.receiverFreeSpace = 0 → size + fin.toNat = 1 → size ≤ s.stream.buffer.length →
      (fin = true → s.stream.endWrite = true ∧ size = s.stream.buffer.length) →
      FillPath s (.ok (s.sendBytes size fin))

theorem fillWindow_path (s : TCPSender) : FillPath s s.fillWindow := by
  unfold fillWindow
  split
  · rename_i hsyn
    have hsyn : s.synSent = false := by simpa using hsyn
    have heq : sendSegment { s with synSent := true } { header := { syn := true } } = s.syn := by
      simp [sendSegment, syn, push, segment]
    rw [heq]
    exact .syn hsyn
  · rename_i hsyn
    have hsyn : s.synSent = true := by simpa using hsyn
    split
    · rename_i hacked
      exact .idle ⟨hsyn, .inl hacked⟩
    · rename_i hacked
      split
      · rename_i hnone
        obtain ⟨hb, he⟩ : s.stream.buffer = [] ∧ s.stream.eof = false := by
          simpa [ByteStream.bufferSize] using hnone
        exact .idle ⟨hsyn, .inr (.inl ⟨hb, by simpa [ByteStream.eof, hb] using he⟩)⟩
      · rename_i hmore
        split
        · rename_i hfin
          exact .idle ⟨hsyn, .inr (.inr (.inl hfin))⟩
        · rename_i hfin
          have more : s.stream.buffer ≠ [] ∨ s.stream.eof = true := by
            by_cases hb : s.stream.buffer = []
            · right
              simpa [ByteStream.bufferSize, hb] using hmore
            · exact .inl hb
          have ready : Ready s := ⟨hsyn, by simpa using hacked, by simpa using hfin, more⟩
          split
          · rename_i hwin
            exact .loop ready hwin
          · rename_i hwin
            rw [Decidable.not_not] at hwin
            split
            · rename_i hzero
              split
              · rename_i heof
                simp only [ByteStream.eof, Bool.and_eq_true, List.isEmpty_iff] at heof
                exact .probe ready hwin hzero rfl (Nat.zero_le _)
                  fun _ => ⟨heof.2, by rw [heof.1]; rfl⟩
              · rename_i heof
                have hb : s.stream.buffer ≠ [] := more.resolve_right heof
                rw [if_pos (by simpa [ByteStream.bufferEmpty] using hb)]
                exact .probe ready hwin hzero rfl (List.length_pos_iff.mpr hb) (by simp)
            · rename_i hzero
              exact .idle (ready.idle_iff.mpr (by simp [hwin, hzero]))

/-- **Filling the window.** `fill_window` returns. -/
theorem fillWindow_spec (s : TCPSender) : ∃ t, s.fillWindow = .ok t ∧ WindowFilled s t := by
  have hpath := fillWindow_path s
  generalize s.fillWindow = result at hpath ⊢
  cases hpath with
  | syn hsyn =>
    refine ⟨s.syn, rfl, .single (.syn hsyn), ?_, .inr ⟨?_, (Emits.syn hsyn).forward⟩⟩
    · simp [syn, push]
    · simp [Idle, hsyn]
  | idle hidle => exact ⟨s, rfl, windowFilled_idle hidle⟩
  | loop ready hwin => exact fillLoop_spec ready hwin
  | probe ready hwin hzero hone hsize hlast =>
    have may := maySend_probe ready hwin hzero hone hsize hlast
    exact ⟨_, rfl, probe_spec ready hwin hzero hone may⟩

/-- A call that sends nothing is a call from an idle state. -/
theorem fillWindow_eq_iff {u s : TCPSender} (hnext : u.nextSeqno = s.nextSeqno) :
    u.fillWindow = .ok s ↔ u = s ∧ Idle s := by
  obtain ⟨t, ht, _, _, ⟨hi, rfl⟩ | ⟨hi, hlt⟩⟩ := fillWindow_spec u
  · rw [ht, Except.ok.injEq]
    constructor
    · rintro rfl
      exact ⟨rfl, hi⟩
    · exact And.left
  · rw [ht, Except.ok.injEq]
    constructor
    · rintro rfl
      omega
    · rintro ⟨rfl, h⟩
      exact absurd h hi

/-- What every segment sent keeps, `fill_window` keeps. -/
theorem fillWindow_invariant {P : TCPSender → Prop} (keeps : ∀ u v, P u → Emits u v → P v)
    {s t : TCPSender} (h : P s) (ht : s.fillWindow = .ok t) : P t := by
  obtain ⟨u, hu, hsent, -, -⟩ := fillWindow_spec s
  obtain rfl : u = t := Except.ok.inj (hu.symm.trans ht)
  clear hu ht
  induction hsent with
  | refl => exact h
  | tail _ he ih => exact keeps _ _ ih he

/-! ## Bookkeeping -/

/-- Segments of positive length that follow each other from the absolute number `a` up
to `b`. -/
def Chain (isn : WrappingInt32) : List TCPSegment → Nat → Nat → Prop
  | [], a, b => a = b
  | seg :: rest, a, b => seg.header.seqno = wrap a isn ∧ 0 < seg.lengthInSequenceSpace ∧
      Chain isn rest (a + seg.lengthInSequenceSpace) b

/-- The sum of the lengths in sequence space. -/
def totalLength : List TCPSegment → Nat
  | [] => 0
  | seg :: rest => seg.lengthInSequenceSpace + totalLength rest

@[simp] theorem totalLength_cons (seg : TCPSegment) (rest : List TCPSegment) :
    totalLength (seg :: rest) = seg.lengthInSequenceSpace + totalLength rest := rfl

@[simp] theorem totalLength_append (xs ys : List TCPSegment) :
    totalLength (xs ++ ys) = totalLength xs + totalLength ys := by
  induction xs with
  | nil => simp [totalLength]
  | cons seg rest ih =>
    rw [List.cons_append, totalLength_cons, totalLength_cons, ih, Nat.add_assoc]

theorem Chain.end_eq {isn : WrappingInt32} {segs : List TCPSegment} {a b : Nat}
    (h : Chain isn segs a b) : b = a + totalLength segs := by
  induction segs generalizing a with
  | nil => exact h.symm
  | cons seg rest ih =>
    have := ih h.2.2
    rw [totalLength_cons]
    omega

theorem Chain.snoc {isn : WrappingInt32} {segs : List TCPSegment} {a b : Nat} {seg : TCPSegment}
    (h : Chain isn segs a b) (hseq : seg.header.seqno = wrap b isn)
    (hlen : 0 < seg.lengthInSequenceSpace) :
    Chain isn (segs ++ [seg]) a (b + seg.lengthInSequenceSpace) := by
  induction segs generalizing a with
  | nil =>
    cases h
    exact ⟨hseq, hlen, rfl⟩
  | cons x rest ih => exact ⟨h.1, h.2.1, ih h.2.2⟩

theorem Chain.pos {isn : WrappingInt32} {segs : List TCPSegment} {a b : Nat}
    (h : Chain isn segs a b) : ∀ seg ∈ segs, 0 < seg.lengthInSequenceSpace := by
  induction segs generalizing a with
  | nil => simp
  | cons x rest ih =>
    intro seg hseg
    rcases List.mem_cons.mp hseg with rfl | hmem
    · exact h.2.1
    · exact ih h.2.2 seg hmem

/-- Segments of positive length have a total length of zero only when there are none. -/
theorem totalLength_eq_zero {segs : List TCPSegment}
    (pos : ∀ seg ∈ segs, 0 < seg.lengthInSequenceSpace) : totalLength segs = 0 ↔ segs = [] := by
  cases segs with
  | nil => exact ⟨fun _ => rfl, fun _ => rfl⟩
  | cons seg rest =>
    have := pos seg List.mem_cons_self
    simp only [totalLength_cons, reduceCtorEq, iff_false]
    omega

/-- The first number sent and not yet acknowledged. -/
def unacked (s : TCPSender) : Nat := s.nextSeqno - s.bytesInFlight

/-- The queue, the counters and the timer agree. Nothing at or above `2 ^ 64 - 2 ^ 32` is
ever acknowledged, because `unwrap` does not return there. -/
structure Book (s : TCPSender) : Prop where
  chain : Chain s.isn s.segmentsOutstanding s.unacked s.nextSeqno
  flight : s.bytesInFlight = totalLength s.segmentsOutstanding
  timer : s.timerRunning = true ↔ s.segmentsOutstanding ≠ []
  low : s.unacked + 2 ^ 32 ≤ 2 ^ 64

theorem Book.frame {s t : TCPSender} (h : Book s) (isn : t.isn = s.isn)
    (next : t.nextSeqno = s.nextSeqno) (flight : t.bytesInFlight = s.bytesInFlight)
    (queue : t.segmentsOutstanding = s.segmentsOutstanding)
    (timer : t.timerRunning = s.timerRunning) : Book t := by
  have hun : t.unacked = s.unacked := by rw [unacked, next, flight, unacked]
  constructor
  · rw [isn, queue, hun, next]
    exact h.chain
  · rw [flight, queue]
    exact h.flight
  · rw [timer, queue]
    exact h.timer
  · rw [hun]
    exact h.low

/-- The stream and the queue of segments to send are not in the books. -/
theorem Book.withStream {s : TCPSender} (h : Book s) (stream : ByteStream) :
    Book { s with stream := stream } := h.frame rfl rfl rfl rfl rfl

theorem Book.withOut {s : TCPSender} (h : Book s) (out : List TCPSegment) :
    Book { s with segmentsOut := out } := h.frame rfl rfl rfl rfl rfl

theorem book_new (capacity : Nat) (retxTimeout : UInt16) (isn : WrappingInt32) :
    Book (new capacity retxTimeout isn) where
  chain := rfl
  flight := rfl
  timer := by simp [new]
  low := by simp [unacked, new]

theorem Book.flight_le {s : TCPSender} (h : Book s) :
    s.unacked + s.bytesInFlight = s.nextSeqno := by
  rw [h.flight]
  exact h.chain.end_eq.symm

theorem book_push {s : TCPSender} (h : Book s) {seg : TCPSegment}
    (hseq : seg.header.seqno = wrap s.nextSeqno s.isn) (hlen : 0 < seg.lengthInSequenceSpace) :
    Book (s.push seg) := by
  have hle := h.flight_le
  have hun : (s.push seg).unacked = s.unacked := by
    simp only [unacked, push] at hle ⊢
    omega
  refine ⟨?_, ?_, ?_, ?_⟩
  · rw [hun]
    exact h.chain.snoc hseq hlen
  · simp [push, h.flight, totalLength]
  · simp [push]
  · rw [hun]
    exact h.low

theorem Emits.book {s t : TCPSender} (h : Emits s t) (hb : Book s) : Book t := by
  cases h with
  | syn _ =>
    exact book_push (s := { s with synSent := true }) (hb.frame rfl rfl rfl rfl rfl) rfl (by simp)
  | @bytes size fin may =>
    apply book_push (s := { s with stream := s.stream.popOutput size, finSent := fin })
      (hb.frame rfl rfl rfl rfl rfl) rfl
    have := may.nonempty
    simpa [Nat.min_eq_left may.buffered] using this

theorem Emits.unacked_eq {s t : TCPSender} (h : Emits s t) (hb : Book s) :
    t.unacked = s.unacked := by
  have := hb.flight_le
  cases h with
  | syn _ => simp only [unacked, TCPSender.syn, push] at *; omega
  | bytes _ => simp only [unacked, TCPSender.bytes, push] at *; omega

theorem book_fillWindow {s t : TCPSender} (hb : Book s) (h : s.fillWindow = .ok t) :
    Book t ∧ t.unacked = s.unacked := by
  apply fillWindow_invariant (P := fun t => Book t ∧ t.unacked = s.unacked) _ ⟨hb, rfl⟩ h
  rintro u v ⟨hu, hun⟩ he
  exact ⟨he.book hu, (he.unacked_eq hu).trans hun⟩

/-! ## Acknowledgements -/

/-- The acknowledgements `ack_valid` lets through. -/
def Accepts (s : TCPSender) (absAckno : Nat) : Prop :=
  absAckno ≤ s.nextSeqno ∧ (s.segmentsOutstanding = [] ∨ s.unacked ≤ absAckno)

instance (s : TCPSender) (absAckno : Nat) : Decidable (Accepts s absAckno) :=
  inferInstanceAs (Decidable (_ ∧ (_ ∨ _)))

/-- How an acknowledgement divides the outstanding segments at `m`: those before are
covered by it, the first of those after is not. -/
structure Divides (s : TCPSender) (absAckno : Nat) (gone rest : List TCPSegment) (m : Nat) :
    Prop where
  split : s.segmentsOutstanding = gone ++ rest
  before : Chain s.isn gone s.unacked m
  after : Chain s.isn rest m s.nextSeqno
  covered : gone = [] ∨ m ≤ absAckno
  uncovered : ∀ seg tail, rest = seg :: tail → absAckno < m + seg.lengthInSequenceSpace

/-- The sender with only `rest` outstanding. -/
def keep (s : TCPSender) (gone rest : List TCPSegment) : TCPSender :=
  { s with
    segmentsOutstanding := rest
    bytesInFlight := totalLength rest
    timeElapsed := if gone.isEmpty then s.timeElapsed else 0
    rto := if gone.isEmpty then s.rto else s.initialRetransmissionTimeout
    consecutiveRetransmissions := if gone.isEmpty then s.consecutiveRetransmissions else 0 }

/-- The sender when `ack_received` calls `fill_window`. -/
def acked (s : TCPSender) (absAckno : Nat) (windowSize : UInt16) (gone rest : List TCPSegment) :
    TCPSender :=
  { s.keep gone rest with
    receiverWindowSize := windowSize
    receiverFreeSpace := if rest.isEmpty then windowSize
      else UInt16.ofNat (sub64 (absAckno + windowSize.toNat) s.nextSeqno)
    timerRunning := s.timerRunning && !rest.isEmpty }

theorem keep_self {s : TCPSender} {segs : List TCPSegment} (ho : s.segmentsOutstanding = segs)
    (hf : s.bytesInFlight = totalLength segs) : s.keep [] segs = s := by
  subst ho
  rw [keep, ← hf]
  rfl

theorem popAcked_spec {absAckno : Nat} {segs : List TCPSegment} {s t : TCPSender} {a : Nat}
    (ho : s.segmentsOutstanding = segs) (hf : s.bytesInFlight = totalLength segs)
    (hc : Chain s.isn segs a s.nextSeqno) (near : s.nextSeqno < a + 2 ^ 31)
    (top : s.nextSeqno < 2 ^ 64) (h : popAcked absAckno segs s = .ok t) :
    ∃ gone rest m, segs = gone ++ rest ∧ Chain s.isn gone a m ∧ Chain s.isn rest m s.nextSeqno ∧
      (gone = [] ∨ m ≤ absAckno) ∧
      (∀ seg tail, rest = seg :: tail → absAckno < m + seg.lengthInSequenceSpace) ∧
      t = s.keep gone rest := by
  induction segs generalizing s a with
  | nil =>
    cases h
    exact ⟨[], [], a, rfl, rfl, hc, .inl rfl, by simp, (keep_self ho hf).symm⟩
  | cons seg rest ih =>
    obtain ⟨hseq, hlen, hrest⟩ := hc
    have hend := hrest.end_eq
    rw [totalLength_cons] at hf
    obtain ⟨v, hv, hk⟩ := Exec.bind_eq_ok.mp h
    rw [hseq] at hv
    have hva := unwrap_wrap top near (by omega) hv
    subst hva
    by_cases hle : v + seg.lengthInSequenceSpace ≤ absAckno
    · rw [if_pos hle] at hk
      obtain ⟨gone, rest', m, hsplit, hgone, hrest', hcov, hunc, ht⟩ :=
        ih (s := s.popFront seg rest) (a := v + seg.lengthInSequenceSpace) rfl
          (by simp only [popFront]; rw [sub64_of_le (by omega)]; omega) hrest
          (by simp only [popFront]; omega) top hk
      refine ⟨seg :: gone, rest', m, by rw [hsplit]; rfl, ⟨hseq, hlen, hgone⟩, hrest', .inr ?_,
        hunc, ?_⟩
      · rcases hcov with rfl | hm
        · have : v + seg.lengthInSequenceSpace = m := hgone
          omega
        · exact hm
      · rw [ht]
        simp only [keep, popFront, List.isEmpty_cons, Bool.false_eq_true, ↓reduceIte, ite_self]
    · rw [if_neg hle] at hk
      cases hk
      refine ⟨[], seg :: rest, v, rfl, rfl, ⟨hseq, hlen, hrest⟩, .inl rfl, ?_,
        (keep_self ho hf).symm⟩
      intro seg' tail heq
      cases heq
      omega

theorem ackValid_iff {s : TCPSender} (hb : Book s) (near : s.bytesInFlight < 2 ^ 31)
    (top : s.nextSeqno < 2 ^ 64) {absAckno : Nat} {ok : Bool}
    (h : s.ackValid absAckno = .ok ok) : ok = true ↔ Accepts s absAckno := by
  have hle := hb.flight_le
  have hc := hb.chain
  unfold ackValid at h
  unfold Accepts
  cases ho : s.segmentsOutstanding with
  | nil =>
    simp only [ho, Except.ok.injEq] at h
    simp [← h]
  | cons seg rest =>
    simp only [ho] at h hc
    split at h
    · rename_i hn
      obtain ⟨v, hv, hk⟩ := Exec.bind_eq_ok.mp h
      rw [hc.1] at hv
      rw [unwrap_wrap top (by omega) (by omega) hv] at hk
      simp only [Exec.pure_ok, Except.ok.injEq] at hk
      simp [← hk, hn]
    · rename_i hn
      simp only [Except.ok.injEq] at h
      simp [← h, hn]

/-- The free space after an acknowledgement is the right edge less the next number. -/
theorem setFreeSpace_spec {s w : TCPSender} {absAckno : Nat} {windowSize : UInt16}
    {gone rest : List TCPSegment} {m : Nat} (hd : Divides s absAckno gone rest m)
    (hacc : Accepts s absAckno) (near : s.nextSeqno < s.unacked + 2 ^ 31)
    (top : s.nextSeqno < 2 ^ 64)
    (h : (keep { s with receiverWindowSize := windowSize, receiverFreeSpace := windowSize }
      gone rest).setFreeSpace absAckno windowSize = .ok w) :
    w.stopTimer = s.acked absAckno windowSize gone rest := by
  cases rest with
  | nil =>
    cases h
    simp [stopTimer, keep, acked, totalLength]
  | cons seg tail =>
    have hgone := hd.before.end_eq
    have hrest := hd.after.end_eq
    have hlen := hd.after.2.1
    have hm : m ≤ absAckno := by
      rcases hd.covered with rfl | hm
      · rcases hacc.2 with hnil | hle
        · rw [hd.split] at hnil
          cases hnil
        · exact hgone ▸ hle
      · exact hm
    obtain ⟨v, hv, hw⟩ := Exec.bind_eq_ok.mp h
    have hv' : unwrap (wrap m s.isn) s.isn s.nextSeqno = .ok v := hd.after.1 ▸ hv
    rw [unwrap_wrap top (by omega) (by omega) hv'] at hw
    cases hw
    rw [totalLength_cons] at hrest
    have hfree : sub64 (sub64 (absAckno + windowSize.toNat) m)
        (seg.lengthInSequenceSpace + totalLength tail) =
        sub64 (absAckno + windowSize.toNat) s.nextSeqno := by
      rw [sub64_of_le (show m ≤ absAckno + windowSize.toNat by omega)]
      unfold sub64
      split <;> split <;> omega
    simp only [stopTimer, keep, acked, totalLength_cons, hfree, List.isEmpty_cons,
      Bool.false_eq_true, ↓reduceIte, Bool.not_false, Bool.and_true]
    rw [if_neg (by omega)]

theorem acked_unacked {s : TCPSender} {absAckno : Nat} (windowSize : UInt16)
    {gone rest : List TCPSegment} {m : Nat} (hd : Divides s absAckno gone rest m) :
    (s.acked absAckno windowSize gone rest).unacked = m := by
  have := hd.after.end_eq
  simp only [unacked, acked, keep]
  omega

theorem acked_book {s : TCPSender} (hb : Book s) {absAckno : Nat} (windowSize : UInt16)
    {gone rest : List TCPSegment} {m : Nat} (hd : Divides s absAckno gone rest m)
    (hlow : absAckno + 2 ^ 32 < 2 ^ 64) : Book (s.acked absAckno windowSize gone rest) := by
  have hm := acked_unacked windowSize hd
  refine ⟨by rw [hm]; exact hd.after, rfl, ?_, ?_⟩
  · simp only [acked, keep, Bool.and_eq_true, hb.timer, hd.split]
    cases rest with
    | nil => simp
    | cons seg tail => simp
  · rw [hm]
    rcases hd.covered with rfl | hle
    · have : s.unacked = m := hd.before
      have := hb.low
      omega
    · omega

/-- **An acknowledgement.** It is ignored, or the segments it covers leave the queue and
the window is filled. -/
theorem ackReceived_spec {s t : TCPSender} (hb : Book s) (near : s.bytesInFlight < 2 ^ 31)
    {ackno : WrappingInt32} {windowSize : UInt16} (h : s.ackReceived ackno windowSize = .ok t) :
    ∃ absAckno, unwrap ackno s.isn s.nextSeqno = .ok absAckno ∧
      (s.ackValid absAckno = .ok false ∧ t = s ∨
        s.ackValid absAckno = .ok true ∧ Accepts s absAckno ∧
        ∃ gone rest m, Divides s absAckno gone rest m ∧
          Book (s.acked absAckno windowSize gone rest) ∧
          (s.acked absAckno windowSize gone rest).unacked = m ∧
          (s.acked absAckno windowSize gone rest).fillWindow = .ok t) := by
  have hflight := hb.flight_le
  have hlow := hb.low
  have top : s.nextSeqno < 2 ^ 64 := by omega
  obtain ⟨absAckno, habs, h⟩ := Exec.bind_eq_ok.mp h
  obtain ⟨ok, hok, h⟩ := Exec.bind_eq_ok.mp h
  have hvalid := ackValid_iff hb near top hok
  refine ⟨absAckno, habs, ?_⟩
  cases ok with
  | true =>
    right
    have hacc := hvalid.mp rfl
    obtain ⟨u, hu, h⟩ := Exec.bind_eq_ok.mp h
    obtain ⟨gone, rest, m, hsplit, hgone, hrest, hcov, hunc, hkeep⟩ :=
      popAcked_spec
        (s := { s with receiverWindowSize := windowSize, receiverFreeSpace := windowSize })
        (a := s.unacked) rfl hb.flight hb.chain (by dsimp only; omega) top hu
    have hd : Divides s absAckno gone rest m := ⟨hsplit, hgone, hrest, hcov, hunc⟩
    obtain ⟨w, hw, h⟩ := Exec.bind_eq_ok.mp h
    rw [hkeep] at hw
    rw [setFreeSpace_spec hd hacc (by omega) top hw] at h
    exact ⟨hok, hacc, gone, rest, m, hd,
      acked_book hb windowSize hd ((unwrap_ok top habs).2.2 hacc.1), acked_unacked windowSize hd, h⟩
  | false => exact .inl ⟨hok, by simpa using h.symm⟩

/-! ## Time -/

/-- The timeout of the oldest segment counts: the window is open, or it is the SYN. -/
def Counts (s : TCPSender) (seg : TCPSegment) : Prop :=
  s.receiverWindowSize ≠ 0 ∨ seg.header.syn = true

instance (s : TCPSender) (seg : TCPSegment) : Decidable (Counts s seg) :=
  inferInstanceAs (Decidable (_ ∨ _))

/-- The sender after a timeout of its oldest segment. -/
def resent (s : TCPSender) (seg : TCPSegment) : TCPSender :=
  { s with
    segmentsOut := s.segmentsOut ++ [seg]
    timeElapsed := 0
    consecutiveRetransmissions :=
      if Counts s seg then s.consecutiveRetransmissions + 1 else s.consecutiveRetransmissions
    rto := if Counts s seg then s.rto <<< 1 else s.rto }

/-- All that a tick can do. -/
inductive Ticked (s : TCPSender) (ms : Nat) : TCPSender → Prop
  | stopped : s.timerRunning = false → Ticked s ms s
  | waits : s.timerRunning = true → ¬ s.timeElapsed + UInt32.ofNat ms ≥ s.rto →
      Ticked s ms { s with timeElapsed := s.timeElapsed + UInt32.ofNat ms }
  | fires {seg : TCPSegment} {rest : List TCPSegment} : s.timerRunning = true →
      s.timeElapsed + UInt32.ofNat ms ≥ s.rto → s.segmentsOutstanding = seg :: rest →
      Ticked s ms (s.resent seg)

/-- A timeout with a segment outstanding sends it again. -/
theorem tick_fires {s : TCPSender} {ms : Nat} {seg : TCPSegment} {rest : List TCPSegment}
    (hrun : s.timerRunning = true) (hover : s.timeElapsed + UInt32.ofNat ms ≥ s.rto)
    (ho : s.segmentsOutstanding = seg :: rest) : s.tick ms = .ok (s.resent seg) := by
  have hfront : subscript s.segmentsOutstanding 0 = .ok seg := by rw [ho]; rfl
  rw [tick, if_neg (by simp [hrun])]
  dsimp only
  rw [if_pos hover, hfront, Exec.ok_bind, resent]
  by_cases hc : Counts s seg
  · rw [if_pos hc, if_pos hc]
    exact if_pos hc
  · rw [if_neg hc, if_neg hc]
    exact if_neg hc

theorem tick_waits {s : TCPSender} {ms : Nat} (hrun : s.timerRunning = true)
    (hover : ¬ s.timeElapsed + UInt32.ofNat ms ≥ s.rto) :
    s.tick ms = .ok { s with timeElapsed := s.timeElapsed + UInt32.ofNat ms } := by
  rw [tick, if_neg (by simp [hrun])]
  exact if_neg hover

theorem tick_spec {s t : TCPSender} {ms : Nat} (h : s.tick ms = .ok t) : Ticked s ms t := by
  cases hrun : s.timerRunning with
  | false =>
    simp only [tick, hrun, Bool.not_false, ↓reduceIte, Except.ok.injEq] at h
    exact h ▸ .stopped hrun
  | true =>
    by_cases hover : s.timeElapsed + UInt32.ofNat ms ≥ s.rto
    · cases ho : s.segmentsOutstanding with
      | nil => simp [tick, hrun, hover, ho, subscript] at h
      | cons seg rest =>
        rw [tick_fires hrun hover ho] at h
        cases h
        exact .fires hrun hover ho
    · rw [tick_waits hrun hover] at h
      cases h
      exact .waits hrun hover

/-- A tick that returns sends the oldest outstanding segment again, or none, and changes
nothing but the timer's own fields. -/
theorem tick_ok {s t : TCPSender} {ms : Nat} (h : s.tick ms = .ok t) :
    ∃ out elapsed count rto,
      (out = [] ∨ ∃ seg rest, s.segmentsOutstanding = seg :: rest ∧ out = [seg]) ∧
      t = { s with
        segmentsOut := s.segmentsOut ++ out
        timeElapsed := elapsed
        consecutiveRetransmissions := count
        rto := rto } := by
  cases tick_spec h with
  | stopped _ =>
    exact ⟨[], s.timeElapsed, s.consecutiveRetransmissions, s.rto, .inl rfl, by simp⟩
  | waits _ _ => exact ⟨[], _, _, _, .inl rfl, by rw [List.append_nil]⟩
  | @fires seg rest _ _ ho => exact ⟨[seg], _, _, _, .inr ⟨seg, rest, ho, rfl⟩, rfl⟩

theorem book_tick {s t : TCPSender} {ms : Nat} (hb : Book s) (h : s.tick ms = .ok t) : Book t := by
  obtain ⟨_, _, _, _, _, rfl⟩ := tick_ok h
  exact hb.frame rfl rfl rfl rfl rfl

/-- A running timer has a segment to send again. -/
theorem tick_returns {s : TCPSender} (htimer : s.timerRunning = true → s.segmentsOutstanding ≠ [])
    (ms : Nat) : ∃ t, s.tick ms = .ok t := by
  cases hrun : s.timerRunning with
  | false => exact ⟨s, by simp [tick, hrun]⟩
  | true =>
    obtain ⟨seg, rest, ho⟩ := List.exists_cons_of_ne_nil (htimer hrun)
    by_cases hover : s.timeElapsed + UInt32.ofNat ms ≥ s.rto
    · exact ⟨_, tick_fires hrun hover ho⟩
    · exact ⟨_, tick_waits hrun hover⟩

/-! ## However many numbers are in flight -/

/-- The part of the books that needs no bound on what is in flight. -/
structure Tally (s : TCPSender) : Prop where
  flight : s.bytesInFlight = totalLength s.segmentsOutstanding
  timer : s.timerRunning = true ↔ s.segmentsOutstanding ≠ []
  pos : ∀ seg ∈ s.segmentsOutstanding, 0 < seg.lengthInSequenceSpace

theorem tally_new (capacity : Nat) (retxTimeout : UInt16) (isn : WrappingInt32) :
    Tally (new capacity retxTimeout isn) where
  flight := rfl
  timer := by simp [new]
  pos := by simp [new]

theorem Book.tally {s : TCPSender} (h : Book s) : Tally s := ⟨h.flight, h.timer, h.chain.pos⟩

/-- Only the outstanding segments, their length and the timer count. -/
theorem Tally.frame {s t : TCPSender} (h : Tally s) (flight : t.bytesInFlight = s.bytesInFlight)
    (queue : t.segmentsOutstanding = s.segmentsOutstanding)
    (timer : t.timerRunning = s.timerRunning) : Tally t := by
  refine ⟨?_, ?_, ?_⟩
  · rw [flight, queue]
    exact h.flight
  · rw [timer, queue]
    exact h.timer
  · rw [queue]
    exact h.pos

theorem Tally.withStream {s : TCPSender} (h : Tally s) (stream : ByteStream) :
    Tally { s with stream := stream } := h.frame rfl rfl rfl

theorem Tally.withOut {s : TCPSender} (h : Tally s) (out : List TCPSegment) :
    Tally { s with segmentsOut := out } := h.frame rfl rfl rfl

theorem tally_tick {s t : TCPSender} {ms : Nat} (h : Tally s) (ht : s.tick ms = .ok t) :
    Tally t := by
  obtain ⟨_, _, _, _, _, rfl⟩ := tick_ok ht
  exact h.frame rfl rfl rfl

theorem tally_push {s : TCPSender} (h : Tally s) {seg : TCPSegment}
    (hlen : 0 < seg.lengthInSequenceSpace) : Tally (s.push seg) := by
  refine ⟨?_, by simp [push], forall_mem_snoc h.pos hlen⟩
  simp [push, h.flight, totalLength]

theorem Emits.tally {s t : TCPSender} (h : Emits s t) (ht : Tally s) : Tally t := by
  cases h with
  | syn _ =>
    exact tally_push (s := { s with synSent := true }) (ht.frame rfl rfl rfl) (by simp)
  | @bytes size fin may =>
    apply tally_push (s := { s with stream := s.stream.popOutput size, finSent := fin })
      (ht.frame rfl rfl rfl)
    have := may.nonempty
    simpa [Nat.min_eq_left may.buffered] using this

theorem tally_fillWindow {s t : TCPSender} (h : Tally s) (ht : s.fillWindow = .ok t) : Tally t :=
  fillWindow_invariant (P := Tally) (fun _ _ hu he => he.tally hu) h ht

/-- The sender when an acknowledgement that took `gone` off the queue calls `fill_window`. -/
def trimmed (s : TCPSender) (windowSize freeSpace : UInt16) (gone rest : List TCPSegment) :
    TCPSender :=
  { s.keep gone rest with
    receiverWindowSize := windowSize
    receiverFreeSpace := freeSpace
    timerRunning := s.timerRunning && !rest.isEmpty }

theorem tally_trimmed {s : TCPSender} (h : Tally s) (windowSize freeSpace : UInt16)
    {gone rest : List TCPSegment} (hsplit : s.segmentsOutstanding = gone ++ rest) :
    Tally (s.trimmed windowSize freeSpace gone rest) := by
  refine ⟨rfl, ?_, ?_⟩
  · simp only [trimmed, keep, Bool.and_eq_true, h.timer, hsplit]
    cases rest with
    | nil => simp
    | cons seg tail => simp
  · intro seg hseg
    exact h.pos seg (by rw [hsplit]; exact List.mem_append_right _ hseg)

/-- The number covers the oldest outstanding segment, which then comes off the queue. -/
def acksFront (s : TCPSender) (absAckno : Nat) : Bool :=
  match s.segmentsOutstanding with
  | [] => false
  | seg :: _ => (unwrap seg.header.seqno s.isn s.nextSeqno).toOption.any fun first =>
    first + seg.lengthInSequenceSpace ≤ absAckno

theorem acksFront_cons {s : TCPSender} {seg : TCPSegment} {rest : List TCPSegment} {first : Nat}
    (absAckno : Nat) (ho : s.segmentsOutstanding = seg :: rest)
    (hfirst : unwrap seg.header.seqno s.isn s.nextSeqno = .ok first) :
    s.acksFront absAckno = decide (first + seg.lengthInSequenceSpace ≤ absAckno) := by
  simp [acksFront, ho, hfirst, Except.toOption]

/-- The number is at or past the end of the segment, as `ack_received` compares them. -/
def Covers (s : TCPSender) (absAckno : Nat) (seg : TCPSegment) : Prop :=
  ∃ first, unwrap seg.header.seqno s.isn s.nextSeqno = .ok first ∧
    first + seg.lengthInSequenceSpace ≤ absAckno

theorem popAcked_any {absAckno : Nat} {segs : List TCPSegment} {s t : TCPSender}
    (ho : s.segmentsOutstanding = segs) (hf : s.bytesInFlight = totalLength segs)
    (h : popAcked absAckno segs s = .ok t) :
    ∃ gone rest, segs = gone ++ rest ∧ gone.isEmpty = !s.acksFront absAckno ∧
      (∀ seg ∈ gone, s.Covers absAckno seg) ∧ t = s.keep gone rest := by
  induction segs generalizing s with
  | nil =>
    cases h
    exact ⟨[], [], rfl, by simp [acksFront, ho], by simp, (keep_self ho hf).symm⟩
  | cons seg rest ih =>
    obtain ⟨v, hv, hk⟩ := Exec.bind_eq_ok.mp h
    have hfront := acksFront_cons absAckno ho hv
    rw [totalLength_cons] at hf
    split at hk
    · rename_i hle
      obtain ⟨gone, rest', hsplit, -, hcov, ht⟩ := ih (s := s.popFront seg rest) rfl
        (by simp only [popFront]; rw [sub64_of_le (by omega)]; omega) hk
      refine ⟨seg :: gone, rest', by rw [hsplit]; rfl, by simp [hfront, hle], ?_, ?_⟩
      · intro x hx
        rcases List.mem_cons.mp hx with rfl | hx
        · exact ⟨v, hv, hle⟩
        · exact hcov x hx
      · rw [ht]
        simp only [keep, popFront, List.isEmpty_cons, Bool.false_eq_true, ↓reduceIte, ite_self]
    · rename_i hle
      cases hk
      refine ⟨[], seg :: rest, rfl, by simp [hfront, hle], by simp, ?_⟩
      exact (keep_self ho (by rw [totalLength_cons]; exact hf)).symm

theorem setFreeSpace_any {s t : TCPSender} {absAckno : Nat} {windowSize : UInt16}
    (h : s.setFreeSpace absAckno windowSize = .ok t) :
    ∃ freeSpace, t = { s with receiverFreeSpace := freeSpace } ∧
      (s.segmentsOutstanding = [] → freeSpace = s.receiverFreeSpace) := by
  unfold setFreeSpace at h
  split at h
  · cases h
    exact ⟨_, rfl, fun _ => rfl⟩
  · rename_i ho
    obtain ⟨v, _, hw⟩ := Exec.bind_eq_ok.mp h
    cases hw
    refine ⟨_, rfl, fun hnil => ?_⟩
    rw [ho] at hnil
    cases hnil

/-- What the check of an acknowledgement says, whatever is in flight. -/
theorem ackValid_any {s : TCPSender} {absAckno : Nat} {ok : Bool}
    (h : s.ackValid absAckno = .ok ok) :
    (ok = true → absAckno ≤ s.nextSeqno) ∧
      (ok = false → absAckno ≤ s.nextSeqno → s.acksFront absAckno = false) := by
  unfold ackValid at h
  split at h
  · rename_i ho
    cases h
    simp [acksFront, ho]
  · rename_i seg rest ho
    split at h
    · rename_i hle
      obtain ⟨first, hfirst, h⟩ := Exec.bind_eq_ok.mp h
      cases h
      refine ⟨fun _ => hle, fun hlt _ => ?_⟩
      rw [acksFront_cons absAckno ho hfirst]
      simp only [decide_eq_false_iff_not] at hlt ⊢
      omega
    · rename_i hle
      cases h
      exact ⟨fun h => absurd h (by decide), fun _ h => absurd h hle⟩

/-- **Any acknowledgement.** It is ignored, or takes some of the oldest segments off the
queue before the window is filled. -/
theorem ackReceived_pops {s t : TCPSender} (ht : Tally s) {ackno : WrappingInt32}
    {windowSize : UInt16} (h : s.ackReceived ackno windowSize = .ok t) :
    ∃ absAckno, unwrap ackno s.isn s.nextSeqno = .ok absAckno ∧
      ((t = s ∧ (absAckno ≤ s.nextSeqno → s.acksFront absAckno = false)) ∨
        ∃ gone rest freeSpace, absAckno ≤ s.nextSeqno ∧ s.segmentsOutstanding = gone ++ rest ∧
          gone.isEmpty = !s.acksFront absAckno ∧ (∀ seg ∈ gone, s.Covers absAckno seg) ∧
          (rest = [] → freeSpace = windowSize) ∧
          (s.trimmed windowSize freeSpace gone rest).fillWindow = .ok t) := by
  obtain ⟨absAckno, habs, h⟩ := Exec.bind_eq_ok.mp h
  obtain ⟨ok, hok, h⟩ := Exec.bind_eq_ok.mp h
  obtain ⟨hvalid, hinvalid⟩ := ackValid_any hok
  refine ⟨absAckno, habs, ?_⟩
  cases ok with
  | false => exact .inl ⟨by simpa using h.symm, hinvalid rfl⟩
  | true =>
    right
    obtain ⟨u, hu, h⟩ := Exec.bind_eq_ok.mp h
    obtain ⟨gone, rest, hsplit, hfront, hcov, rfl⟩ := popAcked_any
      (s := { s with receiverWindowSize := windowSize, receiverFreeSpace := windowSize }) rfl
      ht.flight hu
    obtain ⟨w, hw, h⟩ := Exec.bind_eq_ok.mp h
    obtain ⟨freeSpace, rfl, hfree⟩ := setFreeSpace_any hw
    refine ⟨gone, rest, freeSpace, hvalid rfl, hsplit, hfront, hcov, hfree, ?_⟩
    rw [← h]
    congr 1
    have hzero : totalLength rest = 0 ↔ rest = [] := totalLength_eq_zero
      fun seg hseg => ht.pos seg (by rw [hsplit]; exact List.mem_append_right _ hseg)
    cases rest with
    | nil => simp [stopTimer, keep, trimmed, totalLength]
    | cons seg tail =>
      have hne : totalLength (seg :: tail) ≠ 0 := fun h0 => by cases hzero.mp h0
      simp only [stopTimer, keep, trimmed, hne, ↓reduceIte, List.isEmpty_cons, Bool.not_false,
        Bool.and_true]

theorem ackReceived_any {s t : TCPSender} (ht : Tally s) {ackno : WrappingInt32}
    {windowSize : UInt16} (h : s.ackReceived ackno windowSize = .ok t) :
    t = s ∨ ∃ absAckno gone rest freeSpace, unwrap ackno s.isn s.nextSeqno = .ok absAckno ∧
      absAckno ≤ s.nextSeqno ∧ s.segmentsOutstanding = gone ++ rest ∧
      (rest = [] → freeSpace = windowSize) ∧
      (s.trimmed windowSize freeSpace gone rest).fillWindow = .ok t := by
  obtain ⟨absAckno, habs, ⟨rfl, -⟩ | ⟨gone, rest, freeSpace, hle, hsplit, -, -, hfree, hfill⟩⟩ :=
    ackReceived_pops ht h
  · exact .inl rfl
  · exact .inr ⟨absAckno, gone, rest, freeSpace, habs, hle, hsplit, hfree, hfill⟩

theorem tally_ackReceived {s t : TCPSender} (h : Tally s) {ackno : WrappingInt32}
    {windowSize : UInt16} (ht : s.ackReceived ackno windowSize = .ok t) : Tally t := by
  obtain rfl | ⟨_, _, _, _, _, _, hsplit, _, hfill⟩ := ackReceived_any h ht
  · exact h
  · exact tally_fillWindow (tally_trimmed h _ _ hsplit) hfill

/-! ## The flags of the sender's segments -/

/-- A segment as the sender makes it: without options, and without the acknowledgement and the
reset, which only the connection sets. -/
structure Raw (seg : TCPSegment) : Prop where
  ack : seg.header.ack = false
  rst : seg.header.rst = false
  doff : seg.header.doff = 5
  short : seg.payload.length ≤ maxPayloadSize

/-- Both queues hold such segments only. -/
structure RawQueues (s : TCPSender) : Prop extends Tally s where
  out : ∀ seg ∈ s.segmentsOut, Raw seg
  outstanding : ∀ seg ∈ s.segmentsOutstanding, Raw seg

theorem rawQueues_new (capacity : Nat) (retxTimeout : UInt16) (isn : WrappingInt32) :
    RawQueues (new capacity retxTimeout isn) :=
  ⟨tally_new _ _ _, by simp [new], by simp [new]⟩

theorem RawQueues.withStream {s : TCPSender} (h : RawQueues s) (stream : ByteStream) :
    RawQueues { s with stream := stream } := ⟨h.toTally.withStream _, h.out, h.outstanding⟩

theorem RawQueues.withOut {s : TCPSender} (h : RawQueues s) {out : List TCPSegment}
    (hout : ∀ seg ∈ out, Raw seg) : RawQueues { s with segmentsOut := out } :=
  ⟨h.toTally.withOut _, hout, h.outstanding⟩

theorem RawQueues.drained {s : TCPSender} (h : RawQueues s) :
    RawQueues { s with segmentsOut := [] } := h.withOut (by simp)

theorem rawQueues_push {s : TCPSender} (h : RawQueues s) {seg : TCPSegment}
    (hlen : 0 < seg.lengthInSequenceSpace) (hseg : Raw seg) : RawQueues (s.push seg) :=
  ⟨tally_push h.toTally hlen, forall_mem_snoc h.out hseg, forall_mem_snoc h.outstanding hseg⟩

theorem raw_syn (s : TCPSender) : Raw (s.segment true false []) := ⟨rfl, rfl, rfl, Nat.zero_le _⟩

theorem raw_bytes {s : TCPSender} {size : Nat} {fin : Bool} (may : MaySend s size fin) :
    Raw (s.segment false fin (s.stream.buffer.take size)) := by
  refine ⟨rfl, rfl, rfl, ?_⟩
  rw [segment, List.length_take]
  exact Nat.le_trans (Nat.min_le_left _ _) may.bounded

theorem Emits.rawQueues {s t : TCPSender} (h : Emits s t) (hs : RawQueues s) : RawQueues t := by
  have htally := h.tally hs.toTally
  cases h with
  | syn _ =>
    exact ⟨htally, forall_mem_snoc hs.out (raw_syn s), forall_mem_snoc hs.outstanding (raw_syn s)⟩
  | bytes may =>
    exact ⟨htally, forall_mem_snoc hs.out (raw_bytes may),
      forall_mem_snoc hs.outstanding (raw_bytes may)⟩

theorem rawQueues_fillWindow {s t : TCPSender} (h : RawQueues s) (ht : s.fillWindow = .ok t) :
    RawQueues t :=
  fillWindow_invariant (P := RawQueues) (fun _ _ hu he => he.rawQueues hu) h ht

theorem rawQueues_trimmed {s : TCPSender} (h : RawQueues s) (windowSize freeSpace : UInt16)
    {gone rest : List TCPSegment} (hsplit : s.segmentsOutstanding = gone ++ rest) :
    RawQueues (s.trimmed windowSize freeSpace gone rest) := by
  refine ⟨tally_trimmed h.toTally _ _ hsplit, h.out, ?_⟩
  intro seg hseg
  exact h.outstanding seg (by rw [hsplit]; exact List.mem_append_right _ hseg)

theorem rawQueues_ackReceived {s t : TCPSender} (h : RawQueues s) {ackno : WrappingInt32}
    {windowSize : UInt16} (ht : s.ackReceived ackno windowSize = .ok t) : RawQueues t := by
  obtain rfl | ⟨_, _, _, _, _, _, hsplit, _, hfill⟩ := ackReceived_any h.toTally ht
  · exact h
  · exact rawQueues_fillWindow (rawQueues_trimmed h _ _ hsplit) hfill

theorem rawQueues_tick {s t : TCPSender} {ms : Nat} (h : RawQueues s) (ht : s.tick ms = .ok t) :
    RawQueues t := by
  have htally := tally_tick h.toTally ht
  obtain ⟨out, _, _, _, hout, rfl⟩ := tick_ok ht
  refine ⟨htally, ?_, h.outstanding⟩
  rcases hout with rfl | ⟨seg, rest, ho, rfl⟩
  · simpa using h.out
  · exact forall_mem_snoc h.out (h.outstanding seg (by rw [ho]; exact List.mem_cons_self))

/-! ## What is put in the queue -/

/-- From `s` to `t` the segments `new` are sent: each occupies sequence numbers, these are
the numbers used since, and a FIN is sent in one of them. -/
structure Uses (s t : TCPSender) (new : List TCPSegment) : Prop where
  pos : ∀ seg ∈ new, 0 < seg.lengthInSequenceSpace
  numbers : t.nextSeqno = s.nextSeqno + totalLength new
  fin : t.finSent = true ↔ s.finSent = true ∨ ∃ seg ∈ new, seg.header.fin = true

theorem uses_nil (s : TCPSender) : Uses s s [] := ⟨by simp, rfl, by simp⟩

theorem Uses.append {s t u : TCPSender} {xs ys : List TCPSegment} (h : Uses s t xs)
    (h' : Uses t u ys) : Uses s u (xs ++ ys) := by
  constructor
  · intro seg hseg
    rcases List.mem_append.mp hseg with hseg | hseg
    · exact h.pos seg hseg
    · exact h'.pos seg hseg
  · rw [h'.numbers, h.numbers, totalLength_append, Nat.add_assoc]
  · rw [h'.fin, h.fin, or_assoc]
    simp only [List.mem_append, or_and_right, exists_or]

theorem Emits.uses {s t : TCPSender} (h : Emits s t) :
    ∃ seg, t.segmentsOut = s.segmentsOut ++ [seg] ∧ Uses s t [seg] := by
  cases h with
  | syn _ =>
    refine ⟨s.segment true false [], rfl, ?_, rfl, ?_⟩
    · simp
    · simp [TCPSender.syn, push, segment]
  | @bytes size fin may =>
    refine ⟨s.segment false fin (s.stream.buffer.take size), rfl, ?_, rfl, ?_⟩
    · have hpos := may.nonempty
      simp only [List.mem_singleton, forall_eq, length_segment, List.length_take,
        Nat.min_eq_left may.buffered, Bool.toNat_false]
      omega
    · simp [TCPSender.bytes, push, segment, may.going]

/-- What `fill_window` adds to the queue. -/
theorem fillWindow_uses {s t : TCPSender} (h : s.fillWindow = .ok t) :
    ∃ new, t.segmentsOut = s.segmentsOut ++ new ∧ Uses s t new := by
  apply fillWindow_invariant (P := fun t => ∃ new, t.segmentsOut = s.segmentsOut ++ new ∧
    Uses s t new) _ ⟨[], (List.append_nil _).symm, uses_nil s⟩ h
  rintro u v ⟨new, hout, hu⟩ he
  obtain ⟨seg, hseg, hv⟩ := he.uses
  exact ⟨new ++ [seg], by rw [hseg, hout, List.append_assoc], hu.append hv⟩

theorem ackReceived_uses {s t : TCPSender} (h : Tally s) {ackno : WrappingInt32}
    {windowSize : UInt16} (ht : s.ackReceived ackno windowSize = .ok t) :
    ∃ new, t.segmentsOut = s.segmentsOut ++ new ∧ Uses s t new := by
  obtain rfl | ⟨_, gone, rest, freeSpace, _, _, _, _, hfill⟩ := ackReceived_any h ht
  · exact ⟨[], (List.append_nil _).symm, uses_nil t⟩
  · obtain ⟨new, hout, hnew⟩ := fillWindow_uses hfill
    exact ⟨new, hout, hnew.pos, hnew.numbers, hnew.fin⟩

/-! ## Acknowledgements are processed -/

theorem popAcked_returns (absAckno : Nat) (segs : List TCPSegment) {s : TCPSender}
    (top : s.nextSeqno + 2 ^ 32 < 2 ^ 64) : ∃ t, popAcked absAckno segs s = .ok t ∧
      t.isn = s.isn ∧ t.nextSeqno = s.nextSeqno := by
  induction segs generalizing s with
  | nil => exact ⟨s, rfl, rfl, rfl⟩
  | cons seg rest ih =>
    obtain ⟨first, hfirst⟩ := unwrap_returns seg.header.seqno s.isn top
    simp only [popAcked, hfirst, Exec.ok_bind]
    split
    · obtain ⟨t, ht, hisn, hnext⟩ := ih (s := s.popFront seg rest) top
      exact ⟨t, ht, hisn, hnext⟩
    · exact ⟨s, rfl, rfl, rfl⟩

/-- An acknowledgement is processed while the numbers stay clear of `2 ^ 64`. -/
theorem ackReceived_returns {s : TCPSender} (top : s.nextSeqno + 2 ^ 32 < 2 ^ 64)
    (ackno : WrappingInt32) (windowSize : UInt16) :
    ∃ t, s.ackReceived ackno windowSize = .ok t := by
  obtain ⟨absAckno, habs⟩ := unwrap_returns ackno s.isn top
  obtain ⟨ok, hok⟩ : ∃ ok, s.ackValid absAckno = .ok ok := by
    unfold ackValid
    split
    · exact ⟨_, rfl⟩
    · rename_i seg _ _
      split
      · obtain ⟨first, hfirst⟩ := unwrap_returns seg.header.seqno s.isn top
        rw [hfirst]
        exact ⟨_, rfl⟩
      · exact ⟨_, rfl⟩
  simp only [ackReceived, habs, hok, Exec.ok_bind]
  cases ok with
  | false => exact ⟨s, rfl⟩
  | true =>
    obtain ⟨u, hu, hisn, hnext⟩ := popAcked_returns absAckno s.segmentsOutstanding
      (s := { s with receiverWindowSize := windowSize, receiverFreeSpace := windowSize }) top
    obtain ⟨v, hv⟩ : ∃ v, u.setFreeSpace absAckno windowSize = .ok v := by
      unfold setFreeSpace
      split
      · exact ⟨_, rfl⟩
      · rename_i seg _ _
        obtain ⟨first, hfirst⟩ := unwrap_returns seg.header.seqno u.isn (hnext ▸ top)
        rw [hfirst]
        exact ⟨_, rfl⟩
    obtain ⟨t, ht, -⟩ := fillWindow_spec v.stopTimer
    refine ⟨t, ?_⟩
    simp only [Bool.not_true, Bool.false_eq_true, ↓reduceIte, hu, hv, Exec.ok_bind]
    exact ht

end Sponge.TCPSender
