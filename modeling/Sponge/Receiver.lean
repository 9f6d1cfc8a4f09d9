import Sponge.ReassemblerSpec
import Sponge.Segment

/-!
# The receiver

`TCPReceiver` of `tcp_receiver.cc`: it numbers the payload of each segment and hands it
to the reassembler, and derives the acknowledgement from what has been assembled.

* `Carries S isn seg`: a segment of the stream `S` numbered from `isn`;
* `segmentReceived_spec`: what one arrival does;
* `Rx`, `rx_segment`: the receiver holds bytes of `S` only;
* `Closing`, `closing_segment`: a FIN is only noted with the last byte in hand, and then
  the end of input and the acknowledged FIN are right.
-/

namespace Sponge

open Words WrappingInt32 StreamReassembler

structure TCPReceiver where
  reassembler : StreamReassembler
  capacity : Nat
  synReceived : Bool
  finReceived : Bool
  isn : WrappingInt32

namespace TCPReceiver

def new (capacity : Nat) : TCPReceiver where
  reassembler := .new capacity
  capacity := capacity
  synReceived := false
  finReceived := false
  isn := ⟨0⟩

def segmentReceived (t : TCPReceiver) (seg : TCPSegment) : Except Fault TCPReceiver := do
  let head := seg.header
  if !head.syn && !t.synReceived then
    return t
  let data := seg.payload
  if head.syn && !t.synReceived then
    let r ← t.reassembler.pushSubstring data 0 head.fin
    return { t with
      reassembler := r
      synReceived := true
      isn := head.seqno
      finReceived := t.finReceived || head.fin }
  let eof := t.synReceived && head.fin
  let checkpoint := t.reassembler.ackIndex
  let absSeqno ← unwrap head.seqno t.isn checkpoint
  -- a SYN that arrives again is pushed at index `0 - 1`
  let streamIdx := sub64 absSeqno t.synReceived.toNat
  let r ← t.reassembler.pushSubstring data streamIdx eof
  return { t with reassembler := r, finReceived := t.finReceived || eof }

/-- The absolute number of the acknowledgement. -/
def absAckno (t : TCPReceiver) : Nat :=
  t.reassembler.ackIndex + 1 + (t.reassembler.empty && t.finReceived).toNat

def ackno (t : TCPReceiver) : Option WrappingInt32 :=
  if !t.synReceived then none else some (wrap t.absAckno t.isn)

def windowSize (t : TCPReceiver) : Nat := sub64 t.capacity t.reassembler.output.bufferSize

def unassembledBytes (t : TCPReceiver) : Nat := t.reassembler.unassembledBytes

def streamOut (t : TCPReceiver) : ByteStream := t.reassembler.output

/-- The application reads `len` bytes from `stream_out()`. -/
def readOut (t : TCPReceiver) (len : Nat) : TCPReceiver × List Byte :=
  let (output, bytes) := t.reassembler.output.read len
  ({ t with reassembler := { t.reassembler with output := output } }, bytes)

theorem readOut_fst (t : TCPReceiver) (len : Nat) :
    (t.readOut len).1 = { t with reassembler := t.reassembler.popOut len } := by
  simp only [readOut, popOut, ← ByteStream.read_fst]

/-! ## One arrival -/

/-- Where the payload of a segment is pushed. -/
def pushIndex (t : TCPReceiver) (seg : TCPSegment) : Nat :=
  if t.synReceived then sub64 (offset seg.header.seqno t.isn) 1 else 0

/-- The receiver after a push that left the reassembler `r`. -/
def took (t : TCPReceiver) (seg : TCPSegment) (r : StreamReassembler) : TCPReceiver :=
  { t with
    reassembler := r
    synReceived := true
    isn := if t.synReceived then t.isn else seg.header.seqno
    finReceived := t.finReceived || seg.header.fin }

/-- Segments count from the SYN on. -/
def Taken (t : TCPReceiver) (seg : TCPSegment) : Prop :=
  t.synReceived = true ∨ seg.header.syn = true

instance (t : TCPReceiver) (seg : TCPSegment) : Decidable (Taken t seg) :=
  inferInstanceAs (Decidable (_ ∨ _))

theorem segmentReceived_first {t : TCPReceiver} (seg : TCPSegment) (h : t.synReceived = false) :
    t.segmentReceived seg =
      if seg.header.syn then
        t.reassembler.pushSubstring seg.payload 0 seg.header.fin >>= fun r => .ok (t.took seg r)
      else .ok t := by
  obtain ⟨r, C, synReceived, fin, isn⟩ := t
  subst h
  cases hs : seg.header.syn with
  | true => simp [segmentReceived, took, hs]
  | false => simp [segmentReceived, hs]

theorem segmentReceived_later {t : TCPReceiver} (seg : TCPSegment) (h : t.synReceived = true) :
    t.segmentReceived seg = unwrap seg.header.seqno t.isn t.reassembler.unassBase >>= fun a =>
      t.reassembler.pushSubstring seg.payload (sub64 a 1) seg.header.fin >>= fun r =>
        .ok (t.took seg r) := by
  obtain ⟨r, C, synReceived, fin, isn⟩ := t
  subst h
  simp [segmentReceived, took, ackIndex]

/-- What an arrival that returns has done, wherever its payload went. -/
theorem segmentReceived_any {t u : TCPReceiver} {seg : TCPSegment}
    (h : t.segmentReceived seg = .ok u) :
    (¬ Taken t seg ∧ u = t) ∨
    ∃ index r, t.reassembler.pushSubstring seg.payload index seg.header.fin = .ok r ∧
      u = t.took seg r ∧
      (t.synReceived = false ∧ index = 0 ∨ t.synReceived = true ∧ ∃ a,
        unwrap seg.header.seqno t.isn t.reassembler.unassBase = .ok a ∧ index = sub64 a 1) := by
  cases hs : t.synReceived with
  | false =>
    rw [segmentReceived_first seg hs] at h
    split at h
    · obtain ⟨r, hr, h⟩ := Exec.bind_eq_ok.mp h
      cases h
      exact .inr ⟨0, r, hr, rfl, .inl ⟨rfl, rfl⟩⟩
    · rename_i hsyn
      cases h
      exact .inl ⟨by simp [Taken, hs, hsyn], rfl⟩
  | true =>
    rw [segmentReceived_later seg hs] at h
    obtain ⟨a, ha, h⟩ := Exec.bind_eq_ok.mp h
    obtain ⟨r, hr, h⟩ := Exec.bind_eq_ok.mp h
    cases h
    exact .inr ⟨sub64 a 1, r, hr, rfl, .inr ⟨rfl, a, ha, rfl⟩⟩

theorem segmentReceived_eq {t : TCPReceiver} (seg : TCPSegment)
    (low : t.reassembler.unassBase < 2 ^ 31) :
    t.segmentReceived seg =
      if Taken t seg then
        t.reassembler.pushSubstring seg.payload (t.pushIndex seg) seg.header.fin >>= fun r =>
          .ok (t.took seg r)
      else .ok t := by
  cases hs : t.synReceived with
  | true =>
    rw [segmentReceived_later seg hs, unwrap_low seg.header.seqno t.isn low, Exec.ok_bind,
      if_pos (.inl hs)]
    simp only [pushIndex, hs, ↓reduceIte]
  | false =>
    rw [segmentReceived_first seg hs]
    simp only [Taken, hs, Bool.false_eq_true, false_or, pushIndex, ↓reduceIte]

/-- **One arrival.** A segment before the SYN is ignored; any other is pushed. -/
theorem segmentReceived_spec {t : TCPReceiver} (seg : TCPSegment) (hr : Inv t.reassembler)
    (low : t.reassembler.unassBase < 2 ^ 31)
    (hx : Taken t seg → Exact t.reassembler seg.payload (t.pushIndex seg)) :
    ∃ u, t.segmentReceived seg = .ok u ∧
      (¬ Taken t seg ∧ u = t ∨
        Taken t seg ∧ ∃ r, u = t.took seg r ∧
          t.reassembler.pushSubstring seg.payload (t.pushIndex seg) seg.header.fin = .ok r ∧
          Pushed t.reassembler seg.payload (t.pushIndex seg) seg.header.fin r) := by
  rw [segmentReceived_eq seg low]
  by_cases ht : Taken t seg
  · obtain ⟨r, h, pushed⟩ := push_spec hr seg.header.fin (hx ht)
    refine ⟨t.took seg r, ?_, .inr ⟨ht, r, rfl, h, pushed⟩⟩
    rw [if_pos ht, h, Exec.ok_bind]
  · exact ⟨t, if_neg ht, .inl ⟨ht, rfl⟩⟩

/-! ## Segments of one stream -/

/-- The absolute sequence number at which a segment starts. -/
def place (isn : WrappingInt32) (seg : TCPSegment) : Nat := offset seg.header.seqno isn

/-- A segment of the stream `S` numbered from `isn`: the SYN, and only it, is at 0, the
payload is what `S` has there, and a FIN stands at the end of `S`. -/
structure Carries (S : List Byte) (isn : WrappingInt32) (seg : TCPSegment) : Prop where
  syn : seg.header.syn = true ↔ place isn seg = 0
  slice : SliceAt S (place isn seg - 1) seg.payload
  fin : seg.header.fin = true → place isn seg - 1 + seg.payload.length = S.length

instance (S : List Byte) (isn : WrappingInt32) (seg : TCPSegment) : Decidable (Carries S isn seg) :=
  decidable_of_iff
    ((seg.header.syn = true ↔ place isn seg = 0) ∧ SliceAt S (place isn seg - 1) seg.payload ∧
      (seg.header.fin = true → place isn seg - 1 + seg.payload.length = S.length))
    ⟨fun ⟨h1, h2, h3⟩ => ⟨h1, h2, h3⟩, fun ⟨h1, h2, h3⟩ => ⟨h1, h2, h3⟩⟩

/-- The receiver holds bytes of the stream `S` numbered from `isn`. -/
structure Rx (S : List Byte) (isn : WrappingInt32) (t : TCPReceiver) : Prop where
  inv : Inv t.reassembler
  agrees : Agrees S t.reassembler
  isn : t.synReceived = true → t.isn = isn
  capacity : t.reassembler.capacity = t.capacity

theorem rx_new (S : List Byte) (isn : WrappingInt32) {C : Nat} (h : 1 ≤ C) :
    Rx S isn (new C) :=
  ⟨inv_new h, agrees_new S C, by simp [new], rfl⟩

theorem Rx.low {S : List Byte} {isn : WrappingInt32} {t : TCPReceiver} (h : Rx S isn t)
    (hS : S.length < 2 ^ 31) : t.reassembler.unassBase < 2 ^ 31 := by
  have := h.agrees.within
  have := h.inv.base
  omega

/-- A segment is pushed where it belongs, except that a SYN arriving again goes past
every window. -/
theorem Carries.pushIndex {S : List Byte} {isn : WrappingInt32} {t : TCPReceiver}
    {seg : TCPSegment} (hc : Carries S isn seg) (hi : t.synReceived = true → t.isn = isn)
    (ht : Taken t seg) :
    (seg.header.syn = true ∧ t.synReceived = true ∧ t.pushIndex seg = 2 ^ 64 - 1) ∨
    (¬ (seg.header.syn = true ∧ t.synReceived = true) ∧
      t.pushIndex seg = place isn seg - 1) := by
  cases hs : t.synReceived with
  | true =>
    simp only [TCPReceiver.pushIndex, hs, hi hs, ↓reduceIte, and_true]
    cases h : seg.header.syn with
    | true =>
      have h0 := hc.syn.mp h
      exact .inl ⟨rfl, trivial, by rw [← place, h0]; simp [sub64]⟩
    | false =>
      have h0 : place isn seg ≠ 0 := by simpa [h] using hc.syn
      refine .inr ⟨by simp, ?_⟩
      rw [← place, sub64_of_le (by omega)]
  | false =>
    have h : seg.header.syn = true := by simpa [Taken, hs] using ht
    simp [TCPReceiver.pushIndex, hs, hc.syn.mp h]

/-- An arrival from the stream leaves only bytes of the stream. -/
theorem rx_segment {S : List Byte} {isn : WrappingInt32} {t u : TCPReceiver} {seg : TCPSegment}
    (h : Rx S isn t) (hS : S.length < 2 ^ 31) (hcap : t.capacity < 2 ^ 63)
    (hc : Carries S isn seg)
    (hx : Taken t seg → Exact t.reassembler seg.payload (t.pushIndex seg))
    (hu : t.segmentReceived seg = .ok u) : Rx S isn u := by
  obtain ⟨v, hv, hcase⟩ := segmentReceived_spec seg h.inv (h.low hS) hx
  rw [hv] at hu
  cases hu
  obtain ⟨_, rfl⟩ | ⟨ht, r, rfl, hpush, pushed⟩ := hcase
  · exact h
  · refine ⟨pushed.inv, ?_, ?_, pushed.frame.1.trans h.capacity⟩
    · apply push_agrees h.inv h.agrees (hx ht) _ hpush
      intro hin
      have := h.low hS
      have := h.capacity
      obtain ⟨_, _, hi⟩ | ⟨_, hi⟩ := hc.pushIndex h.isn ht
      · omega
      · rw [hi]
        exact hc.slice
    · intro _
      cases hs : t.synReceived with
      | true => simp only [took, hs, ↓reduceIte, h.isn hs]
      | false =>
        have hsyn : seg.header.syn = true := by simpa [Taken, hs] using ht
        have h0 := hc.syn.mp hsyn
        simp only [took, hs, Bool.false_eq_true, ↓reduceIte]
        rw [← wrap_offset seg.header.seqno isn, ← place, h0]
        simp [wrap, add]

theorem rx_read {S : List Byte} {isn : WrappingInt32} {t : TCPReceiver} (h : Rx S isn t)
    (len : Nat) : Rx S isn (t.readOut len).1 := by
  rw [readOut_fst]
  exact ⟨popOut_inv h.inv len, popOut_agrees h.agrees len, h.isn, h.capacity⟩

/-! ## Segments that fit -/

/-- The payload is empty or starts outside the part of the window that unread output
takes, from `bytes_read + capacity` to `unass_base + capacity`. -/
def Fits (isn : WrappingInt32) (t : TCPReceiver) (seg : TCPSegment) : Prop :=
  let index := TCPReceiver.place isn seg - 1
  seg.payload = [] ∨ index ≤ t.reassembler.output.readBytes + t.capacity ∨
    t.reassembler.unassBase + t.capacity ≤ index

instance (isn : WrappingInt32) (t : TCPReceiver) (seg : TCPSegment) : Decidable (Fits isn t seg) :=
  inferInstanceAs (Decidable (_ ∨ _ ∨ _))

theorem exact_of_fits {U : List Byte} {isn : WrappingInt32} {t : TCPReceiver} {seg : TCPSegment}
    (hrx : Rx U isn t) (hU : U.length < 2 ^ 31) (hcap : t.capacity < 2 ^ 63)
    (hc : Carries U isn seg) (hfit : Fits isn t seg) (ht : Taken t seg) :
    Exact t.reassembler seg.payload (t.pushIndex seg) := by
  have hlow := hrx.low hU
  have hroom := hrx.capacity
  by_cases hd : seg.payload = []
  · exact .inl hd
  · have hpos := List.length_pos_iff.mpr hd
    have hin := (List.getElem?_eq_some_iff.mp (hc.slice 0 _ (List.getElem?_eq_getElem hpos))).1
    obtain ⟨_, _, hi⟩ | ⟨_, hi⟩ := hc.pushIndex hrx.isn ht
    · exact .inr (.inl (by omega))
    · rw [hi]
      rcases hfit with hnil | hle | hge
      · exact absurd hnil hd
      · by_cases hb : t.reassembler.unassBase ≤ TCPReceiver.place isn seg - 1
        · exact .inr (.inr (.inl ⟨hb, by omega, by omega⟩))
        · exact .inr (.inr (.inr ⟨by omega, .inr (by omega)⟩))
      · exact .inr (.inl (by omega))

/-! ## The FIN -/

/-- A FIN at the end of a stream of `n` bytes arrives with the last byte in hand: that
byte is held already, or the segment brings it below the right edge of the window. The
payload of a SYN that arrives again is not kept, so it brings nothing. -/
def FinKept (n : Nat) (t : TCPReceiver) (seg : TCPSegment) : Prop :=
  seg.header.fin = true → LastHeld t.reassembler n ∨
    (seg.payload ≠ [] ∧ n ≤ t.reassembler.output.readBytes + t.reassembler.capacity ∧
      ¬ (seg.header.syn = true ∧ t.synReceived = true))

instance (n : Nat) (t : TCPReceiver) (seg : TCPSegment) : Decidable (FinKept n t seg) :=
  inferInstanceAs (Decidable (_ → _ ∨ _ ∧ _ ∧ ¬ (_ ∧ _)))

/-- What the receiver knows of the end of a stream of `n` bytes is true. -/
structure Closing (n : Nat) (t : TCPReceiver) : Prop where
  fin : t.finReceived = true → LastHeld t.reassembler n
  flag : t.reassembler.eof = true → t.finReceived = true
  ended : t.reassembler.output.endWrite = true →
    t.finReceived = true ∧ n ≤ t.reassembler.unassBase

theorem closing_new (n C : Nat) : Closing n (new C) where
  fin := by simp [new]
  flag := by simp [new, StreamReassembler.new]
  ended := by simp [new, StreamReassembler.new, ByteStream.new]

theorem closing_read {n : Nat} {t : TCPReceiver} (h : Closing n t) (len : Nat) :
    Closing n (t.readOut len).1 := by
  rw [readOut_fst]
  refine ⟨h.fin, h.flag, ?_⟩
  simpa only [popOut, ByteStream.popOutput_endWrite] using h.ended

theorem closing_segment {S : List Byte} {isn : WrappingInt32} {t u : TCPReceiver}
    {seg : TCPSegment} (h : Rx S isn t) (hcl : Closing S.length t) (hS : S.length < 2 ^ 31)
    (hc : Carries S isn seg)
    (hx : Taken t seg → Exact t.reassembler seg.payload (t.pushIndex seg))
    (hf : Taken t seg → FinKept S.length t seg) (hu : t.segmentReceived seg = .ok u) :
    Closing S.length u := by
  obtain ⟨v, hv, hcase⟩ := segmentReceived_spec seg h.inv (h.low hS) hx
  rw [hv] at hu
  cases hu
  obtain ⟨_, rfl⟩ | ⟨ht, r, rfl, _, pushed⟩ := hcase
  · exact hcl
  · have fin : t.finReceived = true ∨ seg.header.fin = true → LastHeld r S.length := by
      rintro (hold | hnew)
      · exact pushed.lastHeld_mono (hcl.fin hold)
      · rcases hf ht hnew with hl | ⟨hd, hin, hrep⟩
        · exact pushed.lastHeld_mono hl
        · obtain ⟨hsyn, hrec, _⟩ | ⟨_, hi⟩ := hc.pushIndex h.isn ht
          · exact absurd ⟨hsyn, hrec⟩ hrep
          · have hend := hc.fin hnew
            rw [← hi] at hend
            rw [← hend] at hin ⊢
            exact pushed.lastHeld_end hd hin
    have flag : r.eof = true → t.finReceived = true ∨ seg.header.fin = true := by
      intro hr
      rcases (pushed.eof.mp hr).1 with hold | hnew
      · exact .inl (hcl.flag hold)
      · exact .inr hnew
    refine ⟨?_, ?_, ?_⟩
    · simpa only [took, Bool.or_eq_true] using fin
    · simpa only [took, Bool.or_eq_true] using flag
    · simp only [took, Bool.or_eq_true]
      intro hend
      rcases pushed.ended.mp hend with hold | ⟨hr, hz, _⟩
      · obtain ⟨h1, h2⟩ := hcl.ended hold
        exact ⟨.inl h1, Nat.le_trans h2 pushed.forward⟩
      · exact ⟨flag hr, pushed.inv.lastHeld_empty (fin (flag hr)) hz⟩

/-- The FIN is acknowledged exactly when it has been noted and everything before it is
assembled. -/
theorem Closing.fin_acked {S : List Byte} {isn : WrappingInt32} {t : TCPReceiver}
    (hcl : Closing S.length t) (h : Rx S isn t) :
    (t.reassembler.empty && t.finReceived) = true ↔
      t.reassembler.unassBase = S.length ∧ t.finReceived = true := by
  have := h.agrees.within
  have := h.inv.base
  simp only [StreamReassembler.empty, Bool.and_eq_true, beq_iff_eq]
  constructor
  · rintro ⟨hz, hf⟩
    have := h.inv.lastHeld_empty (hcl.fin hf) hz
    exact ⟨by omega, hf⟩
  · rintro ⟨hb, hf⟩
    exact ⟨h.agrees.full_empty h.inv (by omega), hf⟩

theorem absAckno_eq {S : List Byte} {isn : WrappingInt32} {t : TCPReceiver}
    (hcl : Closing S.length t) (h : Rx S isn t) :
    t.absAckno = 1 + t.reassembler.unassBase +
      (if t.reassembler.unassBase = S.length ∧ t.finReceived = true then 1 else 0) := by
  rw [absAckno, ackIndex]
  by_cases hf : t.reassembler.unassBase = S.length ∧ t.finReceived = true
  · rw [(hcl.fin_acked h).mpr hf, if_pos hf]
    simp only [Bool.toNat_true]
    omega
  · have hnot := Bool.eq_false_iff.mpr (mt (hcl.fin_acked h).mp hf)
    rw [hnot, if_neg hf]
    simp only [Bool.toNat_false]
    omega

/-- The first unassembled index and the FIN flag only move forward. -/
theorem segmentReceived_forward {t u : TCPReceiver} {seg : TCPSegment} (hr : Inv t.reassembler)
    (low : t.reassembler.unassBase < 2 ^ 31)
    (hx : Taken t seg → Exact t.reassembler seg.payload (t.pushIndex seg))
    (hu : t.segmentReceived seg = .ok u) :
    t.reassembler.unassBase ≤ u.reassembler.unassBase ∧
      (t.finReceived = true → u.finReceived = true) ∧
      (t.synReceived = true → u.synReceived = true) := by
  obtain ⟨v, hv, hcase⟩ := segmentReceived_spec seg hr low hx
  rw [hv] at hu
  cases hu
  obtain ⟨_, rfl⟩ | ⟨_, r, rfl, _, pushed⟩ := hcase
  · exact ⟨Nat.le_refl _, id, id⟩
  · refine ⟨pushed.forward, ?_, fun _ => rfl⟩
    intro hf
    simp [took, hf]

/-- The acknowledgement never moves backward. -/
theorem absAckno_mono {S : List Byte} {isn : WrappingInt32} {t u : TCPReceiver}
    (ht : Rx S isn t) (hct : Closing S.length t) (hu : Rx S isn u) (hcu : Closing S.length u)
    (hbase : t.reassembler.unassBase ≤ u.reassembler.unassBase)
    (hfin : t.finReceived = true → u.finReceived = true) : t.absAckno ≤ u.absAckno := by
  have := hu.agrees.within
  have := hu.inv.base
  rw [absAckno_eq hct ht, absAckno_eq hcu hu]
  split
  · rename_i hf
    rw [if_pos ⟨by omega, hfin hf.2⟩]
    omega
  · split <;> omega

end TCPReceiver

end Sponge
