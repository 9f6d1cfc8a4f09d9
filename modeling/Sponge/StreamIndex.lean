import Sponge.Promise

/-!
# Sequence numbers and stream indices

After the SYN, `segment_received` pushes a payload at `unwrap(seqno, isn, ack_index) - 1`.

* `push_past_window`: a SYN that comes again has number 0, and its payload is pushed at
  `0 - 1`, past every window, which is as good as index 0 only when it has nothing to add;
* `stream_index`: when a segment is pushed where it belongs.
-/

namespace Sponge

open Words WrappingInt32 StreamReassembler

/-! ## The index of a repeated SYN -/

namespace StreamReassembler

theorem slid_zero (r : StreamReassembler) : r.slid 0 = r := by
  simp [slid, slidBy, sub64, ByteStream.write]

/-- With its first place free nothing is assembled. -/
theorem checkContiguous_front {r : StreamReassembler} (hr : Regular r) (pos : 0 < r.capacity)
    (hfront : r.bitmap[0]? ≠ some true) : r.checkContiguous = .ok r := by
  obtain ⟨k, hk, -, hok⟩ := checkContiguous_eq hr pos
  cases k with
  | zero => rw [hok, slid_zero]
  | succ k => exact absurd (hk.2 0 (Nat.succ_pos k)) hfront

/-- Data that end before the window have nothing to store. -/
theorem place_behind {r : StreamReassembler} {data : List Byte} {index : Nat}
    (h : index + data.length ≤ r.unassBase) : r.place data index = .ok r := by
  unfold place
  split
  · rename_i hle
    have hnil : data = [] := List.eq_nil_of_length_eq_zero (by omega)
    simp [placeAhead, hnil, store]
  · rw [if_neg (by omega)]

/-- The end mark is set, nothing waits, and the input goes on. -/
def Overdue (r : StreamReassembler) (eof : Bool) : Prop :=
  (r.eof || eof) = true ∧ r.unassSize = 0 ∧ r.output.endWrite = false

instance (r : StreamReassembler) (eof : Bool) : Decidable (Overdue r eof) :=
  inferInstanceAs (Decidable (_ ∧ _ ∧ _))

/-- Pushed past the window, data have the effect of data that end before it, except that the
end of input is left for the next push. -/
theorem push_past_window {r : StreamReassembler} (hr : Intact r)
    (hfront : r.bitmap[0]? ≠ some true) {data : List Byte} {index far : Nat} (eof : Bool)
    (hfar : r.unassBase + r.capacity ≤ far) (hbehind : index + data.length ≤ r.unassBase)
    (hdone : data = [] ∨ ¬ Overdue r eof) :
    r.pushSubstring data far eof = r.pushSubstring data index eof := by
  simp only [pushSubstring, noteEof_eq, hfar, ↓reduceIte]
  split
  · rfl
  · rename_i hnot
    split
    · rfl
    · rename_i hin
      rw [place_behind (r := { r with eof := r.eof || eof }) hbehind, Exec.ok_bind,
        checkContiguous_front (r := { r with eof := r.eof || eof }) (hr.regular.withEof _)
          (hr.pos hin) hfront, Exec.ok_bind]
      obtain ⟨hcl, -⟩ | ⟨hcl, heof, hz⟩ := closeIfDone_eq { r with eof := r.eof || eof }
      · rw [hcl]
      · rw [hcl]
        have heof : (r.eof || eof) = true := heof
        have hz : r.unassSize = 0 := hz
        cases hended : r.output.endWrite with
        | true =>
          have hsame : r.output.endInput = r.output := by rw [ByteStream.endInput, ← hended]
          simp only [hsame]
        | false =>
          rcases hdone with rfl | hdone
          · simp [heof, hz] at hnot
          · exact absurd ⟨heof, hz, hended⟩ hdone

end StreamReassembler

/-! ## The segments of every run -/

namespace TCPReceiver

/-- The segment with absolute number `a` is pushed at the index it has in the stream: without
a SYN, `unwrap` returns; a SYN that comes again brings no bytes, or only bytes that have been
assembled and no end of input to be noted. -/
def Indexed (t : TCPReceiver) (a : Nat) (seg : TCPSegment) : Prop :=
  if seg.header.syn then seg.payload = [] ∨
    seg.payload.length ≤ t.reassembler.ackIndex ∧ ¬ Overdue t.reassembler seg.header.fin
  else a + 2 ^ 32 < 2 ^ 64 ∨ t.reassembler.ackIndex < a

instance (t : TCPReceiver) (a : Nat) (seg : TCPSegment) : Decidable (Indexed t a seg) := by
  unfold Indexed; infer_instance

/-- What every arrival and every read keeps. -/
structure Receptive (C : Nat) (t : TCPReceiver) : Prop where
  intact : Intact t.reassembler
  front : t.reassembler.bitmap[0]? ≠ some true
  capacity : t.reassembler.capacity = C

theorem receptive_new (C : Nat) : Receptive C (new C) where
  intact := intact_new C
  front := by simp [new, StreamReassembler.new, List.getElem?_replicate]
  capacity := rfl

theorem receptive_segment {C : Nat} {t u : TCPReceiver} {seg : TCPSegment} (h : Receptive C t)
    (hu : t.segmentReceived seg = .ok u) : Receptive C u := by
  rcases segmentReceived_any hu with ⟨-, rfl⟩ | ⟨index, r, hr, rfl, -⟩
  · exact h
  · constructor
    · exact push_intact h.intact hr
    · exact push_front h.intact h.front hr
    · exact (push_capacity h.intact hr).trans h.capacity

theorem receptive_read {C : Nat} {t : TCPReceiver} (h : Receptive C t) (len : Nat) :
    Receptive C (t.readOut len).1 := by
  rw [readOut_fst]
  constructor
  · exact h.intact.withOutput _ (t.reassembler.output.popOutput_capacity len)
  · exact h.front
  · exact h.capacity

theorem receptive_step {C : Nat} {s t : Promise.State} {e : Promise.Event} (h : Receptive C s.rx)
    (ht : Promise.step s e = .ok t) : Receptive C t.rx := by
  cases e with
  | segment _ seg =>
    obtain ⟨rx, hrx, ht⟩ := Exec.bind_eq_ok.mp ht
    cases ht
    exact receptive_segment h hrx
  | read len =>
    cases ht
    exact receptive_read h len

/-- After the SYN the payload is pushed one below the number that `unwrap` finds. -/
theorem segmentReceived_pushes {t : TCPReceiver} {seg : TCPSegment} {a : Nat}
    (hs : t.synReceived = true)
    (ha : unwrap seg.header.seqno t.isn t.reassembler.unassBase = .ok a) :
    (t.segmentReceived seg).map reassembler =
      t.reassembler.pushSubstring seg.payload (sub64 a 1) seg.header.fin := by
  rw [segmentReceived_later seg hs, ha, Exec.ok_bind]
  cases t.reassembler.pushSubstring seg.payload (sub64 a 1) seg.header.fin with
  | error e => rfl
  | ok r => rfl

/-- **Sequence numbers and stream indices.** In every state of the receiver after the SYN, a
segment whose absolute number is less than `2 ^ 31` away from `ack_index` does to the
reassembler what a push at its own stream index does, if `Indexed` allows it. -/
theorem stream_index (C : Nat) (hC : C < 2 ^ 63) (s : Promise.State)
    (h : Exec.Reach Promise.step (fun _ _ => True) (Promise.init C) s)
    (hs : s.rx.synReceived = true) (hc : s.rx.reassembler.ackIndex < 2 ^ 64) (seg : TCPSegment)
    (a : Nat) (hseq : seg.header.seqno = wrap a s.rx.isn)
    (hlo : s.rx.reassembler.ackIndex < a + 2 ^ 31) (hhi : a < s.rx.reassembler.ackIndex + 2 ^ 31)
    (hkind : seg.header.syn = false ∧ 1 ≤ a ∧ a < 2 ^ 64 ∨ seg.header.syn = true ∧ a = 0)
    (hindex : Indexed s.rx a seg) :
    (s.rx.segmentReceived seg).map reassembler =
      s.rx.reassembler.pushSubstring seg.payload (a + seg.header.syn.toNat - 1)
        seg.header.fin := by
  have hreceptive : Receptive C s.rx :=
    h.invariant (I := fun s => Receptive C s.rx) (receptive_new C)
    (fun _ _ _ hs _ ht => receptive_step hs ht)
  rw [ackIndex] at hc hlo hhi
  rcases hkind with ⟨hsyn, hpos, htop⟩ | ⟨hsyn, rfl⟩
  · simp only [Indexed, hsyn, Bool.false_eq_true, ↓reduceIte, ackIndex] at hindex
    have hunwrap : unwrap seg.header.seqno s.rx.isn s.rx.reassembler.unassBase = .ok a := by
      rw [hseq]
      exact unwrap_close htop hc hlo (Nat.le_of_lt hhi) hindex
    rw [segmentReceived_pushes hs hunwrap, sub64_of_le hpos, hsyn, Bool.toNat_false, Nat.add_zero]
  · simp only [Indexed, hsyn, ↓reduceIte, ackIndex] at hindex
    have hunwrap : unwrap seg.header.seqno s.rx.isn s.rx.reassembler.unassBase = .ok 0 := by
      rw [hseq]
      exact unwrap_close (by decide) hc hlo (Nat.zero_le _) (.inl (by decide))
    have hcap := hreceptive.capacity
    rw [segmentReceived_pushes hs hunwrap, hsyn, sub64_of_lt (by decide)]
    apply push_past_window hreceptive.intact hreceptive.front
    · omega
    · rcases hindex with hnil | ⟨hlen, -⟩
      · simp [hnil]
      · simpa using hlen
    · exact hindex.imp_right And.right

/-- Two bytes are assembled, then the SYN comes again with the first of them. -/
theorem stream_index_again :
    ∃ s, Exec.Reach Promise.step (fun _ _ => True) (Promise.init 4) s ∧
      s.rx.reassembler.ackIndex = 2 ∧
      (s.rx.segmentReceived { header := { seqno := ⟨7⟩, syn := true }, payload := [97] }).map
        reassembler = s.rx.reassembler.pushSubstring [97] 0 false := by
  obtain ⟨s, reached, hv⟩ := Exec.reach_of_view Promise.step (fun _ _ => True) (Promise.init 4)
    [.segment 0 { header := { seqno := ⟨7⟩, syn := true }, payload := [97, 98] }]
    (fun s => (s.rx.synReceived, s.rx.isn, s.rx.reassembler.ackIndex, decide (Indexed s.rx 0
      { header := { seqno := ⟨7⟩, syn := true }, payload := [97] })))
    (true, ⟨7⟩, 2, true) (by decide +kernel)
  simp only [Prod.mk.injEq, decide_eq_true_eq] at hv
  obtain ⟨hsyn, hisn, hack, hindex⟩ := hv
  refine ⟨s, reached, hack, stream_index 4 (by decide) s reached hsyn (by omega) _ 0 ?_ (by omega)
    (by omega) (.inr ⟨rfl, rfl⟩) hindex⟩
  rw [hisn]
  rfl

/-- The SYN comes again, now with the first byte: the byte is not at its place in the stream,
where a push at index 0 would have put it. -/
theorem repeated_syn_misplaced :
    ∃ s t r, Exec.Reach Promise.step (fun _ _ => True) (Promise.init 4) s ∧
      s.rx.synReceived = true ∧ s.rx.isn = ⟨7⟩ ∧ s.rx.reassembler.ackIndex = 0 ∧
      s.rx.segmentReceived { header := { seqno := ⟨7⟩, syn := true }, payload := [97] } = .ok t ∧
      s.rx.reassembler.pushSubstring [97] 0 false = .ok r ∧
      t.reassembler.output.bytesWritten = 0 ∧ r.output.bytesWritten = 1 := by
  obtain ⟨s, reached, hv⟩ := Exec.reach_of_view Promise.step (fun _ _ => True) (Promise.init 4)
    [.segment 0 { header := { seqno := ⟨7⟩, syn := true } }]
    (fun s => ((s.rx.synReceived, s.rx.isn, s.rx.reassembler.ackIndex),
      (s.rx.segmentReceived
          { header := { seqno := ⟨7⟩, syn := true }, payload := [97] }).toOption.map
        fun t => t.reassembler.output.bytesWritten,
      (s.rx.reassembler.pushSubstring [97] 0 false).toOption.map fun r => r.output.bytesWritten))
    ((true, ⟨7⟩, 0), some 0, some 1) (by decide +kernel)
  simp only [Prod.mk.injEq] at hv
  obtain ⟨⟨hsyn, hisn, hack⟩, hview, hview'⟩ := hv
  obtain ⟨t, ht, hnone⟩ := Exec.ok_of_view _ _ hview
  obtain ⟨r, hr, hone⟩ := Exec.ok_of_view _ _ hview'
  exact ⟨s, t, r, reached, hsyn, hisn, hack, ht, hr, hnone, hone⟩

end TCPReceiver

end Sponge
