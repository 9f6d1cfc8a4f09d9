import Sponge.Assembly
import Sponge.Receiver

/-!
# Acknowledgement numbers

Runs of a receiver that is sent one stream `S` numbered from `isn`, in any order and
with loss, repetition and overlap, while the application reads. The history is that of
the reassembler's runs and whether a FIN has arrived.
-/

namespace Sponge.Acknowledgement

open WrappingInt32 StreamReassembler TCPReceiver

inductive Arrival
  | segment (seg : TCPSegment)
  | read (len : Nat)

structure State where
  rx : TCPReceiver
  got : List Byte
  accepted : Finset Nat
  finSeen : Bool

def init (capacity : Nat) : State := ⟨.new capacity, [], ∅, false⟩

def State.edge (s : State) : Nat := s.rx.streamOut.bytesRead + s.rx.capacity

/-- The positions of the stream a segment brings below the right edge of the window.
The code gives a SYN that arrives again no position, so it brings none. -/
def brought (isn : WrappingInt32) (s : State) (seg : TCPSegment) : Finset Nat :=
  if seg.header.syn = true ∧ s.rx.synReceived = true then ∅
  else
    let index := place isn seg - 1
    Finset.Ico index (min (index + seg.payload.length) s.edge)

def step (isn : WrappingInt32) (s : State) : Arrival → Except Fault State
  | .segment seg => do
    let rx ← s.rx.segmentReceived seg
    return { s with
      rx := rx
      accepted := s.accepted ∪ brought isn s seg
      finSeen := s.finSeen || seg.header.fin }
  | .read len =>
    let (rx, bytes) := s.rx.readOut len
    .ok { s with rx := rx, got := s.got ++ bytes }

/-- The SYN comes first, every segment is one of `S`, and no payload starts past the
right edge of the window. -/
def InWindow (S : List Byte) (isn : WrappingInt32) (s : State) : Arrival → Prop
  | .segment seg => Carries S isn seg ∧ Taken s.rx seg ∧
      (seg.payload ≠ [] → place isn seg - 1 ≤ s.edge)
  | .read _ => True

instance (S : List Byte) (isn : WrappingInt32) (s : State) :
    (e : Arrival) → Decidable (InWindow S isn s e)
  | .segment seg => inferInstanceAs (Decidable (Carries S isn seg ∧ Taken s.rx seg ∧
      (seg.payload ≠ [] → place isn seg - 1 ≤ s.edge)))
  | .read _ => inferInstanceAs (Decidable True)

/-- A FIN comes with the last byte of the stream in hand. -/
def FinInHand (S : List Byte) (s : State) : Arrival → Prop
  | .segment seg => FinKept S.length s.rx seg
  | .read _ => True

instance (S : List Byte) (s : State) : (e : Arrival) → Decidable (FinInHand S s e)
  | .segment seg => inferInstanceAs (Decidable (FinKept S.length s.rx seg))
  | .read _ => inferInstanceAs (Decidable True)

/-! ## The reassembler's run -/

/-- The run of the reassembler inside. -/
def State.view (s : State) : Assembly.State := ⟨s.rx.reassembler, s.got, s.accepted⟩

theorem view_read {isn : WrappingInt32} {s t : State} {len : Nat}
    (h : step isn s (.read len) = .ok t) : Assembly.step s.view (.read len) = .ok t.view := by
  cases h
  rfl

/-- No arrival in the window makes an offset wrap. -/
theorem exact_of_inWindow {S : List Byte} {isn : WrappingInt32} {s : State} {seg : TCPSegment}
    (hrx : Rx S isn s.rx) (hS : S.length < 2 ^ 31) (hcap : s.rx.capacity < 2 ^ 63)
    (hw : InWindow S isn s (.segment seg)) :
    Exact s.rx.reassembler seg.payload (s.rx.pushIndex seg) := by
  obtain ⟨hc, ht, hedge⟩ := hw
  apply exact_of_fits hrx hS hcap hc _ ht
  by_cases hd : seg.payload = []
  · exact .inl hd
  · exact .inr (.inl (hedge hd))

/-- An arrival is a push of the reassembler's run. -/
theorem view_segment {S : List Byte} {isn : WrappingInt32} {s t : State} {seg : TCPSegment}
    (hrx : Rx S isn s.rx) (hS : S.length < 2 ^ 31) (hcap : s.rx.capacity < 2 ^ 63)
    (hw : InWindow S isn s (.segment seg)) (h : step isn s (.segment seg) = .ok t) :
    Assembly.step s.view (.push seg.payload (s.rx.pushIndex seg) seg.header.fin) = .ok t.view := by
  have hx := exact_of_inWindow hrx hS hcap hw
  obtain ⟨hc, ht, _⟩ := hw
  obtain ⟨u, hu, hcase⟩ := segmentReceived_spec seg hrx.inv (hrx.low hS) (fun _ => hx)
  obtain ⟨hnot, _⟩ | ⟨_, r, rfl, hpush, _⟩ := hcase
  · exact absurd ht hnot
  · simp only [step, hu, Exec.ok_bind, Exec.pure_ok, Except.ok.injEq] at h
    subst h
    have hedge : s.view.edge = s.edge := by
      simp only [Assembly.State.edge, State.edge, State.view, streamOut, hrx.capacity]
    have hset : Finset.Ico (s.rx.pushIndex seg)
        (min (s.rx.pushIndex seg + seg.payload.length) s.edge) = brought isn s seg := by
      obtain ⟨hsyn, hrec, hi⟩ | ⟨hrep, hi⟩ := hc.pushIndex hrx.isn ht
      · have hlow := hrx.low hS
        have hbase := hrx.inv.base
        have hread := s.rx.reassembler.output.read_le_written
        rw [brought, if_pos ⟨hsyn, hrec⟩, hi]
        apply Finset.Ico_eq_empty
        simp only [State.edge, streamOut, ByteStream.bytesRead]
        omega
      · rw [brought, if_neg hrep, hi]
    simp only [Assembly.step, hedge, hset]
    simp only [State.view, hpush, Exec.ok_bind]
    rfl

/-! ## Every run -/

structure Sound (S : List Byte) (isn : WrappingInt32) (C : Nat) (s : State) : Prop where
  rx : Rx S isn s.rx
  closing : Closing S.length s.rx
  capacity : s.rx.capacity = C
  run : Assembly.Sound C s.view
  got : s.got = S.take s.rx.reassembler.output.readBytes
  fin : s.finSeen = s.rx.finReceived

theorem sound_init (S : List Byte) (isn : WrappingInt32) {C : Nat} (hC : 1 ≤ C) :
    Sound S isn C (init C) where
  rx := rx_new S isn hC
  closing := closing_new S.length C
  capacity := rfl
  run := Assembly.sound_init hC
  got := by simp [init, TCPReceiver.new, StreamReassembler.new, ByteStream.new]
  fin := rfl

theorem sound_step {S : List Byte} {isn : WrappingInt32} {C : Nat} (hS : S.length < 2 ^ 31)
    (hC' : C < 2 ^ 63) {s t : State} {e : Arrival} (hs : Sound S isn C s)
    (hw : InWindow S isn s e) (hf : FinInHand S s e) (h : step isn s e = .ok t) :
    Sound S isn C t := by
  have hcap : s.rx.capacity < 2 ^ 63 := hs.capacity ▸ hC'
  cases e with
  | segment seg =>
    have hx := exact_of_inWindow hs.rx hS hcap hw
    have hrun := Assembly.sound_step hs.run
      (c := .push seg.payload (s.rx.pushIndex seg) seg.header.fin) hx
      (view_segment hs.rx hS hcap hw h)
    obtain ⟨hc, ht, _⟩ := hw
    obtain ⟨u, hu, hcase⟩ := segmentReceived_spec seg hs.rx.inv (hs.rx.low hS) (fun _ => hx)
    have hrx := rx_segment hs.rx hS hcap hc (fun _ => hx) hu
    have hcl := closing_segment hs.rx hs.closing hS hc (fun _ => hx) (fun _ => hf) hu
    obtain ⟨hnot, _⟩ | ⟨_, r, rfl, _, pushed⟩ := hcase
    · exact absurd ht hnot
    · simp only [step, hu, Exec.ok_bind, Exec.pure_ok, Except.ok.injEq] at h
      subst h
      refine ⟨hrx, hcl, hs.capacity, hrun, ?_, ?_⟩
      · rw [hs.got]
        simp only [took, pushed.frame.2]
      · simp only [took, hs.fin]
  | read len =>
    have hview := view_read h
    have hrun := Assembly.sound_step hs.run (c := .read len) trivial hview
    have hgot := (Assembly.faithful_step hs.run ⟨hs.rx.agrees, hs.got⟩ (c := .read len)
      trivial trivial hview).got
    cases h
    refine ⟨rx_read hs.rx len, closing_read hs.closing len, ?_, hrun, hgot, ?_⟩
    · simpa only [readOut_fst] using hs.capacity
    · simpa only [readOut_fst] using hs.fin

/-- Arrivals of `S` in the window whose FIN comes with the last byte in hand. -/
abbrev WellPlaced (S : List Byte) (isn : WrappingInt32) (s : State) (e : Arrival) : Prop :=
  InWindow S isn s e ∧ FinInHand S s e

/-- **Exact acknowledgement.** After each segment, with `L` the first position not
accepted, exactly `S[0..L)` has been assembled and the acknowledgement is the number
after it, plus one once the whole stream is assembled and a FIN has arrived. It never
moves backward. -/
theorem ackno_exact (S : List Byte) (isn : WrappingInt32) (C : Nat) (hS : S.length < 2 ^ 31)
    (hC : 1 ≤ C) (hC' : C < 2 ^ 63) (s : State)
    (h : Exec.Reach (step isn) (WellPlaced S isn) (init C) s) :
    (∀ seg, WellPlaced S isn s (.segment seg) → ∃ t L, step isn s (.segment seg) = .ok t ∧
      (∀ p, p < L → p ∈ t.accepted) ∧ L ∉ t.accepted ∧ L ≤ S.length ∧
      t.got ++ t.rx.streamOut.buffer = S.take L ∧
      t.rx.absAckno = 1 + L + (if L = S.length ∧ t.finSeen = true then 1 else 0) ∧
      t.rx.ackno = some (wrap t.rx.absAckno isn) ∧ s.rx.absAckno ≤ t.rx.absAckno) ∧
    ∀ len t, step isn s (.read len) = .ok t → t.rx.ackno = s.rx.ackno := by
  have hs := h.invariant (I := Sound S isn C) (sound_init S isn hC)
    (fun s e t hs ha hstep => sound_step hS hC' hs ha.1 ha.2 hstep)
  constructor
  · rintro seg ⟨hw, hf⟩
    have hcap : s.rx.capacity < 2 ^ 63 := hs.capacity ▸ hC'
    have hx := exact_of_inWindow hs.rx hS hcap hw
    obtain ⟨u, hu, hcase⟩ := segmentReceived_spec seg hs.rx.inv (hs.rx.low hS) (fun _ => hx)
    obtain ⟨t, ht⟩ : ∃ t, step isn s (.segment seg) = .ok t :=
      ⟨_, by simp only [step, hu, Exec.ok_bind]; rfl⟩
    have htu : t.rx = u := by
      simp only [step, hu, Exec.ok_bind, Exec.pure_ok, Except.ok.injEq] at ht
      rw [← ht]
    have hst := sound_step hS hC' hs hw hf ht
    obtain ⟨hbase, hfin, _⟩ :=
      segmentReceived_forward hs.rx.inv (hs.rx.low hS) (fun _ => hx) hu
    rw [← htu] at hbase hfin
    obtain ⟨hall, hnot⟩ := hst.run.first_missing
    have hsyn : t.rx.synReceived = true := by
      obtain ⟨hnt, _⟩ | ⟨_, r, rfl, _⟩ := hcase
      · exact absurd hw.2.1 hnt
      · rw [htu]
        rfl
    refine ⟨t, t.rx.reassembler.unassBase, ht, hall, hnot, ?_, ?_, ?_, ?_, ?_⟩
    · rw [hst.rx.inv.base]
      exact hst.rx.agrees.within
    · rw [hst.rx.inv.base]
      exact Assembly.Faithful.written (s := t.view) ⟨hst.rx.agrees, hst.got⟩
    · rw [absAckno_eq hst.closing hst.rx, hst.fin]
    · simp [ackno, hsyn, hst.rx.isn hsyn]
    · exact absAckno_mono hs.rx hs.closing hst.rx hst.closing hbase hfin
  · rintro len t ht
    cases ht
    rfl

/-- The last byte and the FIN first: the byte before them brings both acknowledged. -/
theorem ackno_exact_ab :
    ∃ s, Exec.Reach (step ⟨7⟩) (WellPlaced [97, 98] ⟨7⟩) (init 4) s ∧
      s.rx.ackno = some (wrap 1 ⟨7⟩) ∧
      ∃ t L, step ⟨7⟩ s (.segment { header := { seqno := ⟨8⟩ }, payload := [97] }) = .ok t ∧
        t.got ++ t.rx.streamOut.buffer = [97, 98].take L ∧
        t.rx.ackno = some (wrap t.rx.absAckno ⟨7⟩) ∧ s.rx.absAckno ≤ t.rx.absAckno := by
  obtain ⟨s, reached, hv⟩ := Exec.reach_of_view (step ⟨7⟩) (WellPlaced [97, 98] ⟨7⟩) (init 4)
    [.segment { header := { seqno := ⟨7⟩, syn := true } },
      .segment { header := { seqno := ⟨9⟩, fin := true }, payload := [98] }]
    (fun s => (s.rx.ackno, decide (WellPlaced [97, 98] ⟨7⟩ s
      (.segment { header := { seqno := ⟨8⟩ }, payload := [97] }))))
    (some (wrap 1 ⟨7⟩), true) (by decide)
  obtain ⟨hack, hplaced⟩ := Prod.mk.inj hv
  obtain ⟨t, L, ht, _, _, _, hbytes, _, hackno, hle⟩ :=
    (ackno_exact [97, 98] ⟨7⟩ 4 (by decide) (by decide) (by decide) s reached).1 _
      (of_decide_eq_true hplaced)
  exact ⟨s, reached, hack, t, L, ht, hbytes, hackno, hle⟩

/-- A FIN without payload that overtakes the two bytes before it: no byte has been
received, yet the number after the first is acknowledged. -/
theorem early_fin_acknowledged :
    ∃ s, Exec.Reach (step ⟨7⟩) (InWindow [97, 98] ⟨7⟩) (init 4) s ∧ s.accepted = ∅ ∧
      s.rx.streamOut.bytesWritten = 0 ∧ s.rx.ackno = some (wrap (1 + 0 + 1) ⟨7⟩) := by
  obtain ⟨s, reached, hv⟩ := Exec.reach_of_view (step ⟨7⟩) (InWindow [97, 98] ⟨7⟩) (init 4)
    [.segment { header := { seqno := ⟨7⟩, syn := true } },
      .segment { header := { seqno := ⟨10⟩, fin := true } }]
    (fun s => (s.accepted, s.rx.streamOut.bytesWritten, s.rx.ackno))
    (∅, 0, some (wrap (1 + 0 + 1) ⟨7⟩)) (by decide)
  exact ⟨s, reached, by simpa using hv⟩

end Sponge.Acknowledgement
