import Sponge.Receiver

/-!
# The promised window

Runs of one receiver. Each segment comes with its absolute number, and the history beside
the receiver is the right edge of its window at every moment since the SYN.

* `push_new`: a byte that a push newly holds is the one it brought;
* `promise_kept`: what a later segment brings below an edge once promised is held.
-/

namespace Sponge.Promise

open Words WrappingInt32 StreamReassembler TCPReceiver

inductive Event
  | segment (number : Nat) (seg : TCPSegment)
  | read (len : Nat)

structure State where
  rx : TCPReceiver
  promises : List Nat

def init (capacity : Nat) : State := ⟨.new capacity, []⟩

/-- The right edge of the window, from the SYN on. -/
def promised (t : TCPReceiver) : List Nat :=
  if t.synReceived then [t.reassembler.ackIndex + t.windowSize] else []

def note (s : State) (rx : TCPReceiver) : State := ⟨rx, s.promises ++ promised rx⟩

def step (s : State) : Event → Except Fault State
  | .segment _ seg => do
    let rx ← s.rx.segmentReceived seg
    return note s rx
  | .read len => .ok (note s (s.rx.readOut len).1)

/-- The stream index of the first byte of the payload. A SYN takes the number before it. -/
def start (number : Nat) (seg : TCPSegment) : Nat := number + seg.header.syn.toNat - 1

/-- The segment brings the byte `b` at stream index `i`. -/
def Brings (number : Nat) (seg : TCPSegment) (i : Nat) (b : Byte) : Prop :=
  ∃ j, seg.payload[j]? = some b ∧ i + 1 = number + seg.header.syn.toNat + j

/-- The number given is that of the segment. The first SYN has number 0. -/
def HasNumber (s : State) (number : Nat) (seg : TCPSegment) : Prop :=
  if s.rx.synReceived then seg.header.seqno = wrap number s.rx.isn else number = 0

instance (s : State) (number : Nat) (seg : TCPSegment) : Decidable (HasNumber s number seg) := by
  unfold HasNumber; infer_instance

/-- The segment starts no later than the right edge of the window. -/
def InWindow (s : State) : Event → Prop
  | .segment number seg => HasNumber s number seg ∧
      start number seg ≤ s.rx.reassembler.ackIndex + s.rx.windowSize
  | .read _ => True

instance (s : State) : (e : Event) → Decidable (InWindow s e)
  | .segment number seg => inferInstanceAs (Decidable (HasNumber s number seg ∧
      start number seg ≤ s.rx.reassembler.ackIndex + s.rx.windowSize))
  | .read _ => inferInstanceAs (Decidable True)

/-- The payload comes without a SYN, numbered within half the range of the first unassembled
byte; or it is that of a SYN that comes again, and has been assembled. -/
def InHalfRange (t : TCPReceiver) (number : Nat) (seg : TCPSegment) : Prop :=
  (seg.header.syn = false ∧ 1 ≤ number ∧ t.reassembler.ackIndex + 1 < number + 2 ^ 31 ∧
    number ≤ t.reassembler.ackIndex + 2 ^ 31) ∨
  (seg.header.syn = true ∧ number = 0 ∧ t.reassembler.ackIndex < 2 ^ 31 ∧
    seg.payload.length ≤ t.reassembler.ackIndex)

instance (t : TCPReceiver) (number : Nat) (seg : TCPSegment) :
    Decidable (InHalfRange t number seg) :=
  inferInstanceAs (Decidable (_ ∨ _))

/-- After the SYN every payload is in that range, and the stream stays clear of `2 ^ 64`. -/
def Placeable (s : State) : Event → Prop
  | .segment number seg => s.rx.synReceived = true →
      s.rx.reassembler.ackIndex + 2 ^ 32 < 2 ^ 64 ∧ (seg.payload ≠ [] → InHalfRange s.rx number seg)
  | .read _ => True

instance (s : State) : (e : Event) → Decidable (Placeable s e)
  | .segment number seg => inferInstanceAs (Decidable (s.rx.synReceived = true →
      s.rx.reassembler.ackIndex + 2 ^ 32 < 2 ^ 64 ∧
        (seg.payload ≠ [] → InHalfRange s.rx number seg)))
  | .read _ => inferInstanceAs (Decidable True)

abbrev Allowed (s : State) (e : Event) : Prop := InWindow s e ∧ Placeable s e

/-! ## The bytes newly held -/

/-- The byte at stream index `i`, assembled and unread or waiting. -/
def byteAt (r : StreamReassembler) (i : Nat) : Option Byte :=
  if i < r.unassBase then r.output.buffer[i - r.output.readBytes]? else r.slot (i - r.unassBase)

theorem byteAt_assembled {t u : StreamReassembler} {k i : Nat} (ht : Shape t)
    (h : Assembled t k u) (hi : t.unassBase ≤ i) : byteAt u i = t.slot (i - t.unassBase) := by
  have hcounts := t.output.counts
  have hbase := ht.base
  unfold byteAt
  rw [h.moved]
  split
  · -- one of the bytes gathered
    rename_i hlt
    have hmark := h.passed.2 (i - t.unassBase) (by omega)
    rw [h.out, h.frame.2.2.1, List.getElem?_append_right (by omega), List.getElem?_take,
      if_pos (by omega), slot, if_pos hmark]
    congr 1
    omega
  · rename_i hge
    rw [h.slots]
    congr 1
    omega

theorem byteAt_closeIfDone (r : StreamReassembler) (i : Nat) :
    byteAt r.closeIfDone i = byteAt r i := by
  obtain ⟨h, _⟩ | ⟨h, _⟩ := closeIfDone_eq r
  · rw [h]
  · rw [h]
    rfl

theorem slot_held {r : StreamReassembler} {i : Nat} {c : Byte}
    (h : r.slot (i - r.unassBase) = some c) : Held r i := by
  unfold slot at h
  split at h
  · rename_i hmark
    exact .inr hmark
  · cases h

theorem held_slot {r : StreamReassembler} (hr : Shape r) {i : Nat} (hi : r.unassBase ≤ i)
    (h : Held r i) : ∃ c, r.slot (i - r.unassBase) = some c := by
  rcases h with h | h
  · omega
  · have hlt := (List.getElem?_eq_some_iff.mp h).1
    rw [hr.bits, ← hr.cells] at hlt
    exact ⟨_, by rw [slot, if_pos h, List.getElem?_eq_getElem hlt]⟩

/-- **New bytes.** What is held after a push and was not before is what it brought. -/
theorem push_new {r t : StreamReassembler} (hr : Inv r) {data : List Byte} {index : Nat}
    {eof : Bool} (hx : Exact r data index) (h : r.pushSubstring data index eof = .ok t) {i : Nat}
    (hi : Held t i) (hno : ¬ Held r i) : index ≤ i ∧ byteAt t i = data[i - index]? := by
  obtain ⟨_, _, _, h'⟩ | ⟨_, _, h'⟩ | ⟨_, _, v, k, u, placed, assembled, h'⟩ :=
    push_cases hr eof hx
  · rw [h'] at h
    cases h
    exact absurd hi hno
  · rw [h'] at h
    cases h
    exact absurd hi hno
  · rw [h'] at h
    cases h
    have hbase : v.unassBase = r.unassBase := placed.frame.1
    have hle : v.unassBase ≤ i := by
      rw [hbase]
      exact Nat.le_of_not_lt fun hlt => hno (.inl hlt)
    have hheld : Held v i := by
      rw [← assembled.held]
      obtain ⟨hcl, _⟩ | ⟨hcl, _⟩ := closeIfDone_eq u
      · rwa [hcl] at hi
      · rwa [hcl] at hi
    obtain ⟨c, hc⟩ := held_slot placed.shape hle hheld
    rw [byteAt_closeIfDone, byteAt_assembled placed.shape assembled hle, hc]
    rcases placed.bytes _ c hc with hold | ⟨hge, hdata⟩
    · rw [hbase] at hold
      exact absurd (slot_held (r := r) hold) hno
    · have hback : r.unassBase + (i - v.unassBase) = i := by omega
      dsimp only at hge hdata
      rw [hback] at hge hdata
      exact ⟨hge, hdata.symm⟩

/-! ## Every run -/

structure Sound (C : Nat) (s : State) : Prop where
  inv : Inv s.rx.reassembler
  window : s.rx.reassembler.capacity = s.rx.capacity
  capacity : s.rx.capacity = C
  fresh : s.rx.synReceived = false → s.rx.reassembler.unassBase = 0 ∧ s.promises = []
  promises : ∀ e ∈ s.promises, e ≤ s.rx.reassembler.output.readBytes + C

theorem sound_init {C : Nat} (hC : 1 ≤ C) : Sound C (init C) where
  inv := inv_new hC
  window := rfl
  capacity := rfl
  fresh := fun _ => ⟨rfl, rfl⟩
  promises := by simp [init]

/-- The right edge is `bytes_read + capacity`. -/
theorem edge_eq {t : TCPReceiver} (hi : Inv t.reassembler)
    (hw : t.reassembler.capacity = t.capacity) :
    t.reassembler.ackIndex + t.windowSize = t.reassembler.output.readBytes + t.capacity := by
  have hf := t.reassembler.output.fits
  have hc := t.reassembler.output.counts
  have hb := hi.base
  rw [hi.room, hw] at hf
  rw [windowSize, ByteStream.bufferSize, sub64_of_le hf, ackIndex]
  omega

/-- Edges promised before stay below one that has not moved back. -/
theorem Sound.note {C : Nat} {s : State} {rx : TCPReceiver} (h : Sound C s)
    (hi : Inv rx.reassembler) (hw : rx.reassembler.capacity = rx.capacity) (hcap : rx.capacity = C)
    (hfresh : rx.synReceived = false → s.rx.synReceived = false ∧ rx.reassembler.unassBase = 0)
    (hread : s.rx.reassembler.output.readBytes ≤ rx.reassembler.output.readBytes) :
    Sound C (note s rx) := by
  constructor
  · exact hi
  · exact hw
  · exact hcap
  · intro hs
    obtain ⟨hold, hbase⟩ := hfresh hs
    change rx.synReceived = false at hs
    exact ⟨hbase, by simp [Promise.note, promised, hs, (h.fresh hold).2]⟩
  · intro e he
    rcases List.mem_append.mp he with he | he
    · have := h.promises e he
      change e ≤ rx.reassembler.output.readBytes + C
      omega
    · unfold promised at he
      split at he
      · rw [List.mem_singleton.mp he, edge_eq hi hw, hcap]
        exact Nat.le_refl _
      · cases he

/-- Where the payload of a segment goes. That of a SYN that comes again goes past every
window. -/
inductive GoesTo (s : State) (number : Nat) (seg : TCPSegment) (index : Nat) : Prop
  | empty : seg.payload = [] → GoesTo s number seg index
  | placed : index = start number seg → 1 ≤ number + seg.header.syn.toNat →
      GoesTo s number seg index
  | again : number + seg.header.syn.toNat = 1 →
      seg.payload.length ≤ s.rx.reassembler.unassBase → GoesTo s number seg index

/-- The index at which a payload in that range is pushed after the SYN. -/
theorem inHalfRange_index {C : Nat} (hC : C < 2 ^ 63) {s : State} {number : Nat} {seg : TCPSegment}
    (h : Sound C s) (hs : s.rx.synReceived = true) (ha : Allowed s (.segment number seg)) :
    ∃ a, unwrap seg.header.seqno s.rx.isn s.rx.reassembler.unassBase = .ok a ∧
      Exact s.rx.reassembler seg.payload (sub64 a 1) ∧ GoesTo s number seg (sub64 a 1) := by
  obtain ⟨⟨hnumber, hedge⟩, hplace⟩ := ha
  obtain ⟨htop, hrange⟩ := hplace hs
  simp only [HasNumber, hs, ↓reduceIte] at hnumber
  rw [edge_eq h.inv h.window, ← h.window] at hedge
  have hcap : s.rx.reassembler.capacity < 2 ^ 63 := by rw [h.window, h.capacity]; exact hC
  rw [ackIndex] at htop
  by_cases hd : seg.payload = []
  · obtain ⟨a, ha⟩ := unwrap_returns seg.header.seqno s.rx.isn htop
    exact ⟨a, ha, .inl hd, .empty hd⟩
  · rcases hrange hd with ⟨hsyn, hpos, hlo, hhi⟩ | ⟨hsyn, rfl, hlow, hlen⟩
    · rw [ackIndex] at hlo hhi
      have hstart : start number seg = number - 1 := by simp [start, hsyn]
      rw [hstart] at hedge
      refine ⟨number, ?_, ?_, ?_⟩
      · rw [hnumber]
        exact unwrap_close (by omega) (by omega) (by omega) hhi (by omega)
      · rw [sub64_of_le hpos]
        by_cases hb : s.rx.reassembler.unassBase ≤ number - 1
        · exact .inr (.inr (.inl ⟨hb, hedge, by omega⟩))
        · exact .inr (.inr (.inr ⟨by omega, .inr (by omega)⟩))
      · exact .placed (by rw [sub64_of_le hpos, hstart]) (by omega)
    · rw [ackIndex] at hlow hlen
      refine ⟨0, ?_, ?_, .again (by simp [hsyn]) hlen⟩
      · rw [unwrap_low _ _ hlow, hnumber, offset_wrap]
        rfl
      · rw [sub64_of_lt (by omega)]
        exact .inr (.inl (by omega))

/-- **One arrival.** It returns, and a payload that brings something is pushed where it
belongs. -/
theorem arrives {C : Nat} (hC : C < 2 ^ 63) {s : State} {number : Nat} {seg : TCPSegment}
    (h : Sound C s) (ht : Taken s.rx seg) (ha : Allowed s (.segment number seg)) :
    ∃ index r, s.rx.segmentReceived seg = .ok (s.rx.took seg r) ∧
      s.rx.reassembler.pushSubstring seg.payload index seg.header.fin = .ok r ∧
      Exact s.rx.reassembler seg.payload index ∧
      Pushed s.rx.reassembler seg.payload index seg.header.fin r ∧ GoesTo s number seg index := by
  cases hs : s.rx.synReceived with
  | true =>
    obtain ⟨a, hu, hx, hgoes⟩ := inHalfRange_index hC h hs ha
    obtain ⟨r, hr, pushed⟩ := push_spec h.inv seg.header.fin hx
    refine ⟨sub64 a 1, r, ?_, hr, hx, pushed, hgoes⟩
    rw [segmentReceived_later seg hs, hu, Exec.ok_bind, hr, Exec.ok_bind]
  | false =>
    have hsyn : seg.header.syn = true := by simpa [Taken, hs] using ht
    have hzero : number = 0 := by simpa [InWindow, HasNumber, hs] using ha.1.1
    have hx : Exact s.rx.reassembler seg.payload 0 := by
      have hbase := (h.fresh hs).1
      exact .inr (.inr (.inl ⟨by omega, Nat.zero_le _, by omega⟩))
    obtain ⟨r, hr, pushed⟩ := push_spec h.inv seg.header.fin hx
    refine ⟨0, r, ?_, hr, hx, pushed, .placed (by simp [start, hsyn, hzero]) (by simp [hsyn])⟩
    rw [segmentReceived_first seg hs, if_pos hsyn, hr, Exec.ok_bind]

theorem ignored {s : State} {seg : TCPSegment} (ht : ¬ Taken s.rx seg) :
    s.rx.synReceived = false ∧ s.rx.segmentReceived seg = .ok s.rx := by
  have hs : s.rx.synReceived = false := by
    rw [← Bool.not_eq_true]
    exact fun hs => ht (.inl hs)
  refine ⟨hs, ?_⟩
  rw [segmentReceived_first seg hs, if_neg (fun hsyn => ht (.inr hsyn))]

theorem sound_step {C : Nat} (hC : C < 2 ^ 63) {s t : State} {e : Event} (h : Sound C s)
    (ha : Allowed s e) (ht : step s e = .ok t) : Sound C t := by
  cases e with
  | segment number seg =>
    obtain ⟨rx, hrx, ht⟩ := Exec.bind_eq_ok.mp ht
    cases ht
    by_cases htaken : Taken s.rx seg
    · obtain ⟨index, r, hok, -, -, pushed, -⟩ := arrives hC h htaken ha
      rw [hok] at hrx
      cases hrx
      apply h.note
      · exact pushed.inv
      · exact pushed.frame.1.trans h.window
      · exact h.capacity
      · intro hs
        cases hs
      · exact Nat.le_of_eq pushed.frame.2.symm
    · obtain ⟨hs, hok⟩ := ignored htaken
      rw [hok] at hrx
      cases hrx
      exact h.note h.inv h.window h.capacity (fun hs => ⟨hs, (h.fresh hs).1⟩) (Nat.le_refl _)
  | read len =>
    cases ht
    rw [readOut_fst]
    apply h.note
    · exact popOut_inv h.inv len
    · exact h.window
    · exact h.capacity
    · exact fun hs => ⟨hs, (h.fresh hs).1⟩
    · exact ByteStream.readBytes_le_popOutput _ _

/-- What a segment brings below the right edge is held after it. -/
theorem brought_held {C : Nat} {s : State} {number : Nat} {seg : TCPSegment} {index : Nat}
    {r : StreamReassembler} (h : Sound C s)
    (hr : s.rx.reassembler.pushSubstring seg.payload index seg.header.fin = .ok r)
    (hx : Exact s.rx.reassembler seg.payload index)
    (pushed : Pushed s.rx.reassembler seg.payload index seg.header.fin r)
    (hgoes : GoesTo s number seg index) {i : Nat} {b : Byte} (hb : Brings number seg i b)
    (hi : i < s.rx.reassembler.output.readBytes + C) :
    Held r i ∧ (Held s.rx.reassembler i ∨ byteAt r i = some b) := by
  obtain ⟨j, hj, hnumber⟩ := hb
  have hlen := (List.getElem?_eq_some_iff.mp hj).1
  cases hgoes with
  | empty hd =>
    rw [hd] at hj
    cases hj
  | again hone hold =>
    have hheld : Held s.rx.reassembler i := .inl (by omega)
    exact ⟨(pushed.held i).mpr (.inl hheld), .inl hheld⟩
  | placed hindex hpos =>
    rw [start] at hindex
    have hcap := h.window.trans h.capacity
    have hheld : Held r i := (pushed.held i).mpr (.inr ⟨by omega, by omega, by omega⟩)
    refine ⟨hheld, ?_⟩
    by_cases hbefore : Held s.rx.reassembler i
    · exact .inl hbefore
    · right
      obtain ⟨-, hbyte⟩ := push_new h.inv hx hr hheld hbefore
      rw [hbyte, show i - index = j by omega, hj]

/-- **The promise is kept.** In every run whose payloads after the SYN are placeable, a
segment that arrives is taken, and a byte that it brings below the right edge of any earlier
moment has been assembled or waits after it. It is the byte of this segment unless the
place had been filled before. -/
theorem promise_kept (C : Nat) (hC : 1 ≤ C) (hC' : C < 2 ^ 63) (s : State)
    (h : Exec.Reach step Allowed (init C) s) (number : Nat) (seg : TCPSegment)
    (ha : Allowed s (.segment number seg)) :
    ∃ t, step s (.segment number seg) = .ok t ∧
      ∀ e ∈ s.promises, ∀ i b, Brings number seg i b → i < e →
        Held t.rx.reassembler i ∧
          (Held s.rx.reassembler i ∨ byteAt t.rx.reassembler i = some b) := by
  have hs := h.invariant (sound_init hC) (fun _ _ _ hs ha ht => sound_step hC' hs ha ht)
  by_cases htaken : Taken s.rx seg
  · obtain ⟨index, r, hok, hr, hx, pushed, hgoes⟩ := arrives hC' hs htaken ha
    refine ⟨note s (s.rx.took seg r), Exec.bind_eq_ok.mpr ⟨_, hok, rfl⟩, ?_⟩
    intro e he i b hb hi
    exact brought_held hs hr hx pushed hgoes hb (Nat.lt_of_lt_of_le hi (hs.promises e he))
  · obtain ⟨hno, hok⟩ := ignored htaken
    refine ⟨note s s.rx, Exec.bind_eq_ok.mpr ⟨_, hok, rfl⟩, ?_⟩
    rw [(hs.fresh hno).2]
    intro e he
    cases he

/-- Four bytes come after the third of them, all below the edge promised with the SYN. -/
theorem promise_kept_abcd :
    ∃ s t, Exec.Reach step Allowed (init 4) s ∧ 4 ∈ s.promises ∧
      step s (.segment 1 { header := { seqno := ⟨8⟩ }, payload := [97, 98, 99, 100] }) = .ok t ∧
      Held t.rx.reassembler 3 ∧ byteAt t.rx.reassembler 3 = some 100 := by
  obtain ⟨s, reached, hv⟩ := Exec.reach_of_view step Allowed (init 4)
    [.segment 0 { header := { seqno := ⟨7⟩, syn := true } },
      .segment 3 { header := { seqno := ⟨10⟩ }, payload := [99] }]
    (fun s => (s.promises, decide (Held s.rx.reassembler 3), decide (Allowed s
      (.segment 1 { header := { seqno := ⟨8⟩ }, payload := [97, 98, 99, 100] }))))
    ([4, 4], false, true) (by decide +kernel)
  simp only [Prod.mk.injEq, decide_eq_false_iff_not, decide_eq_true_eq] at hv
  obtain ⟨hpromises, hmissing, hallowed⟩ := hv
  have hmem : 4 ∈ s.promises := by simp [hpromises]
  obtain ⟨t, ht, hkept⟩ := promise_kept 4 (by decide) (by decide) s reached 1 _ hallowed
  obtain ⟨hheld, hbyte⟩ := hkept 4 hmem 3 100 ⟨3, rfl, rfl⟩ (by decide)
  exact ⟨s, t, reached, hmem, ht, hheld, hbyte.resolve_left hmissing⟩

/-- The SYN comes again, now with the first byte: four bytes have been promised, and this
one is discarded. -/
theorem repeated_syn_discarded :
    ∃ s t, Exec.Reach step InWindow (init 4) s ∧ 4 ∈ s.promises ∧
      InWindow s (.segment 0 { header := { seqno := ⟨7⟩, syn := true }, payload := [97] }) ∧
      Brings 0 { header := { seqno := ⟨7⟩, syn := true }, payload := [97] } 0 97 ∧
      step s (.segment 0 { header := { seqno := ⟨7⟩, syn := true }, payload := [97] }) = .ok t ∧
      ¬ Held t.rx.reassembler 0 := by
  obtain ⟨s, reached, hv⟩ := Exec.reach_of_view step InWindow (init 4)
    [.segment 0 { header := { seqno := ⟨7⟩, syn := true } }]
    (fun s => (s.promises, decide (InWindow s
      (.segment 0 { header := { seqno := ⟨7⟩, syn := true }, payload := [97] })),
      (step s (.segment 0
        { header := { seqno := ⟨7⟩, syn := true }, payload := [97] })).toOption.map
          fun t => decide (Held t.rx.reassembler 0)))
    ([4], true, some false) (by decide +kernel)
  simp only [Prod.mk.injEq, decide_eq_true_eq] at hv
  obtain ⟨hpromises, hin, hv⟩ := hv
  obtain ⟨t, ht, hlost⟩ := Exec.ok_of_view _ _ hv
  exact ⟨s, t, reached, by simp [hpromises], hin, ⟨0, rfl, rfl⟩, ht, of_decide_eq_false hlost⟩

end Sponge.Promise
