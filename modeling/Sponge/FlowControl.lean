import Sponge.Bookkeeping

/-!
# Flow control

Runs of the sender beside the largest right edge advertised so far, the maximum over the
accepted acknowledgements of `ackno + max(win, 1)`. The sender keeps the rest of the
window in a 16-bit counter that it recomputes from each acknowledgement; it stays below
the edge as long as no acknowledgement makes that computation lose information
(`KeepsEdge`).
-/

namespace Sponge.FlowControl

open Words TCPSender Relation

structure State where
  tx : TCPSender
  edge : Nat

def init (capacity : Nat) (retxTimeout : UInt16) (isn : WrappingInt32) : State :=
  ⟨.new capacity retxTimeout isn, 0⟩

/-- The absolute number and the window of an acknowledgement the sender accepts. -/
def accepted (s : TCPSender) : Op → Option (Nat × UInt16)
  | .ackReceived ackno windowSize =>
    match unwrap ackno s.isn s.nextSeqno with
    | .error _ => none
    | .ok absAckno =>
      match s.ackValid absAckno with
      | .ok true => some (absAckno, windowSize)
      | _ => none
  | _ => none

def advertised (s : State) (op : Op) : Nat :=
  match accepted s.tx op with
  | some (absAckno, windowSize) => max s.edge (absAckno + max windowSize.toNat 1)
  | none => s.edge

def step (s : State) (op : Op) : Except Fault State := do
  let tx ← s.tx.step op
  return ⟨tx, advertised s op⟩

/-- The acknowledgements the 16-bit counter can represent. One that leaves segments
outstanding does not take the right edge below the next number, and a zero window among
them is not a multiple of `2 ^ 16` away. One that leaves none is current, or grants at
most one number, or nothing beyond the edge. -/
def KeepsEdge (s : State) (op : Op) : Prop :=
  match accepted s.tx op with
  | some (absAckno, windowSize) =>
    if s.tx.segmentsOutstanding ≠ [] ∧ absAckno < s.tx.nextSeqno then
      (windowSize ≠ 0 → s.tx.nextSeqno ≤ absAckno + windowSize.toNat) ∧
      (windowSize = 0 → (s.tx.nextSeqno - absAckno) % 2 ^ 16 ≠ 0)
    else absAckno = s.tx.nextSeqno ∨ windowSize.toNat ≤ 1 ∨
      s.tx.nextSeqno + windowSize.toNat ≤ s.edge
  | none => True

instance (s : State) (op : Op) : Decidable (KeepsEdge s op) := by
  unfold KeepsEdge
  split <;> infer_instance

/-- What the sender may still send ends at the edge `R`. -/
structure Going (R : Nat) (s : TCPSender) : Prop where
  started : s.synSent = true
  plain : ∀ seg ∈ s.segmentsOutstanding, seg.header.syn = false
  room : s.receiverWindowSize ≠ 0 → s.nextSeqno + s.receiverFreeSpace.toNat ≤ R
  probe : s.receiverWindowSize = 0 → s.receiverFreeSpace = 0 → s.nextSeqno < R
  idle : s.segmentsOutstanding = [] → s.nextSeqno < R
  sent : s.nextSeqno ≤ R

inductive Phase (R : Nat) (s : TCPSender) : Prop
  | closed : s.synSent = false → s.segmentsOutstanding = [] → s.nextSeqno = 0 → Phase R s
  | opening (seg : TCPSegment) : s.synSent = true → s.segmentsOutstanding = [seg] →
      seg.header.syn = true → s.nextSeqno = 1 → Phase R s
  | going : Going R s → Phase R s

/-- The invariant. No segment is longer than a full payload and a FIN, so no edge is more
than that and a whole window past the first number not acknowledged. -/
structure EdgeBounded (R : Nat) (s : TCPSender) : Prop where
  book : Book s
  phase : Phase R s
  short : ∀ seg ∈ s.segmentsOutstanding, seg.lengthInSequenceSpace ≤ maxPayloadSize + 1
  edge : R ≤ s.unacked + (maxPayloadSize + 2 ^ 16)

theorem edgeBounded_new (capacity : Nat) (retxTimeout : UInt16) (isn : WrappingInt32) :
    EdgeBounded 0 (new capacity retxTimeout isn) where
  book := book_new capacity retxTimeout isn
  phase := .closed rfl rfl rfl
  short := by simp [new]
  edge := Nat.zero_le _

theorem EdgeBounded.sent {R : Nat} {s : TCPSender} (h : EdgeBounded R s) :
    s.nextSeqno ≤ max 1 R := by
  cases h.phase with
  | closed _ _ h0 => omega
  | opening _ _ _ _ h1 => omega
  | going hg => have := hg.sent; omega

theorem EdgeBounded.near {R : Nat} {s : TCPSender} (h : EdgeBounded R s) :
    s.bytesInFlight < 2 ^ 31 := by
  have hle := h.book.flight_le
  have hsent := h.sent
  have hedge := h.edge
  simp only [maxPayloadSize] at hedge
  omega

/-! ## Sending -/

theorem push_short {s : TCPSender} {seg : TCPSegment}
    (h : ∀ x ∈ s.segmentsOutstanding, x.lengthInSequenceSpace ≤ maxPayloadSize + 1)
    (hseg : seg.lengthInSequenceSpace ≤ maxPayloadSize + 1) :
    ∀ x ∈ (s.push seg).segmentsOutstanding, x.lengthInSequenceSpace ≤ maxPayloadSize + 1 :=
  forall_mem_snoc h hseg

/-- Sending bytes uses up the room, or the one number of the probe. -/
theorem going_bytes {R : Nat} {s : TCPSender} {size : Nat} {fin : Bool} (h : Going R s)
    (may : MaySend s size fin) : Going R (s.bytes size fin) := by
  have hnext := bytes_nextSeqno fin may.buffered
  have hpos := may.nonempty
  have plain : ∀ seg ∈ (s.bytes size fin).segmentsOutstanding, seg.header.syn = false :=
    forall_mem_snoc h.plain rfl
  have busy : (s.bytes size fin).segmentsOutstanding ≠ [] := by simp [TCPSender.bytes, push]
  rcases may.room with ⟨hwin, hroom⟩ | ⟨hwin, hzero, hone⟩
  · have hfree := bytes_freeSpace may hroom
    have hR := h.room hwin
    exact ⟨h.started, plain, fun _ => by omega, fun hw => absurd hw hwin, fun he => absurd he busy,
      by omega⟩
  · have hR := h.probe hwin hzero
    have hfree : (s.bytes size fin).receiverFreeSpace.toNat = 2 ^ 16 - 1 := by
      simp only [TCPSender.bytes, push, length_segment, List.length_take,
        Nat.min_eq_left may.buffered, Bool.toNat_false, Nat.add_zero, toNat_sub16, hzero, hone]
      rfl
    refine ⟨h.started, plain, fun hw => absurd hwin hw, fun _ hz => ?_, fun he => absurd he busy,
      by omega⟩
    rw [hz] at hfree
    simp at hfree

theorem edgeBounded_emits {R : Nat} {s t : TCPSender} (h : EdgeBounded R s) (he : Emits s t) :
    EdgeBounded R t := by
  have hun := he.unacked_eq h.book
  refine ⟨he.book h.book, ?_, ?_, by rw [hun]; exact h.edge⟩
  · cases he with
    | syn hs =>
      cases h.phase with
      | closed _ ho h0 =>
        exact .opening (s.segment true false []) rfl (by simp [TCPSender.syn, push, ho]) rfl
          (by simp [TCPSender.syn, push, h0])
      | opening _ hs' => rw [hs] at hs'; cases hs'
      | going hg => have hs' := hg.started; rw [hs] at hs'; cases hs'
    | bytes may =>
      cases h.phase with
      | closed hs => rw [may.started] at hs; cases hs
      | opening seg _ ho hsyn =>
        have := may.acked
        simp [synOutstanding, ho, hsyn] at this
      | going hg => exact .going (going_bytes hg may)
  · cases he with
    | syn _ => exact push_short (s := { s with synSent := true }) h.short (by simp)
    | @bytes size fin may =>
      apply push_short (s := { s with stream := s.stream.popOutput size, finSent := fin }) h.short
      have := may.bounded
      have := fin.toNat_le
      simp only [length_segment, List.length_take, Nat.min_eq_left may.buffered, Bool.toNat_false]
      omega

/-! ## Acknowledgements -/

/-- No accepted number is more than one segment past the first outstanding one. -/
theorem acked_edge {R : Nat} {s : TCPSender} (h : EdgeBounded R s) {absAckno : Nat}
    (windowSize : UInt16) {gone rest : List TCPSegment} {m : Nat}
    (hd : Divides s absAckno gone rest m) (hacc : Accepts s absAckno) :
    max R (absAckno + max windowSize.toNat 1) ≤ m + (maxPayloadSize + 2 ^ 16) := by
  have hwin := windowSize.toNat_lt
  have hgone := hd.before.end_eq
  have hedge := h.edge
  have habs : absAckno ≤ m + maxPayloadSize := by
    cases rest with
    | nil =>
      have : m = s.nextSeqno := hd.after
      have := hacc.1
      omega
    | cons seg tail =>
      have := hd.uncovered seg tail rfl
      have := h.short seg (by rw [hd.split]; simp)
      omega
  simp only [maxPayloadSize] at *
  omega

/-- Whether an acknowledgement leaves segments outstanding. -/
theorem divides_rest {s : TCPSender} {absAckno : Nat} {gone rest : List TCPSegment} {m : Nat}
    (hd : Divides s absAckno gone rest m) (hacc : Accepts s absAckno) :
    rest ≠ [] ↔ s.segmentsOutstanding ≠ [] ∧ absAckno < s.nextSeqno := by
  cases rest with
  | nil =>
    have hm : m = s.nextSeqno := hd.after
    simp only [ne_eq, not_true_eq_false, false_iff, not_and, Nat.not_lt]
    intro hne
    rcases hd.covered with hg | hle
    · rw [hd.split, hg] at hne
      exact absurd rfl hne
    · omega
  | cons seg tail =>
    have := hd.uncovered seg tail rfl
    have := hd.after.end_eq
    rw [totalLength_cons] at this
    have := hacc.1
    simp only [ne_eq, reduceCtorEq, not_false_eq_true, true_iff, hd.split, List.append_eq_nil_iff,
      and_false]
    exact ⟨trivial, by omega⟩

/-- An acknowledgement the counter can represent leaves the sender below the new edge. -/
theorem going_acked {s : State} (h : Going s.edge s.tx) (top : s.tx.nextSeqno < 2 ^ 64)
    {absAckno : Nat} {windowSize : UInt16}
    {op : Op} (hop : accepted s.tx op = some (absAckno, windowSize)) (hk : KeepsEdge s op)
    {gone rest : List TCPSegment} {m : Nat} (hd : Divides s.tx absAckno gone rest m)
    (hacc : Accepts s.tx absAckno) :
    Going (max s.edge (absAckno + max windowSize.toNat 1))
      (s.tx.acked absAckno windowSize gone rest) := by
  have hrest := divides_rest hd hacc
  have hsent := h.sent
  have hidle := h.idle
  have hlt := windowSize.toNat_lt
  have hzero : windowSize = 0 ↔ windowSize.toNat = 0 := (UInt16.toNat_inj (b := 0)).symm
  simp only [KeepsEdge, hop] at hk
  have plain : ∀ seg ∈ rest, seg.header.syn = false := by
    intro seg hseg
    exact h.plain seg (by rw [hd.split]; exact List.mem_append_right _ hseg)
  by_cases hr : rest = []
  · -- nothing outstanding: the whole window counts from the next number
    subst hr
    have hnone : ¬ (s.tx.segmentsOutstanding ≠ [] ∧ absAckno < s.tx.nextSeqno) :=
      mt hrest.mpr (by simp)
    rw [if_neg hnone] at hk
    have hnext : absAckno = s.tx.nextSeqno ∨ s.tx.nextSeqno < s.edge := by
      by_cases ho : s.tx.segmentsOutstanding = []
      · exact .inr (hidle ho)
      · exact .inl (Nat.le_antisymm hacc.1 (Nat.le_of_not_lt fun hlt => hnone ⟨ho, hlt⟩))
    refine ⟨h.started, plain, ?_, ?_, ?_, ?_⟩ <;>
      simp only [acked, keep, List.isEmpty_nil, ↓reduceIte]
    · intro hw
      rw [ne_eq, hzero] at hw
      omega
    · intro hw
      omega
    · intro _
      omega
    · omega
  · obtain ⟨ho, hbelow⟩ := hrest.mp hr
    rw [if_pos ⟨ho, hbelow⟩] at hk
    have hemp : rest.isEmpty = false := by simpa using hr
    refine ⟨h.started, plain, ?_, ?_, fun he => absurd he hr, ?_⟩ <;>
      simp only [acked, keep, hemp, Bool.false_eq_true, ↓reduceIte]
    · intro hw
      have hle := hk.1 hw
      rw [sub64_of_le hle, UInt16.toNat_ofNat']
      omega
    · intro hw hfree
      have hne := hk.2 hw
      have h0 : windowSize.toNat = 0 := hzero.mp hw
      have hval := congrArg UInt16.toNat hfree
      rw [h0, Nat.add_zero, sub64_of_lt hbelow, UInt16.toNat_ofNat'] at hval
      simp only [UInt16.toNat_zero] at hval
      omega
    · omega

/-- Before the SYN is acknowledged an acknowledgement changes the window only, or is
that of the SYN. -/
theorem phase_acked {s : State} (h : EdgeBounded s.edge s.tx) {absAckno : Nat} {windowSize : UInt16}
    {op : Op} (hop : accepted s.tx op = some (absAckno, windowSize)) (hk : KeepsEdge s op)
    {gone rest : List TCPSegment} {m : Nat} (hd : Divides s.tx absAckno gone rest m)
    (hacc : Accepts s.tx absAckno) :
    Phase (max s.edge (absAckno + max windowSize.toNat 1))
      (s.tx.acked absAckno windowSize gone rest) := by
  cases h.phase with
  | closed hs ho h0 =>
    have hnil : gone ++ rest = [] := hd.split ▸ ho
    exact .closed hs (List.append_eq_nil_iff.mp hnil).2 h0
  | opening seg hs ho hsyn h1 =>
    have hsplit : gone ++ rest = [seg] := hd.split ▸ ho
    rcases List.append_eq_cons_iff.mp hsplit with ⟨hg, hr⟩ | ⟨g, hg, hr⟩
    · exact .opening seg hs hr hsyn h1
    · have hnil := (List.append_eq_nil_iff.mp hr.symm).2
      have hm : m = s.tx.nextSeqno := by
        have := hd.after
        rwa [hnil] at this
      have habs : absAckno = 1 := by
        have := hacc.1
        rcases hd.covered with hc | hc
        · rw [hc] at hg; cases hg
        · omega
      have hlt := windowSize.toNat_lt
      refine .going ⟨hs, ?_, ?_, ?_, ?_, ?_⟩ <;>
        simp only [acked, keep, hnil, List.isEmpty_nil, ↓reduceIte, h1, habs]
      · simp
      · intro _
        omega
      · intro _ _
        omega
      · intro _
        omega
      · omega
  | going hg =>
    have := h.book.flight_le
    have := h.book.low
    have := h.near
    exact .going (going_acked hg (by omega) hop hk hd hacc)

theorem edgeBounded_acked {s : State} (h : EdgeBounded s.edge s.tx) {absAckno : Nat}
    {windowSize : UInt16} {op : Op} (hop : accepted s.tx op = some (absAckno, windowSize))
    (hk : KeepsEdge s op) {gone rest : List TCPSegment} {m : Nat}
    (hd : Divides s.tx absAckno gone rest m) (hacc : Accepts s.tx absAckno)
    (hb : Book (s.tx.acked absAckno windowSize gone rest)) :
    EdgeBounded (max s.edge (absAckno + max windowSize.toNat 1))
      (s.tx.acked absAckno windowSize gone rest) := by
  refine ⟨hb, phase_acked h hop hk hd hacc, ?_, ?_⟩
  · intro seg hseg
    exact h.short seg (by rw [hd.split]; exact List.mem_append_right _ hseg)
  · rw [acked_unacked windowSize hd]
    exact acked_edge h windowSize hd hacc

/-! ## Every run -/

/-- The stream, the outgoing queue and the timer's fields play no part. -/
theorem edgeBounded_quiet {R : Nat} {s : TCPSender} (h : EdgeBounded R s) (stream : ByteStream)
    (out : List TCPSegment) (elapsed : UInt32) (count : UInt16) (rto : UInt32) :
    EdgeBounded R { s with
      stream := stream
      segmentsOut := out
      timeElapsed := elapsed
      consecutiveRetransmissions := count
      rto := rto } := by
  refine ⟨h.book.frame rfl rfl rfl rfl rfl, ?_, h.short, h.edge⟩
  cases h.phase with
  | closed hs ho h0 => exact .closed hs ho h0
  | opening seg hs ho hsyn h1 => exact .opening seg hs ho hsyn h1
  | going hg => exact .going ⟨hg.started, hg.plain, hg.room, hg.probe, hg.idle, hg.sent⟩

theorem edgeBounded_step {s t : State} {op : Op} (h : EdgeBounded s.edge s.tx) (hk : KeepsEdge s op)
    (ht : step s op = .ok t) : EdgeBounded t.edge t.tx := by
  obtain ⟨tx, htx, heq⟩ := Exec.bind_eq_ok.mp ht
  cases heq
  have fill {R : Nat} {u v : TCPSender} (hu : EdgeBounded R u) (hv : u.fillWindow = .ok v) :
      EdgeBounded R v :=
    fillWindow_invariant (P := EdgeBounded R) (fun _ _ => edgeBounded_emits) hu hv
  cases op with
  | write data =>
    cases htx
    exact edgeBounded_quiet h _ _ _ _ _
  | endInput =>
    cases htx
    exact edgeBounded_quiet h _ _ _ _ _
  | fillWindow => exact fill h htx
  | ackReceived ackno windowSize =>
    obtain ⟨absAckno, habs, ⟨hok, rfl⟩ | ⟨hok, hacc, gone, rest, m, hd, hb, _, hfill⟩⟩ :=
      ackReceived_spec h.book h.near htx
    · simpa only [advertised, accepted, habs, hok] using h
    · have hop : accepted s.tx (.ackReceived ackno windowSize) = some (absAckno, windowSize) := by
        simp only [accepted, habs, hok]
      simp only [advertised, hop]
      exact fill (edgeBounded_acked h hop hk hd hacc hb) hfill
  | tick ms =>
    obtain ⟨_, _, _, _, _, rfl⟩ := tick_ok htx
    exact edgeBounded_quiet h _ _ _ _ _
  | sendEmptySegment =>
    cases htx
    exact edgeBounded_quiet h _ _ _ _ _

/-- **Flow control.** In a run of acknowledgements the 16-bit counter can represent, every
number a call sends after the SYN is below the largest right edge advertised so far. -/
theorem sent_below_edge (capacity : Nat) (retxTimeout : UInt16) (isn : WrappingInt32) (s : State)
    (h : Exec.Reach step KeepsEdge (init capacity retxTimeout isn) s) (op : Op)
    (hk : KeepsEdge s op) (t : State) (ht : step s op = .ok t) :
    ∀ n, s.tx.nextSeqnoAbsolute ≤ n → n < t.tx.nextSeqnoAbsolute → 1 ≤ n → n < t.edge := by
  have hs := h.invariant (I := fun s => EdgeBounded s.edge s.tx)
    (edgeBounded_new capacity retxTimeout isn)
    (fun _ _ _ hs hk hstep => edgeBounded_step hs hk hstep)
  have hsent := (edgeBounded_step hs hk ht).sent
  intro n _ hn h1
  rw [nextSeqnoAbsolute] at hn
  omega

/-- A window of three, filled and then opened further by a partial acknowledgement. -/
theorem sent_below_edge_abcde :
    ∃ s, Exec.Reach step KeepsEdge (init 8 1000 ⟨7⟩) s ∧ s.edge = 4 ∧
      ∃ t, step s (.ackReceived ⟨9⟩ 4) = .ok t ∧ t.edge = 6 ∧ t.tx.nextSeqnoAbsolute = 6 ∧
        ∀ n, 4 ≤ n → n < 6 → 1 ≤ n → n < t.edge := by
  obtain ⟨s, reached, hv⟩ := Exec.reach_of_view step KeepsEdge (init 8 1000 ⟨7⟩)
    [.fillWindow, .ackReceived ⟨8⟩ 3, .write [97], .fillWindow, .write [98, 99, 100, 101, 102],
      .fillWindow]
    (fun s => (s.edge, s.tx.nextSeqnoAbsolute, decide (KeepsEdge s (.ackReceived ⟨9⟩ 4)),
      (step s (.ackReceived ⟨9⟩ 4)).toOption.map (fun t => (t.edge, t.tx.nextSeqnoAbsolute))))
    (4, 4, true, some (6, 6)) (by decide)
  simp only [Prod.mk.injEq, decide_eq_true_eq] at hv
  obtain ⟨hedge, hnext, hk, hview⟩ := hv
  obtain ⟨t, ht, hlast⟩ := Exec.ok_of_view _ _ hview
  obtain ⟨he, hn⟩ := Prod.mk.inj hlast
  have hall := sent_below_edge 8 1000 ⟨7⟩ s reached _ hk t ht
  rw [hnext, hn] at hall
  exact ⟨s, reached, hedge, t, ht, he, hn, hall⟩

/-- A window that shrinks from five to three below the data sent, and an old
acknowledgement that is accepted when everything is acknowledged: in both runs numbers
beyond the edge are sent. -/
theorem stale_window_overrun :
    (∃ s, Exec.Reach step (fun _ _ => True) (init 16 1000 ⟨7⟩) s ∧
      ∃ t, step s (.ackReceived ⟨8⟩ 3) = .ok t ∧
        s.tx.nextSeqnoAbsolute = 6 ∧ t.tx.nextSeqnoAbsolute = 9 ∧ t.edge = 6) ∧
    ∃ s, Exec.Reach step (fun _ _ => True) (init 16 1000 ⟨7⟩) s ∧
      ∃ t, step s .fillWindow = .ok t ∧
        s.tx.nextSeqnoAbsolute = 6 ∧ t.tx.nextSeqnoAbsolute = 9 ∧ t.edge = 7 := by
  constructor
  · obtain ⟨s, reached, hv⟩ := Exec.reach_of_view step (fun _ _ => True) (init 16 1000 ⟨7⟩)
      [.fillWindow, .ackReceived ⟨8⟩ 5, .write [97, 98, 99, 100, 101, 102, 103, 104], .fillWindow]
      (fun s => (s.tx.nextSeqnoAbsolute, (step s (.ackReceived ⟨8⟩ 3)).toOption.map
        (fun t => (t.tx.nextSeqnoAbsolute, t.edge)))) (6, some (9, 6)) (by decide)
    obtain ⟨hnext, hview⟩ := Prod.mk.inj hv
    obtain ⟨t, ht, hlast⟩ := Exec.ok_of_view _ _ hview
    exact ⟨s, reached, t, ht, hnext, Prod.mk.inj hlast⟩
  · obtain ⟨s, reached, hv⟩ := Exec.reach_of_view step (fun _ _ => True) (init 16 1000 ⟨7⟩)
      [.fillWindow, .ackReceived ⟨8⟩ 5, .write [97, 98, 99, 100, 101], .fillWindow,
        .ackReceived ⟨13⟩ 0, .ackReceived ⟨8⟩ 5, .write [102, 103, 104]]
      (fun s => (s.tx.nextSeqnoAbsolute, (step s .fillWindow).toOption.map
        (fun t => (t.tx.nextSeqnoAbsolute, t.edge)))) (6, some (9, 7)) (by decide)
    obtain ⟨hnext, hview⟩ := Prod.mk.inj hv
    obtain ⟨t, ht, hlast⟩ := Exec.ok_of_view _ _ hview
    exact ⟨s, reached, t, ht, hnext, Prod.mk.inj hlast⟩

end Sponge.FlowControl
