import Sponge.ConnectionRuns
import Sponge.TCPState

/-!
# A listening connection

A connection on which nothing has been called, with segments without SYN and ticks arriving.

Nothing in `segment_received` asks whether a SYN has come: a RST ends the connection, an
acknowledgement of the connection's own initial number is taken for a valid one, and a
segment that occupies sequence numbers is answered. The last two make the sender start.

* `listens_iff`: the connection goes on listening exactly when no such segment comes;
* `listening_disturbed`: a segment of each kind.
-/

namespace Sponge.Listen

open TCPConnection TCPSender WrappingInt32

/-- A tick, or a segment without SYN. -/
def Unsolicited : Event → Prop
  | .segmentReceived seg => seg.header.syn = false
  | .tick _ => True
  | _ => False

/-- The segment is no RST, acknowledges something else than the initial number `isn`, if
anything, and occupies no sequence number. -/
def Inert (isn : WrappingInt32) : Event → Prop
  | .segmentReceived seg => seg.header.rst = false ∧
    (seg.header.ack = true → seg.header.ackno ≠ isn) ∧ seg.lengthInSequenceSpace = 0
  | _ => True

instance (isn : WrappingInt32) : (e : Event) → Decidable (Inert isn e)
  | .segmentReceived _ => inferInstanceAs (Decidable (_ ∧ (_ → _) ∧ _))
  | .connect | .write _ | .endInputStream | .tick _ | .read _ | .collect =>
    inferInstanceAs (Decidable True)

/-- In LISTEN, with nothing in error and nothing put out. -/
structure Listens (c : TCPConnection) : Prop where
  state : c.state = .ofState .listen
  active : c.active = true
  outbound : c.sender.stream.error = false
  inbound : c.inboundStream.error = false
  quiet : c.segmentsOut = []

/-- A new connection some time after the last segment. -/
def waiting (cfg : TCPConfig) (time : Nat) : TCPConnection :=
  { TCPConnection.new cfg with timeSinceLastSegmentReceived := time }

theorem listens_waiting (cfg : TCPConfig) (time : Nat) : Listens (waiting cfg time) where
  state := rfl
  active := rfl
  outbound := rfl
  inbound := rfl
  quiet := rfl

theorem tick_waiting (cfg : TCPConfig) (time ms : Nat) :
    (waiting cfg time).tick ms = .ok (waiting cfg ((time + ms) % 2 ^ 64)) := rfl

theorem receiver_ignores (cfg : TCPConfig) {seg : TCPSegment} (h : seg.header.syn = false) :
    (TCPReceiver.new cfg.recvCapacity).segmentReceived seg = .ok (.new cfg.recvCapacity) := by
  rw [TCPReceiver.segmentReceived_first seg rfl, h]
  rfl

/-- A sender that has not started takes the acknowledgement of its initial number, and no
other. -/
theorem ackReceived_new (cfg : TCPConfig) (ackno : WrappingInt32) (windowSize : UInt16) :
    (TCPConnection.new cfg).sender.ackReceived ackno windowSize =
      if ackno = cfg.fixedIsn then
        { (TCPConnection.new cfg).sender with
          receiverWindowSize := windowSize
          receiverFreeSpace := windowSize }.fillWindow
      else .ok (TCPConnection.new cfg).sender := by
  have habs : unwrap ackno cfg.fixedIsn 0 = .ok (offset ackno cfg.fixedIsn) :=
    unwrap_low ackno cfg.fixedIsn (by decide)
  by_cases h : ackno = cfg.fixedIsn
  · rw [offset_eq_zero.mpr h] at habs
    rw [if_pos h]
    simp only [ackReceived, TCPConnection.new, TCPSender.new, habs, Exec.ok_bind, ackValid]
    rfl
  · rw [if_neg h]
    simp only [ackReceived, TCPConnection.new, TCPSender.new, habs, Exec.ok_bind, ackValid,
      Nat.le_zero, offset_eq_zero, h, decide_false, Bool.not_false, ↓reduceIte]
    rfl

/-- A sender that fills its window for the first time starts. -/
theorem fill_starts {s t : TCPSender} (hs : s.synSent = false) (h : s.fillWindow = .ok t) :
    0 < t.nextSeqno := by
  obtain ⟨u, hu, -, -, ⟨hidle, -⟩ | ⟨-, hlt⟩⟩ := fillWindow_spec s
  · exact absurd (hs.symm.trans hidle.1) (by decide)
  · rw [hu] at h
    cases h
    exact Nat.lt_of_le_of_lt (Nat.zero_le _) hlt

/-- However it answers, a sender that has started stays so. -/
theorem takesAck_starts (cfg : TCPConfig) {seg : TCPSegment} {s : TCPSender}
    {segs : List TCPSegment} (h : TakesAck seg (TCPConnection.new cfg).sender s segs) :
    s = (TCPConnection.new cfg).sender ∧ (seg.header.ack = true → seg.header.ackno ≠ cfg.fixedIsn) ∨
      0 < s.nextSeqno := by
  cases h with
  | without hno => exact .inl ⟨rfl, fun hack => absurd (hno.symm.trans hack) (by decide)⟩
  | given _ ht =>
    rw [ackReceived_new] at ht
    split at ht
    · have hpos := fill_starts rfl ht
      exact .inr hpos
    · rename_i hother
      cases ht
      exact .inl ⟨rfl, fun _ => hother⟩

theorem answers_starts {seg : TCPSegment} {s t : TCPSender} {segs : List TCPSegment}
    (h : Answers seg s t segs)
    (hs : 0 < s.nextSeqno ∨ s.synSent = false ∧ 0 < seg.lengthInSequenceSpace) :
    0 < t.nextSeqno := by
  have fills : ∀ u, s.fillWindow = .ok u → 0 < u.nextSeqno := by
    intro u hu
    rcases hs with hpos | ⟨hsyn, -⟩
    · obtain ⟨v, hv, hsent, -⟩ := fillWindow_spec s
      rw [hv] at hu
      cases hu
      exact Nat.lt_of_lt_of_le hpos (sent_forward hsent)
    · exact fill_starts hsyn hu
  cases h with
  | nothing hlen =>
    rcases hs with hpos | ⟨-, hlen'⟩
    · exact hpos
    · omega
  | fills _ hu =>
    have hpos := fills _ hu
    exact hpos
  | empty _ hu => exact fills _ hu

/-! ## One call -/

theorem call_inert (cfg : TCPConfig) (time : Nat) {e : Event} (hu : Unsolicited e)
    (hi : Inert cfg.fixedIsn e) :
    ∃ time', (waiting cfg time).call e = .ok (waiting cfg time') := by
  cases e with
  | connect | write _ | endInputStream | read _ | collect => exact hu.elim
  | tick ms => exact ⟨_, tick_waiting cfg time ms⟩
  | segmentReceived seg =>
    obtain ⟨hrst, hack, hlen⟩ := hi
    refine ⟨0, ?_⟩
    have hreceiver : (waiting cfg 0).receiver.segmentReceived seg =
      .ok (waiting cfg 0).receiver := receiver_ignores cfg hu
    have hnote : noteInboundEnd (waiting cfg 0) = waiting cfg 0 := rfl
    have htake : (waiting cfg 0).takeAck seg = .ok (waiting cfg 0) := by
      unfold takeAck
      split
      · rename_i h
        have hsame : (waiting cfg 0).sender.ackReceived seg.header.ackno seg.header.win =
            .ok (waiting cfg 0).sender := by
          rw [waiting, ackReceived_new, if_neg (hack h)]
        rw [hsame]
        rfl
      · rfl
    have hreply : (waiting cfg 0).replyTo seg = .ok (waiting cfg 0) := by
      rw [replyTo, hlen]
      rfl
    change (waiting cfg time).segmentReceived seg = _
    unfold segmentReceived
    change (if seg.header.rst = true then _ else
      (waiting cfg 0).receiver.segmentReceived seg >>= fun r =>
        (noteInboundEnd { waiting cfg 0 with receiver := r }).takeAck seg >>= fun c =>
          c.replyTo seg) = _
    rw [hrst, hreceiver]
    simp only [Bool.false_eq_true, ↓reduceIte, Exec.ok_bind]
    change (noteInboundEnd (waiting cfg 0)).takeAck seg >>= _ = _
    rw [hnote, htake, Exec.ok_bind, hreply]

theorem call_disturbs (cfg : TCPConfig) (time : Nat) {e : Event} {d : TCPConnection}
    (hi : ¬ Inert cfg.fixedIsn e) (h : (waiting cfg time).call e = .ok d) : ¬ Listens d := by
  intro hd
  cases e with
  | connect | write _ | endInputStream | read _ | collect | tick _ => exact hi trivial
  | segmentReceived seg =>
    rcases segmentReceived_spec (by rfl) h with
      ⟨-, rfl⟩ | ⟨hrst, r, s₁, s₂, xs, ys, -, hack, hans, rfl⟩
    · exact Bool.false_ne_true hd.active
    · have hpos : 0 < s₂.nextSeqno := by
        apply answers_starts hans
        rcases takesAck_starts cfg hack with ⟨rfl, hnot⟩ | hpos
        · refine .inr ⟨rfl, Nat.pos_of_ne_zero fun hlen => hi ⟨hrst, hnot, hlen⟩⟩
        · exact .inl hpos
      have hclosed : (TCPSender.stateSummary { s₂ with segmentsOut := [] }) = .closed :=
        congrArg TCPState.sender hd.state
      have hnext : nextSeqnoAbsolute { s₂ with segmentsOut := [] } ≠ 0 := Nat.ne_of_gt hpos
      have herror : s₂.stream.error = false := hd.outbound
      simp only [stateSummary, herror, Bool.false_eq_true, ↓reduceIte, hnext] at hclosed
      split at hclosed
      · cases hclosed
      · split at hclosed
        · cases hclosed
        · split at hclosed
          · cases hclosed
          · split at hclosed
            · cases hclosed
            · cases hclosed

/-! ## Whole runs -/

theorem stays_iff (cfg : TCPConfig) {es : List Event} (hu : ∀ e ∈ es, Unsolicited e) (time : Nat) :
    (∀ n, ∃ c, (es.take n).foldlM call (waiting cfg time) = .ok c ∧ Listens c) ↔
      ∀ e ∈ es, Inert cfg.fixedIsn e := by
  induction es generalizing time with
  | nil =>
    refine iff_of_true (fun n => ⟨_, ?_, listens_waiting cfg time⟩) (by simp)
    rw [List.take_nil]
    rfl
  | cons e es ih =>
    have hue : Unsolicited e := hu e List.mem_cons_self
    have hus : ∀ e ∈ es, Unsolicited e := fun e he => hu e (List.mem_cons_of_mem _ he)
    constructor
    · intro h
      have hi : Inert cfg.fixedIsn e := by
        obtain ⟨c, hc, hlisten⟩ := h 1
        rw [List.take_succ_cons, List.take_zero, List.foldlM_cons] at hc
        obtain ⟨d, hd, hc⟩ := Exec.bind_eq_ok.mp hc
        cases hc
        exact Decidable.not_not.mp fun hno => call_disturbs cfg time hno hd hlisten
      obtain ⟨time', htime⟩ := call_inert cfg time hue hi
      rw [List.forall_mem_cons]
      refine ⟨hi, (ih hus time').mp fun n => ?_⟩
      obtain ⟨c, hc, hlisten⟩ := h (n + 1)
      rw [List.take_succ_cons, List.foldlM_cons, htime] at hc
      exact ⟨c, hc, hlisten⟩
    · intro h n
      obtain ⟨hi, hrest⟩ := List.forall_mem_cons.mp h
      obtain ⟨time', htime⟩ := call_inert cfg time hue hi
      cases n with
      | zero => exact ⟨_, rfl, listens_waiting cfg time⟩
      | succ n =>
        obtain ⟨c, hc, hlisten⟩ := (ih hus time').mpr hrest n
        refine ⟨c, ?_, hlisten⟩
        rw [List.take_succ_cons, List.foldlM_cons, htime]
        exact hc

/-- **Listening.** A connection on which nothing has been called, given ticks and segments
without SYN, stays in LISTEN, active, with no stream in error and nothing put out, exactly
when every segment is inert. -/
theorem listens_iff (cfg : TCPConfig) (es : List Event) (hu : ∀ e ∈ es, Unsolicited e) :
    (∀ n, ∃ c, (es.take n).foldlM call (.new cfg) = .ok c ∧ c.state = .ofState .listen ∧
      c.active = true ∧ c.sender.stream.error = false ∧ c.inboundStream.error = false ∧
      c.segmentsOut = []) ↔ ∀ e ∈ es, Inert cfg.fixedIsn e := by
  rw [← stays_iff cfg hu 0]
  constructor
  · intro h n
    obtain ⟨c, hc, h1, h2, h3, h4, h5⟩ := h n
    exact ⟨c, hc, h1, h2, h3, h4, h5⟩
  · intro h n
    obtain ⟨c, hc, h1, h2, h3, h4, h5⟩ := h n
    exact ⟨c, hc, h1, h2, h3, h4, h5⟩

/-- A tick, and an acknowledgement of a number that was never sent. -/
def strayAck : List Event :=
  [.tick 5, .segmentReceived { header := { ack := true, ackno := ⟨8⟩, win := 3 } }]

theorem listens_iff_stray_ack :
    ∃ c, strayAck.foldlM call (.new { fixedIsn := ⟨7⟩ }) = .ok c ∧
      c.state = .ofState .listen ∧ c.segmentsOut = [] := by
  have hu : ∀ e ∈ strayAck, Unsolicited e := by simp [strayAck, Unsolicited]
  have hi : ∀ e ∈ strayAck, Inert ⟨7⟩ e := by
    simp [strayAck, Inert, TCPSegment.lengthInSequenceSpace]
  obtain ⟨c, hc, hstate, -, -, -, hquiet⟩ := (listens_iff { fixedIsn := ⟨7⟩ } strayAck hu).mpr hi 2
  exact ⟨c, hc, hstate, hquiet⟩

/-- **What disturbs it.** A RST ends it in error; an acknowledgement of its initial number,
a FIN, and a byte each make it send a SYN. -/
theorem listening_disturbed :
    (∃ c, (TCPConnection.new { fixedIsn := ⟨7⟩ }).segmentReceived { header := { rst := true } } =
      .ok c ∧ c.active = false ∧ c.state = .ofState .reset) ∧
    ∀ seg ∈ ([{ header := { ack := true, ackno := ⟨7⟩ } }, { header := { fin := true } },
        { payload := [97] }] : List TCPSegment),
      ∃ c out, (TCPConnection.new { fixedIsn := ⟨7⟩ }).segmentReceived seg = .ok c ∧
        c.state = .ofState .synSent ∧ c.segmentsOut = [out] ∧ out.header.syn = true := by
  constructor
  · obtain ⟨c, hc, hview⟩ := Exec.ok_of_view (fun c => (c.active, c.state))
      (false, .ofState .reset) (show ((TCPConnection.new { fixedIsn := ⟨7⟩ }).segmentReceived
        { header := { rst := true } }).toOption.map _ = _ by decide +kernel)
    exact ⟨c, hc, congrArg Prod.fst hview, congrArg Prod.snd hview⟩
  · intro seg hseg
    have hview : ((TCPConnection.new { fixedIsn := ⟨7⟩ }).segmentReceived seg).toOption.map
        (fun c => (c.state, c.segmentsOut.map fun out => out.header.syn)) =
        some (.ofState .synSent, [true]) := by
      revert seg
      decide +kernel
    obtain ⟨c, hc, hview⟩ := Exec.ok_of_view _ _ hview
    obtain ⟨hstate, hout⟩ := Prod.mk.inj hview
    obtain ⟨out, rest, hsegs, hsyn, hrest⟩ := List.map_eq_cons_iff.mp hout
    rw [List.map_eq_nil_iff.mp hrest] at hsegs
    exact ⟨c, out, hc, hstate, hsegs, hsyn⟩

end Sponge.Listen
