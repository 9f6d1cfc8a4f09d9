import Mathlib.Logic.Function.Basic
import Sponge.EndpointRuns
import Sponge.FlowControl
import Sponge.WindowEdge

/-!
# Segments in order

Two connections joined by a network that may lose segments, and may repeat the last one, but does
not deliver one after a later one. Then every acknowledgement that a sender takes is at least as
new as the one before, the free space that it computes from it is the receiver's, and it sends
nothing past the window. That what is delivered fits, `System.FitsWindow`, need not be assumed.

* `Follows`: the sender keeps to the last acknowledgement that it has taken;
* `Told`: the acknowledgements of a receiver are in ascending order;
* `in_order_safety`: what either side reads is the beginning of what the other wrote.
-/

namespace Sponge.InOrder

open TCPSender FlowControl

/-! ## The sender -/

/-- The sender has taken the acknowledgement of `A` with a window of `W`, and goes by it. -/
structure Follows (A W : Nat) (s : TCPSender) : Prop where
  bounded : EdgeBounded (A + max W 1) s
  level : s.segmentsOutstanding = [] → s.nextSeqno = A

theorem follows_emits {A W : Nat} {s t : TCPSender} (h : Follows A W s) (he : Emits s t) :
    Follows A W t := by
  refine ⟨edgeBounded_emits h.bounded he, ?_⟩
  cases he with
  | syn _ => simp [TCPSender.syn, push]
  | bytes _ => simp [TCPSender.bytes, push]

/-- An acknowledgement that is at least as new and shows an edge at least as far. -/
structure Newer (A W A' W' : Nat) : Prop where
  ackno : A ≤ A'
  edge : A + W ≤ A' + W'

/-- The 16-bit counter can represent it. -/
theorem keepsEdge_newer {A W A' : Nat} {s : TCPSender} {ackno : WrappingInt32} {windowSize : UInt16}
    (h : Follows A W s) (hn : Newer A W A' windowSize.toNat)
    (hacc : accepted s (.ackReceived ackno windowSize) = some (A', windowSize))
    (hle : A' ≤ s.nextSeqno) :
    FlowControl.KeepsEdge ⟨s, A + max W 1⟩ (.ackReceived ackno windowSize) := by
  have hsent := h.bounded.sent
  have hedge := hn.edge
  have hackno := hn.ackno
  have hzero : windowSize = 0 ↔ windowSize.toNat = 0 := (UInt16.toNat_inj (b := 0)).symm
  simp only [FlowControl.KeepsEdge, hacc]
  split
  · rename_i hopen
    refine ⟨?_, ?_⟩
    · intro hw
      rw [ne_eq, hzero] at hw
      omega
    · intro hw
      rw [hzero] at hw
      -- the window is closed, so that only the probe is beyond what is acknowledged
      have hone : s.nextSeqno - A' = 1 := by omega
      rw [hone]
      decide
  · rename_i hopen
    by_cases ho : s.segmentsOutstanding = []
    · have := h.level ho
      omega
    · have : ¬ A' < s.nextSeqno := fun hlt => hopen ⟨ho, hlt⟩
      omega

/-- **An acknowledgement.** It is ignored, or the sender goes by it from then on. -/
theorem follows_ackReceived {A W A' : Nat} {s t : TCPSender} {ackno : WrappingInt32}
    {windowSize : UInt16} (h : Follows A W s)
    (habs : unwrap ackno s.isn s.nextSeqno = .ok A') (hn : Newer A W A' windowSize.toNat)
    (ht : s.ackReceived ackno windowSize = .ok t) :
    t = s ∨ ∃ gone rest, s.segmentsOutstanding = gone ++ rest ∧
      Follows A' windowSize.toNat (s.acked A' windowSize gone rest) ∧
      (s.acked A' windowSize gone rest).fillWindow = .ok t := by
  obtain ⟨B, hB, ⟨-, rfl⟩ | ⟨hok, hacc, gone, rest, m, hd, hb, -, hfill⟩⟩ :=
    ackReceived_spec h.bounded.book h.bounded.near ht
  · exact .inl rfl
  · right
    cases hB.symm.trans habs
    have hop : accepted s (.ackReceived ackno windowSize) = some (A', windowSize) := by
      simp only [accepted, habs, hok]
    have hkeeps := keepsEdge_newer h hn hop hacc.1
    have hbounded := edgeBounded_acked (s := ⟨s, A + max W 1⟩) h.bounded hop hkeeps hd hacc hb
    refine ⟨gone, rest, hd.split, ⟨?_, ?_⟩, hfill⟩
    · have hmax : max (A + max W 1) (A' + max windowSize.toNat 1) =
          A' + max windowSize.toNat 1 := by
        have := hn.ackno
        have := hn.edge
        omega
      rwa [hmax] at hbounded
    · intro hrest
      have hnone := mt (divides_rest hd hacc).mpr (fun hne => hne hrest)
      have hle := hacc.1
      change s.nextSeqno = A'
      by_cases ho : s.segmentsOutstanding = []
      · have := h.level ho
        have := hn.ackno
        omega
      · have : ¬ A' < s.nextSeqno := fun hlt => hnone ⟨ho, hlt⟩
        omega

/-- The payload starts at `L` at the latest. -/
def StartsBy (L : Nat) (isn : WrappingInt32) (seg : TCPSegment) : Prop :=
  seg.payload = [] ∨ TCPReceiver.place isn seg ≤ L

theorem StartsBy.mono {L M : Nat} {isn : WrappingInt32} {seg : TCPSegment} (h : StartsBy L isn seg)
    (hle : L ≤ M) : StartsBy M isn seg := h.imp_right (Nat.le_trans · hle)

/-- Until the FIN is sent the sender goes by an acknowledgement whose edge is at `L` at the
latest; and it has sent nothing that starts after `L`. -/
structure WithinEdge (isn : WrappingInt32) (L A W : Nat) (s : TCPSender) : Prop where
  numbers : s.isn = isn
  follows : s.finSent = false → Follows A W s ∧ A + W ≤ L
  outstanding : ∀ seg ∈ s.segmentsOutstanding, StartsBy L isn seg
  queued : ∀ seg ∈ s.segmentsOut, StartsBy L isn seg

section
variable {isn : WrappingInt32} {L A W : Nat}

theorem withinEdge_emits {s t : TCPSender} (h : WithinEdge isn L A W s) (he : Emits s t) :
    WithinEdge isn L A W t := by
  cases he with
  | syn hs =>
    have hstarts : StartsBy L isn (s.segment true false []) := .inl rfl
    refine ⟨h.numbers, fun hf => ?_, forall_mem_snoc h.outstanding hstarts,
      forall_mem_snoc h.queued hstarts⟩
    obtain ⟨hfollows, hle⟩ := h.follows hf
    exact ⟨follows_emits hfollows (.syn hs), hle⟩
  | @bytes size fin may =>
    obtain ⟨hfollows, hle⟩ := h.follows may.going
    have hafter := follows_emits hfollows (.bytes may)
    have hstarts : StartsBy L isn (s.segment false fin (s.stream.buffer.take size)) := by
      by_cases hsize : size = 0
      · left
        rw [TCPSender.segment, hsize, List.take_zero]
      · right
        have hsent := hafter.bounded.sent
        have hnext := bytes_nextSeqno fin may.buffered
        have hplace : TCPReceiver.place isn (s.segment false fin (s.stream.buffer.take size)) =
            s.nextSeqno % 2 ^ 32 := by
          rw [← h.numbers]
          exact WrappingInt32.offset_wrap _ _
        have hmod := Nat.mod_le s.nextSeqno (2 ^ 32)
        rw [hplace]
        omega
    exact ⟨h.numbers, fun _ => ⟨hafter, hle⟩, forall_mem_snoc h.outstanding hstarts,
      forall_mem_snoc h.queued hstarts⟩

theorem withinEdge_fillWindow {s t : TCPSender} (h : WithinEdge isn L A W s)
    (ht : s.fillWindow = .ok t) : WithinEdge isn L A W t :=
  fillWindow_invariant (P := WithinEdge isn L A W) (fun _ _ => withinEdge_emits) h ht

/-- The stream, the outgoing queue and the timer's fields play no part. -/
theorem WithinEdge.quiet {s : TCPSender} (h : WithinEdge isn L A W s) (stream : ByteStream)
    {out : List TCPSegment} (elapsed : UInt32) (count : UInt16) (rto : UInt32)
    (hout : ∀ seg ∈ out, StartsBy L isn seg) : WithinEdge isn L A W { s with
      stream := stream
      segmentsOut := out
      timeElapsed := elapsed
      consecutiveRetransmissions := count
      rto := rto } := by
  refine ⟨h.numbers, fun hf => ?_, h.outstanding, hout⟩
  obtain ⟨hfollows, hle⟩ := h.follows hf
  exact ⟨⟨edgeBounded_quiet hfollows.bounded _ _ _ _ _, hfollows.level⟩, hle⟩

theorem WithinEdge.withStream {s : TCPSender} (h : WithinEdge isn L A W s) (stream : ByteStream) :
    WithinEdge isn L A W { s with stream := stream } :=
  h.quiet stream _ _ _ h.queued

theorem WithinEdge.drained {s : TCPSender} (h : WithinEdge isn L A W s) :
    WithinEdge isn L A W { s with segmentsOut := [] } :=
  h.quiet _ _ _ _ (by simp)

theorem withinEdge_tick {s t : TCPSender} {ms : Nat} (h : WithinEdge isn L A W s)
    (ht : s.tick ms = .ok t) : WithinEdge isn L A W t := by
  obtain ⟨out, elapsed, count, rto, hout, rfl⟩ := tick_ok ht
  apply h.quiet
  rcases hout with rfl | ⟨seg, rest, ho, rfl⟩
  · simpa using h.queued
  · exact forall_mem_snoc h.queued (h.outstanding seg (by rw [ho]; exact List.mem_cons_self))

/-- What an acknowledgement that arrives has to be as long as the FIN is not sent. -/
def Welcome (L A W : Nat) (s : TCPSender) (ackno : WrappingInt32) (A' W' : Nat) : Prop :=
  unwrap ackno s.isn s.nextSeqno = .ok A' ∧ Newer A W A' W' ∧ A' + W' ≤ L

theorem withinEdge_ackReceived {A' : Nat} {s t : TCPSender} {ackno : WrappingInt32}
    {windowSize : UInt16} (h : WithinEdge isn L A W s) (htally : Tally s)
    (hw : s.finSent = false → Welcome L A W s ackno A' windowSize.toNat)
    (ht : s.ackReceived ackno windowSize = .ok t) :
    WithinEdge isn L A W t ∨ s.finSent = false ∧ WithinEdge isn L A' windowSize.toNat t := by
  have hrest : ∀ {gone rest : List TCPSegment}, s.segmentsOutstanding = gone ++ rest →
      ∀ seg ∈ rest, StartsBy L isn seg := by
    intro gone rest hsplit seg hseg
    exact h.outstanding seg (hsplit ▸ List.mem_append_right gone hseg)
  cases hf : s.finSent with
  | false =>
    obtain ⟨habs, hn, hle⟩ := hw hf
    rcases follows_ackReceived (h.follows hf).1 habs hn ht with rfl | ⟨gone, rest, hsplit,
      hfollows, hfill⟩
    · exact .inl h
    · have hacked : WithinEdge isn L A' windowSize.toNat (s.acked A' windowSize gone rest) :=
        ⟨h.numbers, fun _ => ⟨hfollows, hle⟩, hrest hsplit, h.queued⟩
      exact .inr ⟨rfl, withinEdge_fillWindow hacked hfill⟩
  | true =>
    left
    obtain rfl | ⟨_, gone, rest, freeSpace, _, _, hsplit, _, hfill⟩ := ackReceived_any htally ht
    · exact h
    · have htrimmed : WithinEdge isn L A W (s.trimmed windowSize freeSpace gone rest) := by
        refine ⟨h.numbers, fun hno => ?_, hrest hsplit, h.queued⟩
        change s.finSent = false at hno
        rw [hf] at hno
        cases hno
      exact withinEdge_fillWindow htrimmed hfill

/-! ## Calls on the sending side -/

/-- Nothing that the connection has put out starts after `L`. -/
structure Goes (isn : WrappingInt32) (L A W : Nat) (c : TCPConnection) : Prop where
  withinEdge : WithinEdge isn L A W c.sender
  out : ∀ seg ∈ c.segmentsOut, StartsBy L isn seg

theorem startsBy_stamped {seg : TCPSegment} (c : TCPConnection) (h : StartsBy L isn seg) :
    StartsBy L isn (c.setAckAndWindowsize seg) := by
  unfold TCPConnection.setAckAndWindowsize
  cases c.receiver.ackno <;> exact h

theorem startsBy_rst {seg : TCPSegment} (h : StartsBy L isn seg) :
    StartsBy L isn { seg with header := { seg.header with rst := true } } := h

/-- What the receiver makes of a segment leaves the outgoing queue alone. -/
theorem segmentsOut_accepted (c : TCPConnection) (r : TCPReceiver) :
    (c.accepted r).segmentsOut = c.segmentsOut := by
  rw [TCPConnection.accepted, TCPConnection.noteInboundEnd_eq]

theorem goes_sent {c : TCPConnection} {s : TCPSender} {segs : List TCPSegment}
    (hs : WithinEdge isn L A W s) (hsegs : ∀ seg ∈ segs, StartsBy L isn seg)
    (hout : ∀ seg ∈ c.segmentsOut, StartsBy L isn seg) : Goes isn L A W (c.sent s segs) := by
  refine ⟨hs.drained, List.forall_mem_append.mpr ⟨hout, ?_⟩⟩
  intro seg hseg
  obtain ⟨x, hx, rfl⟩ := List.mem_map.mp hseg
  exact startsBy_stamped c (hsegs x hx)

theorem goes_tick {c d : TCPConnection} {ms : Nat} (h : Goes isn L A W c)
    (hq : c.sender.segmentsOut = []) (hd : c.tick ms = .ok d) : Goes isn L A W d := by
  obtain ⟨e, he, rfl⟩ := TCPConnection.tick_spec hq hd
  suffices hgoes : Goes isn L A W e by
    obtain ⟨-, hs, ho⟩ := WindowEdge.closeIfDone_same e
    exact ⟨by rw [hs]; exact hgoes.withinEdge, by rw [ho]; exact hgoes.out⟩
  cases he with
  | quiet ht => exact goes_sent (withinEdge_tick h.withinEdge ht) (by simp) h.out
  | @resends t seg ht hone =>
    have hnow := withinEdge_tick h.withinEdge ht
    exact goes_sent hnow (hone ▸ hnow.queued) h.out
  | @aborts t seg ht hone =>
    have hnow := withinEdge_tick h.withinEdge ht
    have hseg : StartsBy L isn seg :=
      hnow.queued seg (by rw [hone]; exact List.mem_singleton_self _)
    exact ⟨hnow.drained.withStream _,
      forall_mem_snoc h.out (startsBy_rst (startsBy_stamped _ hseg))⟩

/-- The sender's answer to a segment. -/
theorem withinEdge_answers {s t : TCPSender} {seg : TCPSegment} {segs : List TCPSegment}
    (h : WithinEdge isn L A W s) (ht : TCPConnection.Answers seg s t segs) :
    WithinEdge isn L A W t ∧ ∀ x ∈ segs, StartsBy L isn x := by
  cases ht with
  | nothing => exact ⟨h, by simp⟩
  | fills _ hfill =>
    have hnow := withinEdge_fillWindow h hfill
    exact ⟨hnow.drained, hnow.queued⟩
  | empty _ hfill =>
    refine ⟨withinEdge_fillWindow h hfill, ?_⟩
    intro x hx
    rw [List.mem_singleton.mp hx]
    exact .inl rfl

theorem goes_segment {A' : Nat} {c d : TCPConnection} {seg : TCPSegment} (h : Goes isn L A W c)
    (hc : Replies.Sound c)
    (hw : seg.header.ack = true → seg.header.rst = false → c.sender.finSent = false →
      Welcome L A W c.sender seg.header.ackno A' seg.header.win.toNat)
    (hd : c.segmentReceived seg = .ok d) :
    Goes isn L A W d ∨ seg.header.ack = true ∧ Goes isn L A' seg.header.win.toNat d := by
  rcases TCPConnection.segmentReceived_spec hc.drained hd with
    ⟨-, rfl⟩ | ⟨hrst, r, s₁, s₂, xs, ys, hr, hack, hans, rfl⟩
  · exact .inl ⟨h.withinEdge.withStream _, h.out⟩
  · have hout : ∀ x ∈ (c.accepted r).segmentsOut, StartsBy L isn x := by
      rw [segmentsOut_accepted]
      exact h.out
    have hlast : ∀ {B V : Nat}, WithinEdge isn L B V s₁ → (∀ x ∈ xs, StartsBy L isn x) →
        Goes isn L B V ((c.accepted r).sent s₂ (xs ++ ys)) := by
      intro B V hs₁ hxs
      obtain ⟨hs₂, hys⟩ := withinEdge_answers hs₁ hans
      exact goes_sent hs₂ (List.forall_mem_append.mpr ⟨hxs, hys⟩) hout
    cases hack with
    | without _ => exact .inl (hlast h.withinEdge (by simp))
    | @given t hyes ht =>
      rcases withinEdge_ackReceived h.withinEdge hc.tally (hw hyes hrst) ht with hsame | ⟨-, hnew⟩
      · exact .inl (hlast hsame.drained hsame.queued)
      · exact .inr ⟨hyes, hlast hnew.drained hnew.queued⟩

/-- Every other call. -/
theorem goes_call {c d : TCPConnection} {e : TCPConnection.Event} (h : Goes isn L A W c)
    (hc : Replies.Sound c) (he : ∀ seg, e ≠ .segmentReceived seg) (hd : c.call e = .ok d) :
    Goes isn L A W d := by
  cases e with
  | connect | write _ | endInputStream =>
    rcases TCPConnection.fills_spec rfl hd with rfl | ⟨stream, s, hs, rfl⟩
    · exact h
    · have hnow := withinEdge_fillWindow (h.withinEdge.withStream stream) hs
      exact goes_sent hnow hnow.queued h.out
  | tick ms => exact goes_tick h hc.drained hd
  | segmentReceived seg => exact absurd rfl (he seg)
  | read len =>
    cases hd
    exact ⟨h.withinEdge, h.out⟩
  | collect =>
    cases hd
    exact ⟨h.withinEdge, by simp⟩

theorem Goes.mono {M : Nat} {c : TCPConnection} (h : Goes isn L A W c) (hle : L ≤ M) :
    Goes isn M A W c where
  withinEdge := by
    obtain ⟨hnumbers, hfollows, houtstanding, hqueued⟩ := h.withinEdge
    exact ⟨hnumbers, fun hf => ⟨(hfollows hf).1, Nat.le_trans (hfollows hf).2 hle⟩,
      fun seg hseg => (houtstanding seg hseg).mono hle, fun seg hseg => (hqueued seg hseg).mono hle⟩
  out seg hseg := (h.out seg hseg).mono hle

end

/-! ## The receiver -/

open WindowEdge (Advert adverts newOut)

/-- No call but `collect` takes back what has been put out. -/
theorem out_call {c d : TCPConnection} {e : TCPConnection.Event} (hc : Replies.Sound c)
    (hne : e ≠ .collect) (hd : c.call e = .ok d) :
    d.segmentsOut = c.segmentsOut ++ newOut c d := by
  suffices hnew : ∃ new, d.segmentsOut = c.segmentsOut ++ new by
    obtain ⟨new, hnew⟩ := hnew
    rw [newOut, hnew, List.drop_left]
  cases e with
  | connect | write _ | endInputStream =>
    rcases TCPConnection.fills_spec rfl hd with rfl | ⟨stream, s, hs, rfl⟩
    · exact ⟨[], (List.append_nil _).symm⟩
    · exact ⟨_, rfl⟩
  | tick ms =>
    obtain ⟨f, hf, rfl⟩ := TCPConnection.tick_spec hc.drained hd
    rw [(WindowEdge.closeIfDone_same f).2.2]
    cases hf <;> exact ⟨_, rfl⟩
  | segmentReceived seg =>
    rcases TCPConnection.segmentReceived_spec hc.drained hd with
      ⟨-, rfl⟩ | ⟨-, r, s₁, s₂, xs, ys, -, -, -, rfl⟩
    · exact ⟨[], (List.append_nil _).symm⟩
    · refine ⟨(xs ++ ys).map (c.accepted r).setAckAndWindowsize, ?_⟩
      rw [TCPConnection.sent, segmentsOut_accepted]
  | read len =>
    cases hd
    exact ⟨[], (List.append_nil _).symm⟩
  | collect => exact absurd rfl hne

/-- What the segments with ACK set have told the other side: the numbers and the edges go up, and
the receiver has got at least as far. -/
structure Told (cfg : TCPConfig) (log : List Advert) (c : TCPConnection) : Prop where
  sound : WindowEdge.Sound cfg ⟨c, log⟩
  segs : log.map Advert.seg = c.segmentsOut.filter fun seg => seg.header.ack
  acknos : (log.map Advert.ackno).Pairwise (· ≤ ·)
  last : ∀ a ∈ log, a.ackno ≤ c.receiver.absAckno

theorem told_new (cfg : TCPConfig) (hcap : 1 ≤ cfg.recvCapacity) : Told cfg [] (.new cfg) where
  sound := WindowEdge.sound_init cfg hcap
  segs := by simp [TCPConnection.new]
  acknos := by simp
  last := by simp

theorem told_call {cfg : TCPConfig} {log : List Advert} {c d : TCPConnection}
    {e : TCPConnection.Event} (h : Told cfg log c) (hcap : cfg.recvCapacity ≤ 65535)
    (hc : Replies.Sound c) (hne : e ≠ .collect) (hfin : c.receiver.finReceived = false)
    (hmono : c.receiver.absAckno ≤ d.receiver.absAckno) (hd : c.call e = .ok d) :
    Told cfg (log ++ adverts c d) d := by
  have horder : WindowEdge.FinInOrder ⟨c, log⟩ e := by
    cases e with
    | segmentReceived seg =>
      intro hover
      have hyes : c.receiver.finReceived = true := hover.1
      rw [hfin] at hyes
      cases hyes
    | connect | write _ | endInputStream | tick _ | read _ | collect => trivial
  have hnew : ∀ a ∈ adverts c d, a.ackno = d.receiver.absAckno := fun a ha =>
    (WindowEdge.mem_adverts ha).2.2
  have hold : ∀ a ∈ log, a.ackno ≤ d.receiver.absAckno := fun a ha =>
    Nat.le_trans (h.last a ha) hmono
  constructor
  case sound =>
    apply WindowEdge.sound_step h.sound hcap horder
    exact Exec.bind_eq_ok.mpr ⟨d, hd, rfl⟩
  case segs =>
    rw [List.map_append, h.segs, out_call hc hne hd, List.filter_append, adverts, List.map_map]
    congr 1
    exact List.map_id _
  case acknos =>
    rw [List.map_append, List.pairwise_append]
    refine ⟨h.acknos, ?_, ?_⟩
    · apply List.pairwise_of_forall_mem_list
      simp only [List.mem_map]
      rintro _ ⟨a, ha, rfl⟩ _ ⟨b, hb, rfl⟩
      exact Nat.le_of_eq ((hnew a ha).trans (hnew b hb).symm)
    · simp only [List.mem_map]
      rintro _ ⟨a, ha, rfl⟩ _ ⟨b, hb, rfl⟩
      rw [hnew b hb]
      exact hold a ha
  case last =>
    exact List.forall_mem_append.mpr ⟨hold, fun a ha => Nat.le_of_eq (hnew a ha)⟩

/-- The number that a segment acknowledges, counted from `isn`. -/
def acked (isn : WrappingInt32) (seg : TCPSegment) : Nat :=
  WrappingInt32.offset seg.header.ackno isn

/-- What an advertisement says can be read in its segment. -/
theorem Told.acked {cfg : TCPConfig} {log : List Advert} {c : TCPConnection} {a : Advert}
    (h : Told cfg log c) (hlow : WindowEdge.edge c.receiver < 2 ^ 32) (ha : a ∈ log) :
    acked c.receiver.isn a.seg = a.ackno := by
  obtain ⟨-, -, hnumber⟩ := h.sound.numbers a ha
  have hedge : a.edge ≤ WindowEdge.edge c.receiver := h.sound.below a ha
  have hle : a.ackno ≤ a.edge := Nat.le_add_right _ _
  rw [InOrder.acked, hnumber, WrappingInt32.offset_wrap, Nat.mod_eq_of_lt (by omega)]

/-- **In order.** A later segment acknowledges at least as much, and its edge is at least as far. -/
theorem Told.newer {cfg : TCPConfig} {log : List Advert} {c : TCPConnection} {i j : Nat}
    {p q : TCPSegment} (h : Told cfg log c) (hlow : WindowEdge.edge c.receiver < 2 ^ 32)
    (hij : i ≤ j) (hp : c.segmentsOut[i]? = some p) (hq : c.segmentsOut[j]? = some q)
    (hpack : p.header.ack = true) (hqack : q.header.ack = true) :
    Newer (InOrder.acked c.receiver.isn p) p.header.win.toNat
      (InOrder.acked c.receiver.isn q) q.header.win.toNat := by
  have hlog : log.Pairwise fun a b => Newer (InOrder.acked c.receiver.isn a.seg)
      a.seg.header.win.toNat (InOrder.acked c.receiver.isn b.seg) b.seg.header.win.toNat := by
    have hedges := List.pairwise_map.mp h.sound.ordered
    have hacknos := List.pairwise_map.mp h.acknos
    refine (hedges.and hacknos).imp_of_mem ?_
    rintro a b ha hb ⟨hedge, hackno⟩
    rw [h.acked hlow ha, h.acked hlow hb]
    exact ⟨hackno, hedge⟩
  have hsegs : (log.map Advert.seg).Pairwise fun p q =>
      Newer (InOrder.acked c.receiver.isn p) p.header.win.toNat
        (InOrder.acked c.receiver.isn q) q.header.win.toNat := List.pairwise_map.mpr hlog
  rw [h.segs, List.pairwise_filter, List.pairwise_iff_getElem] at hsegs
  obtain ⟨hi, rfl⟩ := List.getElem?_eq_some_iff.mp hp
  obtain ⟨hj, rfl⟩ := List.getElem?_eq_some_iff.mp hq
  rcases Nat.lt_or_eq_of_le hij with hlt | heq
  · exact hsegs i j hi hj hlt hpack hqack
  · subst heq
    exact ⟨Nat.le_refl _, Nat.le_refl _⟩

theorem Told.edge {cfg : TCPConfig} {log : List Advert} {c : TCPConnection} {q : TCPSegment}
    (h : Told cfg log c) (hlow : WindowEdge.edge c.receiver < 2 ^ 32)
    (hq : q ∈ c.segmentsOut) (hqack : q.header.ack = true) :
    c.receiver.synReceived = true ∧
      InOrder.acked c.receiver.isn q + q.header.win.toNat ≤ WindowEdge.edge c.receiver := by
  have hmem : q ∈ log.map Advert.seg := by
    rw [h.segs]
    exact List.mem_filter.mpr ⟨hq, hqack⟩
  obtain ⟨a, ha, rfl⟩ := List.mem_map.mp hmem
  rw [h.acked hlow ha]
  exact ⟨(h.sound.numbers a ha).1, h.sound.below a ha⟩

/-! ## One action -/

open TCPReceiver StreamReassembler

/-- Where the window of a receiver ends, as long as no FIN has arrived. -/
def limit (t : TCPReceiver) : Nat := t.reassembler.output.readBytes + t.capacity + 1

theorem edge_limit {U : List Byte} {isn : WrappingInt32} {t : TCPReceiver} (hrx : Rx U isn t)
    (hfit : WindowEdge.Fit t) (hfin : t.finReceived = false) : WindowEdge.edge t = limit t := by
  have hbase := hrx.inv.base
  have hcounts := t.reassembler.output.counts
  have hfits := t.reassembler.output.fits
  have hroom := hrx.inv.room
  have hcap := hrx.capacity
  rw [WindowEdge.edge_eq hfit, hfin, Bool.and_false, freeEdge, limit]
  simp only [Bool.toNat_false]
  omega

/-- The receiver `u` has got at least as far as `t`. -/
structure Forward (t u : TCPReceiver) : Prop where
  base : t.reassembler.unassBase ≤ u.reassembler.unassBase
  read : t.reassembler.output.readBytes ≤ u.reassembler.output.readBytes
  capacity : u.capacity = t.capacity
  fin : t.finReceived = true → u.finReceived = true

theorem Forward.refl (t : TCPReceiver) : Forward t t :=
  ⟨Nat.le_refl _, Nat.le_refl _, rfl, id⟩

theorem Forward.limit {t u : TCPReceiver} (h : Forward t u) : limit t ≤ limit u := by
  have := h.read
  have := h.capacity
  simp only [InOrder.limit]
  omega

/-- As long as no FIN has arrived, what is acknowledged goes up. -/
theorem Forward.ackno {t u : TCPReceiver} (h : Forward t u) (hfin : t.finReceived = false) :
    t.absAckno ≤ u.absAckno := by
  have := h.base
  simp only [absAckno, hfin, Bool.and_false, Bool.toNat_false, ackIndex]
  omega

theorem forward_segment {U : List Byte} {isn : WrappingInt32} {t u : TCPReceiver} {got : List Byte}
    {seg : TCPSegment} (h : Inbound U isn t got) (hU : U.length < 2 ^ 31)
    (hcarries : Carries U isn seg) (hfits : Fits isn t seg) (hu : t.segmentReceived seg = .ok u) :
    Forward t u ∧ (u.finReceived = true → t.finReceived = true ∨ seg.header.fin = true) := by
  have hx := exact_of_fits h.rx hU h.capacity hcarries hfits
  obtain ⟨v, hv, hcase⟩ := segmentReceived_spec seg h.rx.inv (h.rx.low hU) hx
  cases hu.symm.trans hv
  obtain ⟨-, rfl⟩ | ⟨-, r, rfl, -, pushed⟩ := hcase
  · exact ⟨.refl u, .inl⟩
  · refine ⟨⟨pushed.forward, Nat.le_of_eq pushed.frame.2.symm, rfl, ?_⟩, ?_⟩
    · intro hf
      simp only [took, hf, Bool.true_or]
    · simp only [took, Bool.or_eq_true]
      exact id

theorem forward_act {U : List Byte} {isn : WrappingInt32} {e peer f : Endpoint} {action : Action}
    (h : Inbound U isn e.conn.receiver e.delivered) (hU : U.length < 2 ^ 31)
    (hseg : ∀ i seg, action = .deliver i → peer.conn.segmentsOut[i]? = some seg →
      Carries U isn seg ∧ Fits isn e.conn.receiver seg)
    (hact : e.act peer action = .ok f) :
    Forward e.conn.receiver f.conn.receiver ∧
      (f.conn.receiver.finReceived = true → e.conn.receiver.finReceived = true ∨
        ∃ seg ∈ peer.conn.segmentsOut, seg.header.fin = true) := by
  obtain ⟨c, acks, ht, hm⟩ := act_takes hact
  obtain ⟨err, herr⟩ := moves_receiver hm
  suffices hinput : Forward e.conn.receiver c.receiver ∧
      (c.receiver.finReceived = true → e.conn.receiver.finReceived = true ∨
        ∃ seg ∈ peer.conn.segmentsOut, seg.header.fin = true) by
    obtain ⟨⟨hbase, hread, hcap, hfin⟩, hnew⟩ := hinput
    rw [herr]
    exact ⟨⟨hbase, hread, hcap, hfin⟩, hnew⟩
  clear hm herr
  generalize f.written = W, f.delivered = got at ht
  cases ht with
  | nothing | write | endInput => exact ⟨.refl _, .inl⟩
  | @read len =>
    rw [readOut_fst]
    refine ⟨⟨Nat.le_refl _, ?_, rfl, id⟩, .inl⟩
    change _ ≤ (e.conn.receiver.reassembler.output.popOutput len).readBytes
    rcases e.conn.receiver.reassembler.output.popOutput_cases len with ⟨-, herror⟩ | ⟨-, -, hread⟩
    · rw [herror]
      exact Nat.le_refl _
    · rw [hread]
      exact Nat.le_add_right _ _
  | @segment i seg r hi hrst hr =>
    obtain ⟨hcarries, hfits⟩ := hseg i seg rfl hi
    obtain ⟨hforward, hfin⟩ := forward_segment h hU hcarries hfits hr
    exact ⟨hforward, fun hf => (hfin hf).imp_right fun hnew =>
      ⟨seg, List.mem_of_getElem? hi, hnew⟩⟩

/-- The segment whose acknowledgement `A`, with the window `W`, the sender goes by: it is the
`k`-th segment of the other side or one before that. -/
def AckHeard (isn : WrappingInt32) (segs : List TCPSegment) (k A W : Nat) : Prop :=
  (A = 0 ∧ W = 0) ∨ ∃ j seg, j ≤ k ∧ segs[j]? = some seg ∧ seg.header.ack = true ∧
    acked isn seg = A ∧ seg.header.win.toNat = W

/-- From `e` to `f`, whose `k`-th segment is the last that `e` has heard. -/
structure Flow (cfg : TCPConfig) (k : Nat) (e f : Endpoint) : Prop where
  drained : Replies.Sound e.conn
  fin : f.conn.receiver.finReceived = true → e.conn.sender.finSent = true
  told : f.conn.receiver.finReceived = false → ∃ log, Told cfg log f.conn
  goes : ∃ A W, Goes e.conn.sender.isn (limit f.conn.receiver) A W e.conn ∧
    AckHeard e.conn.sender.isn f.conn.segmentsOut k A W

theorem AckHeard.mono {isn : WrappingInt32} {segs more : List TCPSegment} {k l A W : Nat}
    (h : AckHeard isn segs k A W) (hkl : k ≤ l) (hsegs : segs <+: more) :
    AckHeard isn more l A W := by
  rcases h with hnone | ⟨j, seg, hj, hseg, hack⟩
  · exact .inl hnone
  · obtain ⟨new, rfl⟩ := hsegs
    have hlt := (List.getElem?_eq_some_iff.mp hseg).1
    exact .inr ⟨j, seg, Nat.le_trans hj hkl, by rw [List.getElem?_append_left hlt, hseg], hack⟩

/-- The number of the segment heard last. -/
def heardLast (k : Nat) : Action → Nat
  | .deliver i => i
  | _ => k

/-- The acknowledgement of a segment that comes in order is one that the sender can go by. -/
theorem Flow.welcome {cfg : TCPConfig} {k i A W : Nat} {e f : Endpoint} {U got : List Byte}
    {seg : TCPSegment} (h : Flow cfg k e f)
    (hin : Inbound U e.conn.sender.isn f.conn.receiver got) (hU : U.length < 2 ^ 31)
    (hcap : cfg.recvCapacity ≤ 65535) (hnext : e.conn.sender.nextSeqno < 2 ^ 31) (hki : k ≤ i)
    (ht : AckHeard e.conn.sender.isn f.conn.segmentsOut k A W)
    (hi : f.conn.segmentsOut[i]? = some seg) (hack : seg.header.ack = true)
    (hfin : e.conn.sender.finSent = false) :
    Welcome (limit f.conn.receiver) A W e.conn.sender seg.header.ackno
      (acked e.conn.sender.isn seg) seg.header.win.toNat := by
  have hopen : f.conn.receiver.finReceived = false := by
    apply Bool.eq_false_iff.mpr
    intro hyes
    rw [h.fin hyes] at hfin
    cases hfin
  obtain ⟨log, htold⟩ := h.told hopen
  have hedge := edge_limit hin.rx htold.sound.fit hopen
  have hlow : WindowEdge.edge f.conn.receiver < 2 ^ 32 := by
    have hread := f.conn.receiver.reassembler.output.read_le_written
    have hwithin := hin.rx.agrees.within
    have hcapacity : f.conn.receiver.capacity = cfg.recvCapacity := htold.sound.capacity
    rw [hedge, limit]
    omega
  obtain ⟨hsyn, hlast⟩ := htold.edge hlow (List.mem_of_getElem? hi) hack
  have hisn := hin.rx.isn hsyn
  rw [hisn, hedge] at hlast
  refine ⟨unwrap_low _ _ hnext, ?_, hlast⟩
  rcases ht with ⟨rfl, rfl⟩ | ⟨j, old, hj, hold, holdack, rfl, rfl⟩
  · exact ⟨Nat.zero_le _, Nat.zero_le _⟩
  · have hnewer := htold.newer hlow (Nat.le_trans hj hki) hold hi holdack hack
    rw [hisn] at hnewer
    exact hnewer

/-- **The sending side acts.** -/
theorem flow_sends {cfg : TCPConfig} {k : Nat} {e e' f : Endpoint} {action : Action}
    {U got : List Byte} (h : Flow cfg k e f)
    (hin : Inbound U e.conn.sender.isn f.conn.receiver got) (hU : U.length < 2 ^ 31)
    (hcap : cfg.recvCapacity ≤ 65535) (hnext : e.conn.sender.nextSeqno < 2 ^ 31)
    (horder : ∀ i, action = .deliver i → k ≤ i)
    (hfin : e.conn.sender.finSent = true → e'.conn.sender.finSent = true)
    (hact : e.act f action = .ok e') : Flow cfg (heardLast k action) e' f := by
  obtain ⟨event, hcall, hne, hevent⟩ := act_call hact
  obtain ⟨A, W, hgoes, hfrom⟩ := h.goes
  have hk : k ≤ heardLast k action := by
    cases action with
    | deliver i => exact horder i rfl
    | connect | write _ | endInputStream | tick _ | read _ => exact Nat.le_refl _
  suffices hsuff : ∃ A W, Goes e.conn.sender.isn (limit f.conn.receiver) A W e'.conn ∧
      AckHeard e.conn.sender.isn f.conn.segmentsOut (heardLast k action) A W by
    obtain ⟨B, V, hgoes', hfrom'⟩ := hsuff
    refine ⟨Replies.sound_call h.drained hcall, fun hf => hfin (h.fin hf), h.told, B, V, ?_, ?_⟩
    · rw [hgoes'.withinEdge.numbers]
      exact hgoes'
    · rw [hgoes'.withinEdge.numbers]
      exact hfrom'
  have hsame := hfrom.mono hk (List.prefix_refl _)
  by_cases hseg : ∃ seg, event = .segmentReceived seg
  · obtain ⟨seg, rfl⟩ := hseg
    obtain ⟨i, rfl, hi⟩ := hevent seg rfl
    have hwelcome : seg.header.ack = true → seg.header.rst = false →
        e.conn.sender.finSent = false → Welcome (limit f.conn.receiver) A W e.conn.sender
          seg.header.ackno (acked e.conn.sender.isn seg) seg.header.win.toNat :=
      fun hack _ hopen => h.welcome hin hU hcap hnext hk hfrom hi hack hopen
    rcases goes_segment hgoes h.drained hwelcome hcall with hold | ⟨hack, hnew⟩
    · exact ⟨A, W, hold, hsame⟩
    · exact ⟨_, _, hnew, .inr ⟨i, seg, Nat.le_refl _, hi, hack, rfl, rfl⟩⟩
  · have hother : ∀ seg, event ≠ .segmentReceived seg := fun seg heq => hseg ⟨seg, heq⟩
    exact ⟨A, W, goes_call hgoes h.drained hother hcall, hsame⟩

/-- **The receiving side acts.** -/
theorem flow_hears {cfg : TCPConfig} {k : Nat} {e f f' : Endpoint} {action : Action}
    {U : List Byte} (h : Flow cfg k e f)
    (hin : Inbound U e.conn.sender.isn f.conn.receiver f.delivered) (hU : U.length < 2 ^ 31)
    (hcap : cfg.recvCapacity ≤ 65535) (hdrained : Replies.Sound f.conn)
    (hseg : ∀ i seg, action = .deliver i → e.conn.segmentsOut[i]? = some seg →
      Carries U e.conn.sender.isn seg ∧ Fits e.conn.sender.isn f.conn.receiver seg)
    (hfin : ∀ seg ∈ e.conn.segmentsOut, seg.header.fin = true → e.conn.sender.finSent = true)
    (hact : f.act e action = .ok f') : Flow cfg k e f' := by
  obtain ⟨event, hcall, hne, -⟩ := act_call hact
  obtain ⟨hforward, hnew⟩ := forward_act hin hU hseg hact
  obtain ⟨A, W, hgoes, hfrom⟩ := h.goes
  refine ⟨h.drained, ?_, ?_, A, W, hgoes.mono hforward.limit, ?_⟩
  · intro hf
    rcases hnew hf with hold | ⟨seg, hmem, hsegfin⟩
    · exact h.fin hold
    · exact hfin seg hmem hsegfin
  · intro hf
    have hopen : f.conn.receiver.finReceived = false := by
      apply Bool.eq_false_iff.mpr
      intro hyes
      rw [hforward.fin hyes] at hf
      cases hf
    obtain ⟨log, htold⟩ := h.told hopen
    exact ⟨_, told_call htold hcap hdrained hne hopen (hforward.ackno hopen) hcall⟩
  · apply hfrom.mono (Nat.le_refl _)
    rw [out_call hdrained hne hcall]
    exact List.prefix_append _ _

theorem flow_new (cfg cfg' : TCPConfig) (hcap : 1 ≤ cfg'.recvCapacity) :
    Flow cfg' 0 (.new cfg) (.new cfg') := by
  have hbook := edgeBounded_new cfg.sendCapacity cfg.rtTimeout cfg.fixedIsn
  have hfollows : Follows 0 0 (TCPConnection.new cfg).sender := by
    refine ⟨⟨hbook.book, .closed rfl rfl rfl, hbook.short, ?_⟩, fun _ => rfl⟩
    rw [maxPayloadSize]
    omega
  refine ⟨Replies.sound_new cfg, fun hf => absurd hf Bool.false_ne_true,
    fun _ => ⟨[], told_new cfg' hcap⟩, 0, 0, ⟨⟨rfl, ?_, ?_, ?_⟩, ?_⟩, .inl ⟨rfl, rfl⟩⟩
  · exact fun _ => ⟨hfollows, Nat.zero_le _⟩
  · simp [Endpoint.new, TCPConnection.new, TCPSender.new]
  · simp [Endpoint.new, TCPConnection.new, TCPSender.new]
  · simp [Endpoint.new, TCPConnection.new]

/-! ## Every run -/

/-- Two connections, and the number of the segment that each side has heard last. -/
structure State where
  sys : System
  heard : Side → Nat

def init (cfg : Side → TCPConfig) : State := ⟨.init (cfg .a) (cfg .b), fun _ => 0⟩

def step (s : State) (ev : Side × Action) : Except Fault State := do
  let sys ← s.sys.step ev
  return ⟨sys, Function.update s.heard ev.1 (heardLast (s.heard ev.1) ev.2)⟩

/-- No segment is delivered after a later one. -/
def Ordered (s : State) : Side × Action → Prop
  | (x, .deliver i) => s.heard x ≤ i
  | _ => True

instance (s : State) : (ev : Side × Action) → Decidable (Ordered s ev)
  | (x, .deliver i) => inferInstanceAs (Decidable (s.heard x ≤ i))
  | (_, .write _) | (_, .connect) | (_, .endInputStream) | (_, .tick _) | (_, .read _) =>
    inferInstanceAs (Decidable True)

structure Inv (cfg : Side → TCPConfig) (s : State) : Prop where
  link : ∀ x, s.sys.Link x
  flow : ∀ x, Flow (cfg x.other) (s.heard x) (s.sys.side x) (s.sys.side x.other)

/-- **Nothing is sent past the window.** -/
theorem Inv.fits {cfg : Side → TCPConfig} {s : State} (h : Inv cfg s) (x : Side)
    {seg : TCPSegment} (hseg : seg ∈ (s.sys.side x.other).conn.segmentsOut) :
    Fits (s.sys.side x.other).conn.sender.isn (s.sys.side x).conn.receiver seg := by
  have hflow := h.flow x.other
  rw [System.Side.other_other] at hflow
  obtain ⟨A, W, hgoes, -⟩ := hflow.goes
  rcases hgoes.out seg hseg with hempty | hplace
  · exact .inl hempty
  · right
    left
    rw [limit] at hplace
    omega

theorem inv_init (cfg : Side → TCPConfig)
    (hcap : ∀ x, 1 ≤ (cfg x).recvCapacity ∧ (cfg x).recvCapacity ≤ 65535) :
    Inv cfg (init cfg) where
  link := by
    have hsmall : ∀ x, (cfg x).recvCapacity < 2 ^ 63 := fun x =>
      Nat.lt_of_le_of_lt (hcap x).2 (by decide)
    exact System.link_init (cfg .a) (cfg .b) (hcap .a).1 (hsmall .a) (hcap .b).1 (hsmall .b)
  flow x := by
    cases x with
    | a => exact flow_new (cfg .a) (cfg .b) (hcap .b).1
    | b => exact flow_new (cfg .b) (cfg .a) (hcap .a).1

theorem inv_step {cfg : Side → TCPConfig}
    (hcap : ∀ x, 1 ≤ (cfg x).recvCapacity ∧ (cfg x).recvCapacity ≤ 65535) {s t : State}
    {ev : Side × Action} (h : Inv cfg s) (hl : System.Lawful s.sys ev) (ho : Ordered s ev)
    (hstep : step s ev = .ok t) : Inv cfg t := by
  obtain ⟨x, action⟩ := ev
  obtain ⟨sys, hsys, ht⟩ := Exec.bind_eq_ok.mp hstep
  cases ht
  have hfits : System.FitsWindow s.sys (x, action) := by
    cases action with
    | deliver i => exact fun seg hseg => h.fits x (List.mem_of_getElem? hseg)
    | connect | write _ | endInputStream | tick _ | read _ => trivial
  have hlink := System.link_step h.link hl hfits hsys
  refine ⟨hlink, ?_⟩
  obtain ⟨e, he, hput⟩ := Exec.bind_eq_ok.mp hsys
  cases hput
  have hother : x.other ≠ x := by cases x <;> decide
  have htx := h.link x
  have hin := h.link x.other
  have hflow := h.flow x
  have hback := h.flow x.other
  have hinbound := hin.inbound
  rw [System.Side.other_other] at hback hinbound
  have hout : Flow (cfg x.other) (heardLast (s.heard x) action) e (s.sys.side x.other) := by
    apply flow_sends hflow htx.inbound (htx.sent_low (hl.low x)) (hcap x.other).2 (hl.low x) _ _ he
    · rintro i rfl
      exact ho
    · obtain ⟨-, hlater, -⟩ := tx_act htx.tx (hl.low x) he
      exact fun hf => (hlater.fin hf).2
  have hheard : Flow (cfg x) (s.heard x.other) (s.sys.side x.other) e := by
    apply flow_hears hback hinbound (hin.sent_low (hl.low _)) (hcap x).2 hflow.drained _ _ he
    · rintro i seg rfl hseg
      have hmem := List.mem_of_getElem? hseg
      exact ⟨hin.carries (hl.low _) hmem, h.fits x hmem⟩
    · intro seg hseg hsegfin
      obtain ⟨_, -, -, hf⟩ := hin.tx.wire seg hseg
      exact hf hsegfin
  refine System.Side.both (P := fun y => Flow (cfg y.other)
    (Function.update s.heard x (heardLast (s.heard x) action) y)
    ((s.sys.put x e).side y) ((s.sys.put x e).side y.other)) (x := x) ?_ ?_
  · rw [Function.update_self, System.side_put, System.side_put_other]
    exact hout
  · rw [Function.update_of_ne hother, System.Side.other_other, System.side_put,
      System.side_put_other]
    exact hheard

/-- **Stream safety on a network that keeps the order.** Segments may be lost, and the last one
repeated. With capacities that the window field can show, fewer than `2 ^ 31` numbers in each
direction and no `write` after the end of the input, everything that has been put out fits into
the other side's window whenever it arrives, and what either side's application has read or can
read is the beginning of what `write` accepted on the other side. -/
theorem in_order_safety (cfg : Side → TCPConfig)
    (hcap : ∀ x, 1 ≤ (cfg x).recvCapacity ∧ (cfg x).recvCapacity ≤ 65535) (s : State)
    (h : Exec.Reach step (fun s ev => System.Lawful s.sys ev ∧ Ordered s ev) (init cfg) s)
    (x : Side) :
    (s.sys.side x).received <+: (s.sys.side x.other).written ∧
    ∀ seg ∈ (s.sys.side x.other).conn.segmentsOut,
      Fits (s.sys.side x.other).conn.sender.isn (s.sys.side x).conn.receiver seg := by
  have hinv := h.invariant (I := Inv cfg) (inv_init cfg hcap)
    fun _ _ _ hs ha hstep => inv_step hcap hs ha.1 ha.2 hstep
  have hlink := (hinv.link x.other).inbound.received
  rw [System.Side.other_other] at hlink
  exact ⟨hlink.trans (List.take_prefix _ _), fun seg hseg => hinv.fits x hseg⟩

/-- The first bytes are lost and sent again, the window of four bytes closes, and a probe opens
it. -/
theorem in_order_safety_probe :
    ∃ s, Exec.Reach step (fun s ev => System.Lawful s.sys ev ∧ Ordered s ev)
        (init fun x => System.smallConfig (match x with | .a => 10 | .b => 20)) s ∧
      s.sys.b.received = [97, 98, 99, 100, 101] ∧ s.sys.b.received <+: s.sys.a.written := by
  obtain ⟨s, reached, hv⟩ := Exec.reach_of_view step
    (fun s ev => System.Lawful s.sys ev ∧ Ordered s ev)
    (init fun x => System.smallConfig (match x with | .a => 10 | .b => 20))
    [(.a, .connect), (.b, .deliver 0), (.a, .deliver 0), (.a, .write [97, 98]), (.a, .tick 1000),
      (.b, .deliver 3), (.a, .deliver 1), (.a, .write [99, 100, 101]), (.b, .deliver 4),
      (.a, .deliver 2), (.b, .read 4), (.b, .deliver 5)]
    (fun s => s.sys.b.received) [97, 98, 99, 100, 101] (by decide +kernel)
  refine ⟨s, reached, hv, ?_⟩
  refine (in_order_safety _ ?_ s reached .b).1
  intro x
  cases x <;> decide

end Sponge.InOrder
