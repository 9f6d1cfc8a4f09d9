import Sponge.ConnectionRuns

/-!
# The advertised window

One connection, with any segments arriving. The history beside it is the segments put out
with ACK set, each with the absolute number that the receiver acknowledges at that moment.

* `edge_segment`, `edge_read`: the right edge of the receiver's window does not move back;
* `window_never_shrinks`: neither does the one that successive segments advertise.
-/

namespace Sponge.WindowEdge

open Words WrappingInt32 StreamReassembler TCPReceiver TCPConnection TCPSender

/-- A segment put out, and the absolute number it acknowledges. -/
structure Advert where
  ackno : Nat
  seg : TCPSegment

/-- The absolute right edge of the window it advertises. -/
def Advert.edge (a : Advert) : Nat := a.ackno + a.seg.header.win.toNat

structure State where
  conn : TCPConnection
  log : List Advert

def init (cfg : TCPConfig) : State := ⟨.new cfg, []⟩

/-- The segments that a call has put out. -/
def newOut (c d : TCPConnection) : List TCPSegment := d.segmentsOut.drop c.segmentsOut.length

/-- Those with ACK set. -/
def adverts (c d : TCPConnection) : List Advert :=
  ((newOut c d).filter fun seg => seg.header.ack).map fun seg => ⟨d.receiver.absAckno, seg⟩

def step (s : State) (e : Event) : Except Fault State := do
  let conn ← s.conn.call e
  return ⟨conn, s.log ++ adverts s.conn conn⟩

/-- How far past the number of the first unassembled byte a segment starts. -/
def ahead (t : TCPReceiver) (seg : TCPSegment) : Nat :=
  offset seg.header.seqno (wrap (t.reassembler.ackIndex + 1) t.isn)

/-- A FIN has been received with nothing waiting, and now a payload comes that will have
to wait, so the FIN was ahead of bytes still missing. -/
def Overtaken (t : TCPReceiver) (seg : TCPSegment) : Prop :=
  t.finReceived = true ∧ t.reassembler.empty = true ∧ seg.payload ≠ [] ∧
    0 < ahead t seg ∧ ahead t seg < t.capacity ∧ ahead t seg ≠ t.windowSize

instance (t : TCPReceiver) (seg : TCPSegment) : Decidable (Overtaken t seg) :=
  inferInstanceAs (Decidable (_ ∧ _))

def FinInOrder (s : State) : Event → Prop
  | .segmentReceived seg => ¬ Overtaken s.conn.receiver seg
  | _ => True

instance (s : State) : (e : Event) → Decidable (FinInOrder s e)
  | .segmentReceived seg => inferInstanceAs (Decidable (¬ Overtaken s.conn.receiver seg))
  | .connect | .write _ | .endInputStream | .tick _ | .read _ | .collect =>
    inferInstanceAs (Decidable True)

/-- The segments that arrive are those of one stream. -/
def Consistent (S : List Byte) (isn : WrappingInt32) (_ : State) : Event → Prop
  | .segmentReceived seg => seg.header.rst = false ∧ Carries S isn seg
  | _ => True

instance (S : List Byte) (isn : WrappingInt32) (s : State) :
    (e : Event) → Decidable (Consistent S isn s e)
  | .segmentReceived seg => inferInstanceAs (Decidable (seg.header.rst = false ∧ Carries S isn seg))
  | .connect | .write _ | .endInputStream | .tick _ | .read _ | .collect =>
    inferInstanceAs (Decidable True)

/-! ## The receiver's part -/

/-- The absolute right edge of the receiver's window. -/
def edge (t : TCPReceiver) : Nat := t.absAckno + t.windowSize

structure Fit (t : TCPReceiver) : Prop where
  regular : Regular t.reassembler
  capacity : t.reassembler.capacity = t.capacity
  pos : 0 < t.capacity

theorem windowSize_eq {t : TCPReceiver} (h : Fit t) :
    t.windowSize = t.capacity - t.reassembler.output.buffer.length := by
  have hf := t.reassembler.output.fits
  rw [h.regular.room, h.capacity] at hf
  exact sub64_of_le hf

theorem edge_eq {t : TCPReceiver} (h : Fit t) :
    edge t = t.reassembler.freeEdge + 1 + (t.reassembler.empty && t.finReceived).toNat := by
  rw [edge, windowSize_eq h, absAckno, ackIndex, freeEdge, h.capacity]
  omega

/-- What the receiver may do: the edge moves on, and the number of the SYN stays. -/
structure EdgeOnward (t u : TCPReceiver) : Prop where
  fit : Fit u
  capacity : u.capacity = t.capacity
  edge : edge t ≤ edge u
  isn : t.synReceived = true → u.synReceived = true ∧ u.isn = t.isn

/-- A payload stored past the first unassembled byte starts that far ahead of it. -/
theorem ahead_eq {t : TCPReceiver} {seg : TCPSegment} {a : Nat} (hcap : t.capacity ≤ 2 ^ 31)
    (ha : unwrap seg.header.seqno t.isn t.reassembler.unassBase = .ok a)
    (hlo : t.reassembler.unassBase < sub64 a 1)
    (hhi : sub64 a 1 < t.reassembler.unassBase + t.capacity) :
    ahead t seg = sub64 a 1 - t.reassembler.unassBase := by
  have hnear := unwrap_near ha
  have hoff := offset_lt seg.header.seqno t.isn
  rw [ahead, offset_from_wrap, ackIndex]
  by_cases hpos : 1 ≤ a
  · rw [sub64_of_le hpos] at hlo hhi ⊢
    omega
  · rw [sub64_of_lt (by omega)] at hhi
    omega

theorem Overtaken.of_waits {t : TCPReceiver} {seg : TCPSegment} {a : Nat} (ht : Fit t)
    (hcap : t.capacity ≤ 2 ^ 31) (hfin : t.finReceived = true)
    (hempty : t.reassembler.empty = true)
    (ha : unwrap seg.header.seqno t.isn t.reassembler.unassBase = .ok a)
    (hw : Waits t.reassembler seg.payload (sub64 a 1)) : Overtaken t seg := by
  obtain ⟨hd, hlo, hhi, hne⟩ := hw
  rw [ht.capacity] at hhi
  have hahead := ahead_eq hcap ha hlo hhi
  have hwindow := windowSize_eq ht
  rw [freeEdge, ht.capacity] at hne
  exact ⟨hfin, hempty, hd, by omega, by omega, by omega⟩

/-- **An arriving segment.** Wherever its payload goes, the edge does not move back unless
a FIN is overtaken. -/
theorem edge_segment {t u : TCPReceiver} {seg : TCPSegment} (ht : Fit t)
    (hcap : t.capacity ≤ 2 ^ 31) (hnot : ¬ Overtaken t seg) (h : t.segmentReceived seg = .ok u) :
    EdgeOnward t u := by
  rcases segmentReceived_any h with ⟨-, rfl⟩ | ⟨index, r, hr, rfl, hindex⟩
  · exact ⟨ht, rfl, Nat.le_refl _, fun hs => ⟨hs, rfl⟩⟩
  · obtain ⟨hregular, hrcap, hfree, hempty⟩ := push_any ht.regular
      (by rw [ht.capacity]; exact ht.pos) (by rw [ht.capacity]; exact hcap) hr
    have hfit : Fit (t.took seg r) := ⟨hregular, hrcap.trans ht.capacity, ht.pos⟩
    constructor
    · exact hfit
    · rfl
    · rw [edge_eq ht, edge_eq hfit]
      cases hacked : t.reassembler.empty && t.finReceived with
      | false =>
        change _ ≤ r.freeEdge + 1 + _
        rw [Bool.toNat_false]
        omega
      | true =>
        obtain ⟨hz, hfin⟩ := Bool.and_eq_true_iff.mp hacked
        have hwaits : ¬ Waits t.reassembler seg.payload index := by
          intro hw
          rcases hindex with ⟨-, rfl⟩ | ⟨-, a, ha, rfl⟩
          · exact Nat.not_lt_zero _ hw.2.1
          · exact hnot (.of_waits ht hcap hfin hz ha hw)
        have hstill : r.unassSize = 0 := hempty (beq_iff_eq.mp hz) hwaits
        have hboth : ((t.took seg r).reassembler.empty && (t.took seg r).finReceived) = true := by
          simp [took, StreamReassembler.empty, hstill, hfin]
        rw [hboth]
        exact Nat.add_le_add_right (Nat.add_le_add_right hfree 1) _
    · intro hs
      exact ⟨rfl, by simp [took, hs]⟩

theorem edge_read {t : TCPReceiver} (ht : Fit t) (len : Nat) : EdgeOnward t (t.readOut len).1 := by
  rw [readOut_fst]
  have hfit : Fit { t with reassembler := t.reassembler.popOut len } :=
    ⟨ht.regular.withOutput _ (ByteStream.popOutput_capacity _ _), ht.capacity, ht.pos⟩
  constructor
  · exact hfit
  · rfl
  · rw [edge_eq ht, edge_eq hfit]
    have hshorter : (t.reassembler.popOut len).output.buffer.length ≤
        t.reassembler.output.buffer.length := by
      rw [popOut, ByteStream.popOutput_buffer, List.length_drop]
      omega
    simp only [freeEdge, StreamReassembler.empty, popOut] at hshorter ⊢
    omega
  · exact fun hs => ⟨hs, rfl⟩

theorem edge_setErrors {c : TCPConnection} (h : Fit c.receiver) :
    EdgeOnward c.receiver c.setErrors.receiver :=
  ⟨⟨h.regular.withOutput _ rfl, h.capacity, h.pos⟩, rfl, Nat.le_refl _, fun hs => ⟨hs, rfl⟩⟩

/-! ## Segments going out -/

/-- The segment shows the receiver's window, and its number if it acknowledges at all. -/
structure Stamped (t : TCPReceiver) (seg : TCPSegment) : Prop where
  win : seg.header.win = UInt16.ofNat t.windowSize
  ackno : seg.header.ack = true → t.synReceived = true ∧ seg.header.ackno = wrap t.absAckno t.isn

theorem stamped_of_raw (c : TCPConnection) (rst : Bool) {seg : TCPSegment} (h : Raw seg) :
    Stamped c.receiver (c.stamped rst seg) := by
  constructor
  · cases rst <;> rfl
  · exact stamped_ack h.ack

theorem stamped_sent {c : TCPConnection} {s : TCPSender} {segs : List TCPSegment}
    (h : ∀ seg ∈ segs, Raw seg) :
    ∀ seg ∈ newOut c (c.sent s segs), Stamped c.receiver seg := by
  intro seg hseg
  simp only [newOut, sent, List.drop_left, List.mem_map] at hseg
  obtain ⟨x, hx, rfl⟩ := hseg
  exact stamped_of_raw c false (h x hx)

/-! ## The whole connection -/

structure Sound (cfg : TCPConfig) (s : State) : Prop where
  drained : s.conn.sender.segmentsOut = []
  raw : RawQueues s.conn.sender
  fit : Fit s.conn.receiver
  capacity : s.conn.receiver.capacity = cfg.recvCapacity
  below : ∀ a ∈ s.log, a.edge ≤ edge s.conn.receiver
  ordered : (s.log.map Advert.edge).Pairwise (· ≤ ·)
  numbers : ∀ a ∈ s.log, s.conn.receiver.synReceived = true ∧ a.seg.header.ack = true ∧
    a.seg.header.ackno = wrap a.ackno s.conn.receiver.isn

theorem sound_init (cfg : TCPConfig) (hC : 1 ≤ cfg.recvCapacity) : Sound cfg (init cfg) where
  drained := rfl
  raw := rawQueues_new _ _ _
  fit := ⟨(inv_new hC).regular, rfl, hC⟩
  capacity := rfl
  below := by simp [init]
  ordered := by simp [init]
  numbers := by simp [init]

theorem mem_adverts {c d : TCPConnection} {a : Advert} (h : a ∈ adverts c d) :
    a.seg ∈ newOut c d ∧ a.seg.header.ack = true ∧ a.ackno = d.receiver.absAckno := by
  obtain ⟨seg, hseg, rfl⟩ := List.mem_map.mp h
  obtain ⟨hnew, hack⟩ := List.mem_filter.mp hseg
  exact ⟨hnew, hack, rfl⟩

/-- **A call.** Its segments advertise the receiver's edge, which none before it exceeds. -/
theorem Sound.call {cfg : TCPConfig} {s : State} {d : TCPConnection} (h : Sound cfg s)
    (hC : cfg.recvCapacity ≤ 65535) (hq : d.sender.segmentsOut = []) (hraw : RawQueues d.sender)
    (hon : EdgeOnward s.conn.receiver d.receiver)
    (hout : ∀ seg ∈ newOut s.conn d, Stamped d.receiver seg) :
    Sound cfg ⟨d, s.log ++ adverts s.conn d⟩ := by
  have hcap : d.receiver.capacity = cfg.recvCapacity := hon.capacity.trans h.capacity
  have hnew : ∀ a ∈ adverts s.conn d, a.edge = edge d.receiver := by
    intro a ha
    obtain ⟨hmem, -, hackno⟩ := mem_adverts ha
    have hsmall : d.receiver.windowSize < 2 ^ 16 := by
      rw [windowSize_eq hon.fit]
      omega
    rw [Advert.edge, (hout _ hmem).win, hackno, UInt16.toNat_ofNat', Nat.mod_eq_of_lt hsmall]
    rfl
  have hold : ∀ a ∈ s.log, a.edge ≤ edge d.receiver := fun a ha =>
    Nat.le_trans (h.below a ha) hon.edge
  constructor
  · exact hq
  · exact hraw
  · exact hon.fit
  · exact hcap
  · intro a ha
    rcases List.mem_append.mp ha with ha | ha
    · exact hold a ha
    · exact Nat.le_of_eq (hnew a ha)
  · rw [List.map_append, List.pairwise_append]
    refine ⟨h.ordered, ?_, ?_⟩
    · apply List.pairwise_of_forall_mem_list
      simp only [List.mem_map]
      rintro _ ⟨a, ha, rfl⟩ _ ⟨b, hb, rfl⟩
      exact Nat.le_of_eq ((hnew a ha).trans (hnew b hb).symm)
    · simp only [List.mem_map]
      rintro _ ⟨a, ha, rfl⟩ _ ⟨b, hb, rfl⟩
      rw [hnew b hb]
      exact hold a ha
  · intro a ha
    rcases List.mem_append.mp ha with ha | ha
    · obtain ⟨hs, hack, hackno⟩ := h.numbers a ha
      obtain ⟨hs', hisn⟩ := hon.isn hs
      exact ⟨hs', hack, by rw [hackno, hisn]⟩
    · obtain ⟨hmem, hack, hackno⟩ := mem_adverts ha
      obtain ⟨hs, hnumber⟩ := (hout _ hmem).ackno hack
      exact ⟨hs, hack, by rw [hnumber, hackno]⟩

theorem EdgeOnward.refl {t : TCPReceiver} (h : Fit t) : EdgeOnward t t :=
  ⟨h, rfl, Nat.le_refl _, fun hs => ⟨hs, rfl⟩⟩

/-- The end of `tick` changes nothing but whether the connection is active. -/
theorem closeIfDone_same (c : TCPConnection) : c.closeIfDone.receiver = c.receiver ∧
    c.closeIfDone.sender = c.sender ∧ c.closeIfDone.segmentsOut = c.segmentsOut := by
  rcases closeIfDone_eq c with h | h <;> rw [h] <;> exact ⟨rfl, rfl, rfl⟩

theorem sound_tick {cfg : TCPConfig} {s : State} {ms : Nat} {d : TCPConnection} (h : Sound cfg s)
    (hC : cfg.recvCapacity ≤ 65535) (hd : s.conn.tick ms = .ok d) :
    Sound cfg ⟨d, s.log ++ adverts s.conn d⟩ := by
  obtain ⟨e, he, rfl⟩ := TCPConnection.tick_spec h.drained hd
  obtain ⟨hr, hs, ho⟩ := closeIfDone_same e
  suffices hsuff : e.sender.segmentsOut = [] ∧ RawQueues e.sender ∧
      EdgeOnward s.conn.receiver e.receiver ∧ ∀ seg ∈ newOut s.conn e, Stamped e.receiver seg by
    obtain ⟨hq, hraw, hon, hout⟩ := hsuff
    apply h.call hC
    · rw [hs]
      exact hq
    · rw [hs]
      exact hraw
    · rw [hr]
      exact hon
    · rw [hr, newOut, ho]
      exact hout
  cases he with
  | quiet ht =>
    refine ⟨rfl, (rawQueues_tick h.raw ht).drained, .refl h.fit, ?_⟩
    exact stamped_sent (c := s.conn.waited ms) (by simp)
  | @resends u seg ht hone =>
    have hraw := rawQueues_tick h.raw ht
    refine ⟨rfl, hraw.drained, .refl h.fit, ?_⟩
    rw [← hone]
    exact stamped_sent (c := s.conn.waited ms) hraw.out
  | @aborts u seg ht hone =>
    have hraw := rawQueues_tick h.raw ht
    refine ⟨rfl, hraw.drained.withStream _, edge_setErrors h.fit, ?_⟩
    intro x hx
    have hnew : newOut s.conn ((s.conn.waited ms).aborted u seg) = [s.conn.stamped true seg] :=
      List.drop_left
    rw [hnew, List.mem_singleton] at hx
    have hseg := hraw.out seg (by rw [hone]; exact List.mem_singleton_self _)
    obtain ⟨hwin, hackno⟩ := stamped_of_raw s.conn true hseg
    rw [hx]
    exact ⟨hwin, hackno⟩

theorem sound_segment {cfg : TCPConfig} {s : State} {seg : TCPSegment} {d : TCPConnection}
    (h : Sound cfg s) (hC : cfg.recvCapacity ≤ 65535) (hnot : ¬ Overtaken s.conn.receiver seg)
    (hd : s.conn.segmentReceived seg = .ok d) : Sound cfg ⟨d, s.log ++ adverts s.conn d⟩ := by
  rcases TCPConnection.segmentReceived_spec h.drained hd with
    ⟨-, rfl⟩ | ⟨-, r, s₁, s₂, xs, ys, hr, hack, hans, rfl⟩
  · apply h.call hC
    · exact h.drained
    · exact h.raw.withStream _
    · exact edge_setErrors h.fit
    · intro x hx
      simp [newOut, setErrors] at hx
  · have hon := edge_segment h.fit (by rw [h.capacity]; omega) hnot hr
    obtain ⟨hraw, hxs⟩ := rawQueues_takesAck h.raw hack
    obtain ⟨hraw, hys⟩ := rawQueues_answers hraw hans
    have hreceiver : (s.conn.accepted r).receiver = r := by rw [accepted, noteInboundEnd_eq]
    have hout : (s.conn.accepted r).segmentsOut = s.conn.segmentsOut := by
      rw [accepted, noteInboundEnd_eq]
    apply h.call hC
    · rfl
    · exact hraw.drained
    · change EdgeOnward _ (s.conn.accepted r).receiver
      rw [hreceiver]
      exact hon
    · rw [newOut, ← hout]
      apply stamped_sent (c := s.conn.accepted r)
      intro x hx
      rcases List.mem_append.mp hx with hx | hx
      · exact hxs x hx
      · exact hys x hx

theorem sound_step {cfg : TCPConfig} {s t : State} {e : Event} (h : Sound cfg s)
    (hC : cfg.recvCapacity ≤ 65535) (hf : FinInOrder s e) (ht : step s e = .ok t) :
    Sound cfg t := by
  obtain ⟨d, hd, ht⟩ := Exec.bind_eq_ok.mp ht
  cases ht
  cases e with
  | connect | write _ | endInputStream =>
    rcases fills_spec rfl hd with rfl | ⟨stream, u, hu, rfl⟩
    · exact h.call hC h.drained h.raw (.refl h.fit) (by simp [newOut])
    · have hraw := rawQueues_fillWindow (h.raw.withStream stream) hu
      exact h.call hC rfl hraw.drained (.refl h.fit) (stamped_sent hraw.out)
  | tick ms => exact sound_tick h hC hd
  | segmentReceived seg => exact sound_segment h hC hf hd
  | read len =>
    cases hd
    exact h.call hC h.drained h.raw (edge_read h.fit len) (by simp [newOut, readInbound])
  | collect =>
    cases hd
    exact h.call hC h.drained h.raw (.refl h.fit) (by simp [newOut])

/-- **The advertised window never shrinks.** With a capacity that the window field can show,
and no FIN overtaken, the right edges that the segments with ACK set advertise are in
ascending order. The number each is counted from is the one in its acknowledgement field. -/
theorem window_never_shrinks (cfg : TCPConfig) (hC : 1 ≤ cfg.recvCapacity)
    (hC' : cfg.recvCapacity ≤ 65535) (s : State)
    (h : Exec.Reach step FinInOrder (init cfg) s) :
    (s.log.map Advert.edge).Pairwise (· ≤ ·) ∧
    ∀ a ∈ s.log, a.seg.header.ack = true ∧
      a.seg.header.ackno = wrap a.ackno s.conn.receiver.isn := by
  have hs := h.invariant (sound_init cfg hC) (fun _ _ _ hs hf ht => sound_step hs hC' hf ht)
  exact ⟨hs.ordered, fun a ha => (hs.numbers a ha).2⟩

def small (recvCapacity : Nat) : TCPConfig := { recvCapacity := recvCapacity, fixedIsn := ⟨50⟩ }

/-- Two bytes out of order, a read and the FIN. -/
theorem window_never_shrinks_ab :
    ∃ s, Exec.Reach step FinInOrder (init (small 4)) s ∧
      s.log.map Advert.edge = [5, 5, 5, 6, 7] ∧
      (s.log.map Advert.edge).Pairwise (· ≤ ·) := by
  obtain ⟨s, reached, hv⟩ := Exec.reach_of_view step FinInOrder (init (small 4))
    [.segmentReceived { header := { seqno := ⟨7⟩, syn := true } },
      .segmentReceived { header := { seqno := ⟨9⟩ }, payload := [98] },
      .segmentReceived { header := { seqno := ⟨8⟩ }, payload := [97] },
      .read 1,
      .tick 1000,
      .segmentReceived { header := { seqno := ⟨10⟩, fin := true } }]
    (fun s => s.log.map Advert.edge) [5, 5, 5, 6, 7] (by decide +kernel)
  exact ⟨s, reached, hv, (window_never_shrinks (small 4) (by decide) (by decide) s reached).1⟩

/-- A FIN without payload overtakes the two bytes before it and is acknowledged in place of
the first; when the second arrives it has to wait, and the edge moves back. With a capacity
of 65536 and one byte unread the window field shows 65535, and once it is read 0. -/
theorem advertised_edge_shrinks :
    (∃ s, Exec.Reach step (Consistent [97, 98] ⟨7⟩) (init (small 4)) s ∧
      s.log.map Advert.edge = [5, 6, 5]) ∧
    ∃ s, Exec.Reach step (Consistent [97] ⟨7⟩) (init (small 65536)) s ∧
      s.log.map Advert.edge = [1, 65537, 2] := by
  constructor
  · exact Exec.reach_of_view step (Consistent [97, 98] ⟨7⟩) (init (small 4))
      [.segmentReceived { header := { seqno := ⟨7⟩, syn := true } },
        .segmentReceived { header := { seqno := ⟨10⟩, fin := true } },
        .segmentReceived { header := { seqno := ⟨9⟩ }, payload := [98] }]
      (fun s => s.log.map Advert.edge) [5, 6, 5] (by decide +kernel)
  · exact Exec.reach_of_view step (Consistent [97] ⟨7⟩) (init (small 65536))
      [.segmentReceived { header := { seqno := ⟨7⟩, syn := true } },
        .segmentReceived { header := { seqno := ⟨8⟩ }, payload := [97] },
        .read 1,
        .tick 1000]
      (fun s => s.log.map Advert.edge) [1, 65537, 2] (by decide +kernel)

end Sponge.WindowEdge
