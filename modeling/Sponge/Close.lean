import Sponge.ConnectionRuns
import Sponge.System

/-!
# Closing

What an endpoint knows about the other when it closes. Acknowledgements on the way never
go beyond what their sender has assembled, so an endpoint whose bytes are all
acknowledged knows that they have all arrived, FIN included, as long as no FIN is taken
before the last byte of its stream (`FinInHand`).

* `Tidy`, `AcksUpTo`, `Quiet`: what the moves of one connection keep;
* `Agreed`: both endpoints, in each direction;
* `clean_close`: an endpoint that is inactive without an error has both streams complete.
-/

namespace Sponge

open Relation StreamReassembler TCPReceiver TCPSender WrappingInt32
open TCPConnection (rawQueues_move stamped_ack)

/-! ## One connection -/

/-- A FIN goes out only at the end of the stream, and only the connection sets
acknowledgements. -/
structure Tidy (s : TCPSender) : Prop extends RawQueues s where
  finished : s.finSent = true → s.stream.endWrite = true ∧ s.stream.buffer = []

theorem tidy_new (capacity : Nat) (retxTimeout : UInt16) (isn : WrappingInt32) :
    Tidy (.new capacity retxTimeout isn) :=
  ⟨rawQueues_new _ _ _, by simp [TCPSender.new]⟩

theorem Emits.tidy {s t : TCPSender} (h : Emits s t) (ht : Tidy s) : Tidy t := by
  refine ⟨h.rawQueues ht.toRawQueues, ?_⟩
  cases h with
  | syn _ => exact ht.finished
  | @bytes size fin may =>
    intro hf
    obtain ⟨hend, hall⟩ := may.last hf
    refine ⟨(s.stream.popOutput_endWrite size).trans hend, ?_⟩
    rw [bytes_buffer fin may.buffered, hall, List.drop_length]

theorem tidy_fillWindow {s t : TCPSender} (h : Tidy s) (ht : s.fillWindow = .ok t) : Tidy t :=
  fillWindow_invariant (P := Tidy) (fun _ _ hu he => Emits.tidy he hu) h ht

theorem tidy_ackReceived {s t : TCPSender} (h : Tidy s) {ackno : WrappingInt32}
    {windowSize : UInt16} (ht : s.ackReceived ackno windowSize = .ok t) : Tidy t := by
  obtain rfl | ⟨_, _, _, _, _, _, hsplit, _, hfill⟩ := ackReceived_any h.toTally ht
  · exact h
  · exact tidy_fillWindow ⟨rawQueues_trimmed h.toRawQueues _ _ hsplit, h.finished⟩ hfill

/-- The acknowledgements in `segs` go no further than the receiver `t` has got. -/
def AcksUpTo (isn : WrappingInt32) (t : TCPReceiver) (segs : List TCPSegment) : Prop :=
  ∀ seg ∈ segs, seg.header.ack = true →
    t.synReceived = true ∧ ∃ k, k ≤ t.absAckno ∧ seg.header.ackno = wrap k isn

theorem AcksUpTo.mono {isn : WrappingInt32} {t u : TCPReceiver} {segs : List TCPSegment}
    (h : AcksUpTo isn t segs) (hsyn : t.synReceived = true → u.synReceived = true)
    (hle : t.absAckno ≤ u.absAckno) : AcksUpTo isn u segs := by
  intro seg hseg hack
  obtain ⟨hs, k, hk, heq⟩ := h seg hseg hack
  exact ⟨hsyn hs, k, Nat.le_trans hk hle, heq⟩

/-- What a connection keeps while its peer, whose numbers start at `isn`, has acknowledged
nothing beyond `bound`. -/
structure Quiet (isn : WrappingInt32) (bound : Nat) (c : TCPConnection) : Prop where
  book : Book c.sender
  tidy : Tidy c.sender
  acks : AcksUpTo isn c.receiver c.segmentsOut
  unacked : c.sender.unacked ≤ bound
  isn : c.receiver.synReceived = true → c.receiver.isn = isn

/-- The acknowledgements given to a connection that `bound` covers. -/
def Covered (bound : Nat) (s : TCPSender) (ackno : WrappingInt32) : Prop :=
  s.bytesInFlight < 2 ^ 31 ∧ ∀ k, unwrap ackno s.isn s.nextSeqno = .ok k → k ≤ bound

theorem quiet_ack {bound : Nat} {s t : TCPSender} {ackno : WrappingInt32} {windowSize : UInt16}
    (hb : Book s) (hun : s.unacked ≤ bound) (hcov : Covered bound s ackno)
    (h : s.ackReceived ackno windowSize = .ok t) : Book t ∧ t.unacked ≤ bound := by
  obtain ⟨absAckno, habs, ⟨_, rfl⟩ | ⟨_, _, gone, rest, m, hd, hbook, hm, hfill⟩⟩ :=
    ackReceived_spec hb hcov.1 h
  · exact ⟨hb, hun⟩
  · obtain ⟨hbook', hsame⟩ := book_fillWindow hbook hfill
    refine ⟨hbook', ?_⟩
    rw [hsame, hm]
    rcases hd.covered with rfl | hle
    · have : s.unacked = m := hd.before
      omega
    · have := hcov.2 absAckno habs
      omega

theorem quiet_move {isn : WrappingInt32} {bound : Nat} {acks : TCPSender → WrappingInt32 → Prop}
    (hacks : ∀ s ackno, acks s ackno → Covered bound s ackno) {c d : TCPConnection}
    (h : Quiet isn bound c) (hm : TCPConnection.Move acks c d) : Quiet isn bound d := by
  have hb := h.book
  have ht := h.tidy
  have hraw := rawQueues_move ht.toRawQueues hm
  cases hm with
  | fill hs =>
    obtain ⟨hb', hsame⟩ := book_fillWindow hb hs
    exact ⟨hb', tidy_fillWindow ht hs, h.acks, by rw [hsame]; exact h.unacked, h.isn⟩
  | ack ha hs =>
    obtain ⟨hb', hun⟩ := quiet_ack hb h.unacked (hacks _ _ ha) hs
    exact ⟨hb', tidy_ackReceived ht hs, h.acks, hun, h.isn⟩
  | tick hs =>
    have hb' := book_tick hb hs
    obtain ⟨_, _, _, _, _, rfl⟩ := tick_ok hs
    exact ⟨hb', ⟨hraw, ht.finished⟩, h.acks, h.unacked, h.isn⟩
  | empty _ => exact ⟨hb.withOut _, ⟨hraw, ht.finished⟩, h.acks, h.unacked, h.isn⟩
  | @put seg rest rst ho =>
    refine ⟨hb.withOut _, ⟨hraw, ht.finished⟩, ?_, h.unacked, h.isn⟩
    intro x hx hack
    rcases List.mem_append.mp hx with hx | hx
    · exact h.acks x hx hack
    · rw [List.mem_singleton.mp hx] at hack ⊢
      have hfront : TCPSender.Raw seg := ht.out seg (by rw [ho]; exact List.mem_cons_self)
      obtain ⟨hs, heq⟩ := stamped_ack hfront.ack hack
      exact ⟨hs, c.receiver.absAckno, Nat.le_refl _, by rw [heq, h.isn hs]⟩
  | note _ _ => exact ⟨hb, ht, h.acks, h.unacked, h.isn⟩
  | fail => exact ⟨hb.withStream _, ⟨hraw, ht.finished⟩, h.acks, h.unacked, h.isn⟩
  | done _ _ => exact ⟨hb, ht, h.acks, h.unacked, h.isn⟩

theorem quiet_moves {isn : WrappingInt32} {bound : Nat} {acks : TCPSender → WrappingInt32 → Prop}
    (hacks : ∀ s ackno, acks s ackno → Covered bound s ackno) {c d : TCPConnection}
    (h : Quiet isn bound c) (hm : ReflTransGen (TCPConnection.Move acks) c d) :
    Quiet isn bound d := by
  induction hm with
  | refl => exact h
  | tail _ hm ih => exact quiet_move hacks ih hm

/-! ## One action -/

/-- What the receiver has acknowledged. -/
def ackBound (t : TCPReceiver) : Nat := if t.synReceived then t.absAckno else 0

/-- The receiver `u` has got at least what `t` had. -/
structure Advances (t u : TCPReceiver) : Prop where
  base : t.reassembler.unassBase ≤ u.reassembler.unassBase
  ackno : t.absAckno ≤ u.absAckno
  syn : t.synReceived = true → u.synReceived = true

theorem Advances.refl (t : TCPReceiver) : Advances t t := ⟨Nat.le_refl _, Nat.le_refl _, id⟩

theorem Advances.trans {t u v : TCPReceiver} (h : Advances t u) (h' : Advances u v) :
    Advances t v :=
  ⟨Nat.le_trans h.base h'.base, Nat.le_trans h.ackno h'.ackno, fun hs => h'.syn (h.syn hs)⟩

theorem Advances.bound {t u : TCPReceiver} (h : Advances t u) : ackBound t ≤ ackBound u := by
  unfold ackBound
  split
  · rename_i hs
    rw [if_pos (h.syn hs)]
    exact h.ackno
  · exact Nat.zero_le _

/-- A segment of the stream `U` that fits and whose FIN comes with the last byte. -/
structure Arriving (U : List Byte) (isn : WrappingInt32) (t : TCPReceiver) (seg : TCPSegment) :
    Prop where
  carries : Carries U isn seg
  fits : Fits isn t seg
  fin : Taken t seg → FinKept U.length t seg

theorem closing_moves {n : Nat} {acks : TCPSender → WrappingInt32 → Prop} {c d : TCPConnection}
    (hm : ReflTransGen (TCPConnection.Move acks) c d) (h : Closing n c.receiver) :
    Closing n d.receiver ∧ Advances c.receiver d.receiver ∧
      d.receiver.finReceived = c.receiver.finReceived := by
  obtain ⟨e, he⟩ := moves_receiver hm
  rw [he]
  exact ⟨⟨h.fin, h.flag, h.ended⟩, ⟨Nat.le_refl _, Nat.le_refl _, id⟩, rfl⟩

theorem closing_arrival {U : List Byte} {isn : WrappingInt32} {t u : TCPReceiver} {got : List Byte}
    {seg : TCPSegment} (h : Inbound U isn t got) (hcl : Closing U.length t)
    (hU : U.length < 2 ^ 31) (ha : Arriving U isn t seg) (hu : t.segmentReceived seg = .ok u) :
    Closing U.length u ∧ Advances t u ∧
      (u.finReceived = true → t.finReceived = true ∨ seg.header.fin = true) := by
  have hx := exact_of_fits h.rx hU h.capacity ha.carries ha.fits
  have hrx := rx_segment h.rx hU h.capacity ha.carries hx hu
  have hcl' := closing_segment h.rx hcl hU ha.carries hx ha.fin hu
  obtain ⟨hbase, hfin, hsyn⟩ := segmentReceived_forward h.rx.inv (h.rx.low hU) hx hu
  refine ⟨hcl', ⟨hbase, absAckno_mono h.rx hcl hrx hcl' hbase hfin, hsyn⟩, ?_⟩
  obtain ⟨v, hv, hcase⟩ := segmentReceived_spec seg h.rx.inv (h.rx.low hU) hx
  rw [hv] at hu
  cases hu
  obtain ⟨_, rfl⟩ | ⟨_, r, rfl, _⟩ := hcase
  · exact .inl
  · simp [took]

/-- What an action does to the receiving half of an endpoint. -/
theorem closing_act {U : List Byte} {isn : WrappingInt32} {e peer f : Endpoint} {action : Action}
    (h : Inbound U isn e.conn.receiver e.delivered) (hcl : Closing U.length e.conn.receiver)
    (hU : U.length < 2 ^ 31)
    (hseg : ∀ i seg, action = .deliver i → peer.conn.segmentsOut[i]? = some seg →
      seg.header.rst = false → Arriving U isn e.conn.receiver seg)
    (hact : e.act peer action = .ok f) :
    Closing U.length f.conn.receiver ∧ Advances e.conn.receiver f.conn.receiver ∧
      (f.conn.receiver.finReceived = true → e.conn.receiver.finReceived = true ∨
        ∃ seg ∈ peer.conn.segmentsOut, seg.header.fin = true) := by
  obtain ⟨c, acks, ht, hm⟩ := act_takes hact
  obtain ⟨hc, hadv, hfin⟩ : Closing U.length c.receiver ∧ Advances e.conn.receiver c.receiver ∧
      (c.receiver.finReceived = true → e.conn.receiver.finReceived = true ∨
        ∃ seg ∈ peer.conn.segmentsOut, seg.header.fin = true) := by
    generalize f.written = W, f.delivered = got at ht
    cases ht with
    | nothing | write | endInput => exact ⟨hcl, .refl _, .inl⟩
    | @read len =>
      refine ⟨closing_read hcl len, ?_, ?_⟩
      · rw [readOut_fst]
        exact ⟨Nat.le_refl _, Nat.le_refl _, id⟩
      · rw [readOut_fst]
        exact .inl
    | @segment i seg r hi hrst hr =>
      obtain ⟨h1, h2, h3⟩ := closing_arrival h hcl hU (hseg i seg rfl hi hrst) hr
      exact ⟨h1, h2, fun hf => (h3 hf).imp id fun hnew => ⟨seg, List.mem_of_getElem? hi, hnew⟩⟩
  obtain ⟨k1, k2, k3⟩ := closing_moves hm hc
  exact ⟨k1, hadv.trans k2, fun hf => hfin (k3 ▸ hf)⟩

/-- What an action does to the sending half, and to the acknowledgements put out. -/
theorem quiet_act {U : List Byte} {isn : WrappingInt32} {e peer f : Endpoint} {action : Action}
    (h : Quiet isn (ackBound peer.conn.receiver) e.conn)
    (hin : Inbound U isn e.conn.receiver e.delivered) (hcl : Closing U.length e.conn.receiver)
    (hU : U.length < 2 ^ 31) (near : e.conn.sender.nextSeqno < 2 ^ 31)
    (hpeer : AcksUpTo e.conn.sender.isn peer.conn.receiver peer.conn.segmentsOut)
    (hwrite : ∀ data, action = .write data → e.conn.sender.stream.endWrite = false)
    (hseg : ∀ i seg, action = .deliver i → peer.conn.segmentsOut[i]? = some seg →
      seg.header.rst = false → Arriving U isn e.conn.receiver seg)
    (hact : e.act peer action = .ok f) : Quiet isn (ackBound peer.conn.receiver) f.conn := by
  obtain ⟨c, acks, ht, hm⟩ := act_takes hact
  have hb := h.book
  have htidy := h.tidy
  have hacks : ∀ s ackno, acks s ackno → Covered (ackBound peer.conn.receiver) s ackno := by
    intro s ackno ha
    obtain ⟨rfl, seg, hmem, hack, rfl⟩ := ht.acks ha
    have hflight := hb.flight_le
    refine ⟨by omega, ?_⟩
    intro k hk
    obtain ⟨hsyn, j, hj, heq⟩ := hpeer seg hmem hack
    rw [unwrap_low _ _ near, heq, offset_wrap] at hk
    cases hk
    rw [ackBound, if_pos hsyn]
    exact Nat.le_trans (Nat.mod_le _ _) hj
  apply quiet_moves hacks _ hm
  generalize f.written = W, f.delivered = got at ht
  cases ht with
  | nothing => exact h
  | @write data =>
    have hopen : e.conn.sender.finSent = false := by
      apply Bool.eq_false_iff.mpr
      intro hf
      have := (htidy.finished hf).1
      rw [hwrite data rfl] at this
      cases this
    exact ⟨hb.withStream _,
      ⟨htidy.withStream _, fun hf => absurd hf (Bool.eq_false_iff.mp hopen)⟩, h.acks,
      h.unacked, h.isn⟩
  | endInput =>
    exact ⟨hb.withStream _,
      ⟨htidy.withStream _, fun hf => ⟨rfl, (htidy.finished hf).2⟩⟩, h.acks, h.unacked,
      h.isn⟩
  | read =>
    rw [readOut_fst]
    exact ⟨hb, htidy, h.acks, h.unacked, h.isn⟩
  | @segment i seg r hi hrst hr =>
    have ha := hseg i seg rfl hi hrst
    obtain ⟨_, hadv, _⟩ := closing_arrival hin hcl hU ha hr
    have hrx := rx_segment hin.rx hU hin.capacity ha.carries
      (exact_of_fits hin.rx hU hin.capacity ha.carries ha.fits) hr
    exact ⟨hb, htidy, h.acks.mono hadv.syn hadv.ackno, h.unacked, hrx.isn⟩

/-- What an endpoint has sent, received and been told stays so, and nothing is written
after the end of its input. -/
structure Onward (e f : Endpoint) : Prop where
  sender : Later e.conn.sender f.conn.sender
  receiver : Advances e.conn.receiver f.conn.receiver
  written : e.conn.sender.stream.endWrite = true → f.written = e.written

theorem Onward.refl (e : Endpoint) : Onward e e := ⟨.refl _, .refl _, fun _ => rfl⟩

theorem written_act {e peer f : Endpoint} {action : Action}
    (hwrite : ∀ data, action = .write data → e.conn.sender.stream.endWrite = false)
    (hact : e.act peer action = .ok f) (hend : e.conn.sender.stream.endWrite = true) :
    f.written = e.written := by
  obtain ⟨c, acks, ht, _⟩ := act_takes hact
  generalize f.written = W, f.delivered = got at ht
  cases ht with
  | nothing | endInput | read | segment _ _ _ => rfl
  | @write data =>
    rw [hwrite data rfl] at hend
    cases hend

/-! ## Becoming inactive -/

theorem inactive_act {e peer f : Endpoint} {action : Action}
    (hq : e.conn.sender.segmentsOut = []) (h : e.act peer action = .ok f)
    (hf : f.conn.active = false) :
    e.conn.active = false ∨ f.conn.sender.stream.error = true ∨
      f.conn.checkInboundEnded = true ∧ f.conn.checkOutboundEnded = true := by
  obtain ⟨event, hcall, -⟩ := act_call h
  rcases TCPConnection.call_inactive hq hcall hf with hold | hfailed | ⟨ms, -, hmay⟩
  · exact .inl hold
  · exact .inr (.inl hfailed.1)
  · exact .inr (.inr ⟨hmay.inbound, hmay.outbound⟩)

/-! ## Every run -/

namespace System

/-- A delivered FIN comes with the last byte of the stream in hand. -/
def FinInHand (s : System) : Side × Action → Prop
  | (x, .deliver i) => ∀ seg ∈ (s.side x.other).conn.segmentsOut[i]?,
      seg.header.rst = false → Taken (s.side x).conn.receiver seg →
      FinKept (place (s.side x.other).conn.sender.isn seg - 1 + seg.payload.length)
        (s.side x).conn.receiver seg
  | _ => True

instance (s : System) : (ev : Side × Action) → Decidable (FinInHand s ev)
  | (x, .deliver i) => inferInstanceAs (Decidable (∀ seg ∈ (s.side x.other).conn.segmentsOut[i]?,
      seg.header.rst = false → Taken (s.side x).conn.receiver seg →
      FinKept (place (s.side x.other).conn.sender.isn seg - 1 + seg.payload.length)
        (s.side x).conn.receiver seg))
  | (_, .write _) | (_, .connect) | (_, .endInputStream) | (_, .tick _) | (_, .read _) =>
    inferInstanceAs (Decidable True)

/-- What the two ends of the direction from `x` know of each other. -/
structure Agreed (s : System) (x : Side) : Prop where
  link : Link s x
  closing : Closing (sentBytes (s.side x).written (s.side x).conn.sender).length
    (s.side x.other).conn.receiver
  fin : (s.side x.other).conn.receiver.finReceived = true → (s.side x).conn.sender.finSent = true
  quiet : Quiet (s.side x.other).conn.sender.isn (ackBound (s.side x.other).conn.receiver)
    (s.side x).conn

theorem agreed_init (cfgA cfgB : TCPConfig) (hA : 1 ≤ cfgA.recvCapacity)
    (hA' : cfgA.recvCapacity < 2 ^ 63) (hB : 1 ≤ cfgB.recvCapacity)
    (hB' : cfgB.recvCapacity < 2 ^ 63) (x : Side) : Agreed (init cfgA cfgB) x := by
  have quiet (cfg : TCPConfig) (isn : WrappingInt32) (bound : Nat) :
      Quiet isn bound (.new cfg) :=
    ⟨book_new _ _ _, tidy_new _ _ _, by simp [AcksUpTo, TCPConnection.new], Nat.zero_le _,
      by simp [TCPConnection.new, TCPReceiver.new]⟩
  refine ⟨link_init cfgA cfgB hA hA' hB hB' x, ?_, ?_, ?_⟩
  · cases x <;> exact closing_new _ _
  · cases x <;> intro h <;> cases h
  · cases x <;> exact quiet _ _ _

/-- A longer stream closes as the shorter one did, when no FIN has come yet. -/
theorem Closing.grow {n m : Nat} {t : TCPReceiver} (h : Closing n t)
    (hnm : t.finReceived = true → m = n) : Closing m t := by
  refine ⟨?_, h.flag, ?_⟩
  · intro hf
    rw [hnm hf]
    exact h.fin hf
  · intro he
    obtain ⟨hf, hle⟩ := h.ended he
    exact ⟨hf, by rw [hnm hf]; exact hle⟩

/-- What the network delivers is on its way, fits, and brings no early FIN. -/
theorem Agreed.arriving {s : System} {x : Side} {i : Nat} (h : Agreed s x.other)
    (hn : (s.side x.other).conn.sender.nextSeqno < 2 ^ 31) (hfit : FitsWindow s (x, .deliver i))
    (hfin : FinInHand s (x, .deliver i)) {seg : TCPSegment}
    (hseg : (s.side x.other).conn.segmentsOut[i]? = some seg) (hrst : seg.header.rst = false) :
    Arriving (sentBytes (s.side x.other).written (s.side x.other).conn.sender)
      (s.side x.other).conn.sender.isn (s.side x).conn.receiver seg := by
  have hcar := h.link.carries hn (List.mem_of_getElem? hseg)
  refine ⟨hcar, hfit seg hseg, ?_⟩
  intro ht hf
  have hkept := hfin seg hseg hrst ht hf
  rw [hcar.fin hf] at hkept
  exact hkept

/-- The direction from the side that acts: after its FIN it sends nothing more. -/
theorem Agreed.put_own {s : System} {x : Side} {e : Endpoint} (h : Agreed s x)
    (hlink : Link (s.put x e) x) (hlater : Later (s.side x).conn.sender e.conn.sender)
    (hquiet : Quiet (s.side x.other).conn.sender.isn (ackBound (s.side x.other).conn.receiver)
      e.conn) : Agreed (s.put x e) x := by
  refine ⟨hlink, ?_, ?_, ?_⟩
  · have htx := hlink.tx.slices.length_sent
    rw [side_put] at htx
    rw [side_put, side_put_other]
    apply Closing.grow h.closing
    intro hf
    rw [htx, (hlater.fin (h.fin hf)).1, h.link.tx.slices.length_sent]
  · rw [side_put, side_put_other]
    intro hf
    exact (hlater.fin (h.fin hf)).2
  · rw [side_put, side_put_other]
    exact hquiet

/-- The direction towards the side that acts: a FIN it takes, its peer has sent. -/
theorem Agreed.put_other {s : System} {x : Side} {e : Endpoint} (h : Agreed s x.other)
    (hlink : Link (s.put x e) x.other) (hlater : Later (s.side x).conn.sender e.conn.sender)
    (hclosing : Closing (sentBytes (s.side x.other).written (s.side x.other).conn.sender).length
      e.conn.receiver)
    (hadv : Advances (s.side x).conn.receiver e.conn.receiver)
    (hnew : e.conn.receiver.finReceived = true → (s.side x).conn.receiver.finReceived = true ∨
      ∃ seg ∈ (s.side x.other).conn.segmentsOut, seg.header.fin = true) :
    Agreed (s.put x e) x.other := by
  have hfin := h.fin
  have hquiet := h.quiet
  rw [Side.other_other] at hfin hquiet
  refine ⟨hlink, ?_, ?_, ?_⟩
  · rw [Side.other_other, side_put, side_put_other]
    exact hclosing
  · rw [Side.other_other, side_put, side_put_other]
    intro hf
    rcases hnew hf with hold | ⟨seg, hseg, hsegfin⟩
    · exact hfin hold
    · obtain ⟨_, _, _, hsent⟩ := h.link.tx.wire seg hseg
      exact hsent hsegfin
  · rw [Side.other_other, side_put, side_put_other, hlater.isn]
    exact ⟨hquiet.book, hquiet.tidy, hquiet.acks, Nat.le_trans hquiet.unacked hadv.bound,
      hquiet.isn⟩

/-- **Agreement survives a step**, and both sides only go on. -/
theorem agreed_step {s t : System} {ev : Side × Action} (h : ∀ x, Agreed s x) (hl : Lawful s ev)
    (hfit : FitsWindow s ev) (hfin : FinInHand s ev) (hstep : step s ev = .ok t) :
    (∀ x, Agreed t x) ∧ ∀ x, Onward (s.side x) (t.side x) := by
  have hlink := link_step (fun x => (h x).link) hl hfit hstep
  obtain ⟨x, action⟩ := ev
  obtain ⟨e, he, ht⟩ := Exec.bind_eq_ok.mp hstep
  cases ht
  have hx := h x
  have hy := h x.other
  have hinb := hy.link.inbound
  have hclosing := hy.closing
  have hpeer := hy.quiet
  rw [Side.other_other] at hinb hclosing hpeer
  have hU := hy.link.sent_low (hl.low _)
  have harr : ∀ i seg, action = .deliver i → (s.side x.other).conn.segmentsOut[i]? = some seg →
      seg.header.rst = false → Arriving (sentBytes (s.side x.other).written
        (s.side x.other).conn.sender) (s.side x.other).conn.sender.isn
        (s.side x).conn.receiver seg := by
    rintro i seg rfl hseg hrst
    exact hy.arriving (hl.low _) hfit hfin hseg hrst
  have hwrite : ∀ data, action = .write data → (s.side x).conn.sender.stream.endWrite = false := by
    rintro data rfl
    exact hl.2.2
  obtain ⟨_, hlater, _⟩ := tx_act hx.link.tx (hl.low x) he
  obtain ⟨hcl, hadv, hnew⟩ := closing_act hinb hclosing hU harr he
  have hquiet := quiet_act hx.quiet hinb hclosing hU (hl.low x) hpeer.acks hwrite harr he
  have moved : Onward (s.side x) ((s.put x e).side x) := by
    rw [side_put]
    exact ⟨hlater, hadv, written_act hwrite he⟩
  have still : Onward (s.side x.other) ((s.put x e).side x.other) := by
    rw [side_put_other]
    exact .refl _
  exact ⟨Side.both (hx.put_own (hlink x) hlater hquiet)
    (hy.put_other (hlink x.other) hlater hcl hadv hnew), Side.both moved still⟩

/-- The input of `x` has ended, and all of it is in the inbound stream of the other side. -/
structure Complete (s : System) (x : Side) : Prop where
  ended : (s.side x).conn.sender.stream.endWrite = true
  arrived : (s.side x.other).conn.receiver.reassembler.unassBase = (s.side x).written.length

theorem Complete.received {s : System} {x : Side} (h : Complete s x) (hlink : Link s x) :
    (s.side x.other).received = (s.side x).written := by
  have hinb := hlink.inbound
  have hwithin := hinb.rx.agrees.within
  have hall : (s.side x.other).received = (sentBytes (s.side x).written (s.side x).conn.sender).take
      (s.side x.other).conn.receiver.reassembler.output.writtenBytes :=
    hinb.rx.agrees.got_buffer hinb.got
  have hpre : (s.side x.other).received <+: (s.side x).written :=
    hinb.received.trans (List.take_prefix _ _)
  apply hpre.eq_of_length
  rw [hall, List.length_take, Nat.min_eq_left hwithin, ← h.arrived, hinb.rx.inv.base]

/-- Completion lasts: nothing is written any more, and nothing goes back. -/
theorem Complete.onward {s t : System} {x : Side} (h : Complete s x) (hlink : Link t x)
    (hon : ∀ y, Onward (s.side y) (t.side y)) : Complete t x := by
  refine ⟨(hon x).sender.ended h.ended, ?_⟩
  have hwithin := hlink.inbound.rx.agrees.within
  have hbase := hlink.inbound.rx.inv.base
  have hsent : (sentBytes (t.side x).written (t.side x).conn.sender).length ≤
      (t.side x).written.length := (List.take_prefix _ _).length_le
  have hforward := (hon x.other).receiver.base
  have hsame := congrArg List.length ((hon x).written h.ended)
  have harrived := h.arrived
  omega

/-- Everything sent has been acknowledged, FIN included, so everything has arrived. -/
theorem Agreed.outbound_done {s : System} {x : Side} (h : Agreed s x)
    (hdone : (s.side x).conn.checkOutboundEnded = true) : Complete s x := by
  have hh := h.link.tx.slices
  have hinb := h.link.inbound
  simp only [TCPConnection.checkOutboundEnded, ByteStream.eof, Bool.and_eq_true,
    List.isEmpty_iff, beq_iff_eq, nextSeqnoAbsolute, ByteStream.bytesWritten] at hdone
  obtain ⟨⟨⟨hempty, hended⟩, hnext⟩, hflight⟩ := hdone
  have hread : (s.side x).conn.sender.stream.readBytes = (s.side x).written.length := by
    have hcounts := (s.side x).conn.sender.stream.counts
    rw [hempty, List.length_nil] at hcounts
    have := hh.written
    omega
  have hlen := hh.length_sent
  have hunacked := h.quiet.unacked
  have hwithin := hinb.rx.agrees.within
  have hbase := hinb.rx.inv.base
  refine ⟨hended, ?_⟩
  have hbound : (s.side x).written.length + 2 ≤
      ackBound (s.side x.other).conn.receiver := by
    have := hh.written
    rw [unacked, hflight] at hunacked
    omega
  unfold ackBound at hbound
  split at hbound
  · rw [absAckno_eq h.closing hinb.rx] at hbound
    split at hbound <;> omega
  · omega

/-- The FIN has been received and everything before it assembled. -/
theorem Agreed.inbound_done {s : System} {x : Side} (h : Agreed s x)
    (hdone : (s.side x.other).conn.checkInboundEnded = true) : Complete s x := by
  have hh := h.link.tx.slices
  have hinb := h.link.inbound
  obtain ⟨_, hended⟩ := Bool.and_eq_true_iff.mp hdone
  obtain ⟨hfin, hle⟩ := h.closing.ended hended
  obtain ⟨hend, hempty⟩ := h.quiet.tidy.finished (h.fin hfin)
  refine ⟨hend, ?_⟩
  have hcounts := (s.side x).conn.sender.stream.counts
  rw [hempty, List.length_nil] at hcounts
  have := hh.written
  have := hh.length_sent
  have := hinb.rx.agrees.within
  have := hinb.rx.inv.base
  omega

/-- Agreement, and why an endpoint is inactive. -/
structure ClosedForCause (s : System) : Prop where
  agreed : ∀ x, Agreed s x
  inactive : ∀ x, (s.side x).conn.active = false →
    (s.side x).conn.sender.stream.error = true ∨ Complete s x ∧ Complete s x.other

/-- Between actions neither sender's queue holds a segment. -/
def Drained (s : System) : Prop := ∀ x, (s.side x).conn.sender.segmentsOut = []

theorem drained_step {s t : System} {ev : Side × Action} (h : Drained s)
    (hstep : step s ev = .ok t) : Drained t := by
  obtain ⟨x, action⟩ := ev
  obtain ⟨e, he, ht⟩ := Exec.bind_eq_ok.mp hstep
  cases ht
  obtain ⟨event, hcall, -⟩ := act_call he
  apply Side.both
  · rw [side_put]
    exact TCPConnection.drained_call (h x) hcall
  · rw [side_put_other]
    exact h x.other

theorem closedForCause_step {s t : System} {ev : Side × Action} (h : ClosedForCause s)
    (hq : Drained s) (hl : Lawful s ev) (hfit : FitsWindow s ev) (hfin : FinInHand s ev)
    (hstep : step s ev = .ok t) : ClosedForCause t := by
  obtain ⟨hagreed, hon⟩ := agreed_step h.agreed hl hfit hfin hstep
  refine ⟨hagreed, ?_⟩
  -- an endpoint inactive before stays so for the same reason
  have old : ∀ y, (s.side y).conn.active = false → (t.side y).conn.sender.stream.error = true ∨
      Complete t y ∧ Complete t y.other := by
    intro y hy
    rcases h.inactive y hy with herr | ⟨h1, h2⟩
    · exact .inl ((hon y).sender.error herr)
    · exact .inr ⟨h1.onward (hagreed _).link hon, h2.onward (hagreed _).link hon⟩
  have hother := Side.other_other ev.1
  obtain ⟨x, action⟩ := ev
  obtain ⟨e, he, ht⟩ := Exec.bind_eq_ok.mp hstep
  cases ht
  have actor : ((s.put x e).side x).conn.active = false →
      ((s.put x e).side x).conn.sender.stream.error = true ∨
        Complete (s.put x e) x ∧ Complete (s.put x e) x.other := by
    intro hx
    rw [side_put] at hx ⊢
    rcases inactive_act (hq x) he hx with hwas | herr | ⟨hin, hout⟩
    · have := old x hwas
      rw [side_put] at this
      exact this
    · exact .inl herr
    · exact .inr ⟨(hagreed x).outbound_done (by rw [side_put]; exact hout),
        (hagreed x.other).inbound_done (by rw [hother, side_put]; exact hin)⟩
  have bystander : ((s.put x e).side x.other).conn.active = false →
      ((s.put x e).side x.other).conn.sender.stream.error = true ∨
        Complete (s.put x e) x.other ∧ Complete (s.put x e) x.other.other := by
    intro hy
    rw [side_put_other] at hy
    exact old x.other hy
  exact Side.both actor bystander

/-- **Clean close.** In every run in which the delivered segments fit and no FIN arrives
before the last byte of its stream, an endpoint that is inactive without its outbound
stream being in error has both streams complete: both inputs have ended, and each side's
inbound stream has got exactly what the other side wrote. -/
theorem clean_close (cfgA cfgB : TCPConfig) (hA : 1 ≤ cfgA.recvCapacity)
    (hA' : cfgA.recvCapacity < 2 ^ 63) (hB : 1 ≤ cfgB.recvCapacity)
    (hB' : cfgB.recvCapacity < 2 ^ 63) (s : System)
    (h : Exec.Reach step (fun s ev => Lawful s ev ∧ FitsWindow s ev ∧ FinInHand s ev)
      (init cfgA cfgB) s)
    (x : Side) (hx : (s.side x).conn.active = false)
    (herr : (s.side x).conn.sender.stream.error = false) :
    (s.side x).conn.sender.stream.inputEnded = true ∧
      (s.side x.other).conn.sender.stream.inputEnded = true ∧
      (s.side x).received = (s.side x.other).written ∧
      (s.side x.other).received = (s.side x).written := by
  have start : ClosedForCause (init cfgA cfgB) := by
    refine ⟨agreed_init cfgA cfgB hA hA' hB hB', ?_⟩
    intro y hy
    cases y <;> cases hy
  have drained : Drained (init cfgA cfgB) := by
    intro y
    cases y <;> rfl
  obtain ⟨hs, -⟩ := h.invariant (I := fun s => ClosedForCause s ∧ Drained s) ⟨start, drained⟩
    (fun _ _ _ hs ha hstep => ⟨closedForCause_step hs.1 hs.2 ha.1 ha.2.1 ha.2.2 hstep,
      drained_step hs.2 hstep⟩)
  rcases hs.inactive x hx with hbad | ⟨h1, h2⟩
  · rw [herr] at hbad
    cases hbad
  · have hin := h2.received (hs.agreed x.other).link
    rw [Side.other_other x] at hin
    exact ⟨h1.ended, h2.ended, hin, h1.received (hs.agreed x).link⟩

/-- Both sides write and close; `a` closed first, so it waits ten timeouts. -/
theorem clean_close_ab_c :
    ∃ s, Exec.Reach step (fun s ev => Lawful s ev ∧ FitsWindow s ev ∧ FinInHand s ev)
        (init (smallConfig 10) (smallConfig 20)) s ∧
      s.a.conn.active = false ∧ s.a.written = [97, 98] ∧ s.b.written = [99] ∧
      s.a.received = s.b.written ∧ s.b.received = s.a.written := by
  obtain ⟨s, reached, hv⟩ := Exec.reach_of_view step
    (fun s ev => Lawful s ev ∧ FitsWindow s ev ∧ FinInHand s ev)
    (init (smallConfig 10) (smallConfig 20))
    [(.a, .connect), (.b, .deliver 0), (.a, .deliver 0), (.b, .deliver 1), (.a, .write [97, 98]),
      (.b, .deliver 2), (.a, .deliver 1), (.a, .endInputStream), (.b, .deliver 3),
      (.a, .deliver 2), (.b, .write [99]), (.b, .endInputStream), (.a, .deliver 3),
      (.a, .deliver 4), (.b, .deliver 5), (.a, .tick 10000)]
    (fun s => (s.a.conn.active, s.a.conn.sender.stream.error, s.a.written, s.b.written))
    (false, false, [97, 98], [99]) (by decide +kernel)
  obtain ⟨hact, hv⟩ := Prod.mk.inj hv
  obtain ⟨herr, hv⟩ := Prod.mk.inj hv
  obtain ⟨hwa, hwb⟩ := Prod.mk.inj hv
  obtain ⟨_, _, h3, h4⟩ := clean_close (smallConfig 10) (smallConfig 20) (by decide) (by decide)
    (by decide) (by decide) s reached .a hact herr
  exact ⟨s, reached, hact, hwa, hwb, h3, h4⟩

/-- The three bytes `b` wrote are delayed and its FIN, sent apart from them, arrives:
`a` takes its inbound stream as ended, acknowledges the FIN, and closes without an error
and without a byte. -/
theorem early_fin_closes :
    ∃ s, Exec.Reach step Lawful (init (smallConfig 10) (smallConfig 20)) s ∧
      s.a.conn.active = false ∧ s.a.conn.sender.stream.error = false ∧
      s.a.conn.inboundStream.error = false ∧ s.a.received = [] ∧
      s.b.written = [97, 98, 99] := by
  obtain ⟨s, reached, hv⟩ := Exec.reach_of_view step Lawful
    (init (smallConfig 10) (smallConfig 20))
    [(.a, .connect), (.b, .deliver 0), (.a, .deliver 0), (.b, .deliver 1),
      (.b, .write [97, 98, 99]), (.b, .endInputStream), (.a, .deliver 2), (.a, .endInputStream),
      (.b, .deliver 3), (.a, .deliver 3), (.a, .tick 0)]
    (fun s => (s.a.conn.active, s.a.conn.sender.stream.error, s.a.conn.inboundStream.error,
      s.a.received, s.b.written))
    (false, false, false, [], [97, 98, 99]) (by decide +kernel)
  simp only [Prod.mk.injEq] at hv
  exact ⟨s, reached, hv⟩

end System

end Sponge
