import Sponge.ConnectionRuns
import Sponge.SenderStream

/-!
# Two connections and a network

Two endpoints joined by a network that may drop, repeat, delay and reorder segments but
not change them: any segment an endpoint ever put out can be delivered to the other at
any time, any number of times. The bytes `write` accepted and the bytes the application
read are kept beside each connection.

* `Tx`: everything an endpoint puts out is a slice of what was written to it;
* `Inbound`: everything the other endpoint holds comes from there;
* `stream_safety`: what one side's application can read is what the other's wrote.
-/

namespace Sponge

open Relation StreamReassembler TCPReceiver TCPSender

structure Endpoint where
  conn : TCPConnection
  /-- The bytes `write` has accepted. -/
  written : List Byte
  /-- The bytes the application has read from `inbound_stream()`. -/
  delivered : List Byte

inductive Side
  | a
  | b
  deriving DecidableEq, Repr

def Side.other : Side → Side
  | .a => .b
  | .b => .a

structure System where
  a : Endpoint
  b : Endpoint

inductive Action
  | connect
  | write (data : List Byte)
  | endInputStream
  | tick (ms : Nat)
  | read (len : Nat)
  /-- The network delivers the `i`-th segment the other side put out. -/
  | deliver (i : Nat)

namespace Endpoint

def new (cfg : TCPConfig) : Endpoint := ⟨.new cfg, [], []⟩

/-- What has been put into the inbound stream, read or not. -/
def received (e : Endpoint) : List Byte := e.delivered ++ e.conn.inboundStream.buffer

def act (e peer : Endpoint) : Action → Except Fault Endpoint
  | .connect => do
    let conn ← e.conn.connect
    return { e with conn := conn }
  | .write data => do
    let (conn, n) ← e.conn.write data
    return { e with conn := conn, written := e.written ++ data.take n }
  | .endInputStream => do
    let conn ← e.conn.endInputStream
    return { e with conn := conn }
  | .tick ms => do
    let conn ← e.conn.tick ms
    return { e with conn := conn }
  | .read len =>
    let (conn, bytes) := e.conn.readInbound len
    .ok { e with conn := conn, delivered := e.delivered ++ bytes }
  | .deliver i => do
    -- the owner takes segments off the queue, the network keeps them all
    let seg ← subscript peer.conn.segmentsOut i
    let conn ← e.conn.segmentReceived seg
    return { e with conn := conn }

end Endpoint

namespace System

def side (s : System) : Side → Endpoint
  | .a => s.a
  | .b => s.b

def put (s : System) (x : Side) (e : Endpoint) : System :=
  match x with
  | .a => { s with a := e }
  | .b => { s with b := e }

@[simp] theorem side_put (s : System) (x : Side) (e : Endpoint) : (s.put x e).side x = e := by
  cases x <;> rfl

@[simp] theorem side_put_other (s : System) (x : Side) (e : Endpoint) :
    (s.put x e).side x.other = s.side x.other := by
  cases x <;> rfl

def init (cfgA cfgB : TCPConfig) : System := ⟨.new cfgA, .new cfgB⟩

def step (s : System) : Side × Action → Except Fault System
  | (x, action) => do
    let e ← (s.side x).act (s.side x.other) action
    return s.put x e

/-- Fewer than `2 ^ 31` numbers are used in each direction, and nothing is written after
the end of input. -/
def Lawful (s : System) : Side × Action → Prop
  | (x, action) =>
    s.a.conn.sender.nextSeqnoAbsolute < 2 ^ 31 ∧ s.b.conn.sender.nextSeqnoAbsolute < 2 ^ 31 ∧
    match action with
    | .write _ => (s.side x).conn.sender.stream.inputEnded = false
    | _ => True

instance (s : System) : (ev : Side × Action) → Decidable (Lawful s ev)
  | (_, .write _) => inferInstanceAs (Decidable (_ ∧ _ ∧ _))
  | (_, .connect) | (_, .endInputStream) | (_, .tick _) | (_, .read _) | (_, .deliver _) =>
    inferInstanceAs (Decidable (_ ∧ _ ∧ True))

end System

/-! ## One action

Each action takes an input, and then the connection moves by itself. -/

/-- An action is a call of the connection; a segment that it receives is one that the other side
has put out. -/
theorem act_call {e peer f : Endpoint} {action : Action} (h : e.act peer action = .ok f) :
    ∃ event, e.conn.call event = .ok f.conn ∧ event ≠ .collect ∧
      ∀ seg, event = .segmentReceived seg → ∃ i, action = .deliver i ∧
        peer.conn.segmentsOut[i]? = some seg := by
  cases action with
  | connect =>
    obtain ⟨c, hc, h⟩ := Exec.bind_eq_ok.mp h
    cases h
    exact ⟨.connect, hc, by simp, by simp⟩
  | write data =>
    obtain ⟨⟨c, n⟩, hc, h⟩ := Exec.bind_eq_ok.mp h
    cases h
    exact ⟨.write data, Exec.bind_eq_ok.mpr ⟨_, hc, rfl⟩, by simp, by simp⟩
  | endInputStream =>
    obtain ⟨c, hc, h⟩ := Exec.bind_eq_ok.mp h
    cases h
    exact ⟨.endInputStream, hc, by simp, by simp⟩
  | tick ms =>
    obtain ⟨c, hc, h⟩ := Exec.bind_eq_ok.mp h
    cases h
    exact ⟨.tick ms, hc, by simp, by simp⟩
  | read len =>
    cases h
    exact ⟨.read len, rfl, by simp, by simp⟩
  | deliver i =>
    obtain ⟨seg, hi, h⟩ := Exec.bind_eq_ok.mp h
    obtain ⟨c, hc, h⟩ := Exec.bind_eq_ok.mp h
    cases h
    refine ⟨.segmentReceived seg, hc, by simp, ?_⟩
    rintro seg' ⟨⟩
    exact ⟨i, rfl, subscript_ok hi⟩

/-- The connection of `e` when the input of an action has been taken, the
acknowledgements it may use from there, and what is then written and delivered. -/
inductive Takes (e peer : Endpoint) : Action → TCPConnection →
    (TCPSender → WrappingInt32 → Prop) → List Byte → List Byte → Prop
  | nothing {action : Action} :
      Takes e peer action e.conn (fun _ _ => False) e.written e.delivered
  | write {data : List Byte} :
      Takes e peer (.write data)
        { e.conn with sender :=
          { e.conn.sender with stream := (e.conn.sender.stream.write data).1 } }
        (fun _ _ => False) (e.written ++ data.take (e.conn.sender.stream.write data).2) e.delivered
  | endInput :
      Takes e peer .endInputStream
        { e.conn with sender := { e.conn.sender with stream := e.conn.sender.stream.endInput } }
        (fun _ _ => False) e.written e.delivered
  | read {len : Nat} :
      Takes e peer (.read len) { e.conn with receiver := (e.conn.receiver.readOut len).1 }
        (fun _ _ => False) e.written (e.delivered ++ (e.conn.receiver.readOut len).2)
  | segment {i : Nat} {seg : TCPSegment} {r : TCPReceiver} :
      peer.conn.segmentsOut[i]? = some seg → seg.header.rst = false →
      e.conn.receiver.segmentReceived seg = .ok r →
      Takes e peer (.deliver i) { e.conn with receiver := r } (e.conn.GivenAck seg) e.written
        e.delivered

theorem act_takes {e peer f : Endpoint} {action : Action} (h : e.act peer action = .ok f) :
    ∃ c acks, Takes e peer action c acks f.written f.delivered ∧
      ReflTransGen (TCPConnection.Move acks) c f.conn := by
  cases action with
  | connect =>
    obtain ⟨c, hc, hf⟩ := Exec.bind_eq_ok.mp h
    cases hf
    exact ⟨_, _, .nothing, TCPConnection.connect_moves hc⟩
  | write data =>
    obtain ⟨⟨c, n⟩, hc, hf⟩ := Exec.bind_eq_ok.mp h
    cases hf
    obtain ⟨rfl, hm⟩ := @TCPConnection.write_moves (fun _ _ => False) _ _ _ _ hc
    exact ⟨_, _, .write, hm⟩
  | endInputStream =>
    obtain ⟨c, hc, hf⟩ := Exec.bind_eq_ok.mp h
    cases hf
    exact ⟨_, _, .endInput, TCPConnection.endInputStream_moves hc⟩
  | tick ms =>
    obtain ⟨c, hc, hf⟩ := Exec.bind_eq_ok.mp h
    cases hf
    exact ⟨_, _, .nothing, TCPConnection.tick_moves hc⟩
  | read len =>
    cases h
    exact ⟨_, _, .read, .refl⟩
  | deliver i =>
    obtain ⟨seg, hi, h⟩ := Exec.bind_eq_ok.mp h
    obtain ⟨c, hc, hf⟩ := Exec.bind_eq_ok.mp h
    cases hf
    obtain ⟨_, hm⟩ | ⟨hrst, r, hr, hm⟩ := TCPConnection.segmentReceived_moves hc
    · exact ⟨_, _, .nothing, hm⟩
    · exact ⟨_, _, .segment (subscript_ok hi) hrst hr, hm⟩

/-- Only the sender as it was before the action is given an acknowledgement. -/
theorem Takes.acks {e peer : Endpoint} {action : Action} {c : TCPConnection}
    {acks : TCPSender → WrappingInt32 → Prop} {W got : List Byte}
    (h : Takes e peer action c acks W got) {s : TCPSender} {ackno : WrappingInt32}
    (ha : acks s ackno) : s = e.conn.sender ∧
      ∃ seg ∈ peer.conn.segmentsOut, seg.header.ack = true ∧ ackno = seg.header.ackno := by
  cases h with
  | nothing | write | endInput | read => exact ha.elim
  | segment hi _ _ => exact ⟨ha.1, _, List.mem_of_getElem? hi, ha.2⟩

/-! ## The sending side -/

/-- Everything the connection puts out, or is about to, is a slice of `W`. -/
structure Tx (W : List Byte) (c : TCPConnection) : Prop where
  book : Book c.sender
  slices : SendsSlices W c.sender
  wire : ∀ seg ∈ c.segmentsOut,
    Slice (sentBytes W c.sender) c.sender.isn c.sender.nextSeqno c.sender.finSent seg

theorem tx_new (cfg : TCPConfig) : Tx [] (.new cfg) :=
  ⟨book_new _ _ _, sendsSlices_new _ _ _, by simp [TCPConnection.new]⟩

theorem Slice.stamped {U : List Byte} {isn : WrappingInt32} {n : Nat} {f : Bool} {seg : TCPSegment}
    (h : Slice U isn n f seg) (c : TCPConnection) (rst : Bool) :
    Slice U isn n f (c.stamped rst seg) := by
  obtain ⟨a, ha, ⟨hseq, hsyn, hslice, hfin⟩, hf⟩ := h
  have same : (c.stamped rst seg).payload = seg.payload ∧
      (c.stamped rst seg).header.seqno = seg.header.seqno ∧
      (c.stamped rst seg).header.syn = seg.header.syn ∧
      (c.stamped rst seg).header.fin = seg.header.fin := by
    unfold TCPConnection.stamped TCPConnection.setAckAndWindowsize
    cases rst <;> cases c.receiver.ackno <;> exact ⟨rfl, rfl, rfl, rfl⟩
  obtain ⟨h1, h2, h3, h4⟩ := same
  exact ⟨a, ha, ⟨h2 ▸ hseq, h3 ▸ hsyn, h1 ▸ hslice, by rw [h1, h4]; exact hfin⟩,
    by rw [h4]; exact hf⟩

/-- Every move of a connection keeps that, and nothing sent is taken back. -/
theorem tx_move {W : List Byte} {acks : TCPSender → WrappingInt32 → Prop}
    (near : ∀ s ackno, acks s ackno → s.bytesInFlight < 2 ^ 31) {c d : TCPConnection} (h : Tx W c)
    (hm : TCPConnection.Move acks c d) : Tx W d ∧ Later c.sender d.sender := by
  have wire {s : TCPSender} (hl : Later c.sender s) : ∀ seg ∈ c.segmentsOut,
      Slice (sentBytes W s) s.isn s.nextSeqno s.finSent seg :=
    fun seg hseg => Slice.later hl (h.wire seg hseg)
  cases hm with
  | fill hs =>
    obtain ⟨hh, hl⟩ := sendsSlices_fillWindow h.slices hs
    exact ⟨⟨(book_fillWindow h.book hs).1, hh, wire hl⟩, hl⟩
  | ack ha hs =>
    obtain ⟨hh, hl, hb⟩ := sendsSlices_ackReceived h.slices h.book (near _ _ ha) hs
    exact ⟨⟨hb, hh, wire hl⟩, hl⟩
  | tick hs =>
    obtain ⟨hh, hl⟩ := sendsSlices_tick h.slices hs
    exact ⟨⟨book_tick h.book hs, hh, wire hl⟩, hl⟩
  | empty hs =>
    have hb := h.book
    exact ⟨⟨hb.withOut _, sendsSlices_sendEmptySegment h.slices hs, h.wire⟩,
      .of_eq rfl rfl rfl rfl rfl id id⟩
  | @put seg rest rst ho =>
    have hh := h.slices
    have hb := h.book
    have hout : ∀ x ∈ seg :: rest, Slice (sentBytes W c.sender) c.sender.isn c.sender.nextSeqno
        c.sender.finSent x := ho ▸ hh.out
    have hwire := Slice.stamped (hout seg List.mem_cons_self) c rst
    exact ⟨⟨hb.withOut _, ⟨hh.toCounted.frame rfl rfl,
      fun x hx => hout x (List.mem_cons_of_mem _ hx), hh.outstanding⟩,
      forall_mem_snoc h.wire hwire⟩, .of_eq rfl rfl rfl rfl rfl id id⟩
  | note linger time => exact ⟨⟨h.book, h.slices, h.wire⟩, .refl _⟩
  | fail =>
    have hh := h.slices
    have hb := h.book
    exact ⟨⟨hb.withStream _, ⟨hh.toCounted.frame rfl rfl,
      hh.out, hh.outstanding⟩, h.wire⟩, .of_eq rfl rfl rfl rfl rfl id (fun _ => rfl)⟩
  | done _ _ => exact ⟨⟨h.book, h.slices, h.wire⟩, .refl _⟩

theorem tx_moves {W : List Byte} {acks : TCPSender → WrappingInt32 → Prop}
    (near : ∀ s ackno, acks s ackno → s.bytesInFlight < 2 ^ 31) {c d : TCPConnection} (h : Tx W c)
    (hm : ReflTransGen (TCPConnection.Move acks) c d) : Tx W d ∧ Later c.sender d.sender := by
  induction hm with
  | refl => exact ⟨h, .refl _⟩
  | tail _ hm ih =>
    obtain ⟨hd, hl⟩ := tx_move near ih.1 hm
    exact ⟨hd, ih.2.trans hl⟩

theorem tx_takes {e peer : Endpoint} {action : Action} {c : TCPConnection}
    {acks : TCPSender → WrappingInt32 → Prop} {W got : List Byte} (h : Tx e.written e.conn)
    (ht : Takes e peer action c acks W got) :
    Tx W c ∧ Later e.conn.sender c.sender ∧ e.written <+: W := by
  have hb := h.book
  have hh := h.slices
  cases ht with
  | nothing => exact ⟨h, .refl _, List.prefix_refl _⟩
  | write =>
    refine ⟨⟨hb.withStream _, sendsSlices_write hh _, ?_⟩,
      .of_eq rfl rfl rfl rfl rfl id id, List.prefix_append _ _⟩
    intro seg hseg
    exact (sentBytes_append hh.toCounted _).symm ▸ h.wire seg hseg
  | endInput =>
    exact ⟨⟨hb.withStream _, ⟨hh.toCounted.frame rfl rfl,
      hh.out, hh.outstanding⟩, h.wire⟩, .of_eq rfl rfl rfl rfl rfl (fun _ => rfl) id,
      List.prefix_refl _⟩
  | read => exact ⟨⟨hb, hh, h.wire⟩, .refl _, List.prefix_refl _⟩
  | segment _ _ _ => exact ⟨⟨hb, hh, h.wire⟩, .refl _, List.prefix_refl _⟩

/-- An action of an endpoint keeps `Tx`, and nothing sent is taken back. -/
theorem tx_act {e peer f : Endpoint} {action : Action} (h : Tx e.written e.conn)
    (near : e.conn.sender.nextSeqno < 2 ^ 31) (hact : e.act peer action = .ok f) :
    Tx f.written f.conn ∧ Later e.conn.sender f.conn.sender ∧ e.written <+: f.written := by
  obtain ⟨c, acks, ht, hm⟩ := act_takes hact
  obtain ⟨hc, hl, hw⟩ := tx_takes h ht
  have hflight := h.book.flight_le
  have hacks : ∀ s ackno, acks s ackno → s.bytesInFlight < 2 ^ 31 := by
    intro s ackno ha
    rw [(ht.acks ha).1]
    omega
  obtain ⟨hf, hl'⟩ := tx_moves hacks hc hm
  exact ⟨hf, hl.trans hl', hw⟩

/-! ## The receiving side -/

/-- The receiver with its stream in error or not. -/
def TCPReceiver.withError (t : TCPReceiver) (e : Bool) : TCPReceiver :=
  { t with
    reassembler := { t.reassembler with output := { t.reassembler.output with error := e } } }

/-- By itself a connection only ever sets the error of its inbound stream. -/
theorem moves_receiver {acks : TCPSender → WrappingInt32 → Prop} {c d : TCPConnection}
    (h : ReflTransGen (TCPConnection.Move acks) c d) :
    ∃ e, d.receiver = c.receiver.withError e := by
  induction h with
  | refl => exact ⟨c.receiver.reassembler.output.error, rfl⟩
  | tail _ hm ih =>
    obtain ⟨e, he⟩ := ih
    cases hm with
    | fail => exact ⟨true, by simp only [TCPConnection.setErrors, he]; rfl⟩
    | fill _ | ack _ _ | tick _ | empty _ | put _ _ | note _ _ | done _ _ => exact ⟨e, he⟩

/-- The receiver of a stream `U`, and the bytes read from it. -/
structure Inbound (U : List Byte) (isn : WrappingInt32) (t : TCPReceiver) (got : List Byte) :
    Prop where
  rx : Rx U isn t
  got : got = U.take t.reassembler.output.readBytes
  capacity : t.capacity < 2 ^ 63

theorem Inbound.grow {U V : List Byte} {isn : WrappingInt32} {t : TCPReceiver} {got : List Byte}
    (h : Inbound U isn t got) (hUV : U <+: V) : Inbound V isn t got := by
  have hrx := h.rx
  refine ⟨⟨hrx.inv, hrx.agrees.grow hUV, hrx.isn, hrx.capacity⟩, ?_, h.capacity⟩
  obtain ⟨more, rfl⟩ := hUV
  have := t.reassembler.output.read_le_written
  have := hrx.agrees.within
  rw [h.got, List.take_append_of_le_length (by omega)]

theorem inbound_withError {U : List Byte} {isn : WrappingInt32} {t : TCPReceiver}
    {got : List Byte} (h : Inbound U isn t got) (e : Bool) :
    Inbound U isn (t.withError e) got := by
  have hrx := h.rx
  have hinv := hrx.inv
  exact ⟨⟨⟨⟨hinv.bits, hinv.cells, hinv.room, hinv.base, hinv.size, hinv.window⟩, hinv.nonempty,
    hinv.front⟩, ⟨hrx.agrees.within, hrx.agrees.out, hrx.agrees.slots⟩, hrx.isn, hrx.capacity⟩,
    h.got, h.capacity⟩

theorem inbound_segment {U : List Byte} {isn : WrappingInt32} {t u : TCPReceiver} {got : List Byte}
    {seg : TCPSegment} (h : Inbound U isn t got) (hU : U.length < 2 ^ 31) (hc : Carries U isn seg)
    (hfit : Fits isn t seg) (hu : t.segmentReceived seg = .ok u) : Inbound U isn u got := by
  have hx := exact_of_fits h.rx hU h.capacity hc hfit
  have hrx := rx_segment h.rx hU h.capacity hc hx hu
  obtain ⟨v, hv, hcase⟩ := segmentReceived_spec seg h.rx.inv (h.rx.low hU) hx
  rw [hv] at hu
  cases hu
  obtain ⟨_, rfl⟩ | ⟨_, r, rfl, _, pushed⟩ := hcase
  · exact h
  · exact ⟨hrx, by rw [h.got]; simp only [took, pushed.frame.2], h.capacity⟩

theorem inbound_read {U : List Byte} {isn : WrappingInt32} {t : TCPReceiver} {got : List Byte}
    (h : Inbound U isn t got) (len : Nat) :
    Inbound U isn (t.readOut len).1 (got ++ (t.readOut len).2) := by
  refine ⟨rx_read h.rx len, ?_, ?_⟩
  · rw [readOut_fst]
    exact h.rx.agrees.read_got h.got len
  · rw [readOut_fst]
    exact h.capacity

/-- What the application can read is the beginning of what was sent. -/
theorem Inbound.received {U : List Byte} {isn : WrappingInt32} {t : TCPReceiver} {got : List Byte}
    (h : Inbound U isn t got) : got ++ t.streamOut.buffer <+: U := by
  rw [streamOut, h.rx.agrees.got_buffer h.got]
  exact List.take_prefix _ _

/-- An action of an endpoint keeps `Inbound`, when a segment delivered to it is one of the
stream and fits. -/
theorem inbound_act {U : List Byte} {isn : WrappingInt32} {e peer f : Endpoint} {action : Action}
    (h : Inbound U isn e.conn.receiver e.delivered) (hU : U.length < 2 ^ 31)
    (hseg : ∀ i seg, action = .deliver i → peer.conn.segmentsOut[i]? = some seg →
      Carries U isn seg ∧ Fits isn e.conn.receiver seg)
    (hact : e.act peer action = .ok f) : Inbound U isn f.conn.receiver f.delivered := by
  obtain ⟨c, acks, ht, hm⟩ := act_takes hact
  have hc : Inbound U isn c.receiver f.delivered := by
    generalize f.written = W, f.delivered = got at ht
    cases ht with
    | nothing | write | endInput => exact h
    | read => exact inbound_read h _
    | @segment i seg r hi _ hr =>
      obtain ⟨hcar, hfit⟩ := hseg i seg rfl hi
      exact inbound_segment h hU hcar hfit hr
  obtain ⟨err, herr⟩ := moves_receiver hm
  rw [herr]
  exact inbound_withError hc err

/-! ## Every run -/

namespace System

/-- The segments delivered fit. -/
def FitsWindow (s : System) : Side × Action → Prop
  | (x, .deliver i) => ∀ seg ∈ (s.side x.other).conn.segmentsOut[i]?,
      Fits (s.side x.other).conn.sender.isn (s.side x).conn.receiver seg
  | _ => True

instance (s : System) : (ev : Side × Action) → Decidable (FitsWindow s ev)
  | (x, .deliver i) => inferInstanceAs (Decidable (∀ seg ∈ (s.side x.other).conn.segmentsOut[i]?,
      Fits (s.side x.other).conn.sender.isn (s.side x).conn.receiver seg))
  | (_, .write _) | (_, .connect) | (_, .endInputStream) | (_, .tick _) | (_, .read _) =>
    inferInstanceAs (Decidable True)

/-- From `x` to the other side: what is sent is what was written, what is held is what
was sent. -/
structure Link (s : System) (x : Side) : Prop where
  tx : Tx (s.side x).written (s.side x).conn
  inbound : Inbound (sentBytes (s.side x).written (s.side x).conn.sender)
    (s.side x).conn.sender.isn (s.side x.other).conn.receiver (s.side x.other).delivered

theorem Lawful.low {s : System} {ev : Side × Action} (h : Lawful s ev) (x : Side) :
    (s.side x).conn.sender.nextSeqno < 2 ^ 31 := by
  cases x with
  | a => exact h.1
  | b => exact h.2.1

theorem Side.other_other (x : Side) : x.other.other = x := by cases x <;> rfl

/-- The side that acts and the other one are both sides. -/
theorem Side.both {P : Side → Prop} {x : Side} (h : P x) (h' : P x.other) : ∀ y, P y := by
  intro y
  cases x with
  | a =>
    cases y with
    | a => exact h
    | b => exact h'
  | b =>
    cases y with
    | a => exact h'
    | b => exact h

theorem Link.sent_low {s : System} {x : Side} (h : Link s x)
    (hn : (s.side x).conn.sender.nextSeqno < 2 ^ 31) :
    (sentBytes (s.side x).written (s.side x).conn.sender).length < 2 ^ 31 := by
  have := h.tx.slices.length_sent
  have := h.tx.slices.next
  omega

theorem link_init (cfgA cfgB : TCPConfig) (hA : 1 ≤ cfgA.recvCapacity)
    (hA' : cfgA.recvCapacity < 2 ^ 63) (hB : 1 ≤ cfgB.recvCapacity)
    (hB' : cfgB.recvCapacity < 2 ^ 63) (x : Side) : Link (init cfgA cfgB) x := by
  have inb (cfg : TCPConfig) (h1 : 1 ≤ cfg.recvCapacity) (h2 : cfg.recvCapacity < 2 ^ 63)
      (U : List Byte) (isn : WrappingInt32) : Inbound U isn (.new cfg.recvCapacity) [] :=
    ⟨rx_new U isn h1, by simp [TCPReceiver.new, StreamReassembler.new, ByteStream.new], h2⟩
  cases x with
  | a => exact ⟨tx_new cfgA, inb cfgB hB hB' _ _⟩
  | b => exact ⟨tx_new cfgB, inb cfgA hA hA' _ _⟩

/-- The segments of a link are segments of its stream. -/
theorem Link.carries {s : System} {x : Side} (h : Link s x)
    (hn : (s.side x).conn.sender.nextSeqno < 2 ^ 31) {seg : TCPSegment}
    (hseg : seg ∈ (s.side x).conn.segmentsOut) :
    Carries (sentBytes (s.side x).written (s.side x).conn.sender) (s.side x).conn.sender.isn seg :=
  (h.tx.wire seg hseg).carries (by omega)

/-- **Both directions survive a step.** The side that acts sends on one link and receives
on the other. -/
theorem link_step {s t : System} {ev : Side × Action} (h : ∀ x, Link s x) (hl : Lawful s ev)
    (hfit : FitsWindow s ev) (hstep : step s ev = .ok t) : ∀ x, Link t x := by
  obtain ⟨x, action⟩ := ev
  obtain ⟨e, he, ht⟩ := Exec.bind_eq_ok.mp hstep
  cases ht
  have hin := h x.other
  have hother := Side.other_other x
  obtain ⟨htx, hlater, hwritten⟩ := tx_act (h x).tx (hl.low x) he
  have hgrow : sentBytes (s.side x).written (s.side x).conn.sender <+:
      sentBytes e.written e.conn.sender := by
    obtain ⟨more, hmore⟩ := hwritten
    have hsame := sentBytes_append (h x).tx.slices.toCounted more
    rw [hmore] at hsame
    rw [← hsame]
    exact hlater.sentBytes
  have out : Link (s.put x e) x := by
    refine ⟨by rw [side_put]; exact htx, ?_⟩
    rw [side_put, side_put_other, hlater.isn]
    exact (h x).inbound.grow hgrow
  have back : Link (s.put x e) x.other := by
    refine ⟨by rw [side_put_other]; exact hin.tx, ?_⟩
    have hinb := hin.inbound
    rw [hother] at hinb ⊢
    rw [side_put, side_put_other]
    apply inbound_act hinb (hin.sent_low (hl.low _)) _ he
    rintro i seg rfl hseg
    exact ⟨hin.carries (hl.low _) (List.mem_of_getElem? hseg), hfit seg hseg⟩
  exact Side.both out back

/-- **Stream safety.** In every state of every run in which the delivered segments fit,
what either side's application has read or can read is the beginning of what `write`
accepted on the other side. -/
theorem stream_safety (cfgA cfgB : TCPConfig) (hA : 1 ≤ cfgA.recvCapacity)
    (hA' : cfgA.recvCapacity < 2 ^ 63) (hB : 1 ≤ cfgB.recvCapacity)
    (hB' : cfgB.recvCapacity < 2 ^ 63) (s : System)
    (h : Exec.Reach step (fun s ev => Lawful s ev ∧ FitsWindow s ev) (init cfgA cfgB) s) :
    s.b.received <+: s.a.written ∧ s.a.received <+: s.b.written := by
  have hlink := h.invariant (I := fun s => ∀ x, Link s x)
    (link_init cfgA cfgB hA hA' hB hB')
    (fun _ _ _ hs ha hstep => link_step hs ha.1 ha.2 hstep)
  exact ⟨(hlink .a).inbound.received.trans (List.take_prefix _ _),
    (hlink .b).inbound.received.trans (List.take_prefix _ _)⟩

/-- Four bytes of receive capacity on both sides. -/
def smallConfig (isn : UInt32) : TCPConfig :=
  { recvCapacity := 4, sendCapacity := 16, fixedIsn := ⟨isn⟩ }

/-- Two segments in the wrong order, one of them twice. -/
theorem stream_safety_abcd :
    ∃ s, Exec.Reach step (fun s ev => Lawful s ev ∧ FitsWindow s ev)
        (init (smallConfig 10) (smallConfig 20)) s ∧
      s.b.received = [97, 98, 99, 100] ∧ s.b.received <+: s.a.written ∧
      s.a.received <+: s.b.written := by
  obtain ⟨s, reached, hv⟩ := Exec.reach_of_view step (fun s ev => Lawful s ev ∧ FitsWindow s ev)
    (init (smallConfig 10) (smallConfig 20))
    [(.a, .connect), (.b, .deliver 0), (.a, .deliver 0), (.b, .deliver 1), (.a, .write [97, 98]),
      (.a, .write [99, 100]), (.b, .deliver 3), (.b, .deliver 2), (.b, .read 1), (.b, .deliver 3)]
    (fun s => s.b.received) [97, 98, 99, 100] (by decide +kernel)
  exact ⟨s, reached, hv, stream_safety (smallConfig 10) (smallConfig 20) (by decide) (by decide)
    (by decide) (by decide) s reached⟩

/-- A delayed acknowledgement makes the free space of `a` wrap, so that `a` sends past the
window; its last segment arrives before the one it follows and takes the place of unread
output. Three bytes are lost, and the stream goes on after them. -/
theorem reordered_ack_loses_bytes :
    ∃ s, Exec.Reach step Lawful (init (smallConfig 10) (smallConfig 20)) s ∧
      s.b.received = [97, 98, 99, 100, 101, 102, 103, 107] ∧
      s.a.written = [97, 98, 99, 100, 101, 102, 103, 104, 105, 106, 107] := by
  obtain ⟨s, reached, hv⟩ := Exec.reach_of_view step Lawful
    (init (smallConfig 10) (smallConfig 20))
    [(.a, .connect), (.b, .deliver 0), (.a, .deliver 0), (.b, .deliver 1),
      (.a, .write [97, 98]), (.b, .deliver 2), (.b, .read 2), (.b, .write [120]), (.a, .deliver 2),
      (.a, .write [99, 100, 101, 102]), (.a, .deliver 1), (.a, .write [103]),
      (.a, .write [104, 105, 106]), (.b, .deliver 4), (.b, .deliver 6), (.b, .read 1),
      (.b, .deliver 5), (.b, .read 4), (.a, .write [107]), (.b, .deliver 7)]
    (fun s => (s.b.received, s.a.written))
    ([97, 98, 99, 100, 101, 102, 103, 107], [97, 98, 99, 100, 101, 102, 103, 104, 105, 106, 107])
    (by decide +kernel)
  exact ⟨s, reached, Prod.mk.inj hv⟩

end System

end Sponge
