import Sponge.EthernetAdapter
import Sponge.SocketRuns

/-!
# Two sockets

Two `TCPSpongeSocket`s, over adapters of one kind, and a network that may lose, repeat, delay and
reorder packets but makes none up: what a socket reads is a packet that the other has put on the
wire, at any time and any number of times. The rounds of the two sockets' loops come in any order.

A round of a socket is a run of calls on its endpoint (`SocketRuns`), and each of these is a step
of the system of two connections (`System`); the adapters return no other segments than those that
were written to the peer's.

* `delivers_in_order`: what an owner is given is the beginning of what the other owner wrote.
-/

namespace Sponge

open TCPReceiver TCPSender TCPSpongeSocket

/-! ## Calls as steps of the system -/

/-- A connection takes a segment and the same segment in other ports alike. -/
theorem TCPConnection.segmentReceived_core (c : TCPConnection) {seg old : TCPSegment}
    (h : seg.core = old.core) : c.segmentReceived seg = c.segmentReceived old := by
  have hseg : c.segmentReceived seg.core = c.segmentReceived seg := rfl
  have hold : c.segmentReceived old.core = c.segmentReceived old := rfl
  rw [← hseg, h, hold]

theorem fits_core {isn : WrappingInt32} {t : TCPReceiver} {seg old : TCPSegment}
    (h : seg.core = old.core) (hf : Fits isn t seg) : Fits isn t old := by
  have hseg : Fits isn t seg.core := hf
  rw [h] at hseg
  exact hseg

namespace System

theorem put_side (s : System) (x : Side) : s.put x (s.side x) = s := by cases x <;> rfl

theorem put_put (s : System) (x : Side) (e f : Endpoint) : (s.put x e).put x f = s.put x f := by
  cases x <;> rfl

/-- What can be heard is a segment of the other side, and fits. -/
def Audible (s : System) (x : Side) (t : TCPReceiver) (seg : TCPSegment) : Prop :=
  (∃ old ∈ (s.side x.other).conn.segmentsOut, seg.core = old.core) ∧
    Fits (s.side x.other).conn.sender.isn t seg

theorem audible_put (s : System) (x : Side) (e : Endpoint) :
    (s.put x e).Audible x = s.Audible x := by
  funext t seg
  rw [Audible, Audible, side_put_other]

/-- A lawful call on one side is a step of the system. -/
theorem call_step {s : System} {x : Side} {f : Endpoint} {event : TCPConnection.Event}
    (hlow : ∀ y, (s.side y).conn.sender.nextSeqno < 2 ^ 31)
    (hl : Endpoint.Lawful (Audible s x) (s.side x) event) (hcall : (s.side x).call event = .ok f) :
    ∃ action, Lawful s (x, action) ∧ FitsWindow s (x, action) ∧
      step s (x, action) = .ok (s.put x f) := by
  have hsteps : ∀ {action}, (s.side x).act (s.side x.other) action = .ok f →
      step s (x, action) = .ok (s.put x f) := fun hact =>
    Exec.bind_eq_ok.mpr ⟨f, hact, rfl⟩
  cases event with
  | connect => exact ⟨.connect, ⟨hlow .a, hlow .b, trivial⟩, trivial, hsteps hcall⟩
  | write data => exact ⟨.write data, ⟨hlow .a, hlow .b, hl.1⟩, trivial, hsteps hcall⟩
  | endInputStream => exact ⟨.endInputStream, ⟨hlow .a, hlow .b, trivial⟩, trivial, hsteps hcall⟩
  | tick ms => exact ⟨.tick ms, ⟨hlow .a, hlow .b, trivial⟩, trivial, hsteps hcall⟩
  | read len => exact ⟨.read len, ⟨hlow .a, hlow .b, trivial⟩, trivial, hsteps hcall⟩
  | segmentReceived seg =>
    obtain ⟨⟨old, hold, hcore⟩, hfits⟩ := hl
    obtain ⟨i, hi⟩ := List.getElem?_of_mem hold
    refine ⟨.deliver i, ⟨hlow .a, hlow .b, trivial⟩, ?_, hsteps ?_⟩
    · intro seg' hseg'
      rw [hi] at hseg'
      cases hseg'
      exact fits_core hcore hfits
    · obtain ⟨conn, hconn, hf⟩ := Exec.bind_eq_ok.mp hcall
      have hsame : (s.side x).conn.segmentReceived old = .ok conn :=
        (TCPConnection.segmentReceived_core _ hcore).symm.trans hconn
      simp only [Endpoint.act, subscript_some hi, Exec.ok_bind, hsame]
      exact hf
  | collect => exact hl.elim

theorem calls_numbers {heard : TCPReceiver → TCPSegment → Prop} {e f : Endpoint}
    (hs : Replies.Sound e.conn) (h : Exec.Reach Endpoint.call (Endpoint.Lawful heard) e f) :
    Replies.Sound f.conn ∧ e.conn.sender.nextSeqno ≤ f.conn.sender.nextSeqno := by
  apply h.invariant (I := fun f => Replies.Sound f.conn ∧
    e.conn.sender.nextSeqno ≤ f.conn.sender.nextSeqno) ⟨hs, Nat.le_refl _⟩
  rintro f event g ⟨hf, hle⟩ - hcall
  have hconn := Endpoint.call_conn hcall
  exact ⟨Replies.sound_call hf hconn, Nat.le_trans hle (Replies.call_numbers hf hconn)⟩

/-- **Both directions survive a run of calls** on one side. -/
theorem link_calls {s : System} {x : Side} {f : Endpoint} (hlink : ∀ y, Link s y)
    (hs : Replies.Sound (s.side x).conn)
    (hother : (s.side x.other).conn.sender.nextSeqno < 2 ^ 31)
    (hlow : f.conn.sender.nextSeqno < 2 ^ 31)
    (h : Exec.Reach Endpoint.call (Endpoint.Lawful (Audible s x)) (s.side x) f) :
    ∀ y, Link (s.put x f) y := by
  induction h with
  | start =>
    rw [put_side]
    exact hlink
  | @next e f event hreach hl hcall ih =>
    have hsound := (calls_numbers hs hreach).1
    have hmono := Replies.call_numbers hsound (Endpoint.call_conn hcall)
    have hlow' : ∀ y, ((s.put x e).side y).conn.sender.nextSeqno < 2 ^ 31 := by
      refine Side.both (P := fun y => ((s.put x e).side y).conn.sender.nextSeqno < 2 ^ 31)
        (x := x) ?_ ?_
      · rw [side_put]
        exact Nat.lt_of_le_of_lt hmono hlow
      · rw [side_put_other]
        exact hother
    have hlaw : Endpoint.Lawful (Audible (s.put x e) x) ((s.put x e).side x) event := by
      rw [audible_put, side_put]
      exact hl
    rw [← side_put s x e] at hcall
    obtain ⟨action, hlawful, hfits, hstep⟩ := call_step hlow' hlaw hcall
    rw [put_put] at hstep
    exact link_step (ih (Nat.lt_of_le_of_lt hmono hlow)) hlawful hfits hstep

end System

/-! ## What the adapters hold -/

theorem TCPSegment.Plain.sendable {seg : TCPSegment} (h : seg.Plain) : seg.Sendable := by
  obtain ⟨hdoff, hlength⟩ := h
  rw [maxPayloadSize] at hlength
  refine ⟨by rw [hdoff]; decide, by rw [hdoff]; decide, ?_⟩
  rw [hdoff]
  change 20 + 4 * 5 + _ ≤ _
  omega

namespace TCPSpongeSocket

variable {α ι : Type} [FdAdapter α ι] [Authentic α ι]
variable {heard : TCPReceiver → TCPSegment → Prop} {cfg : TCPConfig} {e₀ : Endpoint}

/-- The adapter's device keeps its promises in a round. -/
def Round.Whole (α : Type) [FdAdapter α ι] [Authentic α ι] (r : Round ι) : Prop :=
  Authentic.Whole α r.tick ∧ ∀ revents kernel, r.Answer revents kernel →
    Authentic.Whole α kernel.datagram ∧ ∀ i, Authentic.Whole α (kernel.segment i)

theorem Round.Whole.grants {r : Round ι} (h : r.Whole α) : r.Grants (FdAdapter.Call.Fair α) where
  tick _ := h.1
  read revents kernel ha := (h.2 revents kernel ha).1
  write revents kernel ha i _ hplain := ⟨(h.2 revents kernel ha).2 i, hplain.sendable⟩

/-- The adapter has been given the segments written, and no others. -/
def HoldsWritten (s : TCPSpongeSocket α) : Prop := Authentic.Holds s.datagramAdapter s.wrote

theorem holdsWritten_reach {x y : α × List TCPSegment} (hx : Authentic.Holds x.1 x.2)
    (h : Exec.Reach FdAdapter.call (fun _ c => c.Fair α) x y) : Authentic.Holds y.1 y.2 :=
  h.invariant (I := fun y => Authentic.Holds y.1 y.2) hx fun _ _ _ hy hfair hcall =>
    Authentic.holds_call hy hfair hcall

theorem holdsWritten_turn {l m : Loop α} {r : Round ι} (hl : l.Sound heard cfg e₀)
    (hears : Hears heard l.socket r) (hwhole : r.Whole α) (hholds : l.socket.HoldsWritten)
    (h : Turn l r m) : m.socket.HoldsWritten :=
  holdsWritten_reach hholds (calls_turn hl hears hwhole.grants h)

theorem holdsWritten_opens {adapter : α} {l : Loop α} (hnew : Authentic.Holds adapter [])
    (h : Opens adapter cfg l) : l.socket.HoldsWritten :=
  holdsWritten_reach (x := (adapter, [])) hnew (h.calls (fun _ => trivial) fun _ => trivial)

end TCPSpongeSocket

/-! ## The pair -/

/-- The two sockets between rounds of their loops. -/
abbrev SocketPair (α : Type) := Side → Loop α

namespace SocketPair

variable {α ι : Type} [FdAdapter α ι]

/-- A round of one of them. -/
def step (p : SocketPair α) : Side × Round ι → Except Fault (SocketPair α)
  | (x, r) => do
    let l ← (p x).round r
    return Function.update p x l

/-- The sockets as endpoints. -/
def system (p : SocketPair α) : System := ⟨(p .a).socket.endpoint, (p .b).socket.endpoint⟩

theorem side_system (p : SocketPair α) (x : Side) :
    (system p).side x = (p x).socket.endpoint := by cases x <;> rfl

theorem system_update (p : SocketPair α) (x : Side) (l : Loop α) :
    system (Function.update p x l) = (system p).put x l.socket.endpoint := by
  cases x <;> rfl

variable [Authentic α ι]

/-- What is read in a round has been sent by the other side, the devices keep their promises, and
a segment that is heard fits into the window. -/
structure Carried (p : SocketPair α) (x : Side) (r : Round ι) : Prop where
  whole : r.Whole α
  sent : ∀ revents kernel, r.Answer revents kernel → ∀ bytes,
    Authentic.packet α kernel.datagram = some bytes →
    bytes ∈ Authentic.sent (p x.other).socket.datagramAdapter
  fits : Hears (Fits (p x.other).socket.tcp.sender.isn) (p x).socket r

/-- Fewer than `2 ^ 31` numbers are used in each direction. -/
def Low (p : SocketPair α) : Prop := ∀ x, (p x).socket.tcp.sender.nextSeqnoAbsolute < 2 ^ 31

structure Inv (cfg : Side → TCPConfig) (p : SocketPair α) : Prop where
  sound : ∀ x, (p x).Sound (fun _ _ => True) (cfg x) (.new (cfg x))
  holds : ∀ x, (p x).socket.HoldsWritten
  link : Low p → ∀ x, (system p).Link x

theorem Carried.audible {p : SocketPair α} {x : Side} {r : Round ι} (h : Carried p x r)
    (hholds : (p x.other).socket.HoldsWritten) : Hears ((system p).Audible x) (p x).socket r := by
  intro revents kernel hanswer seg adapter hread
  obtain ⟨old, hold, hcore⟩ := Authentic.heard hholds (h.sent revents kernel hanswer) hread
  rw [System.Audible, side_system]
  exact ⟨⟨old, List.mem_append_left _ hold, hcore⟩, h.fits revents kernel hanswer seg adapter hread⟩

/-- **One round.** -/
theorem inv_step {cfg : Side → TCPConfig} {p q : SocketPair α} {ev : Side × Round ι}
    (hp : Inv cfg p) (hc : Carried p ev.1 ev.2) (h : step p ev = .ok q) : Inv cfg q := by
  obtain ⟨x, r⟩ := ev
  obtain ⟨m, hround, h⟩ := Exec.bind_eq_ok.mp h
  cases h
  have hl := hp.sound x
  have hturn := round_turn hl.sorted hround
  have hm := sound_turn hl (fun _ _ _ _ _ _ => trivial) hturn
  -- the round once more, as a run of calls from the endpoint as it was
  have hagain : (p x).Sound ((system p).Audible x) (cfg x) (p x).socket.endpoint :=
    ⟨hl.sorted, hl.inv.nodup, .start hl.inv.course.runs, hl.inv.reading, hl.inv.stopped⟩
  have hcourse := (sound_turn hagain (hc.audible (hp.holds _)) hturn).inv.course.since
  have hsound := hl.inv.course.runs.sound
  have hnumbers := (System.calls_numbers hsound hcourse).2
  constructor
  case sound =>
    intro y
    by_cases hy : y = x
    · subst hy
      rw [Function.update_self]
      exact hm
    · rw [Function.update_of_ne hy]
      exact hp.sound y
  case holds =>
    intro y
    by_cases hy : y = x
    · subst hy
      rw [Function.update_self]
      exact holdsWritten_turn hl (fun _ _ _ _ _ _ => trivial) hc.whole (hp.holds y) hturn
    · rw [Function.update_of_ne hy]
      exact hp.holds y
  case link =>
    intro hlow
    have hlowx := hlow x
    rw [Function.update_self] at hlowx
    have hother : x.other ≠ x := by cases x <;> decide
    have hlowo := hlow x.other
    rw [Function.update_of_ne hother] at hlowo
    have hbefore : Low p := by
      refine System.Side.both (P := fun y =>
        (p y).socket.tcp.sender.nextSeqnoAbsolute < 2 ^ 31) (x := x) ?_ hlowo
      exact Nat.lt_of_le_of_lt hnumbers hlowx
    rw [system_update]
    apply System.link_calls (hp.link hbefore)
    · rw [side_system]
      exact hsound
    · rw [side_system]
      exact hlowo
    · exact hlowx
    · rw [side_system]
      exact hcourse

/-- Both sides have opened their connection. -/
theorem inv_opens {cfg : Side → TCPConfig} {adapter : Side → α} {p : SocketPair α}
    (hcap : ∀ x, 1 ≤ (cfg x).recvCapacity ∧ (cfg x).recvCapacity < 2 ^ 63)
    (hnew : ∀ x, Authentic.Holds (adapter x) []) (hopen : ∀ x, Opens (adapter x) (cfg x) (p x)) :
    Inv cfg p where
  sound x := (hopen x).sound
  holds x := holdsWritten_opens (hnew x) (hopen x)
  link := by
    intro hlow
    have hcalls : ∀ (x : Side) (s : System), Exec.Reach Endpoint.call
        (Endpoint.Lawful (s.Audible x)) (.new (cfg x)) (p x).socket.endpoint := by
      intro x s
      have hsound : (p x).Sound (fun _ _ => False) (cfg x) (.new (cfg x)) := (hopen x).sound
      exact hsound.inv.course.since.mono fun _ _ hl => hl.mono fun _ _ hf => hf.elim
    have hinit := System.link_init (cfg .a) (cfg .b) (hcap .a).1 (hcap .a).2 (hcap .b).1 (hcap .b).2
    have hunused : (TCPConnection.new (cfg .b)).sender.nextSeqno < 2 ^ 31 :=
      show 0 < 2 ^ 31 by decide
    have ha := System.link_calls (x := .a) hinit (Replies.sound_new _) hunused (hlow .a)
      (hcalls .a _)
    exact System.link_calls (x := .b) ha (Replies.sound_new _) (hlow .a) (hlow .b) (hcalls .b _)

/-- **Bytes arrive as they were written.** Two sockets, each from `connect` or
`listen_and_accept` on, whose packets may be lost, repeated, delayed and reordered: while fewer
than `2 ^ 31` numbers are used in each direction and the segments that are heard fit into the
window, what an owner has been given or can still be given is the beginning of what the other
owner wrote. -/
theorem delivers_in_order (cfg : Side → TCPConfig) (adapter : Side → α) (p₀ p : SocketPair α)
    (hcap : ∀ x, 1 ≤ (cfg x).recvCapacity ∧ (cfg x).recvCapacity < 2 ^ 63)
    (hnew : ∀ x, Authentic.Holds (adapter x) []) (hopen : ∀ x, Opens (adapter x) (cfg x) (p₀ x))
    (h : Exec.Reach step (fun p (ev : Side × Round ι) => Carried p ev.1 ev.2) p₀ p)
    (hlow : Low p) (x : Side) :
    (p x).socket.toOwner ++ (p x).socket.tcp.inboundStream.buffer <+:
      (p x.other).socket.fromOwner := by
  have hinv := h.invariant (I := Inv cfg) (inv_opens hcap hnew hopen)
    fun _ _ _ hp hc hstep => inv_step hp hc hstep
  have hlink := (hinv.link hlow x.other).inbound.received
  rw [System.Side.other_other, side_system, side_system] at hlink
  exact hlink.trans (List.take_prefix _ _)

/-! ### A client and a server over UDP -/

open TCPOverUDPSocketAdapter (Kernel)

/-- Each packet that a round reads has been sent, and its segment fits. -/
def carries (p : SocketPair TCPOverUDPSocketAdapter) (x : Side) (r : Round Kernel) : Bool :=
  match r.poll with
  | .ready answers => answers.all fun answer =>
    (match answer.2.datagram.recv with
      | some datagram =>
        datagram.payload ∈ (p x.other).socket.datagramAdapter.sock.sent.map Prod.snd
      | none => true) &&
    match (p x).socket.datagramAdapter.read answer.2.datagram with
      | .ok (some seg, _) =>
        decide (Fits (p x.other).socket.tcp.sender.isn (p x).socket.tcp.receiver seg)
      | _ => true
  | _ => true

theorem carried_of_carries {p : SocketPair TCPOverUDPSocketAdapter} {x : Side} {r : Round Kernel}
    (h : carries p x r = true) : Carried p x r := by
  have hanswers : ∀ revents kernel, r.Answer revents kernel →
      (∀ datagram, kernel.datagram.recv = some datagram →
        datagram.payload ∈ (p x.other).socket.datagramAdapter.sock.sent.map Prod.snd) ∧
      ∀ seg adapter, (p x).socket.datagramAdapter.read kernel.datagram = .ok (some seg, adapter) →
        Fits (p x.other).socket.tcp.sender.isn (p x).socket.tcp.receiver seg := by
    rintro revents kernel ⟨answers, hpoll, hmem⟩
    rw [carries, hpoll] at h
    have hone := List.all_eq_true.mp h _ hmem
    simp only [Bool.and_eq_true] at hone
    constructor
    · intro datagram hrecv
      have hsent := hone.1
      rw [hrecv] at hsent
      exact of_decide_eq_true hsent
    · intro seg adapter hread
      have hfits := hone.2
      rw [hread] at hfits
      exact of_decide_eq_true hfits
  constructor
  case whole => exact ⟨trivial, fun _ _ _ => ⟨trivial, fun _ => trivial⟩⟩
  case sent =>
    intro revents kernel hanswer bytes hpacket
    obtain ⟨datagram, hrecv, hbytes⟩ := Option.map_eq_some_iff.mp hpacket
    cases hbytes
    exact (hanswers revents kernel hanswer).1 datagram hrecv
  case fits => exact fun revents kernel hanswer => (hanswers revents kernel hanswer).2

/-- The client's configuration and the server's. -/
def configs (x : Side) : TCPConfig := { fixedIsn := match x with | .a => ⟨7⟩ | .b => ⟨20⟩ }

def opened : SocketPair TCPOverUDPSocketAdapter
  | .a =>
    match connect {} (configs .a) { source := ⟨1, 4000⟩, destination := ⟨2, 5000⟩ } 0 with
    | .ok l => l
    | .error _ => listenAndAccept {} (configs .a) {} 0
  | .b => listenAndAccept {} (configs .b) { source := ⟨2, 5000⟩ } 0

theorem opens_opened (x : Side) : Opens {} (configs x) (opened x) := by
  cases x with
  | a =>
    obtain ⟨tcp, -, h⟩ := connect_eq ({} : TCPOverUDPSocketAdapter) (configs .a)
      { source := ⟨1, 4000⟩, destination := ⟨2, 5000⟩ } 0
    have hopened : connect {} (configs .a) { source := ⟨1, 4000⟩, destination := ⟨2, 5000⟩ } 0 =
        .ok (opened .a) := by rw [opened, h]
    exact .connects hopened
  | b => exact .listens _ _

/-- A handshake, two bytes of the client's owner, and the server gives them to its own. The
acknowledgment of the server's SYN is lost. -/
def handshake : List (Side × Round Kernel) :=
  let toServer (ready : List Bool) (header : TCPHeader) (payload : List Byte) :=
    served ready ⟨1, 4000⟩ (some ⟨{ header with sport := 4000, dport := 5000 }, payload⟩) []
  let toClient (ready : List Bool) (header : TCPHeader) :=
    served ready ⟨2, 5000⟩ (some ⟨{ header with sport := 5000, dport := 4000 }, []⟩) []
  [(.a, served [false, false, false, true] ⟨2, 5000⟩ none []),
    (.b, toServer [true] { syn := true, seqno := ⟨7⟩, win := 64000 } []),
    (.b, served [false, false, false, true] ⟨1, 4000⟩ none []),
    (.a, toClient [true] { syn := true, ack := true, seqno := ⟨20⟩, ackno := ⟨8⟩, win := 64000 }),
    (.a, served [] ⟨2, 5000⟩ none []),
    (.a, served [false, true, false, true] ⟨2, 5000⟩ none [104, 105]),
    (.b, toServer [true] { ack := true, seqno := ⟨8⟩, ackno := ⟨21⟩, win := 64000 } [104, 105]),
    (.b, served [] ⟨1, 4000⟩ none []),
    (.b, served [false, false, true] ⟨1, 4000⟩ none [])]

theorem delivers_in_order_handshake :
    ∃ p, Exec.Reach step (fun p (ev : Side × Round Kernel) => Carried p ev.1 ev.2) opened p ∧
      (p .b).socket.toOwner = [104, 105] ∧ [104, 105] <+: (p .a).socket.fromOwner := by
  obtain ⟨p, reached, hv⟩ := Exec.reach_of_view step (fun p ev => carries p ev.1 ev.2 = true)
    opened handshake
    (fun p => ((p .b).socket.toOwner, decide ((p .a).socket.tcp.sender.nextSeqnoAbsolute < 2 ^ 31),
      decide ((p .b).socket.tcp.sender.nextSeqnoAbsolute < 2 ^ 31)))
    ([104, 105], true, true) (by decide +kernel)
  simp only [Prod.mk.injEq, decide_eq_true_eq] at hv
  obtain ⟨hgiven, hlowa, hlowb⟩ := hv
  have hlow : Low p := by
    intro x
    cases x with
    | a => exact hlowa
    | b => exact hlowb
  have hcarried : Exec.Reach step (fun p (ev : Side × Round Kernel) => Carried p ev.1 ev.2)
      opened p := reached.mono fun _ _ h => carried_of_carries h
  have hcap : ∀ x, 1 ≤ (configs x).recvCapacity ∧ (configs x).recvCapacity < 2 ^ 63 := by
    intro x
    exact ⟨show 1 ≤ 64000 by decide, show 64000 < 2 ^ 63 by decide⟩
  have hfresh : Authentic.Holds ({} : TCPOverUDPSocketAdapter) [] := by
    intro bytes hbytes
    cases hbytes
  have harrived := delivers_in_order configs (fun _ => {}) opened p hcap (fun _ => hfresh)
    opens_opened hcarried hlow .b
  rw [hgiven] at harrived
  exact ⟨p, hcarried, hgiven, (List.prefix_append _ _).trans harrived⟩

end SocketPair

end Sponge
