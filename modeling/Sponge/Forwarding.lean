import Sponge.Routing

/-!
# Runs of the router

Any interleaving of frames that arrive at the interfaces, ticks and calls of `route`. The
frames have any header, and any bytes in one buffer as their payload.

`IPv4Datagram::parse` lets through datagrams that `serialize` refuses, so a frame can make
`route`, or a later `recv_frame`, throw.

* `route_spec`: `route` empties every queue when all the datagrams can be written out;
* `route_robust`: while no datagram with a wrong version or header length is let through,
  every call returns, and `route` leaves no datagram behind;
* `wrong_version_throws`: otherwise both calls can throw.
-/

namespace Sponge

open NetworkInterface

/-! ## Datagrams that can be sent -/

namespace NetworkInterface

/-- Only the datagram itself can be new among those that wait. -/
theorem sendDatagram_waiting {n m : NetworkInterface} {dgram : IPv4Datagram} {hop : UInt32}
    (h : n.sendDatagram dgram hop = .ok m) (ip : UInt32) :
    ∀ d ∈ m.waiting ip, d = dgram ∨ d ∈ n.waiting ip := by
  intro d hd
  cases sendDatagram_spec h with
  | out => exact Or.inr hd
  | dropped => exact Or.inr hd
  | queued =>
    change d ∈ (n.newWaitList hop dgram).waiting ip at hd
    rw [waiting_newWaitList] at hd
    by_cases heq : ip = hop
    · rw [heq, Function.update_self] at hd
      exact Or.inl (List.mem_singleton.mp hd)
    · rw [Function.update_of_ne heq] at hd
      exact Or.inr hd

/-- An arriving frame adds nothing to the datagrams that wait. -/
theorem recvFrame_waiting {n m : NetworkInterface} {frame : EthernetFrame}
    {ret : Option IPv4Datagram} (h : n.recvFrame frame = .ok (ret, m)) (ip : UInt32) :
    ∀ d ∈ m.waiting ip, d ∈ n.waiting ip := by
  intro d hd
  cases recvFrame_spec h with
  | same => exact hd
  | @learned arp =>
    rw [waiting_taught] at hd
    by_cases heq : ip = arp.senderIpAddress
    · rw [heq, Function.update_self] at hd
      cases hd
    · rw [Function.update_of_ne heq] at hd
      exact hd

end NetworkInterface

/-- A datagram of these bytes is let through only with the right version and a header length
of at least five words. -/
def IPv4Datagram.Screened (b : List Byte) : Prop :=
  20 ≤ b.length →
    b.length - 20 = (totalLengthOf b + 2 ^ 16 - 4 * headerLengthOf b) % 2 ^ 16 →
    versionOf b = 4 ∧ 5 ≤ headerLengthOf b

instance (b : List Byte) : Decidable (IPv4Datagram.Screened b) :=
  inferInstanceAs (Decidable (_ → _ → _ ∧ _))

/-- What the parser lets through can then be written out. -/
theorem IPv4Datagram.sendable_of_parse {buffer : Buffer} {d : IPv4Datagram}
    (hscreened : Screened buffer.str) (h : parse {} buffer = .ok (.noError, d)) : d.Sendable := by
  by_cases hlen : 20 ≤ buffer.str.length
  · obtain ⟨res, rest, hp, hrest, hres⟩ := parse_long buffer hlen
    rw [hp] at h
    cases h
    have hsize := hres.mp rfl
    have hfields : versionOf buffer.str = 4 ∧ 5 ≤ headerLengthOf buffer.str := by
      by_cases hs : Sized buffer.str
      · exact ⟨hs.version, hs.least⟩
      · rw [hrest, if_neg hs, List.length_drop] at hsize
        exact hscreened hlen hsize
    constructor
    · rw [BufferList.size_ofBuffer, hsize, IPv4Header.ofBytes_payloadLength]
    · rw [← UInt8.toNat_inj, IPv4Header.ofBytes_ver]
      exact hfields.1
    · rw [UInt8.le_iff_toNat_le, IPv4Header.ofBytes_hlen]
      exact hfields.2
  · obtain ⟨d', hp⟩ := parse_short buffer (by omega)
    rw [hp] at h
    cases h

/-- The frame that `EthernetFrame::parse` makes of a header and the bytes after it. -/
def frameOf (header : EthernetHeader) (payload : Buffer) : EthernetFrame :=
  { header := header, payload := .ofBuffer payload }

/-- `recv_frame` returns when the datagrams that wait can be written out, and so can then
the datagram it hands over. -/
theorem NetworkInterface.recvFrame_returns {n : NetworkInterface} {header : EthernetHeader}
    {payload : Buffer} (hwaiting : ∀ ip, ∀ d ∈ n.waiting ip, d.Sendable)
    (hscreened : n.validFrame (frameOf header payload) = true →
      header.type = EthernetHeader.typeIPv4 → IPv4Datagram.Screened payload.str) :
    ∃ ret m, n.recvFrame (frameOf header payload) = .ok (ret, m) ∧ ∀ d ∈ ret, d.Sendable := by
  have hbuffer : (frameOf header payload).payload.toBuffer = .ok payload := rfl
  obtain ⟨ret, m, hm⟩ := recvFrame_contiguous hbuffer fun ip d hd =>
    IPv4Datagram.serialize_ok_iff.mpr (hwaiting ip d hd)
  refine ⟨ret, m, hm, ?_⟩
  rintro d rfl
  obtain ⟨hvalid, htype, buffer, hb, hp⟩ := recvFrame_handed hm
  cases hbuffer.symm.trans hb
  exact IPv4Datagram.sendable_of_parse (hscreened hvalid htype) hp

/-! ## Forwarding -/

/-- All the datagrams an interface holds can be written out. -/
structure AsyncNetworkInterface.Ready (n : AsyncNetworkInterface) : Prop where
  queued : ∀ d ∈ n.datagramsOut, d.Sendable
  waiting : ∀ ip, ∀ d ∈ n.waiting ip, d.Sendable

namespace Router

structure Good (r : Router) : Prop where
  table : ∃ routes : List Route, r.routingTable = routes.map Route.entry ∧
    ∀ route ∈ routes, route.interfaceNum < r.interfaces.length
  ready : ∀ (i : Nat) n, r.interfaces[i]? = some n → n.Ready

/-- Replacing an interface by one that is ready. -/
theorem Good.set {r : Router} (h : r.Good) (i : Nat) {n : AsyncNetworkInterface} (hn : n.Ready) :
    Good { r with interfaces := r.interfaces.set i n } := by
  constructor
  · simpa only [List.length_set] using h.table
  · intro j m hm
    dsimp only at hm
    rw [List.getElem?_set] at hm
    split at hm
    · split at hm
      · cases hm
        exact hn
      · cases hm
    · exact h.ready j m hm

/-- The datagrams that wait for an address can be written out. -/
def PortsReady (ports : List NetworkInterface) : Prop :=
  ∀ n ∈ ports, ∀ ip, ∀ d ∈ n.waiting ip, d.Sendable

theorem Send.call_ready {ports ports' : List NetworkInterface} {send : Send}
    (hd : send.dgram.Sendable) (h : PortsReady ports) (hcall : send.call ports = .ok ports') :
    PortsReady ports' := by
  obtain ⟨interface, hget, hcall⟩ := Exec.bind_eq_ok.mp hcall
  obtain ⟨sent, hsent, hcall⟩ := Exec.bind_eq_ok.mp hcall
  cases hcall
  intro n hn ip d hmem
  rcases List.mem_or_eq_of_mem_set hn with hn | rfl
  · exact h n hn ip d hmem
  · rcases sendDatagram_waiting hsent ip d hmem with rfl | hold
    · exact hd
    · exact h interface (List.mem_of_getElem? (subscript_ok hget)) ip d hold

theorem Good.portsReady {r : Router} (h : r.Good) : PortsReady r.ports := by
  intro port hport
  obtain ⟨n, hn, rfl⟩ := List.mem_map.mp hport
  obtain ⟨i, hi⟩ := List.mem_iff_getElem?.mp hn
  exact (h.ready i n hi).waiting

theorem Good.able {r : Router} (h : r.Good) : ∃ routes, r.Able routes := by
  obtain ⟨routes, htable, hexisting⟩ := h.table
  refine ⟨routes, htable, by rwa [length_queues], ?_⟩
  intro q hq
  obtain ⟨n, hn, rfl⟩ := List.mem_map.mp hq
  obtain ⟨i, hi⟩ := List.mem_iff_getElem?.mp hn
  exact (h.ready i n hi).queued

theorem Able.good {r : Router} {routes : List Route} (h : r.Able routes)
    (hw : PortsReady r.ports) : r.Good where
  table := ⟨routes, h.table, by rw [← length_queues]; exact h.existing⟩
  ready := by
    intro i n hn
    have hmem := List.mem_of_getElem? hn
    exact ⟨h.queued _ (List.mem_map_of_mem hmem), hw _ (List.mem_map_of_mem hmem)⟩

/-- **Forwarding.** When all the datagrams can be written out, `route` returns and every
queue is empty. -/
theorem route_spec {r : Router} (h : r.Good) :
    ∃ t, r.route = .ok t ∧ t.Good ∧ ∀ n ∈ t.interfaces, n.datagramsOut = [] := by
  obtain ⟨routes, hable⟩ := h.able
  obtain ⟨t, ht, hqueues, hperformed⟩ := route_calls hable
  have hempty : ∀ q ∈ t.queues, q = [] := by
    intro q hq
    rw [hqueues] at hq
    exact (List.mem_replicate.mp hq).2
  refine ⟨t, ht, ?_, fun n hn => hempty _ (List.mem_map_of_mem hn)⟩
  have hable' : t.Able routes := by
    apply hperformed.able hable
    · rw [hqueues, List.length_replicate]
    · intro q hq d hd
      rw [hempty q hq] at hd
      cases hd
  apply hable'.good
  refine Exec.foldlM_keeps ?_ h.portsReady hperformed.ports
  intro send hsend ports ports' hports hcall
  exact Send.call_ready (calls_sendable hable send hsend) hports hcall

end Router

/-! ## Runs -/

namespace Forwarding

open Router

inductive Event
  | recvFrame (interfaceNum : Nat) (header : EthernetHeader) (payload : Buffer)
  | tick (interfaceNum : Nat) (msSinceLastTick : Nat)
  | route

def step (r : Router) : Event → Except Fault Router
  | .recvFrame i header payload => do
    let interface ← subscript r.interfaces i
    let interface ← interface.recvFrame (frameOf header payload)
    return { r with interfaces := r.interfaces.set i interface }
  | .tick i ms => do
    let interface ← subscript r.interfaces i
    let ticked := { interface with toNetworkInterface := interface.toNetworkInterface.tick ms }
    return { r with interfaces := r.interfaces.set i ticked }
  | .route => r.route

/-- The event is at an interface that exists. -/
def Event.Exists (r : Router) : Event → Prop
  | .recvFrame i _ _ => i < r.interfaces.length
  | .tick i _ => i < r.interfaces.length
  | .route => True

/-- No datagram for this interface is let through with a wrong version or a header length
below five words. -/
def Event.Screened (r : Router) : Event → Prop
  | .recvFrame i header payload => ∀ n ∈ r.interfaces[i]?,
    n.validFrame (frameOf header payload) = true → header.type = EthernetHeader.typeIPv4 →
      IPv4Datagram.Screened payload.str
  | .tick _ _ => True
  | .route => True

instance (r : Router) : (e : Event) → Decidable (e.Exists r)
  | .recvFrame _ _ _ => inferInstanceAs (Decidable (_ < _))
  | .tick _ _ => inferInstanceAs (Decidable (_ < _))
  | .route => inferInstanceAs (Decidable True)

instance (r : Router) : (e : Event) → Decidable (e.Screened r)
  | .recvFrame _ _ _ => inferInstanceAs (Decidable (∀ _ ∈ _, _ → _ → _))
  | .tick _ _ => inferInstanceAs (Decidable True)
  | .route => inferInstanceAs (Decidable True)

/-- A router with new interfaces. -/
def build (addresses : List (EthernetAddress × UInt32)) (routes : List Route) : Router :=
  addRoutes { interfaces := addresses.map fun a => { toNetworkInterface := .new a.1 a.2 } } routes

theorem good_build {addresses : List (EthernetAddress × UInt32)} {routes : List Route}
    (h : ∀ route ∈ routes, route.interfaceNum < addresses.length) :
    (build addresses routes).Good := by
  constructor
  · refine ⟨routes, ?_, ?_⟩
    · rw [build, routingTable_addRoutes, List.nil_append]
    · rw [build, interfaces_addRoutes, List.length_map]
      exact h
  · intro i n hn
    rw [build, interfaces_addRoutes, List.getElem?_map] at hn
    obtain ⟨a, -, rfl⟩ := Option.map_eq_some_iff.mp hn
    constructor
    · intro d hd
      cases hd
    · intro ip d hd
      cases hd

/-- A frame is taken in, and what the interface then holds can be written out. -/
theorem recvFrame_ready {n : AsyncNetworkInterface} (h : n.Ready) {header : EthernetHeader}
    {payload : Buffer} (hscreened : n.validFrame (frameOf header payload) = true →
      header.type = EthernetHeader.typeIPv4 → IPv4Datagram.Screened payload.str) :
    ∃ m, n.recvFrame (frameOf header payload) = .ok m ∧ m.Ready := by
  obtain ⟨ret, m, hm, hret⟩ := recvFrame_returns h.waiting hscreened
  refine ⟨_, by simp only [AsyncNetworkInterface.recvFrame, hm, Exec.ok_bind]; rfl, ?_⟩
  constructor
  · intro d hd
    rcases List.mem_append.mp hd with hold | hnew
    · exact h.queued d hold
    · exact hret d (by simpa using hnew)
  · intro ip d hd
    exact h.waiting ip d (recvFrame_waiting hm ip d hd)

/-- Each event returns. -/
theorem good_step {r : Router} {e : Event} (h : r.Good) (hexists : e.Exists r)
    (hscreened : e.Screened r) : ∃ t, step r e = .ok t ∧ t.Good := by
  cases e with
  | recvFrame i header payload =>
    have hget := List.getElem?_eq_getElem (show i < r.interfaces.length from hexists)
    obtain ⟨m, hm, hready⟩ := recvFrame_ready (h.ready i _ hget) (hscreened _ hget)
    exact ⟨_, by simp only [step, subscript_some hget, Exec.ok_bind, hm]; rfl, h.set i hready⟩
  | tick i ms =>
    have hget := List.getElem?_eq_getElem (show i < r.interfaces.length from hexists)
    have hready := h.ready i _ hget
    refine ⟨_, by simp only [step, subscript_some hget, Exec.ok_bind]; rfl, h.set i ?_⟩
    exact ⟨hready.queued, fun ip d hd => hready.waiting ip d (by simpa using hd)⟩
  | route =>
    obtain ⟨t, ht, hgood, -⟩ := route_spec h
    exact ⟨t, ht, hgood⟩

/-- **The router withstands its input.** In every run in which no datagram with a wrong
version or header length is let through, every call returns, and `route` leaves every queue
empty. -/
theorem route_robust (addresses : List (EthernetAddress × UInt32)) (routes : List Route)
    (hroutes : ∀ route ∈ routes, route.interfaceNum < addresses.length) (r : Router)
    (h : Exec.Reach step (fun r e => e.Exists r ∧ e.Screened r) (build addresses routes) r)
    (e : Event) (hexists : e.Exists r) (hscreened : e.Screened r) :
    ∃ t, step r e = .ok t ∧ (e = .route → ∀ n ∈ t.interfaces, n.datagramsOut = []) := by
  have hr : r.Good := by
    refine h.invariant (good_build hroutes) ?_
    rintro r e t hr ⟨hexists, hscreened⟩ ht
    obtain ⟨t', ht', hgood⟩ := good_step hr hexists hscreened
    rw [ht] at ht'
    cases ht'
    exact hgood
  cases e with
  | recvFrame i header payload =>
    obtain ⟨t, ht, -⟩ := good_step hr hexists hscreened
    exact ⟨t, ht, by simp⟩
  | tick i ms =>
    obtain ⟨t, ht, -⟩ := good_step hr hexists hscreened
    exact ⟨t, ht, by simp⟩
  | route =>
    obtain ⟨t, ht, -, hempty⟩ := route_spec hr
    exact ⟨t, ht, fun _ => hempty⟩

/-- One interface and a default route through the host at `10.0.0.2`. -/
def gateway : Router :=
  build [(Vector.replicate 6 1, 0x0A000001)]
    [{ routePrefix := 0, prefixLength := 0, nextHop := some 0x0A000002, interfaceNum := 0 }]

/-- The ARP reply of that host. -/
def replyArrives : Event :=
  .recvFrame 0 ⟨Vector.replicate 6 1, Vector.replicate 6 2, EthernetHeader.typeARP⟩
    (.ofString [0, 1, 8, 0, 6, 4, 0, 2, 2, 2, 2, 2, 2, 2, 10, 0, 0, 2, 1, 1, 1, 1, 1, 1, 10, 0, 0,
      1])

/-- A datagram of twenty bytes with a time to live of 64, whose first byte is given. -/
def dgramArrives (firstByte : Byte) : Event :=
  .recvFrame 0 ⟨Vector.replicate 6 1, Vector.replicate 6 2, EthernetHeader.typeIPv4⟩
    (.ofString ([firstByte, 0, 0, 20, 0, 0, 0, 0, 64, 6, 0, 0] ++ List.replicate 8 9))

/-- The text of the exception that a call throws. -/
def thrown {α : Type} : Except Fault α → Option String
  | .error (.throws what) => some what
  | _ => none

/-- A datagram of version 4 is forwarded. -/
theorem route_robust_gateway :
    ∃ r t, Exec.Reach step (fun r e => e.Exists r ∧ e.Screened r) gateway r ∧
      r.queues.map List.length = [1] ∧ step r .route = .ok t ∧
      ∀ n ∈ t.interfaces, n.datagramsOut = [] := by
  obtain ⟨r, reached, hv⟩ := Exec.reach_of_view step (fun r e => e.Exists r ∧ e.Screened r) gateway
    [replyArrives, .tick 0 7, dgramArrives 0x45] (fun r => r.queues.map List.length) [1]
    (by decide +kernel)
  obtain ⟨t, ht, hempty⟩ := route_robust [(Vector.replicate 6 1, 0x0A000001)]
    [{ routePrefix := 0, prefixLength := 0, nextHop := some 0x0A000002, interfaceNum := 0 }]
    (by decide) r reached .route trivial trivial
  exact ⟨r, t, reached, hv, ht, hempty rfl⟩

/-- A datagram of version 5 makes `route` throw when the next hop is known, and otherwise
the `recv_frame` that takes the ARP reply. -/
theorem wrong_version_throws :
    (∃ r, Exec.Reach step (fun r e => e.Exists r) gateway r ∧
      thrown (step r .route) = some "wrong IP version") ∧
    ∃ r, Exec.Reach step (fun r e => e.Exists r) gateway r ∧
      thrown (step r replyArrives) = some "wrong IP version" := by
  constructor
  · exact Exec.reach_of_view step _ gateway [replyArrives, dgramArrives 0x55]
      (fun r => thrown (step r .route)) (some "wrong IP version") (by decide +kernel)
  · exact Exec.reach_of_view step _ gateway [dgramArrives 0x55, .route]
      (fun r => thrown (step r replyArrives)) (some "wrong IP version") (by decide +kernel)

end Forwarding

end Sponge
