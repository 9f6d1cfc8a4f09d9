import Sponge.Router
import Mathlib.Data.List.Nodup

/-!
# What the router sends

`decision` is the call of `send_datagram` that `route_one_datagram` makes for a datagram. What
`route` does to the interfaces is what these calls do, one after the other.

* `routeOneDatagram_eq`: `route_one_datagram` makes that call and no other;
* `routing_order_irrelevant`: the decision does not depend on the order of the routes;
* `route_calls`: the interfaces after `route` are those after the calls for the queued datagrams,
  with the queues empty;
* `route_conserves`: each queued datagram is sent once or dropped, and when those with a matching
  route are sent.
-/

namespace Sponge

open NetworkInterface

namespace Router

open FirstMax

/-! ## One datagram -/

/-- A call of `send_datagram` on one of the interfaces. -/
structure Send where
  interfaceNum : Nat
  dgram : IPv4Datagram
  nextHop : UInt32
  deriving DecidableEq

/-- The call for a datagram that follows a route. -/
def sendBy (dgram : IPv4Datagram) (route : Route) : Send where
  interfaceNum := route.interfaceNum
  dgram := decrementTTL dgram
  nextHop := route.nextHop.getD dgram.header.dst

/-- The call that `route_one_datagram` makes for a datagram, if it makes one. -/
def decision (r : Router) (dgram : IPv4Datagram) : Option Send :=
  if dgram.header.ttl ≤ 1 then none
  else
    let matchIdx := r.matchIdx dgram.header.dst
    if matchIdx = -1 then none
    else r.routingTable[matchIdx.toNat]?.map fun entry => sendBy dgram entry.toRoute

/-- The call, if there is one. -/
def perform (r : Router) : Option Send → Except Fault Router
  | none => .ok r
  | some send => r.sendOn send.interfaceNum send.dgram send.nextHop

section
variable {r : Router} {routes : List Route} (htable : r.routingTable = routes.map Route.entry)
include htable

/-- The route is the one that the search settles on. -/
theorem decision_eq (dgram : IPv4Datagram) : r.decision dgram =
    if dgram.header.ttl ≤ 1 then none
    else (pick (Route.fitLen dgram.header.dst) routes).map (sendBy dgram) := by
  have hidx := matchIdx_eq_scan htable dgram.header.dst
  unfold decision
  split
  · rfl
  · rw [pick, hidx]
    cases hscan : scan (Route.fitLen dgram.header.dst) routes with
    | none => rfl
    | some best =>
      have hsome : ¬ ((best.1 : Nat) : Int) = -1 := by omega
      simp only [marks, hsome, ↓reduceIte, Int.toNat_natCast, htable, List.getElem?_map,
        Option.map_map, Option.bind_some]
      rfl

theorem matchIdx_get {destination : UInt32} (hsome : r.matchIdx destination ≠ -1) :
    ∃ entry, r.routingTable[(r.matchIdx destination).toNat]? = some entry := by
  obtain ⟨i, route, hi, hroute⟩ := matchIdx_route htable hsome
  rw [hi, Int.toNat_natCast, htable, List.getElem?_map, hroute]
  exact ⟨route.entry, rfl⟩

theorem routeOneDatagram_eq (dgram : IPv4Datagram) :
    r.routeOneDatagram dgram = r.perform (r.decision dgram) := by
  unfold routeOneDatagram decision
  split
  · rfl
  · dsimp only
    split
    · rfl
    · rename_i hsome
      obtain ⟨entry, hentry⟩ := matchIdx_get htable hsome
      rw [subscript_some hentry, hentry]
      rfl

/-- A datagram is sent when its time to live allows and a route fits. -/
theorem decision_isSome_iff (dgram : IPv4Datagram) : (r.decision dgram).isSome = true ↔
    2 ≤ dgram.header.ttl ∧ ∃ route ∈ routes, route.entry.fits dgram.header.dst = true := by
  have httl : dgram.header.ttl ≤ 1 ↔ ¬ 2 ≤ dgram.header.ttl := by
    rw [UInt8.le_iff_toNat_le, UInt8.le_iff_toNat_le]
    exact Nat.lt_succ_iff.symm.trans Nat.not_le.symm
  rw [decision_eq htable]
  by_cases hlow : dgram.header.ttl ≤ 1
  · rw [if_pos hlow]
    exact iff_of_false (by simp) fun h => httl.mp hlow h.1
  · rw [if_neg hlow, Option.isSome_map, and_iff_right (Decidable.not_not.mp (mt httl.mpr hlow)),
      Option.isSome_iff_ne_none, Ne, pick_eq_none_iff]
    simp [Route.fitLen]

theorem decision_dgram {dgram : IPv4Datagram} {send : Send} (h : r.decision dgram = some send) :
    2 ≤ dgram.header.ttl ∧ ∃ route ∈ routes, route.entry.fits dgram.header.dst = true ∧
      send = sendBy dgram route := by
  have hsome := (decision_isSome_iff htable dgram).mp (by rw [h]; rfl)
  refine ⟨hsome.1, ?_⟩
  rw [decision_eq htable] at h
  split at h
  · cases h
  · obtain ⟨route, hpick, rfl⟩ := Option.map_eq_some_iff.mp h
    obtain ⟨hmem, k, hk, -⟩ := pick_some hpick
    exact ⟨route, hmem, (Route.fitLen_eq_some.mp hk).1, rfl⟩

end

/-- Two routes of one length that fit the same destination have the same prefix. -/
theorem fitLen_inj {destination : UInt32} {x y : Route} {k : Nat}
    (hx : Route.fitLen destination x = some k) (hy : Route.fitLen destination y = some k) :
    x.routePrefix = y.routePrefix ∧ x.prefixLength = y.prefixLength := by
  obtain ⟨hxfit, hxlen⟩ := Route.fitLen_eq_some.mp hx
  obtain ⟨hyfit, hylen⟩ := Route.fitLen_eq_some.mp hy
  have hlen : x.prefixLength = y.prefixLength := UInt8.toNat_inj.mp (hxlen.trans hylen.symm)
  have hmask : x.mask = y.mask := by simp only [Route.mask, hlen]
  have hx' : destination &&& x.mask = x.routePrefix := beq_iff_eq.mp hxfit
  have hy' : destination &&& y.mask = y.routePrefix := beq_iff_eq.mp hyfit
  exact ⟨by rw [← hx', ← hy', hmask], hlen⟩

theorem perform_interfaces {r r' : Router} (h : r.interfaces = r'.interfaces)
    (send : Option Send) :
    (r.perform send).map Router.interfaces = (r'.perform send).map Router.interfaces := by
  cases send with
  | none => exact congrArg Except.ok h
  | some send =>
    simp only [perform, sendOn, Exec.map_bind, h]
    rfl

theorem interfaces_addRoutes (r : Router) (routes : List Route) :
    (r.addRoutes routes).interfaces = r.interfaces := by
  induction routes generalizing r with
  | nil => rfl
  | cons route routes ih => exact ih (r.addRoute route)

/-- **The order of the routes.** When no two routes have the same prefix and the same length,
the order in which they were added makes no difference: the same datagrams are dropped, and
the others go out by the same interface to the same next hop, as the same datagram. -/
theorem routing_order_irrelevant (interfaces : List AsyncNetworkInterface)
    (routes routes' : List Route) (hperm : routes.Perm routes')
    (hdistinct : (routes.map fun route => (route.routePrefix, route.prefixLength)).Nodup)
    (dgram : IPv4Datagram) :
    (addRoutes { interfaces := interfaces } routes).decision dgram =
      (addRoutes { interfaces := interfaces } routes').decision dgram ∧
    (∀ rs, (addRoutes { interfaces := interfaces } rs).routeOneDatagram dgram =
      (addRoutes { interfaces := interfaces } rs).perform
        ((addRoutes { interfaces := interfaces } rs).decision dgram)) ∧
    ((addRoutes { interfaces := interfaces } routes).routeOneDatagram dgram).map
        Router.interfaces =
      ((addRoutes { interfaces := interfaces } routes').routeOneDatagram dgram).map
        Router.interfaces := by
  have htable : ∀ rs, (addRoutes { interfaces := interfaces } rs).routingTable =
      rs.map Route.entry := fun rs => routingTable_addRoutes { interfaces := interfaces } rs
  have hsame : (addRoutes { interfaces := interfaces } routes).decision dgram =
      (addRoutes { interfaces := interfaces } routes').decision dgram := by
    rw [decision_eq (htable routes), decision_eq (htable routes')]
    congr 2
    apply pick_perm hperm
    intro x hx y hy k hxk hyk
    obtain ⟨hpre, hlen⟩ := fitLen_inj hxk hyk
    exact List.inj_on_of_nodup_map hdistinct hx hy (Prod.ext hpre hlen)
  refine ⟨hsame, fun rs => routeOneDatagram_eq (htable rs) dgram, ?_⟩
  rw [routeOneDatagram_eq (htable routes), routeOneDatagram_eq (htable routes'), hsame]
  apply perform_interfaces
  rw [interfaces_addRoutes, interfaces_addRoutes]

/-- The default route and one for `128.30.0.0/16`, in either order. -/
theorem routing_order_irrelevant_default :
    (addRoutes {} [defaultRoute, { simulatorRoute with routePrefix := 0x801E0000 }]).decision
        dgramTo =
      some { interfaceNum := 6, dgram := decrementTTL dgramTo, nextHop := 0x801E0001 } ∧
    (addRoutes {} [{ simulatorRoute with routePrefix := 0x801E0000 }, defaultRoute]).decision
        dgramTo =
      some { interfaceNum := 6, dgram := decrementTTL dgramTo, nextHop := 0x801E0001 } := by
  obtain ⟨hsame, -, -⟩ := routing_order_irrelevant []
    [defaultRoute, { simulatorRoute with routePrefix := 0x801E0000 }]
    [{ simulatorRoute with routePrefix := 0x801E0000 }, defaultRoute]
    (List.Perm.swap ..) (by decide) dgramTo
  have hfirst : (addRoutes {} [defaultRoute,
      { simulatorRoute with routePrefix := 0x801E0000 }]).decision dgramTo =
        some { interfaceNum := 6, dgram := decrementTTL dgramTo, nextHop := 0x801E0001 } := by
    decide +kernel
  exact ⟨hfirst, hsame.symm.trans hfirst⟩

/-! ## Queues -/

/-- The queue of each interface. -/
def queues (r : Router) : List (List IPv4Datagram) := r.interfaces.map (·.datagramsOut)

@[simp] theorem length_queues (r : Router) : r.queues.length = r.interfaces.length := by
  simp [queues]

theorem queues_some {r : Router} {i : Nat} {q : List IPv4Datagram} (h : r.queues[i]? = some q) :
    ∃ n, r.interfaces[i]? = some n ∧ n.datagramsOut = q := by
  simpa [queues] using h

theorem queues_set_self {r : Router} {i : Nat} (hi : i < r.interfaces.length) :
    r.queues.set i r.interfaces[i].datagramsOut = r.queues := by
  have hq : i < r.queues.length := by rwa [length_queues]
  have hsame : r.interfaces[i].datagramsOut = r.queues[i] := by simp [queues]
  rw [hsame, List.set_getElem_self]

theorem queues_pop (r : Router) (i : Nat) : (r.pop i).queues = r.queues.modify i List.tail := by
  apply List.ext_getElem?
  intro j
  simp only [queues, pop, List.getElem?_map, List.getElem?_modify]
  cases r.interfaces[j]? with
  | none => rfl
  | some n => by_cases h : i = j <;> simp [h]

theorem sendable_decrementTTL {dgram : IPv4Datagram} (h : dgram.Sendable) :
    (decrementTTL dgram).Sendable :=
  ⟨h.size, h.ver, h.hlen⟩

/-- The interfaces, without their queues. -/
def ports (r : Router) : List NetworkInterface := r.interfaces.map (·.toNetworkInterface)

/-- The call on the interface that it names. -/
def Send.call (ports : List NetworkInterface) (send : Send) :
    Except Fault (List NetworkInterface) := do
  let interface ← subscript ports send.interfaceNum
  let sent ← interface.sendDatagram send.dgram send.nextHop
  return ports.set send.interfaceNum sent

/-- The datagrams that wait to be forwarded, interface by interface and in the order of each
queue. -/
def queued (r : Router) : List IPv4Datagram := r.interfaces.flatMap (·.datagramsOut)

/-- The calls of `send_datagram` for these. -/
def calls (r : Router) : List Send := r.queued.filterMap r.decision

theorem queued_eq (r : Router) : r.queued = r.queues.flatten := by
  rw [queued, queues, List.flatMap_def]

/-- The routes name interfaces that exist, and the datagrams queued can be written out. -/
structure Able (r : Router) (routes : List Route) : Prop where
  table : r.routingTable = routes.map Route.entry
  existing : ∀ route ∈ routes, route.interfaceNum < r.queues.length
  queued : ∀ q ∈ r.queues, ∀ d ∈ q, d.Sendable

/-- The calls `sends` make of the interfaces of `r` those of `t`. -/
structure Performed (r t : Router) (sends : List Send) : Prop where
  table : t.routingTable = r.routingTable
  ports : sends.foldlM Send.call r.ports = .ok t.ports

section
variable {r t u : Router} {sends more : List Send} {routes : List Route}

theorem performed_nil (r : Router) : Performed r r [] := ⟨rfl, rfl⟩

theorem Performed.append (h : Performed r t sends) (h' : Performed t u more) :
    Performed r u (sends ++ more) where
  table := h'.table.trans h.table
  ports := by rw [List.foldlM_append, h.ports, Exec.ok_bind, h'.ports]

theorem Performed.decision_eq (h : Performed r t sends) : t.decision = r.decision := by
  funext dgram
  have hidx : t.matchIdx = r.matchIdx := by
    funext destination
    rw [matchIdx, matchIdx, h.table]
  simp only [decision, hidx, h.table]

/-- Fewer datagrams in the queues are no harm. -/
theorem Performed.able (h : Performed r t sends) (hr : r.Able routes)
    (hlen : t.queues.length = r.queues.length)
    (hqueued : ∀ q ∈ t.queues, ∀ d ∈ q, d.Sendable) : t.Able routes where
  table := h.table.trans hr.table
  existing := by
    rw [hlen]
    exact hr.existing
  queued := hqueued

/-- Sending a datagram that can be written out returns, and changes no queue. -/
theorem sendOn_performed {send : Send} (hi : send.interfaceNum < r.interfaces.length)
    (hd : send.dgram.Sendable) :
    ∃ t, r.sendOn send.interfaceNum send.dgram send.nextHop = .ok t ∧ t.queues = r.queues ∧
      Performed r t [send] := by
  have hget := List.getElem?_eq_getElem hi
  obtain ⟨m, hm⟩ := r.interfaces[send.interfaceNum].toNetworkInterface.sendDatagram_returns
    send.nextHop (IPv4Datagram.serialize_ok_iff.mpr hd)
  refine ⟨{ r with
    interfaces := r.interfaces.set send.interfaceNum
      { r.interfaces[send.interfaceNum] with toNetworkInterface := m } }, ?_, ?_, rfl, ?_⟩
  · simp only [sendOn, subscript_some hget, Exec.ok_bind, hm]
    rfl
  · show (List.map _ (r.interfaces.set _ _)) = r.queues
    rw [List.map_set]
    exact queues_set_self hi
  · have hport : r.ports[send.interfaceNum]? =
        some r.interfaces[send.interfaceNum].toNetworkInterface := by
      rw [ports, List.getElem?_map, hget]
      rfl
    rw [List.foldlM_cons, Send.call, subscript_some hport, Exec.ok_bind, hm, Exec.ok_bind]
    simp only [List.foldlM_nil, Exec.pure_ok, Exec.ok_bind, ports, List.map_set]

/-- One datagram gives the call of its decision. -/
theorem routeOneDatagram_performed (h : r.Able routes) {dgram : IPv4Datagram}
    (hd : dgram.Sendable) :
    ∃ t, r.routeOneDatagram dgram = .ok t ∧ t.queues = r.queues ∧
      Performed r t (r.decision dgram).toList := by
  rw [routeOneDatagram_eq h.table]
  cases hdec : r.decision dgram with
  | none => exact ⟨r, rfl, rfl, performed_nil r⟩
  | some send =>
    obtain ⟨-, route, hroute, -, rfl⟩ := decision_dgram h.table hdec
    have hexists := h.existing route hroute
    rw [length_queues] at hexists
    exact sendOn_performed hexists (sendable_decrementTTL hd)

theorem ports_pop (r : Router) (i : Nat) : (r.pop i).ports = r.ports := by
  apply List.ext_getElem?
  intro j
  simp only [ports, pop, List.getElem?_map, List.getElem?_modify]
  cases r.interfaces[j]? with
  | none => rfl
  | some n => by_cases h : i = j <;> simp [h]

/-- One round handles the front of the queue. -/
theorem drainRound_performed (h : r.Able routes) {i : Nat} {front : IPv4Datagram}
    {rest : List IPv4Datagram} (hq : r.queues[i]? = some (front :: rest)) :
    ∃ t, drainRound i r = .ok (.yield t) ∧ t.queues = r.queues.set i rest ∧
      Performed r t (r.decision front).toList := by
  obtain ⟨n, hn, hout⟩ := queues_some hq
  have hd := h.queued _ (List.mem_of_getElem? hq) front List.mem_cons_self
  obtain ⟨t, ht, hqueues, hperformed⟩ := routeOneDatagram_performed h hd
  refine ⟨t.pop i, ?_, ?_, hperformed.table, ?_⟩
  · simp only [drainRound, subscript_some hn, Exec.ok_bind, hout, ht, Exec.pure_ok]
  · simp only [queues_pop, hqueues, List.modify_eq_set, hq]
    rfl
  · rw [ports_pop]
    exact hperformed.ports

theorem drainRound_done {i : Nat} (hq : r.queues[i]? = some []) :
    drainRound i r = .ok (.done r) := by
  obtain ⟨n, hn, hout⟩ := queues_some hq
  simp only [drainRound, subscript_some hn, Exec.ok_bind, hout, Exec.pure_ok]

/-- The inner loop handles one queue from its front to its end. -/
theorem drainLoop_performed {i : Nat} {q : List IPv4Datagram} (h : r.Able routes)
    (hq : r.queues[i]? = some q) :
    ∃ t, Exec.loop .spins (drainRound i) (q.length + 1) r = .ok t ∧
      t.queues = r.queues.set i [] ∧ Performed r t (q.filterMap r.decision) := by
  induction q generalizing r with
  | nil =>
    refine ⟨r, by simp only [Exec.loop, drainRound_done hq], ?_, performed_nil r⟩
    obtain ⟨hi, hget⟩ := List.getElem?_eq_some_iff.mp hq
    have hself := List.set_getElem_self hi
    rw [hget] at hself
    exact hself.symm
  | cons front rest ih =>
    obtain ⟨t, ht, hqueues, hperformed⟩ := drainRound_performed h hq
    have hi : i < r.queues.length := (List.getElem?_eq_some_iff.mp hq).1
    have hrest : t.queues[i]? = some rest := by
      rw [hqueues, List.getElem?_set_self hi]
    have hable : t.Able routes := by
      apply hperformed.able h
      · rw [hqueues, List.length_set]
      · intro q hmem d hd
        rw [hqueues] at hmem
        rcases List.mem_or_eq_of_mem_set hmem with hmem | rfl
        · exact h.queued q hmem d hd
        · exact h.queued _ (List.mem_of_getElem? hq) d (List.mem_cons_of_mem _ hd)
    obtain ⟨u, hu, hempty, hmore⟩ := ih hable hrest
    refine ⟨u, by simp only [Exec.loop, ht]; exact hu, ?_, ?_⟩
    · rw [hempty, hqueues, List.set_set]
    · rw [hperformed.decision_eq] at hmore
      have hall := hperformed.append hmore
      cases hd : r.decision front with
      | none =>
        rw [hd] at hall
        rw [List.filterMap_cons_none hd]
        exact hall
      | some send =>
        rw [hd] at hall
        rw [List.filterMap_cons_some hd]
        exact hall

theorem drain_performed {i : Nat} {q : List IPv4Datagram} (h : r.Able routes)
    (hq : r.queues[i]? = some q) :
    ∃ t, r.drain i = .ok t ∧ t.queues = r.queues.set i [] ∧
      Performed r t (q.filterMap r.decision) := by
  obtain ⟨n, hn, rfl⟩ := queues_some hq
  obtain ⟨t, ht, hqueues, hperformed⟩ := drainLoop_performed h hq
  exact ⟨t, by rw [drain, subscript_some hn]; exact ht, hqueues, hperformed⟩

/-- The outer loop has handled the first `j` queues. -/
structure QueuesDrained (r : Router) (j : Nat) (t : Router) : Prop where
  queues : t.queues = List.replicate j [] ++ r.queues.drop j
  performed : Performed r t ((r.queues.take j).flatten.filterMap r.decision)

theorem QueuesDrained.able {j : Nat} (h : QueuesDrained r j t) (hr : r.Able routes)
    (hj : j ≤ r.queues.length) : t.Able routes := by
  apply h.performed.able hr
  · rw [h.queues, List.length_append, List.length_replicate, List.length_drop]
    omega
  · intro q hq d hd
    rw [h.queues] at hq
    rcases List.mem_append.mp hq with hq | hq
    · rw [(List.mem_replicate.mp hq).2] at hd
      cases hd
    · exact hr.queued q (List.mem_of_mem_drop hq) d hd

theorem queuesDrained_step (hr : r.Able routes) {j : Nat} (hj : j < r.queues.length)
    (h : QueuesDrained r j t) : ∃ u, t.drain j = .ok u ∧ QueuesDrained r (j + 1) u := by
  have hdrop := List.drop_eq_getElem_cons hj
  have hq : t.queues[j]? = some r.queues[j] := by
    rw [h.queues, hdrop, List.getElem?_append_right (by simp)]
    simp
  obtain ⟨u, hu, hempty, hmore⟩ := drain_performed (h.able hr (Nat.le_of_lt hj)) hq
  refine ⟨u, hu, ?_, ?_⟩
  · rw [hempty, h.queues, hdrop, List.set_append_right _ _ (by simp), List.length_replicate,
      Nat.sub_self, List.set_cons_zero, List.replicate_succ', List.append_assoc,
      List.singleton_append]
  · rw [h.performed.decision_eq] at hmore
    rw [List.take_succ_eq_append_getElem hj, List.flatten_append, List.filterMap_append]
    simpa using h.performed.append hmore

/-- **What `route` does.** When the datagrams can be written out it returns with every queue
empty, and has made the calls for them, queue after queue, and no others. -/
theorem route_calls (h : r.Able routes) :
    ∃ t, r.route = .ok t ∧ t.queues = List.replicate r.queues.length [] ∧
      Performed r t r.calls := by
  obtain ⟨t, ht, hqueues, hperformed⟩ := Exec.range_total (n := r.interfaces.length) (s := r)
    (f := drain) (QueuesDrained r) ⟨rfl, performed_nil r⟩ fun j t hj hdrained =>
      queuesDrained_step h (by rwa [length_queues]) hdrained
  rw [← length_queues] at hqueues hperformed
  rw [List.drop_length, List.append_nil] at hqueues
  rw [List.take_length, ← queued_eq] at hperformed
  exact ⟨t, ht, hqueues, hperformed⟩

end

/-- Every call sends a datagram that was queued, so one that can be written out. -/
theorem calls_sendable {r : Router} {routes : List Route} (h : r.Able routes) :
    ∀ send ∈ r.calls, send.dgram.Sendable := by
  intro send hsend
  obtain ⟨d, hd, hdec⟩ := List.mem_filterMap.mp hsend
  rw [queued_eq] at hd
  obtain ⟨q, hq, hmem⟩ := List.mem_flatten.mp hd
  obtain ⟨-, route, -, -, rfl⟩ := decision_dgram h.table hdec
  exact sendable_decrementTTL (h.queued q hq d hmem)

end Router

/-! ## Conservation -/

namespace Routing

open Router

/-- A well-formed datagram. -/
structure Formed (d : IPv4Datagram) : Prop where
  ver : d.header.ver = 4
  least : 5 ≤ d.header.hlen
  most : d.header.hlen ≤ 15
  len : d.header.len.toNat = 4 * d.header.hlen.toNat + d.payload.size

theorem Formed.sendable {d : IPv4Datagram} (h : Formed d) : d.Sendable := by
  refine ⟨?_, h.ver, h.least⟩
  have hlen := h.len
  have hlt := d.header.len.toNat_lt
  rw [IPv4Header.toNat_payloadLength]
  omega

/-- The time to live goes down by one, and not below one. -/
theorem ttl_decrementTTL {d : IPv4Datagram} (h : 2 ≤ d.header.ttl) :
    (decrementTTL d).header.ttl.toNat + 1 = d.header.ttl.toNat ∧
      1 ≤ (decrementTTL d).header.ttl.toNat := by
  have hle : 2 ≤ d.header.ttl.toNat := UInt8.le_iff_toNat_le.mp h
  have hone : (1 : UInt8) ≤ d.header.ttl := UInt8.le_iff_toNat_le.mpr (Nat.le_of_lt hle)
  have hsub : (decrementTTL d).header.ttl.toNat = d.header.ttl.toNat - 1 :=
    UInt8.toNat_sub_of_le _ _ hone
  omega

/-- A datagram that is to be sent on: its time to live allows it, and a route matches. -/
def Due (routes : List Route) (d : IPv4Datagram) : Prop :=
  2 ≤ d.header.ttl ∧ ∃ route ∈ routes, route.Matches d.header.dst

instance (routes : List Route) (d : IPv4Datagram) : Decidable (Due routes d) :=
  inferInstanceAs (Decidable (_ ∧ _))

/-- The calls are, in order, one for each queued datagram that is due. -/
def Conserves (r : Router) (routes : List Route) : Prop :=
  r.calls.map (·.dgram) = (r.queued.filter (Due routes ·)).map decrementTTL

/-- Each queued datagram that is due has a matching route without bits below its length. -/
def CleanMatch (r : Router) (routes : List Route) : Prop :=
  ∀ d ∈ r.queued, Due routes d → ∃ route ∈ routes, route.Matches d.header.dst ∧ route.Clean

/-- A datagram that the code takes a route for. -/
def Routed (routes : List Route) (d : IPv4Datagram) : Prop :=
  2 ≤ d.header.ttl ∧ ∃ route ∈ routes, route.Matches d.header.dst ∧ route.Clean

instance (routes : List Route) (d : IPv4Datagram) : Decidable (Routed routes d) :=
  inferInstanceAs (Decidable (_ ∧ _))

section
variable {r : Router} {routes : List Route} (htable : r.routingTable = routes.map Route.entry)
  (hlen : ∀ route ∈ routes, route.prefixLength ≤ 32)
include htable hlen

theorem decision_isSome_iff_taken (d : IPv4Datagram) :
    (r.decision d).isSome = true ↔ Routed routes d := by
  rw [decision_isSome_iff htable]
  apply and_congr_right
  intro _
  constructor
  · rintro ⟨route, hroute, hfits⟩
    exact ⟨route, hroute, (Route.masked_eq_iff (hlen route hroute) _).mp hfits⟩
  · rintro ⟨route, hroute, hclean⟩
    exact ⟨route, hroute, (Route.masked_eq_iff (hlen route hroute) _).mpr hclean⟩

/-- The datagrams that are sent are those that the code takes a route for. -/
theorem dgrams_filterMap (ds : List IPv4Datagram) :
    (ds.filterMap r.decision).map (·.dgram) =
      (ds.filter (Routed routes ·)).map decrementTTL := by
  induction ds with
  | nil => rfl
  | cons d ds ih =>
    have hiff := decision_isSome_iff_taken htable hlen d
    cases hdec : r.decision d with
    | none =>
      rw [hdec] at hiff
      have hnot : ¬ Routed routes d := fun h => absurd (hiff.mpr h) (by simp)
      rw [List.filterMap_cons_none hdec, ih, List.filter_cons_of_neg (by simpa using hnot)]
    | some send =>
      rw [hdec] at hiff
      have hrouted : Routed routes d := hiff.mp rfl
      obtain ⟨-, route, -, -, rfl⟩ := decision_dgram htable hdec
      rw [List.filterMap_cons_some hdec, List.map_cons, ih,
        List.filter_cons_of_pos (by simpa using hrouted), List.map_cons]
      rfl

/-- What is due is sent exactly when there is always such a route. -/
theorem conserves_iff : Conserves r routes ↔ CleanMatch r routes := by
  have hdue : ∀ d, Routed routes d → Due routes d := by
    rintro d ⟨httl, route, hroute, hm, -⟩
    exact ⟨httl, route, hroute, hm⟩
  unfold Conserves
  rw [calls, dgrams_filterMap htable hlen]
  constructor
  · -- fewer datagrams are taken than are due, unless all of these are
    intro heq d hd hdued
    have hfewer : r.queued.filter (Routed routes ·) =
        (r.queued.filter (Due routes ·)).filter (Routed routes ·) := by
      rw [List.filter_filter]
      apply List.filter_congr
      intro x _
      simpa using hdue x
    have hsame : r.queued.filter (Routed routes ·) = r.queued.filter (Due routes ·) := by
      rw [hfewer]
      apply List.filter_sublist.eq_of_length
      rw [← hfewer]
      simpa using congrArg List.length heq
    have hmem : d ∈ r.queued.filter (Routed routes ·) := by
      rw [hsame]
      exact List.mem_filter.mpr ⟨hd, by simpa using hdued⟩
    obtain ⟨-, hroute⟩ := of_decide_eq_true (List.mem_filter.mp hmem).2
    exact hroute
  · intro hclean
    congr 1
    apply List.filter_congr
    intro d hd
    exact decide_eq_decide.mpr ⟨hdue d, fun h => ⟨h.1, hclean d hd h⟩⟩

end

theorem able_of_formed {r : Router} {routes : List Route}
    (htable : r.routingTable = routes.map Route.entry)
    (hexisting : ∀ route ∈ routes, route.interfaceNum < r.interfaces.length)
    (hformed : ∀ n ∈ r.interfaces, ∀ d ∈ n.datagramsOut, Formed d) : r.Able routes := by
  refine ⟨htable, by rwa [length_queues], ?_⟩
  intro q hq d hd
  obtain ⟨n, hn, rfl⟩ := List.mem_map.mp hq
  exact (hformed n hn d hd).sendable

theorem datagramsOut_of_queues {t : Router} {k : Nat} (h : t.queues = List.replicate k []) :
    ∀ n ∈ t.interfaces, n.datagramsOut = [] := by
  intro n hn
  have hmem : n.datagramsOut ∈ t.queues := List.mem_map_of_mem hn
  rw [h] at hmem
  exact (List.mem_replicate.mp hmem).2

/-- **Datagrams are conserved.** When the routes name interfaces that exist and the datagrams
queued are well formed, `route` returns with every queue empty. What has become of the interfaces
is what `calls` makes of them, one call of `send_datagram` after the other: each sends a queued
datagram as it is but for a time to live lower by one, by a route that matches it. These are one
call for each datagram with a time to live of at least two and a matching route, interface by
interface and in the order of each queue, exactly when each of these has a matching route without
bits below its length. -/
theorem route_conserves (r : Router) (routes : List Route)
    (htable : r.routingTable = routes.map Route.entry)
    (hlen : ∀ route ∈ routes, route.prefixLength ≤ 32)
    (hexisting : ∀ route ∈ routes, route.interfaceNum < r.interfaces.length)
    (hformed : ∀ n ∈ r.interfaces, ∀ d ∈ n.datagramsOut, Formed d) :
    (∃ t, r.route = .ok t ∧ (∀ n ∈ t.interfaces, n.datagramsOut = []) ∧
      r.calls.foldlM Send.call (r.interfaces.map (·.toNetworkInterface)) =
        .ok (t.interfaces.map (·.toNetworkInterface))) ∧
    (∀ send ∈ r.calls, ∃ d ∈ r.queued,
      send.dgram = { d with header := { d.header with ttl := d.header.ttl - 1 } } ∧
      send.dgram.header.ttl.toNat + 1 = d.header.ttl.toNat ∧
      1 ≤ send.dgram.header.ttl.toNat ∧
      ∃ route ∈ routes, route.Matches d.header.dst ∧ send.interfaceNum = route.interfaceNum ∧
        send.nextHop = route.nextHop.getD d.header.dst) ∧
    (Conserves r routes ↔ CleanMatch r routes) := by
  have hable := able_of_formed htable hexisting hformed
  refine ⟨?_, ?_, conserves_iff htable hlen⟩
  · obtain ⟨t, ht, hqueues, hperformed⟩ := route_calls hable
    exact ⟨t, ht, datagramsOut_of_queues hqueues, hperformed.ports⟩
  · intro send hsend
    obtain ⟨d, hd, hdec⟩ := List.mem_filterMap.mp hsend
    obtain ⟨httl, route, hroute, hfits, rfl⟩ := decision_dgram htable hdec
    obtain ⟨hlower, hpos⟩ := ttl_decrementTTL httl
    have hmatches := ((Route.masked_eq_iff (hlen route hroute) _).mp hfits).1
    exact ⟨d, hd, rfl, hlower, hpos, route, hroute, hmatches, rfl, rfl⟩

/-- An empty datagram with the identification number `id`. -/
def queuedDatagram (id : UInt16) (ttl : UInt8) : IPv4Datagram :=
  { header := { len := 20, id := id, ttl := ttl, dst := 0x801E0102 } }

theorem formed_queuedDatagram (id : UInt16) (ttl : UInt8) : Formed (queuedDatagram id ttl) :=
  ⟨rfl, (by decide : (5 : UInt8) ≤ 5), (by decide : (5 : UInt8) ≤ 15), rfl⟩

/-- A default route, and one for `128.30.0.0/16`. -/
def busyRoutes : List Route :=
  [defaultRoute, { simulatorRoute with routePrefix := 0x801E0000, interfaceNum := 1 }]

/-- Two interfaces with datagrams queued. -/
def busy : Router where
  interfaces :=
    [{ toNetworkInterface := .new (Vector.replicate 6 1) 1
       datagramsOut := [queuedDatagram 1 64, queuedDatagram 2 1] },
     { toNetworkInterface := .new (Vector.replicate 6 2) 2
       datagramsOut := [queuedDatagram 3 0, queuedDatagram 4 2] }]
  routingTable := busyRoutes.map Route.entry

theorem route_conserves_busy :
    ∃ t, busy.route = .ok t ∧ (∀ n ∈ t.interfaces, n.datagramsOut = []) ∧
      [Send.mk 1 (queuedDatagram 1 63) 0x801E0001, ⟨1, queuedDatagram 4 1, 0x801E0001⟩].foldlM
        Send.call busy.ports = .ok t.ports ∧ Conserves busy busyRoutes := by
  have hcalls : busy.calls = [⟨1, queuedDatagram 1 63, 0x801E0001⟩,
      ⟨1, queuedDatagram 4 1, 0x801E0001⟩] := by decide +kernel
  obtain ⟨⟨t, ht, hempty, hports⟩, -, hiff⟩ := route_conserves busy busyRoutes rfl (by decide)
    (by decide) (by simp [busy, formed_queuedDatagram])
  rw [hcalls] at hports
  refine ⟨t, ht, hempty, hports, hiff.mpr ?_⟩
  unfold CleanMatch
  decide +kernel

/-- The seven interfaces of the network simulator's router, and its route `128.30.76.255/16`. -/
def simulator : Router where
  interfaces := { toNetworkInterface := .new (Vector.replicate 6 0) 0
                  datagramsOut := [queuedDatagram 1 64] } ::
    List.replicate 6 { toNetworkInterface := .new (Vector.replicate 6 1) 1 }
  routingTable := [simulatorRoute.entry]

/-- The route matches, but the datagram is lost: no interface is changed. -/
theorem simulator_datagram_lost :
    Due [simulatorRoute] (queuedDatagram 1 64) ∧ ¬ Conserves simulator [simulatorRoute] ∧
      ∃ t, simulator.route = .ok t ∧ (∀ n ∈ t.interfaces, n.datagramsOut = []) ∧
        t.ports = simulator.ports := by
  have hcalls : simulator.calls = [] := by decide +kernel
  refine ⟨by decide, ?_, ?_⟩
  · intro h
    have hlength := congrArg List.length h
    rw [hcalls] at hlength
    revert hlength
    decide +kernel
  · have hable : simulator.Able [simulatorRoute] :=
      able_of_formed rfl (by decide) (by simp [simulator, formed_queuedDatagram])
    obtain ⟨t, ht, hqueues, hperformed⟩ := route_calls hable
    have hports := hperformed.ports
    rw [hcalls] at hports
    exact ⟨t, ht, datagramsOut_of_queues hqueues, (Except.ok.inj hports).symm⟩

end Routing

end Sponge
