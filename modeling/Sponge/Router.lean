import Sponge.Lib.FirstMax
import Sponge.NetworkInterface

/-!
# The router

`AsyncNetworkInterface`, `RouteEntry` and `Router` of `router.hh` and `router.cc`.

A route matches a destination when the top bits of its prefix are those of the destination.
The code compares the masked destination with the whole prefix instead, so that a route
whose prefix has a bit set below its length is never taken.

* `masked_eq_iff`: what the code's comparison means;
* `matchIdx_eq_iff`: the route that the loop settles on;
* `routes_longest_iff`: a datagram follows the longest match exactly when that route has no
  such bit.
-/

namespace Sponge

/-- A `NetworkInterface` that keeps the datagrams it receives. -/
structure AsyncNetworkInterface extends NetworkInterface where
  datagramsOut : List IPv4Datagram := []

namespace AsyncNetworkInterface

def recvFrame (n : AsyncNetworkInterface) (frame : EthernetFrame) :
    Except Fault AsyncNetworkInterface := do
  let (optionalDgram, interface) ← n.toNetworkInterface.recvFrame frame
  return { toNetworkInterface := interface, datagramsOut := n.datagramsOut ++ optionalDgram.toList }

end AsyncNetworkInterface

/-- The arguments of `add_route`. -/
structure Route where
  routePrefix : UInt32
  prefixLength : UInt8
  nextHop : Option UInt32
  interfaceNum : Nat

structure RouteEntry extends Route where
  prefixMask : UInt32

structure Router where
  interfaces : List AsyncNetworkInterface := []
  routingTable : List RouteEntry := []

/-- `numeric_limits<int>::min() >> (prefix_length - 1)`, which shifts the sign in. -/
def Route.mask (route : Route) : UInt32 :=
  if route.prefixLength == 0 then 0
  else .ofBitVec ((BitVec.intMin 32).sshiftRight (route.prefixLength.toNat - 1))

def Route.entry (route : Route) : RouteEntry := { route with prefixMask := route.mask }

/-- The test of the loop over the routing table, without the comparison of lengths. -/
def RouteEntry.fits (entry : RouteEntry) (destination : UInt32) : Bool :=
  (destination &&& entry.prefixMask) == entry.routePrefix

namespace Router

def addInterface (r : Router) (interface : AsyncNetworkInterface) : Nat × Router :=
  (r.interfaces.length, { r with interfaces := r.interfaces ++ [interface] })

def addRoute (r : Router) (route : Route) : Router :=
  { r with routingTable := r.routingTable ++ [route.entry] }

/-- One round of the search, from `match_idx` and `max_matched_len`. -/
def matchRound (destination : UInt32) (best : Int × Int) (entry : RouteEntry × Nat) : Int × Int :=
  if entry.1.fits destination && best.2 < entry.1.prefixLength.toNat then
    (entry.2, entry.1.prefixLength.toNat)
  else best

/-- `match_idx` after the loop. -/
def matchIdx (r : Router) (destination : UInt32) : Int :=
  (r.routingTable.zipIdx.foldl (matchRound destination) (-1, -1)).1

/-- `_interfaces[interface_num].send_datagram(dgram, next_hop)`. -/
def sendOn (r : Router) (interfaceNum : Nat) (dgram : IPv4Datagram) (nextHop : UInt32) :
    Except Fault Router := do
  let interface ← subscript r.interfaces interfaceNum
  let sent ← interface.toNetworkInterface.sendDatagram dgram nextHop
  return { r with
    interfaces := r.interfaces.set interfaceNum { interface with toNetworkInterface := sent } }

def decrementTTL (dgram : IPv4Datagram) : IPv4Datagram :=
  { dgram with header := { dgram.header with ttl := dgram.header.ttl - 1 } }

def routeOneDatagram (r : Router) (dgram : IPv4Datagram) : Except Fault Router :=
  if dgram.header.ttl ≤ 1 then .ok r
  else
    let destination := dgram.header.dst
    let matchIdx := r.matchIdx destination
    if matchIdx = -1 then .ok r
    else do
      let entry ← subscript r.routingTable matchIdx.toNat
      r.sendOn entry.interfaceNum (decrementTTL dgram) (entry.nextHop.getD destination)

/-- `datagrams_out().pop()` on one interface. -/
def pop (r : Router) (i : Nat) : Router :=
  { r with interfaces := r.interfaces.modify i fun interface =>
      { interface with datagramsOut := interface.datagramsOut.tail } }

/-- One round of the inner loop of `route`. -/
def drainRound (i : Nat) (r : Router) : Except Fault (ForInStep Router) := do
  let interface ← subscript r.interfaces i
  match interface.datagramsOut with
  | [] => return .done r
  | front :: _ => return .yield ((← r.routeOneDatagram front).pop i)

/-- The inner loop: sending adds nothing to a queue, so its length bounds the rounds. -/
def drain (r : Router) (i : Nat) : Except Fault Router := do
  let interface ← subscript r.interfaces i
  Exec.loop .spins (drainRound i) (interface.datagramsOut.length + 1) r

def route (r : Router) : Except Fault Router :=
  (List.range r.interfaces.length).foldlM drain r

end Router

/-! ## Prefixes -/

namespace Route

/-- The number of bits below the prefix. -/
def hostBits (route : Route) : Nat := 32 - route.prefixLength.toNat

/-- The top `prefix_length` bits of the prefix are those of the destination. -/
def Matches (destination : UInt32) (route : Route) : Prop :=
  route.routePrefix.toNat / 2 ^ route.hostBits = destination.toNat / 2 ^ route.hostBits

instance (destination : UInt32) (route : Route) : Decidable (route.Matches destination) :=
  inferInstanceAs (Decidable (_ = _))

/-- No bit of the prefix is set below its length. -/
def Clean (route : Route) : Prop := route.routePrefix.toNat % 2 ^ route.hostBits = 0

instance (route : Route) : Decidable route.Clean := inferInstanceAs (Decidable (_ = _))

theorem getLsbD_mask {route : Route} (hlen : route.prefixLength ≤ 32) {i : Nat} (hi : i < 32) :
    route.mask.toBitVec.getLsbD i = decide (route.hostBits ≤ i) := by
  have hlen := UInt8.le_iff_toNat_le.mp hlen
  unfold mask hostBits
  split
  · rename_i h
    rw [beq_iff_eq.mp h]
    have : ¬ 32 ≤ i := by omega
    simp [this]
  · rename_i h
    have hpos : route.prefixLength.toNat ≠ 0 := by
      intro h0
      exact h (beq_iff_eq.mpr (UInt8.toNat_inj.mp h0))
    rw [UInt32.toBitVec_ofBitVec, BitVec.getLsbD_sshiftRight]
    have hlen : route.prefixLength.toNat ≤ 32 := hlen
    simp only [BitVec.getLsbD_intMin, BitVec.msb_intMin]
    have h32 : ¬ 32 ≤ i := by omega
    simp only [h32, decide_false, Bool.not_false, Bool.true_and]
    split
    · rw [decide_eq_decide]
      omega
    · simp
      omega

/-- Masking clears the bits below the prefix. -/
theorem toNat_and_mask {route : Route} (hlen : route.prefixLength ≤ 32) (destination : UInt32) :
    (destination &&& route.mask).toNat =
      destination.toNat / 2 ^ route.hostBits * 2 ^ route.hostBits := by
  rw [← Nat.shiftRight_eq_div_pow, ← Nat.shiftLeft_eq]
  apply Nat.eq_of_testBit_eq
  intro i
  rw [UInt32.toNat_and, Nat.testBit_and, Nat.testBit_shiftLeft, Nat.testBit_shiftRight]
  by_cases hi : i < 32
  · have hm := getLsbD_mask hlen hi
    rw [BitVec.getLsbD] at hm
    rw [show route.mask.toNat.testBit i = decide (route.hostBits ≤ i) from hm]
    by_cases hle : route.hostBits ≤ i
    · simp [hle, Nat.add_sub_cancel' hle]
    · simp [hle]
  · have hzero : destination.toNat.testBit i = false := by
      apply Nat.testBit_lt_two_pow
      exact Nat.lt_of_lt_of_le destination.toNat_lt (Nat.pow_le_pow_right (by decide) (by omega))
    have hle : route.hostBits ≤ i := by
      unfold hostBits
      omega
    simp [hzero, hle, Nat.add_sub_cancel' hle]

/-- The code's comparison asks for a match, and for a prefix without further bits. -/
theorem masked_eq_iff {route : Route} (hlen : route.prefixLength ≤ 32) (destination : UInt32) :
    route.entry.fits destination = true ↔ route.Matches destination ∧ route.Clean := by
  have hpos : 0 < 2 ^ route.hostBits := Nat.two_pow_pos _
  have hdiv := Nat.div_add_mod route.routePrefix.toNat (2 ^ route.hostBits)
  rw [RouteEntry.fits, beq_iff_eq, ← UInt32.toNat_inj]
  show (destination &&& route.mask).toNat = route.routePrefix.toNat ↔ _
  rw [toNat_and_mask hlen, Matches, Clean]
  constructor
  · intro h
    rw [← h]
    exact ⟨Nat.mul_div_cancel _ hpos, Nat.mul_mod_left _ _⟩
  · rintro ⟨hm, hc⟩
    rw [hc, Nat.add_zero, Nat.mul_comm] at hdiv
    rw [← hm, hdiv]

/-- The length of a route that matches. -/
def matchLen (destination : UInt32) (route : Route) : Option Nat :=
  if route.Matches destination then some route.prefixLength.toNat else none

/-- The length of a route that the code takes for a match. -/
def fitLen (destination : UInt32) (route : Route) : Option Nat :=
  if route.entry.fits destination then some route.prefixLength.toNat else none

theorem matchLen_eq_some {destination : UInt32} {route : Route} {k : Nat} :
    matchLen destination route = some k ↔
      route.Matches destination ∧ route.prefixLength.toNat = k := by
  rw [matchLen, Option.ite_none_right_eq_some, Option.some.injEq]

theorem fitLen_eq_some {destination : UInt32} {route : Route} {k : Nat} :
    fitLen destination route = some k ↔
      route.entry.fits destination = true ∧ route.prefixLength.toNat = k := by
  rw [fitLen, Option.ite_none_right_eq_some, Option.some.injEq]

end Route

/-! ## The search -/

namespace Router

open FirstMax

/-- The values of `match_idx` and `max_matched_len` for a best route. -/
def marks : Option (Nat × Nat) → Int × Int
  | none => (-1, -1)
  | some (i, k) => (i, k)

theorem matchRound_marks (destination : UInt32) (best : Option (Nat × Nat)) (route : Route)
    (n : Nat) : matchRound destination (marks best) (route.entry, n) =
      marks (better (Route.fitLen destination) best route n) := by
  unfold matchRound better Route.fitLen
  cases hfit : route.entry.fits destination with
  | false => cases best <;> rfl
  | true =>
    cases best with
    | none =>
      have : (-1 : Int) < route.prefixLength.toNat := by omega
      simp [marks, Route.entry, this]
    | some p =>
      by_cases hlt : p.2 < route.prefixLength.toNat
      · simp [marks, Route.entry, hlt]
      · simp [marks, Route.entry, hlt]

theorem matchRounds_marks (destination : UInt32) (routes : List (Route × Nat))
    (best : Option (Nat × Nat)) :
    routes.foldl (fun best x => matchRound destination best (x.1.entry, x.2)) (marks best) =
      marks (routes.foldl (fun best x => better (Route.fitLen destination) best x.1 x.2) best) := by
  induction routes generalizing best with
  | nil => rfl
  | cons x routes ih => rw [List.foldl_cons, matchRound_marks, ih, List.foldl_cons]

theorem matchIdx_eq_scan {r : Router} {routes : List Route}
    (h : r.routingTable = routes.map Route.entry) (destination : UInt32) :
    r.matchIdx destination = (marks (scan (Route.fitLen destination) routes)).1 := by
  rw [matchIdx, h, List.zipIdx_map, List.foldl_map]
  exact congrArg Prod.fst (matchRounds_marks destination routes.zipIdx none)

section
variable {r : Router} {routes : List Route} (h : r.routingTable = routes.map Route.entry)
include h

/-- What the loop leaves in `match_idx`. -/
theorem matchIdx_cases (destination : UInt32) :
    (r.matchIdx destination = -1 ∧ ∀ route ∈ routes, Route.fitLen destination route = none) ∨
      ∃ i k : Nat, r.matchIdx destination = i ∧
        IsFirstMax (Route.fitLen destination) routes i k := by
  have hfound := scan_spec (Route.fitLen destination) routes
  rw [matchIdx_eq_scan h]
  cases hscan : scan (Route.fitLen destination) routes with
  | none =>
    rw [hscan] at hfound
    exact .inl ⟨rfl, hfound⟩
  | some p =>
    rw [hscan] at hfound
    exact .inr ⟨p.1, p.2, rfl, hfound⟩

/-- **The route of the loop.** `match_idx` is the first of the longest that fit, -/
theorem matchIdx_eq_iff (destination : UInt32) (i : Nat) :
    r.matchIdx destination = i ↔ ∃ k, IsFirstMax (Route.fitLen destination) routes i k := by
  constructor
  · intro hi
    rcases matchIdx_cases h destination with ⟨hnone, -⟩ | ⟨j, k, hj, hmax⟩
    · omega
    · obtain rfl : j = i := Int.ofNat_inj.mp (hj.symm.trans hi)
      exact ⟨k, hmax⟩
  · rintro ⟨k, hk⟩
    rcases matchIdx_cases h destination with ⟨-, hnone⟩ | ⟨j, m, hj, hmax⟩
    · obtain ⟨route, hroute, hfit⟩ := hk.here
      rw [hnone route (List.mem_of_getElem? hroute)] at hfit
      cases hfit
    · rw [hj, (hmax.unique hk).1]

/-- an entry of the table, -/
theorem matchIdx_route {destination : UInt32} (hsome : r.matchIdx destination ≠ -1) :
    ∃ (i : Nat) (route : Route), r.matchIdx destination = i ∧ routes[i]? = some route := by
  rcases matchIdx_cases h destination with ⟨hnone, -⟩ | ⟨i, k, hi, hmax⟩
  · exact absurd hnone hsome
  · obtain ⟨route, hroute, -⟩ := hmax.here
    exact ⟨i, route, hi, hroute⟩

/-- or -1 when none does. -/
theorem matchIdx_eq_none {destination : UInt32}
    (hnone : ∀ route ∈ routes, Route.fitLen destination route = none) :
    r.matchIdx destination = -1 := by
  rcases matchIdx_cases h destination with ⟨hidx, -⟩ | ⟨i, k, -, hmax⟩
  · exact hidx
  · obtain ⟨route, hroute, hfit⟩ := hmax.here
    rw [hnone route (List.mem_of_getElem? hroute)] at hfit
    cases hfit

end

/-- The router after a sequence of `add_route` calls. -/
def addRoutes (r : Router) (routes : List Route) : Router := routes.foldl addRoute r

theorem routingTable_addRoutes (r : Router) (routes : List Route) :
    (r.addRoutes routes).routingTable = r.routingTable ++ routes.map Route.entry := by
  induction routes generalizing r with
  | nil => simp [addRoutes]
  | cons route routes ih =>
    have := ih (r.addRoute route)
    rw [addRoutes] at this ⊢
    rw [List.foldl_cons, this]
    simp [addRoute]

/-- The datagram is dropped when no route matches, and follows the first of the longest
matching routes otherwise. -/
structure FollowsLongest (r : Router) (routes : List Route) (dgram : IPv4Datagram) : Prop where
  dropped : (∀ route ∈ routes, ¬ route.Matches dgram.header.dst) →
    r.matchIdx dgram.header.dst = -1 ∧ r.routeOneDatagram dgram = .ok r
  forwarded : ∀ i k route, IsFirstMax (Route.matchLen dgram.header.dst) routes i k →
    routes[i]? = some route →
    r.matchIdx dgram.header.dst = i ∧
      r.routeOneDatagram dgram =
        r.sendOn route.interfaceNum (decrementTTL dgram) (route.nextHop.getD dgram.header.dst)

/-- The longest match, if there is one, has no bit set below its length. -/
def LongestClean (routes : List Route) (destination : UInt32) : Prop :=
  ∀ i k route, IsFirstMax (Route.matchLen destination) routes i k → routes[i]? = some route →
    route.Clean

theorem routeOneDatagram_at {r : Router} {routes : List Route} {dgram : IPv4Datagram}
    (h : r.routingTable = routes.map Route.entry) (httl : 1 < dgram.header.ttl) {i : Nat}
    {route : Route} (hi : r.matchIdx dgram.header.dst = i) (hroute : routes[i]? = some route) :
    r.routeOneDatagram dgram =
      r.sendOn route.interfaceNum (decrementTTL dgram) (route.nextHop.getD dgram.header.dst) := by
  have hentry : r.routingTable[i]? = some route.entry := by
    rw [h, List.getElem?_map, hroute]
    rfl
  have hsome : (i : Int) ≠ -1 := by omega
  simp only [routeOneDatagram, UInt8.not_le.mpr httl, hi, hsome, ↓reduceIte, Int.toNat_natCast,
    subscript_some hentry, Exec.ok_bind]
  rfl

theorem routeOneDatagram_none {r : Router} {dgram : IPv4Datagram}
    (hi : r.matchIdx dgram.header.dst = -1) : r.routeOneDatagram dgram = .ok r := by
  simp only [routeOneDatagram, hi, ↓reduceIte, ite_self]

end Router

namespace Route

open FirstMax

variable {destination : UInt32} {routes : List Route}

theorem fitLen_le {route : Route} {k : Nat} (hlen : route.prefixLength ≤ 32)
    (h : fitLen destination route = some k) : matchLen destination route = some k := by
  obtain ⟨hfit, hk⟩ := fitLen_eq_some.mp h
  exact matchLen_eq_some.mpr ⟨((masked_eq_iff hlen destination).mp hfit).1, hk⟩

theorem clean_of_fitLen {route : Route} {k : Nat} (hlen : route.prefixLength ≤ 32)
    (h : fitLen destination route = some k) : route.Clean :=
  ((masked_eq_iff hlen destination).mp (fitLen_eq_some.mp h).1).2

/-- A longest match without further bits is also the first of the longest that fit. -/
theorem isFirstMax_fitLen {i k : Nat} {route : Route}
    (hlen : ∀ route ∈ routes, route.prefixLength ≤ 32)
    (h : IsFirstMax (matchLen destination) routes i k) (hroute : routes[i]? = some route)
    (hclean : route.Clean) : IsFirstMax (fitLen destination) routes i k := by
  have hmem {j : Nat} {other : Route} (ho : routes[j]? = some other) :=
    hlen other (List.mem_of_getElem? ho)
  refine ⟨⟨route, hroute, ?_⟩, ?_, ?_⟩
  · obtain ⟨other, ho, hk⟩ := h.here
    rw [hroute] at ho
    cases ho
    obtain ⟨hm, hk⟩ := matchLen_eq_some.mp hk
    exact fitLen_eq_some.mpr ⟨(masked_eq_iff (hmem hroute) destination).mpr ⟨hm, hclean⟩, hk⟩
  · intro j other m ho hm
    exact h.greatest j other m ho (fitLen_le (hmem ho) hm)
  · intro j other m hj ho hm
    exact h.first j other m hj ho (fitLen_le (hmem ho) hm)

end Route

namespace Router

open FirstMax

/-- **Longest match.** For any sequence of `add_route` calls and any datagram with a time to
live above one, the datagram follows the first of the longest matching routes if and only
if that route's prefix has no bit set below its length. -/
theorem routes_longest_iff (interfaces : List AsyncNetworkInterface) (routes : List Route)
    (hlen : ∀ route ∈ routes, route.prefixLength ≤ 32) (dgram : IPv4Datagram)
    (httl : 1 < dgram.header.ttl) :
    FollowsLongest (addRoutes { interfaces := interfaces } routes) routes dgram ↔
      LongestClean routes dgram.header.dst := by
  have htable := routingTable_addRoutes { interfaces := interfaces } routes
  rw [List.nil_append] at htable
  constructor
  · -- the route taken is one that fits, so it has no further bits
    intro h i k route hmax hroute
    obtain ⟨hi, -⟩ := h.forwarded i k route hmax hroute
    obtain ⟨m, hm⟩ := (matchIdx_eq_iff htable dgram.header.dst i).mp hi
    obtain ⟨other, ho, hfit⟩ := hm.here
    rw [hroute] at ho
    cases ho
    exact Route.clean_of_fitLen (hlen route (List.mem_of_getElem? hroute)) hfit
  · intro h
    refine ⟨?_, ?_⟩
    · intro hnone
      have hidx : (addRoutes { interfaces := interfaces } routes).matchIdx dgram.header.dst = -1 :=
        matchIdx_eq_none htable fun route hroute => by
          have hm := mt (Route.masked_eq_iff (hlen route hroute) dgram.header.dst).mp
            fun hm => hnone route hroute hm.1
          rw [Route.fitLen, if_neg hm]
      exact ⟨hidx, routeOneDatagram_none hidx⟩
    · intro i k route hmax hroute
      have hfit := Route.isFirstMax_fitLen hlen hmax hroute (h i k route hmax hroute)
      have hidx := (matchIdx_eq_iff htable dgram.header.dst i).mpr ⟨k, hfit⟩
      exact ⟨hidx, routeOneDatagram_at htable httl hidx hroute⟩

/-- A datagram for `128.30.1.2`. -/
def dgramTo : IPv4Datagram := { header := { dst := 0x801E0102, ttl := 64 } }

/-- A default route. -/
def defaultRoute : Route :=
  { routePrefix := 0, prefixLength := 0, nextHop := some 0x0A000001, interfaceNum := 0 }

/-- The route `128.30.76.255/16` of the network simulator. -/
def simulatorRoute : Route :=
  { routePrefix := 0x801E4CFF, prefixLength := 16, nextHop := some 0x801E0001, interfaceNum := 6 }

/-- The route that is meant, over the second interface. -/
def networkRoute : Route :=
  { routePrefix := 0x801E0000, prefixLength := 16, nextHop := some 0x801E0001, interfaceNum := 1 }

/-- Two interfaces, of the default route and of the network. -/
def twoInterfaces : List AsyncNetworkInterface :=
  [{ toNetworkInterface := .new (Vector.replicate 6 1) 0x0A000002 },
   { toNetworkInterface := .new (Vector.replicate 6 2) 0x801E0002 }]

theorem isFirstMax_after_default {route : Route}
    (h : Route.matchLen dgramTo.header.dst route = some 16) :
    IsFirstMax (Route.matchLen dgramTo.header.dst) ([defaultRoute] ++ [route]) 1 16 := by
  refine isFirstMax_last h ?_
  intro j other k hother hk
  rw [List.mem_singleton.mp (List.mem_of_getElem? hother)] at hk
  exact Option.some.inj hk ▸ (by decide : (0 : Nat) < 16)

/-- The network's route is taken, and a request for its next hop sent. -/
theorem routes_longest_network :
    LongestClean [defaultRoute, networkRoute] dgramTo.header.dst ∧
      FollowsLongest (addRoutes { interfaces := twoInterfaces } [defaultRoute, networkRoute])
        [defaultRoute, networkRoute] dgramTo ∧
      ((addRoutes { interfaces := twoInterfaces } [defaultRoute, networkRoute]).routeOneDatagram
        dgramTo).toOption.map (fun r => r.interfaces.map (·.framesOut.length)) = some [0, 1] := by
  have hclean : LongestClean [defaultRoute, networkRoute] dgramTo.header.dst := by
    intro i k route _ hroute
    have hall : ∀ route ∈ [defaultRoute, networkRoute], route.Clean := by decide
    exact hall route (List.mem_of_getElem? hroute)
  have hfollows := (routes_longest_iff twoInterfaces [defaultRoute, networkRoute] (by decide)
    dgramTo (by decide)).mpr hclean
  obtain ⟨-, hroute⟩ :=
    hfollows.forwarded 1 16 networkRoute (isFirstMax_after_default (by decide)) rfl
  refine ⟨hclean, hfollows, ?_⟩
  rw [hroute]
  decide +kernel

/-- A datagram for `128.30.0.0/16` is dropped when that is the only route, and leaves by the
default route when there is one. -/
theorem simulator_route_passed_over :
    simulatorRoute.Matches dgramTo.header.dst ∧
      (addRoutes {} [simulatorRoute]).routeOneDatagram dgramTo =
        .ok (addRoutes {} [simulatorRoute]) ∧
      (addRoutes {} [defaultRoute, simulatorRoute]).matchIdx dgramTo.header.dst = 0 ∧
      ¬ FollowsLongest (addRoutes {} [simulatorRoute]) [simulatorRoute] dgramTo ∧
      ¬ FollowsLongest (addRoutes {} [defaultRoute, simulatorRoute]) [defaultRoute, simulatorRoute]
        dgramTo := by
  have hidx : (addRoutes {} [simulatorRoute]).matchIdx dgramTo.header.dst = -1 := by decide
  have hidx' : (addRoutes {} [defaultRoute, simulatorRoute]).matchIdx dgramTo.header.dst = 0 := by
    decide
  refine ⟨by decide, routeOneDatagram_none hidx, hidx', ?_, ?_⟩
  · intro h
    have hmax : IsFirstMax (Route.matchLen dgramTo.header.dst) ([] ++ [simulatorRoute]) 0 16 :=
      isFirstMax_last (by decide) (by simp)
    obtain ⟨hi, -⟩ := h.forwarded 0 16 simulatorRoute hmax rfl
    rw [hidx] at hi
    omega
  · intro h
    obtain ⟨hi, -⟩ := h.forwarded 1 16 simulatorRoute (isFirstMax_after_default (by decide)) rfl
    rw [hidx'] at hi
    omega

end Router

end Sponge
