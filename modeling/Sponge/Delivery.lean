import Sponge.NetworkInterface

/-!
# Runs of the network interface

Any interleaving of datagrams to send, frames that arrive and ticks. The history beside
the interface is the datagrams submitted, each with its next hop, and the IPv4 frames
pushed, each with the hop it was pushed for: that of the call, or the sender of the ARP
message that set it free.

* `datagrams_conserved`: while no datagram is sent to a hop that others wait for, what was
  submitted for a hop is what was sent to it and then what waits for it;
* `second_datagram_lost`: a datagram sent to such a hop is gone;
* `known_not_awaited`: whatever is sent, no datagram waits for an address that is known.
-/

namespace Sponge.Delivery

open NetworkInterface

inductive Call
  | sendDatagram (dgram : IPv4Datagram) (nextHop : UInt32)
  | recvFrame (frame : EthernetFrame)
  | tick (msSinceLastTick : Nat)

structure State where
  iface : NetworkInterface
  submitted : List (UInt32 × IPv4Datagram)
  sent : List (UInt32 × EthernetFrame)

def init (ethernetAddress : EthernetAddress) (ipAddress : UInt32) : State :=
  ⟨.new ethernetAddress ipAddress, [], []⟩

def isIPv4 (frame : EthernetFrame) : Bool := frame.header.type == EthernetHeader.typeIPv4

/-- The IPv4 frames that `m` has pushed since `n`. -/
def pushedIPv4 (n m : NetworkInterface) : List EthernetFrame := (pushedSince n m).filter isIPv4

/-- The sender of the ARP message in a frame. -/
def senderOf (frame : EthernetFrame) : Option UInt32 :=
  match frame.payload.toBuffer with
  | .error _ => none
  | .ok buffer =>
    match ARPMessage.parse {} buffer with
    | .ok (.noError, arp) => some arp.senderIpAddress
    | _ => none

def step (s : State) : Call → Except Fault State
  | .sendDatagram dgram nextHop => do
    let iface ← s.iface.sendDatagram dgram nextHop
    return {
      iface := iface
      submitted := s.submitted ++ [(nextHop, dgram)]
      sent := s.sent ++ (pushedIPv4 s.iface iface).map (Prod.mk nextHop) }
  | .recvFrame frame => do
    let (_, iface) ← s.iface.recvFrame frame
    return { s with
      iface := iface
      sent := s.sent ++
        (senderOf frame).toList.flatMap fun hop => (pushedIPv4 s.iface iface).map (Prod.mk hop) }
  | .tick ms => .ok { s with iface := s.iface.tick ms }

/-- What a history has for one hop. -/
def forHop {α : Type} (hop : UInt32) (history : List (UInt32 × α)) : List α :=
  (history.filter fun x => x.1 == hop).map Prod.snd

@[simp] theorem forHop_append {α : Type} (hop : UInt32) (xs ys : List (UInt32 × α)) :
    forHop hop (xs ++ ys) = forHop hop xs ++ forHop hop ys := by
  simp [forHop]

@[simp] theorem forHop_singleton {α : Type} (hop other : UInt32) (x : α) :
    forHop hop [(other, x)] = if other = hop then [x] else [] := by
  by_cases h : other = hop <;> simp [forHop, h]

@[simp] theorem forHop_same {α : Type} (hop : UInt32) (xs : List α) :
    forHop hop (xs.map (Prod.mk hop)) = xs := by
  induction xs with
  | nil => rfl
  | cons x xs ih => simpa [forHop] using ih

theorem forHop_other {α : Type} {hop other : UInt32} (h : other ≠ hop) (xs : List α) :
    forHop hop (xs.map (Prod.mk other)) = [] := by
  induction xs with
  | nil => rfl
  | cons x xs ih => simp [forHop, h]

/-- The datagrams sent are serializable. -/
def Call.Serializable : Call → Prop
  | .sendDatagram dgram _ => dgram.serialize.toOption.isSome = true
  | .recvFrame _ | .tick _ => True

/-- No datagram is sent to a hop that others wait for. -/
def Call.Alone (s : State) : Call → Prop
  | .sendDatagram _ nextHop =>
    (s.iface.cache nextHop).isSome = true ∨ (s.iface.queueMap nextHop).isNone = true
  | .recvFrame _ | .tick _ => True

instance : (c : Call) → Decidable c.Serializable
  | .sendDatagram _ _ => inferInstanceAs (Decidable (_ = _))
  | .recvFrame _ | .tick _ => inferInstanceAs (Decidable True)

instance (s : State) : (c : Call) → Decidable (c.Alone s)
  | .sendDatagram _ _ => inferInstanceAs (Decidable (_ ∨ _))
  | .recvFrame _ | .tick _ => inferInstanceAs (Decidable True)

/-- Nothing is lost, repeated or out of order for one hop. -/
def Split (s : State) (hop : UInt32) : Prop :=
  ∃ emitted, forHop hop s.submitted = emitted ++ s.iface.waiting hop ∧
    emitted.map IPv4Datagram.serialize = (forHop hop s.sent).map fun f => .ok f.payload

structure Conserved (s : State) : Prop where
  split : ∀ hop, Split s hop
  accounted : s.sent.map Prod.snd = s.iface.framesOut.filter isIPv4
  ready : ∀ hop, ∀ dgram ∈ s.iface.waiting hop, ∃ payload, dgram.serialize = .ok payload
  disjoint : ∀ hop, s.iface.cache hop ≠ none → s.iface.waiting hop = []

theorem conserved_init (ethernetAddress : EthernetAddress) (ipAddress : UInt32) :
    Conserved (init ethernetAddress ipAddress) where
  split := fun _ => ⟨[], rfl, rfl⟩
  accounted := rfl
  ready := by simp [init, NetworkInterface.new, waiting]
  disjoint := by simp [init, NetworkInterface.new]

theorem pushedIPv4_append {n m : NetworkInterface} {frames : List EthernetFrame}
    (h : m.framesOut = n.framesOut ++ frames) : pushedIPv4 n m = frames.filter isIPv4 := by
  rw [pushedIPv4, pushedSince_append h]

/-- What is pushed in a call goes into the history, under the hop of the call. -/
theorem accounted_push {n m : NetworkInterface} {frames : List EthernetFrame}
    {sent : List (UInt32 × EthernetFrame)} (hop : UInt32)
    (h : sent.map Prod.snd = n.framesOut.filter isIPv4)
    (hm : m.framesOut = n.framesOut ++ frames) :
    (sent ++ (pushedIPv4 n m).map (Prod.mk hop)).map Prod.snd = m.framesOut.filter isIPv4 := by
  have hsnd : (Prod.snd ∘ Prod.mk hop : EthernetFrame → EthernetFrame) = id := rfl
  rw [pushedIPv4_append hm, hm, List.map_append, List.map_map, h, List.filter_append, hsnd,
    List.map_id]

theorem filter_ipv4 {frames : List EthernetFrame}
    (h : ∀ f ∈ frames, f.header.type = EthernetHeader.typeIPv4) :
    frames.filter isIPv4 = frames := by
  rw [List.filter_eq_self]
  intro f hf
  simp [isIPv4, h f hf]

theorem filter_arp {frames : List EthernetFrame}
    (h : ∀ f ∈ frames, f.header.type = EthernetHeader.typeARP) : frames.filter isIPv4 = [] := by
  rw [List.filter_eq_nil_iff]
  intro f hf
  simp [isIPv4, h f hf, EthernetHeader.typeARP, EthernetHeader.typeIPv4]

theorem serializable_iff {dgram : IPv4Datagram} :
    dgram.serialize.toOption.isSome = true ↔ ∃ payload, dgram.serialize = .ok payload := by
  cases dgram.serialize <;> simp [Except.toOption]

/-- For a hop whose list is empty, a datagram sent is one emitted more. -/
theorem Split.emit {s t : State} {hop : UInt32} (h : Split s hop) (dgram : IPv4Datagram)
    (frame : EthernetFrame) (hnone : s.iface.waiting hop = [])
    (hsub : forHop hop t.submitted = forHop hop s.submitted ++ [dgram])
    (hsent : forHop hop t.sent = forHop hop s.sent ++ [frame])
    (hwait : t.iface.waiting hop = []) (hp : dgram.serialize = .ok frame.payload) :
    Split t hop := by
  obtain ⟨emitted, he, hm⟩ := h
  rw [hnone, List.append_nil] at he
  refine ⟨emitted ++ [dgram], by rw [hsub, hwait, he, List.append_nil], ?_⟩
  rw [hsent, List.map_append, List.map_append, hm, List.map_singleton, hp, List.map_singleton]

/-- For a hop whose list is empty, a datagram that waits is all that waits. -/
theorem Split.enqueue {s t : State} {hop : UInt32} (h : Split s hop) (dgram : IPv4Datagram)
    (hnone : s.iface.waiting hop = [])
    (hsub : forHop hop t.submitted = forHop hop s.submitted ++ [dgram])
    (hsent : forHop hop t.sent = forHop hop s.sent)
    (hwait : t.iface.waiting hop = [dgram]) : Split t hop := by
  obtain ⟨emitted, he, hm⟩ := h
  rw [hnone, List.append_nil] at he
  exact ⟨emitted, by rw [hsub, hwait, he], by rw [hsent, hm]⟩

/-- Nothing changes for a hop that a call does not concern. -/
theorem Split.frame {s t : State} {hop : UInt32} (h : Split s hop)
    (hsub : forHop hop t.submitted = forHop hop s.submitted)
    (hsent : forHop hop t.sent = forHop hop s.sent)
    (hwait : t.iface.waiting hop = s.iface.waiting hop) : Split t hop := by
  obtain ⟨emitted, he, hm⟩ := h
  exact ⟨emitted, by rw [hsub, hwait, he], by rw [hsent, hm]⟩

/-- The state after `send_datagram` has left the interface `m`. -/
def State.submit (s : State) (dgram : IPv4Datagram) (hop : UInt32) (m : NetworkInterface) : State :=
  ⟨m, s.submitted ++ [(hop, dgram)], s.sent ++ (pushedIPv4 s.iface m).map (Prod.mk hop)⟩

theorem conserved_out {s : State} {dgram : IPv4Datagram} {hop : UInt32}
    {entry : EthernetAddressEntry} {payload : BufferList} (h : Conserved s)
    (hc : s.iface.cache hop = some entry) (hp : dgram.serialize = .ok payload) :
    Conserved (s.submit dgram hop
      (s.iface.push (s.iface.frameTo EthernetHeader.typeIPv4 entry.macAddress payload))) := by
  have hnone := h.disjoint hop (by simp [hc])
  have hnew : pushedIPv4 s.iface (s.iface.push
      (s.iface.frameTo EthernetHeader.typeIPv4 entry.macAddress payload)) =
      [s.iface.frameTo EthernetHeader.typeIPv4 entry.macAddress payload] :=
    (pushedIPv4_append rfl).trans (filter_ipv4 (by simp [frameTo]))
  refine ⟨?_, accounted_push hop h.accounted rfl, h.ready, h.disjoint⟩
  intro other
  by_cases heq : other = hop
  · subst heq
    exact (h.split other).emit dgram
      (s.iface.frameTo EthernetHeader.typeIPv4 entry.macAddress payload) hnone
      (by simp [State.submit]) (by simp [State.submit, hnew]) hnone hp
  · apply (h.split other).frame
    · simp [State.submit, Ne.symm heq]
    · simp [State.submit, hnew, Ne.symm heq]
    · rfl

theorem conserved_queued {s : State} {dgram : IPv4Datagram} {hop : UInt32} {payload : BufferList}
    (h : Conserved s) (hser : ∃ payload, dgram.serialize = .ok payload)
    (hc : s.iface.cache hop = none) (hq : s.iface.queueMap hop = none) :
    Conserved (s.submit dgram hop ((s.iface.newWaitList hop dgram).push
      (s.iface.frameTo EthernetHeader.typeARP ethernetBroadcast payload))) := by
  have hnew : pushedIPv4 s.iface ((s.iface.newWaitList hop dgram).push
      (s.iface.frameTo EthernetHeader.typeARP ethernetBroadcast payload)) = [] :=
    (pushedIPv4_append rfl).trans (filter_arp (by simp [frameTo]))
  have hwait : ((s.iface.newWaitList hop dgram).push
      (s.iface.frameTo EthernetHeader.typeARP ethernetBroadcast payload)).waiting =
      Function.update s.iface.waiting hop [dgram] := s.iface.waiting_newWaitList hop dgram
  have hnone : s.iface.waiting hop = [] := by simp [waiting, hq]
  refine ⟨?_, accounted_push hop h.accounted rfl, ?_, ?_⟩
  · intro other
    by_cases heq : other = hop
    · subst heq
      apply (h.split other).enqueue dgram hnone
      · simp [State.submit]
      · simp [State.submit, hnew]
      · simp [State.submit, hwait]
    · apply (h.split other).frame
      · simp [State.submit, Ne.symm heq]
      · simp [State.submit, hnew]
      · simp [State.submit, hwait, heq]
  · intro other
    simp only [State.submit, hwait]
    by_cases heq : other = hop
    · subst heq
      simpa only [Function.update_self, List.mem_singleton, forall_eq] using hser
    · rw [Function.update_of_ne heq]
      exact h.ready other
  · intro other hcached
    have hne : other ≠ hop := fun heq => hcached (heq ▸ hc)
    simp only [State.submit, hwait]
    rw [Function.update_of_ne hne]
    exact h.disjoint other hcached

theorem conserved_send {s t : State} {dgram : IPv4Datagram} {hop : UInt32} (h : Conserved s)
    (hser : (Call.sendDatagram dgram hop).Serializable)
    (ha : (Call.sendDatagram dgram hop).Alone s)
    (hstep : step s (.sendDatagram dgram hop) = .ok t) : Conserved t := by
  obtain ⟨m, hm, ht⟩ := Exec.bind_eq_ok.mp hstep
  cases ht
  cases sendDatagram_spec hm with
  | out hc hp => exact conserved_out h hc hp
  | queued hc hq => exact conserved_queued h (serializable_iff.mp hser) hc hq
  | dropped hc hq _ =>
    rcases ha with hk | hk
    · simp [hc] at hk
    · simp [hq] at hk

theorem senderOf_teaches {n : NetworkInterface} {frame : EthernetFrame} {arp : ARPMessage}
    (h : Teaches n frame arp) : senderOf frame = some arp.senderIpAddress := by
  obtain ⟨buffer, hb, hp⟩ := h.message
  simp only [senderOf, hb, hp]

/-- What an ARP message sets free is what waited for its sender, in order. -/
theorem conserved_learned {s t : State} {arp : ARPMessage} {frames replies : List EthernetFrame}
    (h : Conserved s)
    (hw : Wraps arp.senderEthernetAddress (s.iface.waiting arp.senderIpAddress) frames)
    (hr : ∀ f ∈ replies, f.header.type = EthernetHeader.typeARP)
    (hiface : t.iface =
      s.iface.taught arp.senderIpAddress arp.senderEthernetAddress (frames ++ replies))
    (hsub : t.submitted = s.submitted)
    (hsent : t.sent = s.sent ++ frames.map (Prod.mk arp.senderIpAddress)) : Conserved t := by
  have hwait := s.iface.waiting_taught arp.senderIpAddress arp.senderEthernetAddress
    (frames ++ replies)
  rw [← hiface] at hwait
  refine ⟨?_, ?_, ?_, ?_⟩
  · intro hop
    by_cases heq : hop = arp.senderIpAddress
    · subst heq
      obtain ⟨emitted, he, hm⟩ := h.split arp.senderIpAddress
      refine ⟨emitted ++ s.iface.waiting arp.senderIpAddress, ?_, ?_⟩
      · rw [hsub, he, hwait, Function.update_self, List.append_nil]
      · rw [hsent, forHop_append, forHop_same, List.map_append, List.map_append, hm, hw.payloads]
    · apply (h.split hop).frame
      · rw [hsub]
      · rw [hsent, forHop_append, forHop_other (Ne.symm heq), List.append_nil]
      · rw [hwait, Function.update_of_ne heq]
  · have hout : t.iface.framesOut = s.iface.framesOut ++ (frames ++ replies) := by
      rw [hiface, taught]
    have hsnd : (Prod.snd ∘ Prod.mk arp.senderIpAddress : EthernetFrame → EthernetFrame) = id := rfl
    rw [hsent, hout, List.map_append, List.map_map, hsnd, List.map_id, h.accounted,
      List.filter_append, List.filter_append, filter_ipv4 hw.type, filter_arp hr, List.append_nil]
  · intro hop
    rw [hwait]
    by_cases heq : hop = arp.senderIpAddress
    · simp [heq]
    · rw [Function.update_of_ne heq]
      exact h.ready hop
  · intro hop hcached
    rw [hwait]
    by_cases heq : hop = arp.senderIpAddress
    · simp [heq]
    · rw [Function.update_of_ne heq]
      apply h.disjoint hop
      rwa [hiface, cache_taught, Function.update_of_ne heq] at hcached

theorem step_recvFrame {s : State} {frame : EthernetFrame} {ret : Option IPv4Datagram}
    {iface : NetworkInterface} (h : s.iface.recvFrame frame = .ok (ret, iface)) :
    step s (.recvFrame frame) = .ok { s with
      iface := iface
      sent := s.sent ++
        (senderOf frame).toList.flatMap fun hop =>
          (pushedIPv4 s.iface iface).map (Prod.mk hop) } := by
  rw [step, h]
  rfl

theorem pushedIPv4_learned {n : NetworkInterface} {ip : UInt32} {macAddr : EthernetAddress}
    {dgrams : List IPv4Datagram} {frames replies : List EthernetFrame}
    (hw : Wraps macAddr dgrams frames)
    (hr : ∀ f ∈ replies, f.header.type = EthernetHeader.typeARP) :
    pushedIPv4 n (n.taught ip macAddr (frames ++ replies)) = frames := by
  have hout : (n.taught ip macAddr (frames ++ replies)).framesOut =
      n.framesOut ++ (frames ++ replies) := rfl
  rw [pushedIPv4_append hout, List.filter_append, filter_ipv4 hw.type, filter_arp hr,
    List.append_nil]

theorem conserved_recv {s t : State} {frame : EthernetFrame} (h : Conserved s)
    (hstep : step s (.recvFrame frame) = .ok t) : Conserved t := by
  obtain ⟨⟨ret, m⟩, hm, _⟩ := Exec.bind_eq_ok.mp hstep
  rw [step_recvFrame hm] at hstep
  cases hstep
  cases recvFrame_spec hm with
  | same _ =>
    have hnone : pushedIPv4 s.iface s.iface = [] := by simp [pushedIPv4, pushedSince]
    have hsent : ((senderOf frame).toList.flatMap fun hop =>
        (pushedIPv4 s.iface s.iface).map (Prod.mk hop)) = [] := by simp [hnone]
    rw [hsent, List.append_nil]
    exact h
  | @learned arp frames replies ht hw hr =>
    refine conserved_learned h hw hr rfl rfl ?_
    simp [senderOf_teaches ht, pushedIPv4_learned hw hr]

theorem conserved_tick {s t : State} {ms : Nat} (h : Conserved s)
    (hstep : step s (.tick ms) = .ok t) : Conserved t := by
  cases hstep
  refine ⟨?_, h.accounted, ?_, ?_⟩
  · intro hop
    exact (h.split hop).frame rfl rfl (by simp)
  · simpa using h.ready
  · intro hop hcached
    rw [waiting_tick]
    apply h.disjoint hop
    intro hnone
    exact hcached (by simp [tick, hnone])

theorem conserved_step {s t : State} {c : Call} (h : Conserved s) (hser : c.Serializable)
    (ha : c.Alone s) (hstep : step s c = .ok t) : Conserved t := by
  cases c with
  | sendDatagram dgram hop => exact conserved_send h hser ha hstep
  | recvFrame frame => exact conserved_recv h hstep
  | tick ms => exact conserved_tick h hstep

/-- An ARP message from a hop is taken in, and sets free what waits for it. -/
theorem Conserved.released {s : State} {frame : EthernetFrame} {arp : ARPMessage}
    (h : Conserved s) (ht : Teaches s.iface frame arp) :
    ∃ t frames, step s (.recvFrame frame) = .ok t ∧
      forHop arp.senderIpAddress t.sent = forHop arp.senderIpAddress s.sent ++ frames ∧
      Wraps arp.senderEthernetAddress (s.iface.waiting arp.senderIpAddress) frames ∧
      t.iface.waiting arp.senderIpAddress = [] := by
  obtain ⟨m, hm⟩ := learn_returns arp (h.ready arp.senderIpAddress)
  obtain ⟨frames, replies, hw, hr, rfl⟩ := learn_ok hm
  have hrecv : s.iface.recvFrame frame = .ok (none,
      s.iface.taught arp.senderIpAddress arp.senderEthernetAddress (frames ++ replies)) := by
    rw [ht.recvFrame_eq, hm]
    rfl
  refine ⟨_, frames, step_recvFrame hrecv, ?_, hw, ?_⟩
  · simp [senderOf_teaches ht, pushedIPv4_learned hw fun f hf => (hr f hf).type]
  · rw [waiting_taught, Function.update_self]

/-- **Datagrams are conserved.** In every run whose datagrams are serializable and never
go to a hop that others wait for:

* what was submitted for a hop is what was sent to it, in order, and then what waits;
* the history has every IPv4 frame of the interface;
* an ARP message is taken in, and sends what waits for its sender to its address. -/
theorem datagrams_conserved (ethernetAddress : EthernetAddress) (ipAddress : UInt32) (s : State)
    (h : Exec.Reach step (fun s c => c.Serializable ∧ c.Alone s) (init ethernetAddress ipAddress)
      s) :
    (∀ hop, Split s hop) ∧ s.sent.map Prod.snd = s.iface.framesOut.filter isIPv4 ∧
    ∀ frame arp, Teaches s.iface frame arp → ∃ t frames, step s (.recvFrame frame) = .ok t ∧
      forHop arp.senderIpAddress t.sent = forHop arp.senderIpAddress s.sent ++ frames ∧
      Wraps arp.senderEthernetAddress (s.iface.waiting arp.senderIpAddress) frames ∧
      t.iface.waiting arp.senderIpAddress = [] := by
  have hs := h.invariant (conserved_init ethernetAddress ipAddress)
    (fun _ _ _ hs ha hstep => conserved_step hs ha.1 ha.2 hstep)
  exact ⟨hs.split, hs.accounted, fun _ _ ht => hs.released ht⟩

/-- An empty datagram with the identification number `id`. -/
def emptyDatagram (id : UInt16) : IPv4Datagram := { header := { len := 20, id := id } }

/-- An ARP reply from `ip` at `macAddr`, broadcast. -/
def arpReply (ip : UInt32) (macAddr : EthernetAddress) : EthernetFrame :=
  let arp : ARPMessage :=
    { opcode := ARPMessage.opcodeReply, senderEthernetAddress := macAddr, senderIpAddress := ip }
  { header := { dst := ethernetBroadcast, src := macAddr, type := EthernetHeader.typeARP }
    payload := .ofString (arp.serialize.toOption.getD []) }

/-- One datagram each for two hops, the answer of the first, and another datagram to it. -/
theorem datagrams_conserved_two_hops :
    ∃ s, Exec.Reach step (fun s c => c.Serializable ∧ c.Alone s) (init (Vector.replicate 6 1) 1) s ∧
      forHop 7 s.submitted = [emptyDatagram 1, emptyDatagram 3] ∧
      (forHop 7 s.sent).length = 2 ∧ s.iface.waiting 7 = [] ∧
      s.iface.waiting 8 = [emptyDatagram 2] ∧ ∀ hop, Split s hop := by
  obtain ⟨s, reached, hv⟩ := Exec.reach_of_view step (fun s c => c.Serializable ∧ c.Alone s)
    (init (Vector.replicate 6 1) 1)
    [.sendDatagram (emptyDatagram 1) 7, .sendDatagram (emptyDatagram 2) 8,
      .recvFrame (arpReply 7 (Vector.replicate 6 9)), .tick 1000,
      .sendDatagram (emptyDatagram 3) 7]
    (fun s => (forHop 7 s.submitted, (forHop 7 s.sent).length, s.iface.waiting 7,
      s.iface.waiting 8))
    ([emptyDatagram 1, emptyDatagram 3], 2, [], [emptyDatagram 2]) (by decide +kernel)
  simp only [Prod.mk.injEq] at hv
  obtain ⟨h1, h2, h3, h4⟩ := hv
  exact ⟨s, reached, h1, h2, h3, h4,
    (datagrams_conserved (Vector.replicate 6 1) 1 s reached).1⟩

/-- Two datagrams for a hop whose address is not known yet: the second is put into a copy
of the list, and the answer sets only the first free. -/
theorem second_datagram_lost :
    ∃ s, Exec.Reach step (fun _ c => c.Serializable) (init (Vector.replicate 6 1) 1) s ∧
      forHop 7 s.submitted = [emptyDatagram 1, emptyDatagram 2] ∧
      (forHop 7 s.sent).length = 1 ∧ s.iface.waiting 7 = [] ∧ ¬ Split s 7 := by
  obtain ⟨s, reached, hv⟩ := Exec.reach_of_view step (fun _ c => c.Serializable)
    (init (Vector.replicate 6 1) 1)
    [.sendDatagram (emptyDatagram 1) 7, .sendDatagram (emptyDatagram 2) 7,
      .recvFrame (arpReply 7 (Vector.replicate 6 9))]
    (fun s => (forHop 7 s.submitted, (forHop 7 s.sent).length, s.iface.waiting 7))
    ([emptyDatagram 1, emptyDatagram 2], 1, []) (by decide +kernel)
  simp only [Prod.mk.injEq] at hv
  obtain ⟨h1, h2, h3⟩ := hv
  refine ⟨s, reached, h1, h2, h3, ?_⟩
  rintro ⟨emitted, he, hm⟩
  have hlen := congrArg List.length hm
  rw [h1, h3, List.append_nil] at he
  simp [← he, h2] at hlen

/-! ## Known and awaited addresses -/

/-- What every call keeps, whatever was sent before: an address is known or waited for, not
both, something waits in each list, and no entry is past its time. -/
structure Exclusive (n : NetworkInterface) : Prop where
  disjoint : ∀ ip, n.cache ip = none ∨ n.queueMap ip = none
  nonempty : ∀ ip waitList, n.queueMap ip = some waitList → waitList.waitingDatagram ≠ []
  young : ∀ ip entry, n.cache ip = some entry → entry.cachingTime < maxCacheTime
  ready : ∀ ip, ∀ dgram ∈ n.waiting ip, ∃ payload, dgram.serialize = .ok payload

theorem exclusive_new (ethernetAddress : EthernetAddress) (ipAddress : UInt32) :
    Exclusive (.new ethernetAddress ipAddress) where
  disjoint := fun _ => .inl rfl
  nonempty := by simp [NetworkInterface.new]
  young := by simp [NetworkInterface.new]
  ready := by simp [NetworkInterface.new, waiting]

/-- Frames that go out change nothing here. -/
theorem Exclusive.withFrames {n : NetworkInterface} (h : Exclusive n)
    (frames : List EthernetFrame) : Exclusive { n with framesOut := frames } :=
  ⟨h.disjoint, h.nonempty, h.young, h.ready⟩

theorem exclusive_newWaitList {n : NetworkInterface} {dgram : IPv4Datagram} {hop : UInt32}
    (h : Exclusive n) (hser : ∃ payload, dgram.serialize = .ok payload) (hc : n.cache hop = none) :
    Exclusive (n.newWaitList hop dgram) where
  disjoint := by
    intro ip
    by_cases heq : ip = hop
    · exact .inl (heq ▸ hc)
    · rw [queueMap_newWaitList, Function.update_of_ne heq]
      exact h.disjoint ip
  nonempty := by
    intro ip waitList hw
    rw [queueMap_newWaitList] at hw
    by_cases heq : ip = hop
    · rw [heq, Function.update_self] at hw
      cases hw
      exact List.cons_ne_nil _ _
    · rw [Function.update_of_ne heq] at hw
      exact h.nonempty ip waitList hw
  young := h.young
  ready := by
    intro ip d hd
    rw [waiting_newWaitList] at hd
    by_cases heq : ip = hop
    · rw [heq, Function.update_self] at hd
      exact List.mem_singleton.mp hd ▸ hser
    · rw [Function.update_of_ne heq] at hd
      exact h.ready ip d hd

theorem exclusive_send {n m : NetworkInterface} {dgram : IPv4Datagram} {hop : UInt32}
    (h : Exclusive n) (hser : ∃ payload, dgram.serialize = .ok payload)
    (hm : n.sendDatagram dgram hop = .ok m) : Exclusive m := by
  cases sendDatagram_spec hm with
  | out _ _ => exact h.withFrames _
  | queued hc _ => exact (exclusive_newWaitList h hser hc).withFrames _
  | dropped _ _ _ => exact h.withFrames _

theorem exclusive_taught {n : NetworkInterface} (h : Exclusive n) (ip : UInt32)
    (macAddr : EthernetAddress) (frames : List EthernetFrame) :
    Exclusive (n.taught ip macAddr frames) where
  disjoint := by
    intro other
    by_cases heq : other = ip
    · right
      rw [queueMap_taught, heq, Function.update_self]
    · rw [cache_taught, queueMap_taught, Function.update_of_ne heq, Function.update_of_ne heq]
      exact h.disjoint other
  nonempty := by
    intro other waitList hw
    rw [queueMap_taught] at hw
    by_cases heq : other = ip
    · rw [heq, Function.update_self] at hw
      cases hw
    · rw [Function.update_of_ne heq] at hw
      exact h.nonempty other waitList hw
  young := by
    intro other entry he
    rw [cache_taught] at he
    by_cases heq : other = ip
    · rw [heq, Function.update_self] at he
      cases he
      exact (by decide : 0 < maxCacheTime)
    · rw [Function.update_of_ne heq] at he
      exact h.young other entry he
  ready := by
    intro other
    rw [waiting_taught]
    by_cases heq : other = ip
    · simp [heq]
    · rw [Function.update_of_ne heq]
      exact h.ready other

theorem exclusive_recv {n m : NetworkInterface} {frame : EthernetFrame} {ret : Option IPv4Datagram}
    (h : Exclusive n) (hm : n.recvFrame frame = .ok (ret, m)) : Exclusive m := by
  cases recvFrame_spec hm with
  | same _ => exact h
  | learned _ _ _ => exact exclusive_taught h ..

/-- What is in the cache after a tick was there before, and is not past its time. -/
theorem cache_tick {n : NetworkInterface} {ms : Nat} {ip : UInt32} {entry : EthernetAddressEntry}
    (h : (n.tick ms).cache ip = some entry) :
    n.cache ip ≠ none ∧ entry.cachingTime < maxCacheTime := by
  obtain ⟨old, hold, he⟩ := Option.bind_eq_some_iff.mp h
  dsimp only at he
  split at he
  · cases he
  · rename_i hyoung
    cases he
    exact ⟨by simp [hold], Nat.lt_of_not_le hyoung⟩

theorem exclusive_tick {n : NetworkInterface} (h : Exclusive n) (ms : Nat) :
    Exclusive (n.tick ms) where
  disjoint := by
    intro ip
    rcases h.disjoint ip with hc | hq
    · exact .inl (by simp [tick, hc])
    · exact .inr (by simp [tick, hq])
  nonempty := by
    intro ip waitList hw
    obtain ⟨old, hold, rfl⟩ := Option.map_eq_some_iff.mp hw
    exact h.nonempty ip old hold
  young := fun _ _ he => (cache_tick he).2
  ready := by simpa using h.ready

theorem exclusive_step {s t : State} {c : Call} (h : Exclusive s.iface) (hser : c.Serializable)
    (hstep : step s c = .ok t) : Exclusive t.iface := by
  cases c with
  | sendDatagram dgram hop =>
    obtain ⟨m, hm, ht⟩ := Exec.bind_eq_ok.mp hstep
    cases ht
    exact exclusive_send h (serializable_iff.mp hser) hm
  | recvFrame frame =>
    obtain ⟨⟨ret, m⟩, hm, ht⟩ := Exec.bind_eq_ok.mp hstep
    cases ht
    exact exclusive_recv h hm
  | tick ms =>
    cases hstep
    exact exclusive_tick h ms

/-- A call returns, unless a frame that is not contiguous is to be read. -/
theorem Exclusive.returns {s : State} (h : Exclusive s.iface) {c : Call} (hser : c.Serializable) :
    (∃ t, step s c = .ok t) ∨
      ∃ frame e, c = .recvFrame frame ∧ frame.payload.toBuffer = .error e := by
  cases c with
  | sendDatagram dgram hop =>
    obtain ⟨m, hm⟩ := s.iface.sendDatagram_returns hop (serializable_iff.mp hser)
    exact .inl ⟨_, Exec.bind_eq_ok.mpr ⟨m, hm, rfl⟩⟩
  | recvFrame frame =>
    cases hb : frame.payload.toBuffer with
    | error e => exact .inr ⟨frame, e, rfl, hb⟩
    | ok buffer =>
      obtain ⟨ret, m, hm⟩ := recvFrame_contiguous hb h.ready
      exact .inl ⟨_, step_recvFrame hm⟩
  | tick ms => exact .inl ⟨_, rfl⟩

/-- **Known addresses are not waited for.** In every run whose datagrams are serializable, no
address is in the cache and in the queue map, no list in the queue map is empty, and no entry
of the cache is past its time; so nothing waits for an address that is known. Every further
such call returns, except for a frame that is not contiguous, which is refused before
anything changes. -/
theorem known_not_awaited (ethernetAddress : EthernetAddress) (ipAddress : UInt32) (s : State)
    (h : Exec.Reach step (fun _ c => c.Serializable) (init ethernetAddress ipAddress) s) :
    (∀ ip, s.iface.cache ip = none ∨ s.iface.queueMap ip = none) ∧
    (∀ ip waitList, s.iface.queueMap ip = some waitList → waitList.waitingDatagram ≠ []) ∧
    (∀ ip entry, s.iface.cache ip = some entry → entry.cachingTime < maxCacheTime) ∧
    (∀ ip entry, s.iface.cache ip = some entry → s.iface.waiting ip = []) ∧
    ∀ c : Call, c.Serializable → (∃ t, step s c = .ok t) ∨
      ∃ frame e, c = .recvFrame frame ∧ frame.payload.toBuffer = .error e := by
  have hs : Exclusive s.iface := h.invariant (I := fun s => Exclusive s.iface)
    (exclusive_new ethernetAddress ipAddress)
    (fun _ _ _ hs hser hstep => exclusive_step hs hser hstep)
  refine ⟨hs.disjoint, hs.nonempty, hs.young, ?_, fun c hc => hs.returns hc⟩
  intro ip entry he
  rcases hs.disjoint ip with hc | hq
  · rw [hc] at he
    cases he
  · simp [waiting, hq]

/-- The address of one hop is known, expires and is asked for again, and that of another is
known. -/
theorem known_not_awaited_again :
    ∃ s, Exec.Reach step (fun _ c => c.Serializable) (init (Vector.replicate 6 1) 1) s ∧
      s.iface.waiting 7 = [emptyDatagram 2] ∧
      s.iface.getEthernetAdress 8 = some (Vector.replicate 6 9) ∧
      s.iface.cache 7 = none ∧ s.iface.queueMap 8 = none := by
  obtain ⟨s, reached, hv⟩ := Exec.reach_of_view step (fun _ c => c.Serializable)
    (init (Vector.replicate 6 1) 1)
    [.sendDatagram (emptyDatagram 1) 7, .recvFrame (arpReply 7 (Vector.replicate 6 9)),
      .tick 30000, .sendDatagram (emptyDatagram 2) 7,
      .recvFrame (arpReply 8 (Vector.replicate 6 9)), .tick 29999]
    (fun s => (s.iface.waiting 7, s.iface.getEthernetAdress 8))
    ([emptyDatagram 2], some (Vector.replicate 6 9)) (by decide +kernel)
  obtain ⟨hwait, hknown⟩ := Prod.mk.inj hv
  obtain ⟨hexclusive, -, -, hnone, -⟩ := known_not_awaited (Vector.replicate 6 1) 1 s reached
  refine ⟨s, reached, hwait, hknown, ?_, ?_⟩
  · cases hc : s.iface.cache 7 with
    | none => rfl
    | some entry =>
      rw [hnone 7 entry hc] at hwait
      cases hwait
  · rcases hexclusive 8 with hc | hq
    · rw [getEthernetAdress, hc] at hknown
      cases hknown
    · exact hq

end Sponge.Delivery
