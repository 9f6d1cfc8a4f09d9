import Sponge.Ethernet
import Mathlib.Logic.Function.Basic

/-!
# The network interface

`NetworkInterface` of `network_interface.cc`: datagrams for a next hop whose Ethernet
address is known go out at once, others wait for an ARP message from that hop.

The two maps are functions to `Option`, and addresses are the numbers `ipv4_numeric` gives.

* `sendDatagram_spec`, `recvFrame_spec`: all that a call can do;
* `recv_frame_ignores_iff`: the frames that are ignored.
-/

namespace Sponge

structure EthernetAddressEntry where
  cachingTime : Nat
  macAddress : EthernetAddress

structure WaitingList where
  timeSinceLastARPRequestSend : Nat := 0
  waitingDatagram : List IPv4Datagram := []

structure NetworkInterface where
  ethernetAddress : EthernetAddress
  ipAddress : UInt32
  framesOut : List EthernetFrame
  cache : UInt32 → Option EthernetAddressEntry
  queueMap : UInt32 → Option WaitingList

namespace NetworkInterface

/-- `MAX_RETX_WAITING_TIME`. -/
def maxRetxWaitingTime : Nat := 5000

/-- `MAX_CACHE_TIME`. -/
def maxCacheTime : Nat := 30000

def new (ethernetAddress : EthernetAddress) (ipAddress : UInt32) : NetworkInterface where
  ethernetAddress := ethernetAddress
  ipAddress := ipAddress
  framesOut := []
  cache := fun _ => none
  queueMap := fun _ => none

def getEthernetAdress (n : NetworkInterface) (ipAddr : UInt32) : Option EthernetAddress :=
  (n.cache ipAddr).map EthernetAddressEntry.macAddress

def getWaitingList (n : NetworkInterface) (ipAddr : UInt32) : Option WaitingList :=
  n.queueMap ipAddr

/-- `_frames_out.push`. -/
def push (n : NetworkInterface) (frame : EthernetFrame) : NetworkInterface :=
  { n with framesOut := n.framesOut ++ [frame] }

def sendHelper (n : NetworkInterface) (macAddr : EthernetAddress) (dgram : IPv4Datagram) :
    Except Fault NetworkInterface := do
  let payload ← dgram.serialize
  return n.push
    { header := { type := EthernetHeader.typeIPv4, src := n.ethernetAddress, dst := macAddr }
      payload := payload }

def sendARPRequest (n : NetworkInterface) (ipAddr : UInt32) : Except Fault NetworkInterface := do
  let arp : ARPMessage :=
    { opcode := ARPMessage.opcodeRequest
      senderEthernetAddress := n.ethernetAddress
      senderIpAddress := n.ipAddress
      targetIpAddress := ipAddr }
  let payload ← arp.serialize
  return n.push
    { header :=
        { type := EthernetHeader.typeARP, src := n.ethernetAddress, dst := ethernetBroadcast }
      payload := .ofString payload }

def sendARPReply (n : NetworkInterface) (ipAddr : UInt32) (macAddr : EthernetAddress) :
    Except Fault NetworkInterface := do
  let arp : ARPMessage :=
    { opcode := ARPMessage.opcodeReply
      senderEthernetAddress := n.ethernetAddress
      senderIpAddress := n.ipAddress
      targetEthernetAddress := macAddr
      targetIpAddress := ipAddr }
  let payload ← arp.serialize
  return n.push
    { header := { type := EthernetHeader.typeARP, src := n.ethernetAddress, dst := macAddr }
      payload := .ofString payload }

/-- `_queue_map[ip_addr] = new_wait_list`, with one datagram in it. -/
def newWaitList (n : NetworkInterface) (ipAddr : UInt32) (dgram : IPv4Datagram) :
    NetworkInterface :=
  let newWaitList : WaitingList := { waitingDatagram := [dgram] }
  { n with queueMap := Function.update n.queueMap ipAddr (some newWaitList) }

def queueHelper (n : NetworkInterface) (ipAddr : UInt32) (dgram : IPv4Datagram) :
    Except Fault NetworkInterface :=
  match n.getWaitingList ipAddr with
  | some waitList =>
    -- `get_WaitingList` returns a copy: the datagram is pushed there, and the map keeps
    -- the list as it was
    if waitList.timeSinceLastARPRequestSend ≥ maxRetxWaitingTime then n.sendARPRequest ipAddr
    else .ok n
  | none => (n.newWaitList ipAddr dgram).sendARPRequest ipAddr

def validFrame (n : NetworkInterface) (frame : EthernetFrame) : Bool :=
  frame.header.dst == n.ethernetAddress || frame.header.dst == ethernetBroadcast

/-- An entry that is there is overwritten, which comes to the same as a new one. -/
def cacheMapping (n : NetworkInterface) (ipAddr : UInt32) (macAddr : EthernetAddress) :
    NetworkInterface :=
  let entry : EthernetAddressEntry := { cachingTime := 0, macAddress := macAddr }
  { n with cache := Function.update n.cache ipAddr (some entry) }

def clearWaitinglist (n : NetworkInterface) (ipAddr : UInt32) (macAddr : EthernetAddress) :
    Except Fault NetworkInterface := do
  let n ← match n.queueMap ipAddr with
    | some waitList => waitList.waitingDatagram.foldlM (fun n dgram => n.sendHelper macAddr dgram) n
    | none => .ok n
  return { n with queueMap := Function.update n.queueMap ipAddr none }

def sendDatagram (n : NetworkInterface) (dgram : IPv4Datagram) (nextHop : UInt32) :
    Except Fault NetworkInterface :=
  match n.getEthernetAdress nextHop with
  | some macAddr => n.sendHelper macAddr dgram
  | none => n.queueHelper nextHop dgram

/-- The reply to a request for this interface's address. -/
def answer (n : NetworkInterface) (arp : ARPMessage) : Except Fault NetworkInterface :=
  if arp.opcode == ARPMessage.opcodeRequest && arp.targetIpAddress == n.ipAddress then
    n.sendARPReply arp.senderIpAddress arp.senderEthernetAddress
  else .ok n

/-- The part of `recv_frame` that handles an ARP message. -/
def learn (n : NetworkInterface) (arp : ARPMessage) : Except Fault NetworkInterface := do
  let n := n.cacheMapping arp.senderIpAddress arp.senderEthernetAddress
  let n ← n.clearWaitinglist arp.senderIpAddress arp.senderEthernetAddress
  n.answer arp

def recvFrame (n : NetworkInterface) (frame : EthernetFrame) :
    Except Fault (Option IPv4Datagram × NetworkInterface) := do
  if !n.validFrame frame then
    return (none, n)
  if frame.header.type == EthernetHeader.typeIPv4 then
    let (res, dgram) ← IPv4Datagram.parse {} (← frame.payload.toBuffer)
    return (if res == .noError then some dgram else none, n)
  -- every other type is taken for ARP
  let (res, arp) ← ARPMessage.parse {} (← frame.payload.toBuffer)
  if res == .noError then
    return (none, ← n.learn arp)
  return (none, n)

def tick (n : NetworkInterface) (msSinceLastTick : Nat) : NetworkInterface :=
  { n with
    queueMap := fun ip => (n.queueMap ip).map fun waitList =>
      { waitList with timeSinceLastARPRequestSend :=
          (waitList.timeSinceLastARPRequestSend + msSinceLastTick) % 2 ^ 64 }
    cache := fun ip => (n.cache ip).bind fun entry =>
      let cachingTime := (entry.cachingTime + msSinceLastTick) % 2 ^ 64
      if cachingTime ≥ maxCacheTime then none else some { entry with cachingTime := cachingTime } }

/-- The datagrams that wait for `ip`. -/
def waiting (n : NetworkInterface) (ip : UInt32) : List IPv4Datagram :=
  ((n.queueMap ip).map WaitingList.waitingDatagram).getD []

theorem queueMap_newWaitList (n : NetworkInterface) (ip : UInt32) (dgram : IPv4Datagram) :
    (n.newWaitList ip dgram).queueMap =
      Function.update n.queueMap ip (some { waitingDatagram := [dgram] }) := rfl

theorem waiting_newWaitList (n : NetworkInterface) (ip : UInt32) (dgram : IPv4Datagram) :
    (n.newWaitList ip dgram).waiting = Function.update n.waiting ip [dgram] := by
  funext other
  by_cases h : other = ip
  · simp [waiting, newWaitList, h]
  · simp [waiting, newWaitList, h]

@[simp] theorem waiting_tick (n : NetworkInterface) (ms : Nat) :
    (n.tick ms).waiting = n.waiting := by
  funext ip
  cases h : n.queueMap ip <;> simp [waiting, tick, h]

/-! ## What a call can do -/

/-- The frames that `m` has pushed since `n`. -/
def pushedSince (n m : NetworkInterface) : List EthernetFrame :=
  m.framesOut.drop n.framesOut.length

theorem pushedSince_append {n m : NetworkInterface} {frames : List EthernetFrame}
    (h : m.framesOut = n.framesOut ++ frames) : pushedSince n m = frames := by
  rw [pushedSince, h, List.drop_left]

/-- A frame from the interface. -/
def frameTo (n : NetworkInterface) (type : UInt16) (dst : EthernetAddress) (payload : BufferList) :
    EthernetFrame :=
  { header := { type := type, src := n.ethernetAddress, dst := dst }, payload := payload }

theorem sendHelper_ok {n m : NetworkInterface} {macAddr : EthernetAddress} {dgram : IPv4Datagram}
    (h : n.sendHelper macAddr dgram = .ok m) :
    ∃ payload, dgram.serialize = .ok payload ∧
      m = n.push (n.frameTo EthernetHeader.typeIPv4 macAddr payload) := by
  obtain ⟨payload, hp, h⟩ := Exec.bind_eq_ok.mp h
  cases h
  exact ⟨payload, hp, rfl⟩

/-- The payload of a frame is the ARP message. -/
def Spells (payload : BufferList) (arp : ARPMessage) : Prop :=
  ∃ buffer, payload.toBuffer = .ok buffer ∧ ARPMessage.parse {} buffer = .ok (.noError, arp)

theorem spells_ofString (arp : ARPMessage) (h : arp.supported = true) :
    ∃ s, arp.serialize = .ok s ∧ Spells (.ofString s) arp := by
  obtain ⟨s, hs, hp⟩ := ARPMessage.parse_serialize h
  exact ⟨s, hs, .ofString s, rfl, hp {}⟩

/-- The frame asks for the Ethernet address of `ip`. -/
structure Asks (frame : EthernetFrame) (ip : UInt32) : Prop where
  type : frame.header.type = EthernetHeader.typeARP
  message : ∃ arp, Spells frame.payload arp ∧ arp.opcode = ARPMessage.opcodeRequest ∧
    arp.targetIpAddress = ip

/-- The frame is an ARP reply. -/
structure Replies (frame : EthernetFrame) : Prop where
  type : frame.header.type = EthernetHeader.typeARP
  message : ∃ arp, Spells frame.payload arp ∧ arp.opcode = ARPMessage.opcodeReply

theorem sendARPRequest_ok (n : NetworkInterface) (ipAddr : UInt32) :
    ∃ payload, n.sendARPRequest ipAddr =
        .ok (n.push (n.frameTo EthernetHeader.typeARP ethernetBroadcast payload)) ∧
      Asks (n.frameTo EthernetHeader.typeARP ethernetBroadcast payload) ipAddr := by
  obtain ⟨s, hs, hp⟩ := spells_ofString
    { opcode := ARPMessage.opcodeRequest
      senderEthernetAddress := n.ethernetAddress
      senderIpAddress := n.ipAddress
      targetIpAddress := ipAddr } rfl
  exact ⟨.ofString s, by simp only [sendARPRequest, hs]; rfl, rfl, _, hp, rfl, rfl⟩

theorem sendARPReply_ok (n : NetworkInterface) (ipAddr : UInt32) (macAddr : EthernetAddress) :
    ∃ payload, n.sendARPReply ipAddr macAddr =
        .ok (n.push (n.frameTo EthernetHeader.typeARP macAddr payload)) ∧
      Replies (n.frameTo EthernetHeader.typeARP macAddr payload) := by
  obtain ⟨s, hs, hp⟩ := spells_ofString
    { opcode := ARPMessage.opcodeReply
      senderEthernetAddress := n.ethernetAddress
      senderIpAddress := n.ipAddress
      targetEthernetAddress := macAddr
      targetIpAddress := ipAddr } rfl
  exact ⟨.ofString s, by simp only [sendARPReply, hs]; rfl, rfl, _, hp, rfl⟩

section
variable {n : NetworkInterface} (dgram : IPv4Datagram) {hop : UInt32}

theorem sendDatagram_known {entry : EthernetAddressEntry} (hc : n.cache hop = some entry) :
    n.sendDatagram dgram hop = n.sendHelper entry.macAddress dgram := by
  simp only [sendDatagram, getEthernetAdress, hc, Option.map_some]

theorem sendDatagram_unknown (hc : n.cache hop = none) :
    n.sendDatagram dgram hop = n.queueHelper hop dgram := by
  simp only [sendDatagram, getEthernetAdress, hc, Option.map_none]

/-- The first datagram for an unknown address waits, and the address is asked for; -/
theorem sendDatagram_first (hc : n.cache hop = none) (hq : n.queueMap hop = none) :
    ∃ payload, n.sendDatagram dgram hop = .ok ((n.newWaitList hop dgram).push
        (n.frameTo EthernetHeader.typeARP ethernetBroadcast payload)) ∧
      Asks (n.frameTo EthernetHeader.typeARP ethernetBroadcast payload) hop := by
  obtain ⟨payload, hp, hasks⟩ := sendARPRequest_ok (n.newWaitList hop dgram) hop
  refine ⟨payload, ?_, hasks⟩
  rw [sendDatagram_unknown dgram hc]
  simp only [queueHelper, getWaitingList, hq]
  exact hp

section
variable {waitList : WaitingList} (hc : n.cache hop = none) (hq : n.queueMap hop = some waitList)
include hc hq

/-- it is asked for again when the last request is old, -/
theorem sendDatagram_again (hold : maxRetxWaitingTime ≤ waitList.timeSinceLastARPRequestSend) :
    ∃ payload, n.sendDatagram dgram hop =
        .ok (n.push (n.frameTo EthernetHeader.typeARP ethernetBroadcast payload)) ∧
      Asks (n.frameTo EthernetHeader.typeARP ethernetBroadcast payload) hop := by
  obtain ⟨payload, hp, hasks⟩ := sendARPRequest_ok n hop
  refine ⟨payload, ?_, hasks⟩
  rw [sendDatagram_unknown dgram hc]
  simp only [queueHelper, getWaitingList, hq, ge_iff_le, hold, ↓reduceIte]
  exact hp

/-- and not before. -/
theorem sendDatagram_young (hyoung : ¬ maxRetxWaitingTime ≤ waitList.timeSinceLastARPRequestSend) :
    n.sendDatagram dgram hop = .ok n := by
  rw [sendDatagram_unknown dgram hc]
  simp only [queueHelper, getWaitingList, hq, ge_iff_le, hyoung, ↓reduceIte]

end

end

/-- All that `send_datagram` can do. -/
inductive Sent (n : NetworkInterface) (dgram : IPv4Datagram) (hop : UInt32) :
    NetworkInterface → Prop
  | out {entry : EthernetAddressEntry} {payload : BufferList} :
      n.cache hop = some entry → dgram.serialize = .ok payload →
      Sent n dgram hop (n.push (n.frameTo EthernetHeader.typeIPv4 entry.macAddress payload))
  /-- The first datagram for an unknown address waits, and the address is asked for. -/
  | queued {payload : BufferList} : n.cache hop = none → n.queueMap hop = none →
      Sent n dgram hop ((n.newWaitList hop dgram).push
        (n.frameTo EthernetHeader.typeARP ethernetBroadcast payload))
  /-- Further ones are dropped, and the address may be asked for again. -/
  | dropped {waitList : WaitingList} {requests : List EthernetFrame} :
      n.cache hop = none → n.queueMap hop = some waitList →
      (∀ f ∈ requests, f.header.type = EthernetHeader.typeARP) →
      Sent n dgram hop { n with framesOut := n.framesOut ++ requests }

theorem sendDatagram_spec {n m : NetworkInterface} {dgram : IPv4Datagram} {hop : UInt32}
    (h : n.sendDatagram dgram hop = .ok m) : Sent n dgram hop m := by
  cases hc : n.cache hop with
  | some entry =>
    rw [sendDatagram_known dgram hc] at h
    obtain ⟨payload, hp, rfl⟩ := sendHelper_ok h
    exact .out hc hp
  | none =>
    cases hq : n.queueMap hop with
    | none =>
      obtain ⟨payload, hp, -⟩ := sendDatagram_first dgram hc hq
      rw [hp] at h
      cases h
      exact .queued hc hq
    | some waitList =>
      by_cases hold : maxRetxWaitingTime ≤ waitList.timeSinceLastARPRequestSend
      · obtain ⟨payload, hp, -⟩ := sendDatagram_again dgram hc hq hold
        rw [hp] at h
        cases h
        exact .dropped hc hq (by simp [frameTo])
      · rw [sendDatagram_young dgram hc hq hold] at h
        cases h
        have hnone := @Sent.dropped n dgram hop waitList [] hc hq (by simp)
        rwa [List.append_nil] at hnone

theorem sendDatagram_returns (n : NetworkInterface) {dgram : IPv4Datagram} (hop : UInt32)
    (h : ∃ payload, dgram.serialize = .ok payload) : ∃ m, n.sendDatagram dgram hop = .ok m := by
  cases hc : n.cache hop with
  | some entry =>
    obtain ⟨payload, hp⟩ := h
    exact ⟨_, by rw [sendDatagram_known dgram hc, sendHelper, hp]; rfl⟩
  | none =>
    cases hq : n.queueMap hop with
    | none =>
      obtain ⟨payload, hp, -⟩ := sendDatagram_first dgram hc hq
      exact ⟨_, hp⟩
    | some waitList =>
      by_cases hold : maxRetxWaitingTime ≤ waitList.timeSinceLastARPRequestSend
      · obtain ⟨payload, hp, -⟩ := sendDatagram_again dgram hc hq hold
        exact ⟨_, hp⟩
      · exact ⟨n, sendDatagram_young dgram hc hq hold⟩

/-- The frames carry the datagrams, in order, to one address. -/
structure Wraps (macAddr : EthernetAddress) (dgrams : List IPv4Datagram)
    (frames : List EthernetFrame) : Prop where
  payloads : dgrams.map IPv4Datagram.serialize = frames.map fun f => .ok f.payload
  dst : ∀ f ∈ frames, f.header.dst = macAddr
  type : ∀ f ∈ frames, f.header.type = EthernetHeader.typeIPv4

/-- Flushing a list sends each of its datagrams, if it returns. -/
theorem flush_ok {macAddr : EthernetAddress} {dgrams : List IPv4Datagram} {n m : NetworkInterface}
    (h : dgrams.foldlM (fun n dgram => n.sendHelper macAddr dgram) n = .ok m) :
    ∃ frames, Wraps macAddr dgrams frames ∧ m = { n with framesOut := n.framesOut ++ frames } := by
  induction dgrams generalizing n with
  | nil =>
    cases h
    exact ⟨[], ⟨rfl, by simp, by simp⟩, by simp⟩
  | cons dgram rest ih =>
    rw [List.foldlM_cons] at h
    obtain ⟨k, hk, h⟩ := Exec.bind_eq_ok.mp h
    obtain ⟨payload, hp, rfl⟩ := sendHelper_ok hk
    obtain ⟨frames, hw, rfl⟩ := ih h
    refine ⟨n.frameTo EthernetHeader.typeIPv4 macAddr payload :: frames, ⟨?_, ?_, ?_⟩, ?_⟩
    · simp only [List.map_cons, hp, hw.payloads, frameTo]
    · simpa [frameTo] using hw.dst
    · simpa [frameTo] using hw.type
    · simp [push]

/-- It returns when they can all be serialized. -/
theorem flush_returns {macAddr : EthernetAddress} {dgrams : List IPv4Datagram}
    (h : ∀ dgram ∈ dgrams, ∃ payload, dgram.serialize = .ok payload) (n : NetworkInterface) :
    ∃ m, dgrams.foldlM (fun n dgram => n.sendHelper macAddr dgram) n = .ok m := by
  induction dgrams generalizing n with
  | nil => exact ⟨n, rfl⟩
  | cons dgram rest ih =>
    obtain ⟨payload, hp⟩ := h dgram List.mem_cons_self
    obtain ⟨m, hm⟩ := ih (fun d hd => h d (List.mem_cons_of_mem _ hd))
      (n.push (n.frameTo EthernetHeader.typeIPv4 macAddr payload))
    refine ⟨m, ?_⟩
    have hsend : n.sendHelper macAddr dgram =
        .ok (n.push (n.frameTo EthernetHeader.typeIPv4 macAddr payload)) := by
      rw [sendHelper, hp]
      rfl
    rw [List.foldlM_cons, hsend]
    exact hm

/-- The frame is for this interface and carries the ARP message. -/
structure Teaches (n : NetworkInterface) (frame : EthernetFrame) (arp : ARPMessage) : Prop where
  valid : n.validFrame frame = true
  type : frame.header.type ≠ EthernetHeader.typeIPv4
  message : ∃ buffer, frame.payload.toBuffer = .ok buffer ∧
    ARPMessage.parse {} buffer = .ok (.noError, arp)

/-- The interface after an ARP message from `ip`, when `frames` went out. -/
def taught (n : NetworkInterface) (ip : UInt32) (macAddr : EthernetAddress)
    (frames : List EthernetFrame) : NetworkInterface :=
  { n.cacheMapping ip macAddr with
    framesOut := n.framesOut ++ frames
    queueMap := Function.update n.queueMap ip none }

theorem cache_taught (n : NetworkInterface) (ip : UInt32) (macAddr : EthernetAddress)
    (frames : List EthernetFrame) : (n.taught ip macAddr frames).cache =
      Function.update n.cache ip (some { cachingTime := 0, macAddress := macAddr }) := rfl

theorem queueMap_taught (n : NetworkInterface) (ip : UInt32) (macAddr : EthernetAddress)
    (frames : List EthernetFrame) :
    (n.taught ip macAddr frames).queueMap = Function.update n.queueMap ip none := rfl

theorem waiting_taught (n : NetworkInterface) (ip : UInt32) (macAddr : EthernetAddress)
    (frames : List EthernetFrame) :
    (n.taught ip macAddr frames).waiting = Function.update n.waiting ip [] := by
  funext other
  by_cases h : other = ip
  · simp [waiting, taught, h]
  · simp [waiting, taught, h]

theorem clearWaitinglist_eq (n : NetworkInterface) (ip : UInt32) (macAddr : EthernetAddress) :
    n.clearWaitinglist ip macAddr =
      (n.waiting ip).foldlM (fun n dgram => n.sendHelper macAddr dgram) n >>= fun n =>
        .ok { n with queueMap := Function.update n.queueMap ip none } := by
  unfold clearWaitinglist waiting
  cases n.queueMap ip <;> rfl

/-- All that `recv_frame` can do. -/
inductive Received (n : NetworkInterface) (frame : EthernetFrame) : NetworkInterface → Prop
  | same : (∀ arp, ¬ Teaches n frame arp) → Received n frame n
  | learned {arp : ARPMessage} {frames replies : List EthernetFrame} : Teaches n frame arp →
      Wraps arp.senderEthernetAddress (n.waiting arp.senderIpAddress) frames →
      (∀ f ∈ replies, f.header.type = EthernetHeader.typeARP) →
      Received n frame
        (n.taught arp.senderIpAddress arp.senderEthernetAddress (frames ++ replies))

theorem Teaches.recvFrame_eq {n : NetworkInterface} {frame : EthernetFrame} {arp : ARPMessage}
    (h : Teaches n frame arp) :
    n.recvFrame frame = n.learn arp >>= fun m => .ok (none, m) := by
  obtain ⟨buffer, hb, hp⟩ := h.message
  simp only [recvFrame, h.valid, Bool.not_true, Bool.false_eq_true, ↓reduceIte, beq_iff_eq, h.type,
    hb, hp, Exec.ok_bind, Exec.pure_ok]

/-- Without an ARP message `recv_frame` leaves the interface alone. -/
theorem recvFrame_same {n m : NetworkInterface} {frame : EthernetFrame}
    {ret : Option IPv4Datagram} (hno : ∀ arp, ¬ Teaches n frame arp)
    (h : n.recvFrame frame = .ok (ret, m)) : m = n := by
  unfold recvFrame at h
  split at h
  · cases h
    rfl
  · rename_i hvalid
    rw [Bool.not_eq_true, Bool.not_eq_false'] at hvalid
    split at h
    · obtain ⟨buffer, _, h⟩ := Exec.bind_eq_ok.mp h
      obtain ⟨⟨res, dgram⟩, _, h⟩ := Exec.bind_eq_ok.mp h
      cases h
      rfl
    · rename_i htype
      obtain ⟨buffer, hb, h⟩ := Exec.bind_eq_ok.mp h
      obtain ⟨⟨res, arp⟩, hp, h⟩ := Exec.bind_eq_ok.mp h
      dsimp only at h
      split at h
      · rename_i hres
        rw [beq_iff_eq] at hres htype
        exact absurd ⟨hvalid, htype, buffer, hb, hres ▸ hp⟩ (hno arp)
      · cases h
        rfl

/-- A datagram handed over is the one in the frame. -/
theorem recvFrame_handed {n m : NetworkInterface} {frame : EthernetFrame} {dgram : IPv4Datagram}
    (h : n.recvFrame frame = .ok (some dgram, m)) :
    n.validFrame frame = true ∧ frame.header.type = EthernetHeader.typeIPv4 ∧
      ∃ buffer, frame.payload.toBuffer = .ok buffer ∧
        IPv4Datagram.parse {} buffer = .ok (.noError, dgram) := by
  unfold recvFrame at h
  split at h
  · cases h
  · rename_i hvalid
    rw [Bool.not_eq_true, Bool.not_eq_false'] at hvalid
    split at h
    · rename_i htype
      obtain ⟨buffer, hb, h⟩ := Exec.bind_eq_ok.mp h
      obtain ⟨⟨res, d⟩, hp, h⟩ := Exec.bind_eq_ok.mp h
      obtain ⟨hret, -⟩ := Prod.mk.inj (Except.ok.inj h)
      obtain ⟨hres, hd⟩ := Option.ite_none_right_eq_some.mp hret
      cases hd
      rw [beq_iff_eq] at hres htype
      exact ⟨hvalid, htype, buffer, hb, hres ▸ hp⟩
    · obtain ⟨buffer, -, h⟩ := Exec.bind_eq_ok.mp h
      obtain ⟨⟨res, arp⟩, -, h⟩ := Exec.bind_eq_ok.mp h
      dsimp only at h
      split at h
      · obtain ⟨k, -, h⟩ := Exec.bind_eq_ok.mp h
        cases h
      · cases h

theorem answer_ok (n : NetworkInterface) (arp : ARPMessage) :
    ∃ replies, (∀ f ∈ replies, Replies f) ∧
      n.answer arp = .ok { n with framesOut := n.framesOut ++ replies } := by
  unfold answer
  split
  · obtain ⟨payload, hp, hr⟩ := n.sendARPReply_ok arp.senderIpAddress arp.senderEthernetAddress
    exact ⟨[_], by simpa using hr, hp⟩
  · exact ⟨[], by simp, by simp⟩

theorem learn_ok {n m : NetworkInterface} {arp : ARPMessage} (h : n.learn arp = .ok m) :
    ∃ frames replies, Wraps arp.senderEthernetAddress (n.waiting arp.senderIpAddress) frames ∧
      (∀ f ∈ replies, Replies f) ∧
      m = n.taught arp.senderIpAddress arp.senderEthernetAddress (frames ++ replies) := by
  obtain ⟨k, hk, hm⟩ := Exec.bind_eq_ok.mp h
  rw [clearWaitinglist_eq] at hk
  obtain ⟨k', hk', hk⟩ := Exec.bind_eq_ok.mp hk
  cases hk
  obtain ⟨frames, hw, rfl⟩ := flush_ok hk'
  obtain ⟨replies, hr, ha⟩ := answer_ok _ arp
  rw [ha] at hm
  cases hm
  exact ⟨frames, replies, hw, hr, by simp [taught, cacheMapping]⟩

/-- An ARP message is taken in when the datagrams waiting for its sender can be
serialized. -/
theorem learn_returns {n : NetworkInterface} (arp : ARPMessage)
    (h : ∀ dgram ∈ n.waiting arp.senderIpAddress, ∃ payload, dgram.serialize = .ok payload) :
    ∃ m, n.learn arp = .ok m := by
  obtain ⟨k, hk⟩ := @flush_returns arp.senderEthernetAddress _ h
    (n.cacheMapping arp.senderIpAddress arp.senderEthernetAddress)
  have hclear : (n.cacheMapping arp.senderIpAddress arp.senderEthernetAddress).clearWaitinglist
      arp.senderIpAddress arp.senderEthernetAddress =
        .ok { k with queueMap := Function.update k.queueMap arp.senderIpAddress none } := by
    rw [clearWaitinglist_eq]
    exact Exec.bind_eq_ok.mpr ⟨k, hk, rfl⟩
  obtain ⟨replies, _, ha⟩ := answer_ok
    { k with queueMap := Function.update k.queueMap arp.senderIpAddress none } arp
  exact ⟨_, Exec.bind_eq_ok.mpr ⟨_, hclear, ha⟩⟩

theorem Teaches.recvFrame_ok {n m : NetworkInterface} {frame : EthernetFrame} {arp : ARPMessage}
    {ret : Option IPv4Datagram} (ht : Teaches n frame arp)
    (h : n.recvFrame frame = .ok (ret, m)) :
    ∃ frames replies, Wraps arp.senderEthernetAddress (n.waiting arp.senderIpAddress) frames ∧
      (∀ f ∈ replies, Replies f) ∧
      m = n.taught arp.senderIpAddress arp.senderEthernetAddress (frames ++ replies) := by
  rw [ht.recvFrame_eq] at h
  obtain ⟨k, hk, h⟩ := Exec.bind_eq_ok.mp h
  cases h
  exact learn_ok hk

theorem recvFrame_spec {n m : NetworkInterface} {frame : EthernetFrame} {ret : Option IPv4Datagram}
    (h : n.recvFrame frame = .ok (ret, m)) : Received n frame m := by
  by_cases ht : ∃ arp, Teaches n frame arp
  · obtain ⟨arp, ht⟩ := ht
    obtain ⟨frames, replies, hw, hr, rfl⟩ := ht.recvFrame_ok h
    exact .learned ht hw fun f hf => (hr f hf).type
  · have hno : ∀ arp, ¬ Teaches n frame arp := fun arp h => ht ⟨arp, h⟩
    rw [recvFrame_same hno h]
    exact .same hno

/-! ## Frames that are not for the interface -/

/-- There is nothing in the message that the interface does not have already. -/
structure Known (n : NetworkInterface) (arp : ARPMessage) : Prop where
  cached : n.cache arp.senderIpAddress =
    some { cachingTime := 0, macAddress := arp.senderEthernetAddress }
  quiet : n.queueMap arp.senderIpAddress = none
  unasked : ¬ (arp.opcode = ARPMessage.opcodeRequest ∧ arp.targetIpAddress = n.ipAddress)

/-- When nothing waits for the sender, its address is noted and a request is answered. -/
theorem learn_quiet {n : NetworkInterface} {arp : ARPMessage}
    (h : n.queueMap arp.senderIpAddress = none) :
    n.learn arp = (n.taught arp.senderIpAddress arp.senderEthernetAddress []).answer arp := by
  have hnone : (n.cacheMapping arp.senderIpAddress arp.senderEthernetAddress).waiting
      arp.senderIpAddress = [] := by
    simp [waiting, cacheMapping, h]
  simp only [learn, clearWaitinglist_eq, hnone, List.foldlM_nil, Exec.pure_ok, Exec.ok_bind,
    taught, List.append_nil]
  rfl

/-- What a known message says is there already. -/
theorem Known.taught_eq {n : NetworkInterface} {arp : ARPMessage} (h : Known n arp) :
    n.taught arp.senderIpAddress arp.senderEthernetAddress [] = n := by
  simp only [taught, cacheMapping, ← h.cached, ← h.quiet, Function.update_eq_self,
    List.append_nil]

theorem answer_unasked {n : NetworkInterface} {arp : ARPMessage}
    (h : ¬ (arp.opcode = ARPMessage.opcodeRequest ∧ arp.targetIpAddress = n.ipAddress)) :
    n.answer arp = .ok n := by
  rw [answer, if_neg]
  rwa [Bool.and_eq_true, beq_iff_eq, beq_iff_eq]

/-- An answer goes out as a frame. -/
theorem answer_asked {n : NetworkInterface} {arp : ARPMessage}
    (h : arp.opcode = ARPMessage.opcodeRequest ∧ arp.targetIpAddress = n.ipAddress) :
    ∃ frame, n.answer arp = .ok (n.push frame) := by
  obtain ⟨payload, hp, -⟩ := n.sendARPReply_ok arp.senderIpAddress arp.senderEthernetAddress
  refine ⟨n.frameTo EthernetHeader.typeARP arp.senderEthernetAddress payload, ?_⟩
  rw [answer, if_pos, hp]
  rwa [Bool.and_eq_true, beq_iff_eq, beq_iff_eq]

/-- A message changes the interface unless all of it is known. -/
theorem learn_eq_iff {n : NetworkInterface} {arp : ARPMessage} :
    n.learn arp = .ok n ↔ Known n arp := by
  constructor
  · intro h
    obtain ⟨frames, replies, -, -, htaught⟩ := learn_ok h
    have hquiet : n.queueMap arp.senderIpAddress = none := by
      rw [htaught]
      exact Function.update_self ..
    refine ⟨?_, hquiet, ?_⟩
    · rw [htaught]
      exact Function.update_self ..
    · intro hasked
      obtain ⟨frame, ha⟩ := answer_asked
        (n := n.taught arp.senderIpAddress arp.senderEthernetAddress []) hasked
      rw [learn_quiet hquiet, ha] at h
      have hframes := congrArg framesOut (Except.ok.inj h)
      simp [push, taught] at hframes
  · intro h
    rw [learn_quiet h.quiet, h.taught_eq]
    exact answer_unasked h.unasked

section
variable {n : NetworkInterface} {frame : EthernetFrame} {buffer : Buffer}

theorem validFrame_iff : n.validFrame frame = true ↔
    frame.header.dst = n.ethernetAddress ∨ frame.header.dst = ethernetBroadcast := by
  rw [validFrame, Bool.or_eq_true, beq_iff_eq, beq_iff_eq]

theorem recvFrame_invalid (h : n.validFrame frame = false) :
    n.recvFrame frame = .ok (none, n) := by
  simp only [recvFrame, h, Bool.not_false, ↓reduceIte, Exec.pure_ok]

/-- A frame of type IPv4 gives a datagram or nothing. -/
theorem recvFrame_ipv4 (hb : frame.payload.toBuffer = .ok buffer)
    (h : frame.header.type = EthernetHeader.typeIPv4) :
    ∃ ret, n.recvFrame frame = .ok (ret, n) := by
  obtain ⟨res, dgram, hp⟩ := IPv4Datagram.parse_returns buffer
  cases hvalid : n.validFrame frame with
  | false => exact ⟨_, recvFrame_invalid hvalid⟩
  | true =>
    simp only [recvFrame, hvalid, Bool.not_true, Bool.false_eq_true, ↓reduceIte, h,
      beq_self_eq_true, hb, hp, Exec.ok_bind, Exec.pure_ok]
    exact ⟨_, rfl⟩

theorem teaches_supported (hb : frame.payload.toBuffer = .ok buffer)
    (hvalid : n.validFrame frame = true) (htype : frame.header.type ≠ EthernetHeader.typeIPv4)
    (h : ARPMessage.Supported buffer.str) :
    Teaches n frame (ARPMessage.ofBytes buffer.str) := by
  obtain ⟨res, arp, hp, hres, harp⟩ := ARPMessage.parse_spec {} buffer
  obtain rfl := hres.mpr h
  exact ⟨hvalid, htype, buffer, hb, harp rfl ▸ hp⟩

/-- Any other that is for this interface is taken for an ARP message. -/
theorem recvFrame_arp (hb : frame.payload.toBuffer = .ok buffer)
    (hvalid : n.validFrame frame = true) (htype : frame.header.type ≠ EthernetHeader.typeIPv4) :
    n.recvFrame frame = .ok (none, n) ↔
      (ARPMessage.Supported buffer.str → Known n (ARPMessage.ofBytes buffer.str)) := by
  by_cases hsupported : ARPMessage.Supported buffer.str
  · rw [(teaches_supported hb hvalid htype hsupported).recvFrame_eq, ← learn_eq_iff]
    constructor
    · intro h _
      obtain ⟨m, hm, h⟩ := Exec.bind_eq_ok.mp h
      cases h
      exact hm
    · intro h
      rw [h hsupported]
      rfl
  · obtain ⟨res, arp, hp, hres, -⟩ := ARPMessage.parse_spec {} buffer
    have hbad : res ≠ .noError := fun h => hsupported (hres.mp h)
    refine iff_of_true ?_ (fun h => absurd h hsupported)
    simp only [recvFrame, hvalid, Bool.not_true, Bool.false_eq_true, ↓reduceIte, beq_iff_eq, htype,
      hb, hp, Exec.ok_bind, Exec.pure_ok, hbad]

/-- A contiguous frame is taken in when the datagrams that wait can be serialized. -/
theorem recvFrame_contiguous (hb : frame.payload.toBuffer = .ok buffer)
    (h : ∀ ip, ∀ dgram ∈ n.waiting ip, ∃ payload, dgram.serialize = .ok payload) :
    ∃ ret m, n.recvFrame frame = .ok (ret, m) := by
  cases hvalid : n.validFrame frame with
  | false => exact ⟨_, _, recvFrame_invalid hvalid⟩
  | true =>
    by_cases htype : frame.header.type = EthernetHeader.typeIPv4
    · obtain ⟨ret, hret⟩ := recvFrame_ipv4 (n := n) hb htype
      exact ⟨ret, n, hret⟩
    · by_cases hsupported : ARPMessage.Supported buffer.str
      · obtain ⟨m, hm⟩ := learn_returns (ARPMessage.ofBytes buffer.str) (h _)
        refine ⟨none, m, ?_⟩
        rw [(teaches_supported hb hvalid htype hsupported).recvFrame_eq, hm]
        rfl
      · exact ⟨none, n, (recvFrame_arp hb hvalid htype).mpr fun h => absurd h hsupported⟩

/-- What a frame may be so that the interface has to ignore it. -/
inductive Foreign (n : NetworkInterface) (frame : EthernetFrame) (b : List Byte) : Prop
  | dst : frame.header.dst ≠ n.ethernetAddress → frame.header.dst ≠ ethernetBroadcast →
      Foreign n frame b
  | type : frame.header.type ≠ EthernetHeader.typeIPv4 →
      frame.header.type ≠ EthernetHeader.typeARP → Foreign n frame b
  | payload : frame.header.type = EthernetHeader.typeARP → ¬ ARPMessage.Supported b →
      Foreign n frame b

/-- A frame of another type that is taken for an ARP message with news. -/
structure Mistaken (n : NetworkInterface) (frame : EthernetFrame) (b : List Byte) : Prop where
  valid : frame.header.dst = n.ethernetAddress ∨ frame.header.dst = ethernetBroadcast
  notIPv4 : frame.header.type ≠ EthernetHeader.typeIPv4
  notARP : frame.header.type ≠ EthernetHeader.typeARP
  supported : ARPMessage.Supported b
  news : ¬ Known n (ARPMessage.ofBytes b)

theorem Foreign.ignored (hb : frame.payload.toBuffer = .ok buffer)
    (h : Foreign n frame buffer.str) (hnot : ¬ Mistaken n frame buffer.str) :
    n.recvFrame frame = .ok (none, n) := by
  cases hvalid : n.validFrame frame with
  | false => exact recvFrame_invalid hvalid
  | true =>
    cases h with
    | dst hown hbroadcast =>
      obtain heq | heq := validFrame_iff.mp hvalid
      · exact absurd heq hown
      · exact absurd heq hbroadcast
    | type hipv4 harp =>
      refine (recvFrame_arp hb hvalid hipv4).mpr ?_
      intro hsupported
      by_contra hnews
      exact hnot ⟨validFrame_iff.mp hvalid, hipv4, harp, hsupported, hnews⟩
    | payload harp hbad =>
      have hipv4 : frame.header.type ≠ EthernetHeader.typeIPv4 := by
        rw [harp]
        decide
      exact (recvFrame_arp hb hvalid hipv4).mpr fun h => absurd h hbad

/-- **Frames that are not for the interface.** They are ignored, and a frame of type IPv4
changes nothing, except for one case: a frame whose type is neither IPv4 nor ARP is taken for an
ARP message if its payload spells one. -/
theorem recv_frame_ignores_iff (n : NetworkInterface) (frame : EthernetFrame) {buffer : Buffer}
    (hb : frame.payload.toBuffer = .ok buffer) :
    ((Foreign n frame buffer.str → n.recvFrame frame = .ok (none, n)) ∧
      (frame.header.type = EthernetHeader.typeIPv4 → ∃ ret, n.recvFrame frame = .ok (ret, n))) ↔
    ¬ Mistaken n frame buffer.str := by
  constructor
  · rintro ⟨hforeign, -⟩ hmistaken
    have hsame := hforeign (.type hmistaken.notIPv4 hmistaken.notARP)
    rw [recvFrame_arp hb (validFrame_iff.mpr hmistaken.valid) hmistaken.notIPv4] at hsame
    exact hmistaken.news (hsame hmistaken.supported)
  · intro hnot
    exact ⟨fun h => h.ignored hb hnot, recvFrame_ipv4 hb⟩

end

/-- An ARP message in a frame of type `0x86dd`, which is IPv6. -/
def mistaken : EthernetFrame where
  header := { dst := ethernetBroadcast, src := Vector.replicate 6 2, type := 0x86dd }
  payload := .ofString ([0, 1, 8, 0, 6, 4, 0, 2] ++ List.replicate 6 2 ++ [0, 0, 0, 9] ++
    List.replicate 6 1 ++ [0, 0, 0, 7])

/-- The same message for another interface. -/
def overheard : EthernetFrame :=
  { mistaken with header := { mistaken.header with dst := Vector.replicate 6 3 } }

/-- An interface that knows one address, waits for another and has a frame to send. -/
def occupied : NetworkInterface where
  ethernetAddress := Vector.replicate 6 1
  ipAddress := 7
  framesOut := [mistaken]
  cache := fun ip =>
    if ip = 8 then some { cachingTime := 100, macAddress := Vector.replicate 6 8 } else none
  queueMap := fun ip => if ip = 9 then some { waitingDatagram := [{}] } else none

theorem recv_frame_ignores_iff_overheard :
    Foreign occupied overheard overheard.payload.concatenate ∧
      occupied.recvFrame overheard = .ok (none, occupied) := by
  have hforeign : Foreign occupied overheard overheard.payload.concatenate :=
    .dst (by decide) (by decide)
  have hnot : ¬ Mistaken occupied overheard overheard.payload.concatenate := by
    intro h
    exact absurd h.valid (by decide)
  exact ⟨hforeign, ((recv_frame_ignores_iff occupied overheard rfl).mpr hnot).1 hforeign⟩

/-- The frame is not ignored: the address in it is noted. -/
theorem other_type_learned :
    Foreign (new (Vector.replicate 6 1) 7) mistaken mistaken.payload.concatenate ∧
    ((new (Vector.replicate 6 1) 7).recvFrame mistaken).toOption.map
      (fun r => r.2.getEthernetAdress 9) = some (some (Vector.replicate 6 2)) ∧
    (new (Vector.replicate 6 1) 7).getEthernetAdress 9 = none :=
  ⟨.type (by decide) (by decide), by decide +kernel, rfl⟩

end NetworkInterface

end Sponge
