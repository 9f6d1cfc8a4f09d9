import Sponge.Delivery
import Sponge.Lib.History

/-!
# Fresh Ethernet addresses

Any interleaving of datagrams to send, frames that arrive and ticks. The clock beside the
interface is the total of the ticks, and the log has the datagrams submitted, the ARP
messages accepted and the IPv4 frames pushed, in the order in which that happens.

* `mappings_fresh`: every IPv4 frame for a hop goes to the address in the last ARP message
  from that hop, which is less than thirty seconds old.
-/

namespace Sponge.ArpFreshness

open NetworkInterface History
open Delivery (Call isIPv4 pushedIPv4 pushedIPv4_append pushedIPv4_learned filter_ipv4 filter_arp)

inductive Entry
  | submitted (hop : UInt32) (dgram : IPv4Datagram)
  | accepted (arp : ARPMessage) (time : Nat)
  | pushed (hop : UInt32) (frame : EthernetFrame) (time : Nat)

/-- The frame of an entry, if it is one. -/
def Entry.frame : Entry → Option EthernetFrame
  | .pushed _ frame _ => some frame
  | .submitted _ _ | .accepted _ _ => none

/-- The message of an entry and its time, if it is one from `hop`. -/
def Entry.heardFrom (hop : UInt32) : Entry → Option (ARPMessage × Nat)
  | .accepted arp time => if arp.senderIpAddress = hop then some (arp, time) else none
  | .submitted _ _ | .pushed _ _ _ => none

/-- The last ARP message from `hop`. -/
def latest (hop : UInt32) (log : List Entry) : Option (ARPMessage × Nat) :=
  log.reverse.findSome? (Entry.heardFrom hop)

/-- The ARP message that an interface accepts in a frame. -/
def message (n : NetworkInterface) (frame : EthernetFrame) : Option ARPMessage :=
  if n.validFrame frame && !isIPv4 frame then
    match frame.payload.toBuffer with
    | .error _ => none
    | .ok buffer =>
      match ARPMessage.parse {} buffer with
      | .ok (.noError, arp) => some arp
      | _ => none
  else none

structure State where
  iface : NetworkInterface
  clock : Nat
  log : List Entry

def init (ethernetAddress : EthernetAddress) (ipAddress : UInt32) : State :=
  ⟨.new ethernetAddress ipAddress, 0, []⟩

/-- The IPv4 frames pushed by a call go into the log, under the hop `hop`. -/
def pushes (s : State) (iface : NetworkInterface) (hop : UInt32) : List Entry :=
  (pushedIPv4 s.iface iface).map fun frame => .pushed hop frame s.clock

def step (s : State) : Call → Except Fault State
  | .sendDatagram dgram nextHop => do
    let iface ← s.iface.sendDatagram dgram nextHop
    return { s with
      iface := iface
      log := s.log ++ .submitted nextHop dgram :: pushes s iface nextHop }
  | .recvFrame frame => do
    let (_, iface) ← s.iface.recvFrame frame
    return { s with
      iface := iface
      log := s.log ++ (message s.iface frame).toList.flatMap fun arp =>
        .accepted arp s.clock :: pushes s iface arp.senderIpAddress }
  | .tick ms => .ok { s with iface := s.iface.tick ms, clock := s.clock + ms }

/-- The ticks stay below `2 ^ 64` in total. -/
def InTime (s : State) : Call → Prop
  | .tick ms => s.clock + ms < 2 ^ 64
  | .sendDatagram _ _ | .recvFrame _ => True

instance (s : State) : (c : Call) → Decidable (InTime s c)
  | .tick _ => inferInstanceAs (Decidable (_ < _))
  | .sendDatagram _ _ | .recvFrame _ => inferInstanceAs (Decidable True)

/-- A frame pushed carries a datagram submitted for its hop, to the address in the last ARP
message from there, and that message is less than thirty seconds old. -/
def Fresh (before : List Entry) : Entry → Prop
  | .pushed hop frame time =>
    (∃ arp t, latest hop before = some (arp, t) ∧ frame.header.dst = arp.senderEthernetAddress ∧
      t ≤ time ∧ time < t + 30000) ∧
    ∃ dgram, Entry.submitted hop dgram ∈ before ∧ dgram.serialize = .ok frame.payload
  | .submitted _ _ | .accepted _ _ => True

/-! ## The log -/

theorem latest_snoc (hop : UInt32) (log : List Entry) (e : Entry) :
    latest hop (log ++ [e]) = (e.heardFrom hop).or (latest hop log) := by
  simp only [latest, List.reverse_append, List.reverse_singleton, List.singleton_append,
    List.findSome?_cons]
  cases e.heardFrom hop <;> rfl

theorem latest_other {hop : UInt32} {e : Entry} (log : List Entry) (h : e.heardFrom hop = none) :
    latest hop (log ++ [e]) = latest hop log := by
  rw [latest_snoc, h]
  rfl

theorem latest_pushes (hop other : UInt32) (log : List Entry) (frames : List EthernetFrame)
    (time : Nat) :
    latest hop (log ++ frames.map fun frame => .pushed other frame time) = latest hop log := by
  induction frames generalizing log with
  | nil => rw [List.map_nil, List.append_nil]
  | cons frame rest ih =>
    rw [List.map_cons, List.append_cons, ih]
    exact latest_other log rfl

theorem message_iff {n : NetworkInterface} {frame : EthernetFrame} {arp : ARPMessage} :
    message n frame = some arp ↔ Teaches n frame arp := by
  constructor
  · intro h
    unfold message at h
    split at h
    · rename_i hvalid
      rw [Bool.and_eq_true] at hvalid
      split at h
      · cases h
      · rename_i buffer hbuffer
        split at h
        · rename_i arp' hparse
          cases h
          exact ⟨hvalid.1, by simpa [isIPv4] using hvalid.2, buffer, hbuffer, hparse⟩
        · cases h
    · cases h
  · rintro ⟨hvalid, htype, buffer, hbuffer, hparse⟩
    simp [message, hvalid, isIPv4, htype, hbuffer, hparse]

/-- The frames of one call are fresh when the last message from their hop is. -/
theorem throughout_pushes {log : List Entry} {hop : UInt32} {dgrams : List IPv4Datagram}
    {frames : List EthernetFrame} {arp : ARPMessage} {t time : Nat}
    (h : Throughout Fresh log) (hlatest : latest hop log = some (arp, t)) (hle : t ≤ time)
    (hyoung : time < t + 30000) (hw : Wraps arp.senderEthernetAddress dgrams frames)
    (hsub : ∀ dgram ∈ dgrams, Entry.submitted hop dgram ∈ log) :
    Throughout Fresh (log ++ frames.map fun frame => .pushed hop frame time) := by
  induction frames generalizing log dgrams with
  | nil => rwa [List.map_nil, List.append_nil]
  | cons frame rest ih =>
    obtain ⟨dgram, dgrams, rfl, hp, hps⟩ := List.map_eq_cons_iff.mp hw.payloads
    rw [List.map_cons, List.append_cons]
    refine @ih (log ++ [.pushed hop frame time]) dgrams ?_ ?_ ?_ ?_
    · apply h.snoc
      exact ⟨⟨arp, t, hlatest, hw.dst frame List.mem_cons_self, hle, hyoung⟩, dgram,
        hsub dgram List.mem_cons_self, hp⟩
    · rw [latest_other log rfl, hlatest]
    · exact ⟨hps, fun f hf => hw.dst f (List.mem_cons_of_mem _ hf),
        fun f hf => hw.type f (List.mem_cons_of_mem _ hf)⟩
    · intro d hd
      exact List.mem_append_left _ (hsub d (List.mem_cons_of_mem _ hd))

/-! ## The cache -/

/-- The entry for `hop` is that of the last message from there, and as old as that. -/
structure Cached (s : State) (hop : UInt32) (entry : EthernetAddressEntry) : Prop where
  young : entry.cachingTime < maxCacheTime
  message : ∃ arp t, latest hop s.log = some (arp, t) ∧
    entry.macAddress = arp.senderEthernetAddress ∧ t + entry.cachingTime = s.clock

structure Sound (s : State) : Prop where
  cached : ∀ hop entry, s.iface.cache hop = some entry → Cached s hop entry
  waiting : ∀ hop, ∀ dgram ∈ s.iface.waiting hop, Entry.submitted hop dgram ∈ s.log
  fresh : Throughout Fresh s.log
  accounted : s.log.filterMap Entry.frame = s.iface.framesOut.filter isIPv4

theorem sound_init (ethernetAddress : EthernetAddress) (ipAddress : UInt32) :
    Sound (init ethernetAddress ipAddress) where
  cached := by simp [init, NetworkInterface.new]
  waiting := by simp [init, NetworkInterface.new, NetworkInterface.waiting]
  fresh := throughout_nil
  accounted := rfl

/-- Entries that are no messages leave the cache as it is. -/
theorem Cached.more {s t : State} {hop : UInt32} {entry : EthernetAddressEntry}
    (h : Cached s hop entry) (hclock : t.clock = s.clock)
    (hlatest : latest hop t.log = latest hop s.log) : Cached t hop entry := by
  refine ⟨h.young, ?_⟩
  rw [hlatest, hclock]
  exact h.message

theorem frames_pushes (s : State) (iface : NetworkInterface) (hop : UInt32) :
    (pushes s iface hop).filterMap Entry.frame = pushedIPv4 s.iface iface := by
  rw [pushes, List.filterMap_map]
  exact List.filterMap_some

theorem accounted_pushes {s : State} {iface : NetworkInterface} {frames : List EthernetFrame}
    (h : s.log.filterMap Entry.frame = s.iface.framesOut.filter isIPv4)
    (hframes : iface.framesOut = s.iface.framesOut ++ frames) (hop : UInt32) {e : Entry}
    (he : e.frame = none) :
    (s.log ++ e :: pushes s iface hop).filterMap Entry.frame = iface.framesOut.filter isIPv4 := by
  rw [List.filterMap_append, List.filterMap_cons_none he, frames_pushes, h,
    pushedIPv4_append hframes, hframes, List.filter_append]

/-- A call of `send_datagram` that leaves the interface `m`. -/
theorem Sound.submit {s : State} {m : NetworkInterface} {dgram : IPv4Datagram} {hop : UInt32}
    {frames : List EthernetFrame} (h : Sound s) (hcache : m.cache = s.iface.cache)
    (hframes : m.framesOut = s.iface.framesOut ++ frames)
    (hwaiting : ∀ other, ∀ d ∈ m.waiting other, d ∈ s.iface.waiting other ∨ other = hop ∧ d = dgram)
    (hfresh : Throughout Fresh (s.log ++ .submitted hop dgram :: pushes s m hop)) :
    Sound { s with iface := m, log := s.log ++ .submitted hop dgram :: pushes s m hop } := by
  constructor
  · intro other entry hentry
    refine (h.cached other entry (by rwa [← hcache])).more rfl ?_
    change latest other (s.log ++ .submitted hop dgram :: pushes s m hop) = latest other s.log
    rw [List.append_cons, pushes, latest_pushes, latest_other _ rfl]
  · intro other d hd
    rcases hwaiting other d hd with hold | ⟨rfl, rfl⟩
    · exact List.mem_append_left _ (h.waiting other d hold)
    · exact List.mem_append_right _ List.mem_cons_self
  · exact hfresh
  · exact accounted_pushes h.accounted hframes hop rfl

theorem sound_send {s t : State} {dgram : IPv4Datagram} {hop : UInt32} (h : Sound s)
    (ht : step s (.sendDatagram dgram hop) = .ok t) : Sound t := by
  obtain ⟨m, hm, ht⟩ := Exec.bind_eq_ok.mp ht
  cases ht
  have hsub : Throughout Fresh (s.log ++ [.submitted hop dgram]) := h.fresh.snoc trivial
  cases sendDatagram_spec hm with
  | @out entry payload hc hp =>
    obtain ⟨hyoung, arp, t, hlatest, hmac, htime⟩ := h.cached hop entry hc
    rw [maxCacheTime] at hyoung
    refine h.submit rfl rfl (fun _ _ hd => .inl hd) ?_
    rw [List.append_cons, pushes, pushedIPv4_append rfl, filter_ipv4 (by simp [frameTo])]
    have hw : Wraps arp.senderEthernetAddress [dgram]
        [s.iface.frameTo EthernetHeader.typeIPv4 entry.macAddress payload] :=
      ⟨by simp [hp, frameTo], by simp [frameTo, hmac], by simp [frameTo]⟩
    exact throughout_pushes hsub (by rw [latest_other _ rfl, hlatest]) (by omega) (by omega) hw
      (by simp)
  | @queued payload hc hq =>
    refine h.submit rfl rfl ?_ ?_
    · intro other d hd
      have hwait : ((s.iface.newWaitList hop dgram).push
          (s.iface.frameTo EthernetHeader.typeARP ethernetBroadcast payload)).waiting =
          Function.update s.iface.waiting hop [dgram] := s.iface.waiting_newWaitList hop dgram
      rw [hwait] at hd
      by_cases heq : other = hop
      · subst heq
        rw [Function.update_self] at hd
        exact .inr ⟨rfl, List.mem_singleton.mp hd⟩
      · rw [Function.update_of_ne heq] at hd
        exact .inl hd
    · rw [pushes, pushedIPv4_append rfl, filter_arp (by simp [frameTo])]
      exact hsub
  | dropped hc hq hr =>
    refine h.submit rfl rfl (fun _ _ hd => .inl hd) ?_
    rw [pushes, pushedIPv4_append rfl, filter_arp hr]
    exact hsub

/-- An ARP message is the newest of its sender, and of age zero. -/
theorem sound_learned {s : State} {arp : ARPMessage} {frames replies : List EthernetFrame}
    (h : Sound s)
    (hw : Wraps arp.senderEthernetAddress (s.iface.waiting arp.senderIpAddress) frames)
    (hr : ∀ f ∈ replies, f.header.type = EthernetHeader.typeARP) :
    Sound { s with
      iface := s.iface.taught arp.senderIpAddress arp.senderEthernetAddress (frames ++ replies)
      log := s.log ++ .accepted arp s.clock :: pushes s
        (s.iface.taught arp.senderIpAddress arp.senderEthernetAddress (frames ++ replies))
        arp.senderIpAddress } := by
  have hpushes : pushes s
      (s.iface.taught arp.senderIpAddress arp.senderEthernetAddress (frames ++ replies))
      arp.senderIpAddress = frames.map fun frame => .pushed arp.senderIpAddress frame s.clock := by
    rw [pushes, pushedIPv4_learned hw hr]
  have hlatest : ∀ hop, latest hop (s.log ++ [.accepted arp s.clock]) =
      if arp.senderIpAddress = hop then some (arp, s.clock) else latest hop s.log := by
    intro hop
    rw [latest_snoc, Entry.heardFrom]
    split
    · rfl
    · rfl
  constructor
  · intro hop entry hentry
    have hlog : latest hop (s.log ++ .accepted arp s.clock :: pushes s (s.iface.taught
        arp.senderIpAddress arp.senderEthernetAddress (frames ++ replies)) arp.senderIpAddress) =
        if arp.senderIpAddress = hop then some (arp, s.clock) else latest hop s.log := by
      rw [hpushes, List.append_cons, latest_pushes, hlatest]
    by_cases heq : hop = arp.senderIpAddress
    · subst heq
      cases hentry.symm.trans (Function.update_self _ _ _)
      refine ⟨show 0 < maxCacheTime by decide, arp, s.clock, ?_, rfl, rfl⟩
      exact hlog.trans (if_pos rfl)
    · have hold : s.iface.cache hop = some entry :=
        (Function.update_of_ne heq _ _).symm.trans hentry
      exact (h.cached hop entry hold).more rfl (hlog.trans (if_neg (Ne.symm heq)))
  · intro hop d hd
    rw [waiting_taught] at hd
    by_cases heq : hop = arp.senderIpAddress
    · rw [heq, Function.update_self] at hd
      cases hd
    · rw [Function.update_of_ne heq] at hd
      exact List.mem_append_left _ (h.waiting hop d hd)
  · change Throughout Fresh (s.log ++ .accepted arp s.clock :: pushes s _ _)
    rw [hpushes, List.append_cons]
    refine throughout_pushes (h.fresh.snoc trivial) ((hlatest _).trans (if_pos rfl))
      (Nat.le_refl _) (by omega) hw ?_
    intro d hd
    exact List.mem_append_left _ (h.waiting _ d hd)
  · exact accounted_pushes h.accounted rfl _ rfl

theorem sound_recv {s t : State} {frame : EthernetFrame} (h : Sound s)
    (ht : step s (.recvFrame frame) = .ok t) : Sound t := by
  obtain ⟨⟨ret, m⟩, hm, ht⟩ := Exec.bind_eq_ok.mp ht
  cases ht
  cases recvFrame_spec hm with
  | same hno =>
    have hnone : message s.iface frame = none := by
      cases hmsg : message s.iface frame with
      | none => rfl
      | some arp => exact absurd (message_iff.mp hmsg) (hno arp)
    simp only [hnone, Option.toList_none, List.flatMap_nil, List.append_nil]
    exact h
  | @learned arp frames replies hteaches hw hr =>
    simp only [message_iff.mpr hteaches, Option.toList_some, List.flatMap_singleton]
    exact sound_learned h hw hr

/-- What is left of the cache after a tick is older by the tick, and still young. -/
theorem sound_tick {s t : State} {ms : Nat} (h : Sound s) (intime : InTime s (.tick ms))
    (ht : step s (.tick ms) = .ok t) : Sound t := by
  cases ht
  constructor
  · intro hop entry hentry
    obtain ⟨old, hold, hentry⟩ := Option.bind_eq_some_iff.mp hentry
    obtain ⟨-, arp, t, hlatest, hmac, htime⟩ := h.cached hop old hold
    have hlow : s.clock + ms < 2 ^ 64 := intime
    rw [Nat.mod_eq_of_lt (show old.cachingTime + ms < 2 ^ 64 by omega)] at hentry
    dsimp only at hentry
    split at hentry
    · cases hentry
    · rename_i hyoung
      cases hentry
      exact ⟨Nat.lt_of_not_le hyoung, arp, t, hlatest, hmac, by dsimp only; omega⟩
  · intro hop d hd
    rw [waiting_tick] at hd
    exact h.waiting hop d hd
  · exact h.fresh
  · exact h.accounted

theorem sound_step {s t : State} {c : Call} (h : Sound s) (intime : InTime s c)
    (ht : step s c = .ok t) : Sound t := by
  cases c with
  | sendDatagram dgram hop => exact sound_send h ht
  | recvFrame frame => exact sound_recv h ht
  | tick ms => exact sound_tick h intime ht

/-- **Mappings are fresh.** In every run whose ticks stay below `2 ^ 64` in total, each IPv4
frame pushed for a hop carries a datagram submitted for it, to the address in the last ARP
message accepted from it, less than thirty seconds before. The log has all these frames. -/
theorem mappings_fresh (ethernetAddress : EthernetAddress) (ipAddress : UInt32) (s : State)
    (h : Exec.Reach step InTime (init ethernetAddress ipAddress) s) :
    Throughout Fresh s.log ∧ s.log.filterMap Entry.frame = s.iface.framesOut.filter isIPv4 := by
  have hs : Sound s := h.invariant (sound_init ethernetAddress ipAddress)
    fun _ _ _ hs intime ht => sound_step hs intime ht
  exact ⟨hs.fresh, hs.accounted⟩

/-- A datagram waits for the answer of its hop. After 29999 ms another one still goes to that
address, and one more to the address of a second answer. -/
theorem mappings_fresh_answers :
    ∃ s, Exec.Reach step InTime (init (Vector.replicate 6 1) 1) s ∧
      (s.log.filterMap Entry.frame).map (fun f => f.header.dst) =
        [Vector.replicate 6 9, Vector.replicate 6 9, Vector.replicate 6 5] ∧
      Throughout Fresh s.log := by
  obtain ⟨s, reached, hv⟩ := Exec.reach_of_view step InTime (init (Vector.replicate 6 1) 1)
    [.sendDatagram (Delivery.emptyDatagram 1) 7,
      .recvFrame (Delivery.arpReply 7 (Vector.replicate 6 9)), .tick 29999,
      .sendDatagram (Delivery.emptyDatagram 2) 7,
      .recvFrame (Delivery.arpReply 7 (Vector.replicate 6 5)), .tick 1,
      .sendDatagram (Delivery.emptyDatagram 3) 7]
    (fun s => (s.log.filterMap Entry.frame).map fun f => f.header.dst)
    [Vector.replicate 6 9, Vector.replicate 6 9, Vector.replicate 6 5] (by decide +kernel)
  exact ⟨s, reached, hv, (mappings_fresh _ _ s reached).1⟩

end Sponge.ArpFreshness
