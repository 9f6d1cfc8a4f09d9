import Sponge.NetworkInterface

/-!
# The pace of ARP requests

Any interleaving of datagrams to send, frames that arrive, ticks, and calls by the owner
that take the frames away. The clock beside the interface is the total of the ticks, and the
log is every frame pushed, each with its time.

`queue_helper` never sets the age of a waiting list back, so that from five seconds on every
datagram for the address asks again.

* `requests_apart`: two requests for one address are five seconds apart while the datagrams
  that find an old list are;
* `requests_in_a_row`: two such datagrams at once give two requests at once.
-/

namespace Sponge.ArpRequests

open NetworkInterface

inductive Event
  | sendDatagram (dgram : IPv4Datagram) (nextHop : UInt32)
  | recvFrame (frame : EthernetFrame)
  | tick (msSinceLastTick : Nat)
  | collect

structure State where
  iface : NetworkInterface
  clock : Nat
  log : List (EthernetFrame × Nat)
  /-- When a datagram last found an old list for the address. -/
  late : UInt32 → Option Nat

def init (ethernetAddress : EthernetAddress) (ipAddress : UInt32) : State :=
  ⟨.new ethernetAddress ipAddress, 0, [], fun _ => none⟩

/-- The address is unknown, and its waiting list is at least five seconds old. -/
def findsOld (n : NetworkInterface) (ip : UInt32) : Bool :=
  (n.cache ip).isNone &&
    (n.queueMap ip).any fun waitList => waitList.timeSinceLastARPRequestSend ≥ maxRetxWaitingTime

/-- The frames pushed by a call are logged. -/
def State.after (s : State) (iface : NetworkInterface) : State :=
  { s with
    iface := iface
    log := s.log ++ (pushedSince s.iface iface).map fun frame => (frame, s.clock) }

def step (s : State) : Event → Except Fault State
  | .sendDatagram dgram nextHop => do
    let iface ← s.iface.sendDatagram dgram nextHop
    return { s.after iface with
      late := if findsOld s.iface nextHop then Function.update s.late nextHop (some s.clock)
        else s.late }
  | .recvFrame frame => do
    let (_, iface) ← s.iface.recvFrame frame
    return s.after iface
  | .tick ms => .ok { s with iface := s.iface.tick ms, clock := s.clock + ms }
  | .collect => .ok { s with iface := { s.iface with framesOut := [] } }

/-- A datagram that finds an old list comes five seconds after the last one that did. -/
def LateSendsApart (s : State) : Event → Prop
  | .sendDatagram _ nextHop => findsOld s.iface nextHop = true →
    ∀ t ∈ s.late nextHop, t + maxRetxWaitingTime ≤ s.clock
  | .recvFrame _ | .tick _ | .collect => True

instance (s : State) : (e : Event) → Decidable (LateSendsApart s e)
  | .sendDatagram _ _ => inferInstanceAs (Decidable (_ → ∀ _ ∈ _, _))
  | .recvFrame _ | .tick _ | .collect => inferInstanceAs (Decidable True)

/-! ## Requests -/

theorem Asks.unique {frame : EthernetFrame} {a b : UInt32} (ha : Asks frame a)
    (hb : Asks frame b) : a = b := by
  obtain ⟨arp, ⟨buffer, hbuf, hp⟩, -, rfl⟩ := ha.message
  obtain ⟨arp', ⟨buffer', hbuf', hp'⟩, -, rfl⟩ := hb.message
  rw [hbuf] at hbuf'
  cases hbuf'
  rw [hp] at hp'
  cases hp'
  rfl

theorem not_asks_ipv4 {frame : EthernetFrame} (h : frame.header.type = EthernetHeader.typeIPv4)
    (ip : UInt32) : ¬ Asks frame ip := by
  intro ha
  exact absurd (h.symm.trans ha.type) (by decide)

theorem not_asks_reply {frame : EthernetFrame} (h : Replies frame) (ip : UInt32) :
    ¬ Asks frame ip := by
  intro ha
  obtain ⟨arp, ⟨buffer, hbuf, hp⟩, hop, -⟩ := ha.message
  obtain ⟨arp', ⟨buffer', hbuf', hp'⟩, hop'⟩ := h.message
  rw [hbuf] at hbuf'
  cases hbuf'
  rw [hp] at hp'
  cases hp'
  exact absurd (hop.symm.trans hop') (by decide)

/-- What `send_datagram` does to the lists, and when it asks. -/
inductive Sending (n : NetworkInterface) (hop : UInt32) : NetworkInterface → Prop
  | quiet {frames : List EthernetFrame} : findsOld n hop = false →
      (∀ f ∈ frames, ∀ ip, ¬ Asks f ip) →
      Sending n hop { n with framesOut := n.framesOut ++ frames }
  | first {frame : EthernetFrame} {dgram : IPv4Datagram} : n.cache hop = none →
      n.queueMap hop = none → Asks frame hop →
      Sending n hop ((n.newWaitList hop dgram).push frame)
  | again {frame : EthernetFrame} {waitList : WaitingList} : n.cache hop = none →
      n.queueMap hop = some waitList →
      maxRetxWaitingTime ≤ waitList.timeSinceLastARPRequestSend → Asks frame hop →
      Sending n hop (n.push frame)

theorem sendDatagram_sending {n m : NetworkInterface} {dgram : IPv4Datagram} {hop : UInt32}
    (h : n.sendDatagram dgram hop = .ok m) : Sending n hop m := by
  cases hc : n.cache hop with
  | some entry =>
    rw [sendDatagram_known dgram hc] at h
    obtain ⟨payload, -, rfl⟩ := sendHelper_ok h
    apply Sending.quiet
    · simp [findsOld, hc]
    · intro f hf
      rw [List.mem_singleton.mp hf]
      exact not_asks_ipv4 rfl
  | none =>
    cases hq : n.queueMap hop with
    | none =>
      obtain ⟨payload, hp, hasks⟩ := sendDatagram_first dgram hc hq
      rw [hp] at h
      cases h
      exact .first hc hq hasks
    | some waitList =>
      by_cases hold : maxRetxWaitingTime ≤ waitList.timeSinceLastARPRequestSend
      · obtain ⟨payload, hp, hasks⟩ := sendDatagram_again dgram hc hq hold
        rw [hp] at h
        cases h
        exact .again hc hq hold hasks
      · rw [sendDatagram_young dgram hc hq hold] at h
        cases h
        have hquiet := @Sending.quiet n hop [] (by simp [findsOld, hq, Nat.lt_of_not_le hold])
          (by simp)
        rwa [List.append_nil] at hquiet

/-- An arriving frame provokes no request. -/
theorem recvFrame_quiet {n m : NetworkInterface} {frame : EthernetFrame}
    {ret : Option IPv4Datagram} (h : n.recvFrame frame = .ok (ret, m)) :
    m = n ∨ ∃ ip macAddr frames, m = n.taught ip macAddr frames ∧
      ∀ f ∈ frames, ∀ ip, ¬ Asks f ip := by
  by_cases ht : ∃ arp, Teaches n frame arp
  · obtain ⟨arp, ht⟩ := ht
    obtain ⟨frames, replies, hw, hr, rfl⟩ := ht.recvFrame_ok h
    right
    refine ⟨_, _, _, rfl, ?_⟩
    intro f hf
    rcases List.mem_append.mp hf with hf | hf
    · exact not_asks_ipv4 (hw.type f hf)
    · exact not_asks_reply (hr f hf)
  · left
    exact recvFrame_same (fun arp h => ht ⟨arp, h⟩) h

/-! ## Five seconds apart -/

/-- A request for `ip` at time `t` lies far enough back for the next one to be sent. -/
structure Spaced (s : State) (ip : UInt32) (t : Nat) : Prop where
  past : t ≤ s.clock
  cached : ∀ entry, s.iface.cache ip = some entry → t + entry.cachingTime ≤ s.clock
  unknown : s.iface.cache ip = none → s.iface.queueMap ip = none → t + maxCacheTime ≤ s.clock
  waiting : ∀ waitList, s.iface.queueMap ip = some waitList →
    t + waitList.timeSinceLastARPRequestSend ≤ s.clock ∨ ∃ u, s.late ip = some u ∧ t ≤ u

/-- Any two requests for one address are five seconds apart. -/
def RequestsApart (log : List (EthernetFrame × Nat)) : Prop :=
  log.Pairwise fun a b => ∀ ip, Asks a.1 ip → Asks b.1 ip → a.2 + maxRetxWaitingTime ≤ b.2

structure Sound (s : State) : Prop where
  spaced : ∀ f t, (f, t) ∈ s.log → ∀ ip, Asks f ip → Spaced s ip t
  apart : RequestsApart s.log
  queue : ∃ taken, s.log.map Prod.fst = taken ++ s.iface.framesOut

theorem requestsApart_quiet {log : List (EthernetFrame × Nat)} {frames : List EthernetFrame}
    {c : Nat} (h : RequestsApart log) (hquiet : ∀ f ∈ frames, ∀ ip, ¬ Asks f ip) :
    RequestsApart (log ++ frames.map fun f => (f, c)) := by
  have hnone : ∀ b ∈ frames.map fun f => (f, c), ∀ ip, ¬ Asks b.1 ip := by simpa using hquiet
  apply List.pairwise_append.mpr
  refine ⟨h, ?_, ?_⟩
  · apply List.pairwise_of_forall_mem_list
    intro a _ b hb ip _ hask
    exact absurd hask (hnone b hb ip)
  · intro a _ b hb ip _ hask
    exact absurd hask (hnone b hb ip)

theorem requestsApart_ask {log : List (EthernetFrame × Nat)} {frame : EthernetFrame} {ip : UInt32}
    {c : Nat} (h : RequestsApart log) (hask : Asks frame ip)
    (hold : ∀ f t, (f, t) ∈ log → Asks f ip → t + maxRetxWaitingTime ≤ c) :
    RequestsApart (log ++ [(frame, c)]) := by
  apply List.pairwise_append.mpr
  refine ⟨h, List.pairwise_singleton _ _, ?_⟩
  intro a ha b hb other hasks hask'
  rw [List.mem_singleton.mp hb] at hask' ⊢
  rw [Asks.unique hask' hask] at hasks
  exact hold a.1 a.2 ha hasks

/-- When the maps of the interface and the ghost stay, so do the distances. -/
theorem Spaced.frame {s t : State} {ip : UInt32} {at' : Nat} (h : Spaced s ip at')
    (hclock : t.clock = s.clock) (hcache : t.iface.cache ip = s.iface.cache ip)
    (hqueue : t.iface.queueMap ip = s.iface.queueMap ip) (hlate : t.late ip = s.late ip) :
    Spaced t ip at' := by
  constructor
  · rw [hclock]
    exact h.past
  · rw [hclock, hcache]
    exact h.cached
  · rw [hclock, hcache, hqueue]
    exact h.unknown
  · rw [hclock, hqueue, hlate]
    exact h.waiting

theorem queue_after {s : State} {iface : NetworkInterface} {frames : List EthernetFrame}
    (h : ∃ taken, s.log.map Prod.fst = taken ++ s.iface.framesOut)
    (hframes : iface.framesOut = s.iface.framesOut ++ frames) :
    ∃ taken, (s.after iface).log.map Prod.fst = taken ++ iface.framesOut := by
  obtain ⟨taken, h⟩ := h
  refine ⟨taken, ?_⟩
  simp [State.after, pushedSince_append hframes, hframes, h, Function.comp_def]

theorem sound_init (ethernetAddress : EthernetAddress) (ipAddress : UInt32) :
    Sound (init ethernetAddress ipAddress) := by
  constructor
  · intro f t h
    cases h
  · exact List.Pairwise.nil
  · exact ⟨[], rfl⟩

/-- The distances after a call that pushes no request. -/
theorem Sound.quiet {s : State} {iface : NetworkInterface} {frames : List EthernetFrame}
    (h : Sound s) (hframes : iface.framesOut = s.iface.framesOut ++ frames)
    (hquiet : ∀ f ∈ frames, ∀ ip, ¬ Asks f ip)
    (hspaced : ∀ ip t, Spaced s ip t → Spaced (s.after iface) ip t) : Sound (s.after iface) := by
  have hlog : (s.after iface).log = s.log ++ frames.map fun f => (f, s.clock) := by
    simp [State.after, pushedSince_append hframes]
  constructor
  · intro f t hmem ip hask
    rw [hlog] at hmem
    rcases List.mem_append.mp hmem with hmem | hmem
    · exact hspaced ip t (h.spaced f t hmem ip hask)
    · obtain ⟨g, hg, heq⟩ := List.mem_map.mp hmem
      cases heq
      exact absurd hask (hquiet f hg ip)
  · rw [hlog]
    exact requestsApart_quiet h.apart hquiet
  · exact queue_after h.queue hframes

/-- A request now leaves a list of age zero, or notes the time in the ghost. Either way the
next request waits. -/
theorem Spaced.asked {s : State} {hop : UInt32} {waitList : WaitingList} {u : Nat}
    (hu : u ≤ s.clock) (hc : s.iface.cache hop = none) (hq : s.iface.queueMap hop = some waitList)
    (hlist : waitList.timeSinceLastARPRequestSend = 0 ∨ s.late hop = some s.clock) :
    Spaced s hop u := by
  constructor
  · exact hu
  · intro entry hentry
    rw [hc] at hentry
    cases hentry
  · intro _ hnone
    rw [hq] at hnone
    cases hnone
  · intro other hother
    rw [hq] at hother
    cases hother
    rcases hlist with hnew | hlate
    · exact Or.inl (by omega)
    · exact Or.inr ⟨s.clock, hlate, hu⟩

/-- The distances after a call that pushes a request. -/
theorem Sound.ask {s t : State} {frame : EthernetFrame} {hop : UInt32} (h : Sound s)
    (hask : Asks frame hop) (hframes : t.iface.framesOut = s.iface.framesOut ++ [frame])
    (hlog : t.log = s.log ++ [(frame, s.clock)])
    (hold : ∀ u, Spaced s hop u → u + maxRetxWaitingTime ≤ s.clock)
    (hnew : ∀ u, u ≤ s.clock → Spaced t hop u)
    (hother : ∀ ip u, ip ≠ hop → Spaced s ip u → Spaced t ip u) : Sound t := by
  constructor
  · intro f u hmem ip hask'
    rw [hlog] at hmem
    rcases List.mem_append.mp hmem with hmem | hmem
    · have hs := h.spaced f u hmem ip hask'
      by_cases heq : ip = hop
      · subst heq
        exact hnew u hs.past
      · exact hother ip u heq hs
    · cases List.mem_singleton.mp hmem
      rw [Asks.unique hask' hask]
      exact hnew s.clock (Nat.le_refl _)
  · rw [hlog]
    exact requestsApart_ask h.apart hask fun f u hmem hask' => hold u (h.spaced f u hmem hop hask')
  · obtain ⟨taken, hq⟩ := h.queue
    exact ⟨taken, by simp [hlog, hframes, hq]⟩

theorem sound_send {s t : State} {dgram : IPv4Datagram} {hop : UInt32} (h : Sound s)
    (hsends : LateSendsApart s (.sendDatagram dgram hop))
    (hstep : step s (.sendDatagram dgram hop) = .ok t) : Sound t := by
  obtain ⟨m, hm, ht⟩ := Exec.bind_eq_ok.mp hstep
  cases ht
  cases sendDatagram_sending hm with
  | @quiet frames hyoung hquiet =>
    simp only [hyoung, Bool.false_eq_true, ↓reduceIte]
    exact h.quiet rfl hquiet fun ip u hs => hs.frame rfl rfl rfl rfl
  | @first frame dgram hc hq hask =>
    have hyoung : findsOld s.iface hop = false := by simp [findsOld, hq]
    simp only [hyoung, Bool.false_eq_true, ↓reduceIte]
    refine h.ask hask rfl (by simp [State.after, pushedSince, push, newWaitList]) ?_ ?_ ?_
    · intro u hs
      have := hs.unknown hc hq
      simp only [maxRetxWaitingTime, maxCacheTime] at *
      omega
    · intro u hu
      exact .asked hu hc (Function.update_self _ _ _) (Or.inl rfl)
    · intro ip u hne hs
      exact hs.frame rfl rfl (Function.update_of_ne hne _ _) rfl
  | @again frame waitList hc hq hold hask =>
    have hfinds : findsOld s.iface hop = true := by simp [findsOld, hc, hq, hold]
    have hlate := hsends hfinds
    simp only [hfinds, ↓reduceIte]
    refine h.ask hask rfl (by simp [State.after, pushedSince, push]) ?_ ?_ ?_
    · intro u hs
      rcases hs.waiting waitList hq with hage | ⟨v, hv, hle⟩
      · omega
      · have := hlate v hv
        omega
    · intro u hu
      exact .asked hu hc hq (Or.inr (Function.update_self _ _ _))
    · intro ip u hne hs
      exact hs.frame rfl rfl rfl (Function.update_of_ne hne _ _)

theorem sound_recv {s t : State} {frame : EthernetFrame} (h : Sound s)
    (hstep : step s (.recvFrame frame) = .ok t) : Sound t := by
  obtain ⟨⟨ret, m⟩, hm, ht⟩ := Exec.bind_eq_ok.mp hstep
  cases ht
  rcases recvFrame_quiet hm with rfl | ⟨ip, macAddr, frames, rfl, hquiet⟩
  · exact h.quiet (List.append_nil _).symm (by simp) fun ip u hs => hs.frame rfl rfl rfl rfl
  · refine h.quiet rfl hquiet ?_
    intro other u hs
    by_cases heq : other = ip
    · subst heq
      constructor
      · exact hs.past
      · intro entry hentry
        cases hentry.symm.trans (Function.update_self _ _ _)
        exact hs.past
      · intro hnone
        cases hnone.symm.trans (Function.update_self _ _ _)
      · intro waitList hw
        cases hw.symm.trans (Function.update_self _ _ _)
    · exact hs.frame rfl (Function.update_of_ne heq _ _) (Function.update_of_ne heq _ _) rfl

/-- Time only brings the requests further apart. -/
theorem Spaced.tick {s : State} {ip : UInt32} {u : Nat} (h : Spaced s ip u) (ms : Nat) :
    Spaced { s with iface := s.iface.tick ms, clock := s.clock + ms } ip u := by
  constructor
  · exact Nat.le_trans h.past (Nat.le_add_right _ _)
  · intro entry hentry
    obtain ⟨old, hold, hentry⟩ := Option.bind_eq_some_iff.mp hentry
    have := h.cached old hold
    have hmod := Nat.mod_le (old.cachingTime + ms) (2 ^ 64)
    dsimp only at hentry ⊢
    split at hentry
    · cases hentry
    · cases hentry
      dsimp only
      omega
  · intro hcache hqueue
    have hqueue : s.iface.queueMap ip = none := Option.map_eq_none_iff.mp hqueue
    dsimp only
    cases hc : s.iface.cache ip with
    | none =>
      have := h.unknown hc hqueue
      omega
    | some old =>
      have := h.cached old hc
      have hmod := Nat.mod_le (old.cachingTime + ms) (2 ^ 64)
      simp only [NetworkInterface.tick, hc, Option.bind_some] at hcache
      split at hcache
      · rename_i hexpired
        omega
      · cases hcache
  · intro waitList hw
    obtain ⟨old, hold, rfl⟩ := Option.map_eq_some_iff.mp hw
    have hmod := Nat.mod_le (old.timeSinceLastARPRequestSend + ms) (2 ^ 64)
    rcases h.waiting old hold with hage | hlate
    · left
      dsimp only
      omega
    · exact Or.inr hlate

theorem sound_step {s t : State} {e : Event} (h : Sound s) (hsends : LateSendsApart s e)
    (hstep : step s e = .ok t) : Sound t := by
  cases e with
  | sendDatagram dgram hop => exact sound_send h hsends hstep
  | recvFrame frame => exact sound_recv h hstep
  | tick ms =>
    cases hstep
    exact ⟨fun f u hmem ip hask => (h.spaced f u hmem ip hask).tick ms, h.apart, h.queue⟩
  | collect =>
    cases hstep
    constructor
    · intro f u hmem ip hask
      exact (h.spaced f u hmem ip hask).frame rfl rfl rfl rfl
    · exact h.apart
    · exact ⟨s.log.map Prod.fst, (List.append_nil _).symm⟩

/-- **Requests are five seconds apart.** In every run in which the datagrams that find an
old list for an address come five seconds apart, so do all the requests for it. The log has
every frame that is in the queue. -/
theorem requests_apart (ethernetAddress : EthernetAddress) (ipAddress : UInt32) (s : State)
    (h : Exec.Reach step LateSendsApart (init ethernetAddress ipAddress) s) :
    s.log.Pairwise (fun a b => ∀ ip, Asks a.1 ip → Asks b.1 ip → a.2 + 5000 ≤ b.2) ∧
      ∃ taken, s.log.map Prod.fst = taken ++ s.iface.framesOut := by
  have hs := h.invariant (sound_init ethernetAddress ipAddress)
    (fun _ _ _ hs hp ht => sound_step hs hp ht)
  exact ⟨hs.apart, hs.queue⟩

/-- The address that a frame asks for. -/
def target (frame : EthernetFrame) : Option UInt32 :=
  if frame.header.type = EthernetHeader.typeARP then
    match frame.payload.toBuffer with
    | .error _ => none
    | .ok buffer =>
      match ARPMessage.parse {} buffer with
      | .ok (.noError, arp) =>
        if arp.opcode = ARPMessage.opcodeRequest then some arp.targetIpAddress else none
      | _ => none
  else none

theorem asks_of_target {frame : EthernetFrame} {ip : UInt32} (h : target frame = some ip) :
    Asks frame ip := by
  unfold target at h
  split at h
  · rename_i htype
    split at h
    · cases h
    · rename_i buffer hbuffer
      split at h
      · rename_i arp hp
        split at h
        · rename_i hop
          cases h
          exact ⟨htype, arp, ⟨buffer, hbuffer, hp⟩, hop, rfl⟩
        · cases h
      · cases h
  · cases h

/-- An empty datagram. -/
def someDgram : IPv4Datagram := { header := { len := 20 } }

/-- A first request, and a second one after seven seconds. -/
theorem requests_apart_seven :
    ∃ s, Exec.Reach step LateSendsApart (init (Vector.replicate 6 1) 1) s ∧
      s.log.map (fun p => (target p.1, p.2)) = [(some 7, 0), (some 7, 7000)] ∧
      s.log.Pairwise (fun a b => ∀ ip, Asks a.1 ip → Asks b.1 ip → a.2 + 5000 ≤ b.2) := by
  obtain ⟨s, reached, hlog⟩ := Exec.reach_of_view step LateSendsApart
    (init (Vector.replicate 6 1) 1)
    [.sendDatagram someDgram 7, .tick 3000, .sendDatagram someDgram 7, .tick 4000,
      .sendDatagram someDgram 7]
    (fun s => s.log.map fun p => (target p.1, p.2)) [(some 7, 0), (some 7, 7000)]
    (by decide +kernel)
  exact ⟨s, reached, hlog, (requests_apart _ _ s reached).1⟩

/-- Two datagrams find a list that is five seconds old, and both ask at once. -/
theorem requests_in_a_row :
    ∃ s, Exec.Reach step (fun _ _ => True) (init (Vector.replicate 6 1) 1) s ∧
      s.log.map (fun p => (target p.1, p.2)) = [(some 7, 0), (some 7, 5000), (some 7, 5000)] ∧
      ¬ s.log.Pairwise (fun a b => ∀ ip, Asks a.1 ip → Asks b.1 ip → a.2 + 5000 ≤ b.2) := by
  obtain ⟨s, reached, hlog⟩ := Exec.reach_of_view step (fun _ _ => True)
    (init (Vector.replicate 6 1) 1)
    [.sendDatagram someDgram 7, .tick 5000, .sendDatagram someDgram 7, .sendDatagram someDgram 7]
    (fun s => s.log.map fun p => (target p.1, p.2)) [(some 7, 0), (some 7, 5000), (some 7, 5000)]
    (by decide +kernel)
  refine ⟨s, reached, hlog, ?_⟩
  intro hapart
  have htimes : (s.log.map fun p => (target p.1, p.2)).Pairwise
      (fun a b => ∀ ip, a.1 = some ip → b.1 = some ip → a.2 + 5000 ≤ b.2) := by
    apply List.pairwise_map.mpr
    exact hapart.imp fun h ip ha hb => h ip (asks_of_target ha) (asks_of_target hb)
  rw [hlog] at htimes
  simp at htimes

end Sponge.ArpRequests
