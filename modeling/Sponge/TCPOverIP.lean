import Sponge.TCPWire

/-!
# TCP over IPv4

`TCPOverIPv4Adapter` of `tcp_over_ip.cc`, with `FdAdapterBase` of `fd_adapter.hh`.

* `receive_outcome`: the three things that a datagram can do;
* `understood_by_peer`: what one end wraps, the other end unwraps;
* `locked_to_one_peer`: a listening adapter takes the first opening segment, and from then
  on hears nobody but its sender.
-/

namespace Sponge

/-- An `Address`, as `ipv4_numeric` and `port` read it. -/
structure Address where
  ip : UInt32
  port : UInt16
  deriving DecidableEq, Repr

structure FdAdapterConfig where
  source : Address := ⟨0, 0⟩
  destination : Address := ⟨0, 0⟩
  lossRateDn : UInt16 := 0
  lossRateUp : UInt16 := 0
  deriving DecidableEq, Repr

structure TCPOverIPv4Adapter where
  cfg : FdAdapterConfig := {}
  listen : Bool := false
  deriving DecidableEq, Repr

namespace TCPOverIPv4Adapter

/-- The configuration after the segment `tcpSeg` in `ipDgram` opened a connection. -/
def lockedTo (a : TCPOverIPv4Adapter) (ipDgram : IPv4Datagram) (tcpSeg : TCPSegment) :
    TCPOverIPv4Adapter :=
  { cfg := { a.cfg with
      source := ⟨ipDgram.header.dst, a.cfg.source.port⟩
      destination := ⟨ipDgram.header.src, tcpSeg.header.sport⟩ }
    listen := false }

def unwrapTcpInIp (a : TCPOverIPv4Adapter) (ipDgram : IPv4Datagram) :
    Except Fault (Option TCPSegment × TCPOverIPv4Adapter) := do
  -- is the IPv4 datagram for us?
  if !a.listen && ipDgram.header.dst != a.cfg.source.ip then
    return (none, a)
  -- is the IPv4 datagram from our peer?
  if !a.listen && ipDgram.header.src != a.cfg.destination.ip then
    return (none, a)
  if ipDgram.header.proto != IPv4Header.protoTcp then
    return (none, a)
  let buffer ← ipDgram.payload.toBuffer
  let (res, tcpSeg) ← TCPSegment.parse {} buffer ipDgram.header.pseudoCksum
  if res != .noError then
    return (none, a)
  -- is the TCP segment for us?
  if tcpSeg.header.dport != a.cfg.source.port then
    return (none, a)
  if a.listen && !(tcpSeg.header.syn && !tcpSeg.header.rst) then
    return (none, a)
  let a := if a.listen then a.lockedTo ipDgram tcpSeg else a
  -- is the TCP segment from our peer?
  if tcpSeg.header.sport != a.cfg.destination.port then
    return (none, a)
  return (some tcpSeg, a)

/-- The segment with its ports set. -/
def addressed (a : TCPOverIPv4Adapter) (seg : TCPSegment) : TCPSegment :=
  { seg with
    header := { seg.header with sport := a.cfg.source.port, dport := a.cfg.destination.port } }

/-- The header with its addresses and its length set. -/
def headerFor (a : TCPOverIPv4Adapter) (seg : TCPSegment) : IPv4Header :=
  let header : IPv4Header := {}
  { header with
    src := a.cfg.source.ip
    dst := a.cfg.destination.ip
    len := UInt16.ofNat (header.hlen.toNat * 4 + seg.header.doff.toNat * 4 + seg.payload.length) }

/-- The datagram, and the segment as it is left. -/
def wrapTcpInIp (a : TCPOverIPv4Adapter) (seg : TCPSegment) :
    Except Fault (IPv4Datagram × TCPSegment) := do
  let seg := a.addressed seg
  let header := a.headerFor seg
  let payload ← seg.serialize header.pseudoCksum
  return ({ header := header, payload := payload }, seg)

/-! ## One datagram -/

/-- The payload of the datagram is a segment that the parser accepts. -/
structure Carries (ipDgram : IPv4Datagram) (tcpSeg : TCPSegment) : Prop where
  proto : ipDgram.header.proto = IPv4Header.protoTcp
  parsed : ∃ buffer, ipDgram.payload.toBuffer = .ok buffer ∧
    TCPSegment.parse {} buffer ipDgram.header.pseudoCksum = .ok (.noError, tcpSeg)

/-- The addresses and the ports are those of the configuration. -/
structure Between (cfg : FdAdapterConfig) (ipDgram : IPv4Datagram) (tcpSeg : TCPSegment) :
    Prop where
  dst : ipDgram.header.dst = cfg.source.ip
  src : ipDgram.header.src = cfg.destination.ip
  dport : tcpSeg.header.dport = cfg.source.port
  sport : tcpSeg.header.sport = cfg.destination.port

/-- The segment asks for a connection to the local port of `a`. -/
structure Opens (a : TCPOverIPv4Adapter) (ipDgram : IPv4Datagram) (tcpSeg : TCPSegment) :
    Prop extends Carries ipDgram tcpSeg where
  dport : tcpSeg.header.dport = a.cfg.source.port
  syn : tcpSeg.header.syn = true
  rst : tcpSeg.header.rst = false

theorem Carries.unique {d : IPv4Datagram} {seg seg' : TCPSegment} (h : Carries d seg)
    (h' : Carries d seg') : seg = seg' := by
  obtain ⟨b, hb, hp⟩ := h.parsed
  obtain ⟨b', hb', hp'⟩ := h'.parsed
  rw [hb] at hb'
  cases hb'
  rw [hp] at hp'
  cases hp'
  rfl

theorem Opens.between {a : TCPOverIPv4Adapter} {d : IPv4Datagram} {seg : TCPSegment}
    (h : Opens a d seg) : Between (a.lockedTo d seg).cfg d seg :=
  ⟨rfl, rfl, h.dport, rfl⟩

/-- One call. An exception comes from the payload, before anything is written. -/
def receive (a : TCPOverIPv4Adapter) (d : IPv4Datagram) :
    Option TCPSegment × TCPOverIPv4Adapter :=
  match a.unwrapTcpInIp d with
  | .ok r => r
  | .error _ => (none, a)

/-- What a call can do. -/
inductive Outcome (a : TCPOverIPv4Adapter) (d : IPv4Datagram) :
    Option TCPSegment × TCPOverIPv4Adapter → Prop
  | ignored (unopened : a.listen = true → ∀ seg, ¬ Opens a d seg) : Outcome a d (none, a)
  | opened (seg : TCPSegment) (listening : a.listen = true) (opens : Opens a d seg) :
      Outcome a d (some seg, a.lockedTo d seg)
  | accepted (seg : TCPSegment) (connected : a.listen = false) (carries : Carries d seg)
      (between : Between a.cfg d seg) : Outcome a d (some seg, a)

theorem unwrapTcpInIp_opens {a : TCPOverIPv4Adapter} {d : IPv4Datagram} {seg : TCPSegment}
    (listening : a.listen = true) (h : Opens a d seg) :
    a.unwrapTcpInIp d = .ok (some seg, a.lockedTo d seg) := by
  obtain ⟨buffer, hb, hp⟩ := h.parsed
  have hsport : (a.lockedTo d seg).cfg.destination.port = seg.header.sport := rfl
  simp only [unwrapTcpInIp, hb, hp, Exec.ok_bind]
  simp [listening, h.proto, h.dport, h.syn, h.rst, hsport]

theorem unwrapTcpInIp_between {a : TCPOverIPv4Adapter} {d : IPv4Datagram} {seg : TCPSegment}
    (connected : a.listen = false) (hc : Carries d seg) (h : Between a.cfg d seg) :
    a.unwrapTcpInIp d = .ok (some seg, a) := by
  obtain ⟨buffer, hb, hp⟩ := hc.parsed
  simp only [unwrapTcpInIp, hb, hp, Exec.ok_bind]
  simp [connected, hc.proto, h.dst, h.src, h.dport, h.sport]

/-- A call that returns. -/
theorem unwrapTcpInIp_ok {a : TCPOverIPv4Adapter} {d : IPv4Datagram}
    {r : Option TCPSegment × TCPOverIPv4Adapter} (h : a.unwrapTcpInIp d = .ok r) :
    r = (none, a) ∨
      (∃ seg, a.listen = true ∧ Opens a d seg ∧ r = (some seg, a.lockedTo d seg)) ∨
      (∃ seg, a.listen = false ∧ Carries d seg ∧ Between a.cfg d seg ∧ r = (some seg, a)) := by
  rw [unwrapTcpInIp] at h
  obtain ⟨-, rfl⟩ | ⟨hdst, h⟩ := Exec.ite_pure_eq_ok.mp h
  · exact .inl rfl
  obtain ⟨-, rfl⟩ | ⟨hsrc, h⟩ := Exec.ite_pure_eq_ok.mp h
  · exact .inl rfl
  obtain ⟨-, rfl⟩ | ⟨hproto, h⟩ := Exec.ite_pure_eq_ok.mp h
  · exact .inl rfl
  obtain ⟨buffer, hb, h⟩ := Exec.bind_eq_ok.mp h
  obtain ⟨⟨res, seg⟩, hp, h⟩ := Exec.bind_eq_ok.mp h
  obtain ⟨-, rfl⟩ | ⟨hres, h⟩ := Exec.ite_pure_eq_ok.mp h
  · exact .inl rfl
  have hcarries : Carries d seg := by
    refine ⟨by simpa using hproto, buffer, hb, ?_⟩
    rw [hp, show res = .noError by simpa using hres]
  obtain ⟨-, rfl⟩ | ⟨hdport, h⟩ := Exec.ite_pure_eq_ok.mp h
  · exact .inl rfl
  obtain ⟨-, rfl⟩ | ⟨hopen, h⟩ := Exec.ite_pure_eq_ok.mp h
  · exact .inl rfl
  have hlast := Exec.ite_pure_eq_ok.mp h
  cases listening : a.listen with
  | true =>
    have hflags : seg.header.syn = true ∧ seg.header.rst = false := by
      simpa [listening] using hopen
    have hopens : Opens a d seg := ⟨hcarries, by simpa using hdport, hflags.1, hflags.2⟩
    rw [if_pos listening] at hlast
    obtain ⟨hsport, -⟩ | ⟨-, hr⟩ := hlast
    -- the port that is compared last has just been written
    · exact absurd rfl (bne_iff_ne.mp hsport)
    · cases hr
      exact .inr (.inl ⟨seg, rfl, hopens, rfl⟩)
  | false =>
    rw [if_neg (by rw [listening]; decide)] at hlast
    obtain ⟨-, rfl⟩ | ⟨hsport, hr⟩ := hlast
    · exact .inl rfl
    · cases hr
      have hbetween : Between a.cfg d seg :=
        ⟨by simpa [listening] using hdst, by simpa [listening] using hsrc, by simpa using hdport,
          by simpa using hsport⟩
      exact .inr (.inr ⟨seg, rfl, hcarries, hbetween, rfl⟩)

theorem receive_outcome (a : TCPOverIPv4Adapter) (d : IPv4Datagram) :
    Outcome a d (a.receive d) := by
  have unopened : (∀ seg b, a.unwrapTcpInIp d ≠ .ok (some seg, b)) →
      a.listen = true → ∀ seg, ¬ Opens a d seg :=
    fun hnone listening seg hopens => hnone seg _ (unwrapTcpInIp_opens listening hopens)
  cases h : a.unwrapTcpInIp d with
  | error fault =>
    rw [receive, h]
    apply Outcome.ignored
    apply unopened
    simp [h]
  | ok r =>
    rw [receive, h]
    rcases unwrapTcpInIp_ok h with rfl | ⟨seg, listening, hopens, rfl⟩ |
      ⟨seg, connected, hcarries, hbetween, rfl⟩
    · apply Outcome.ignored
      apply unopened
      simp [h]
    · exact .opened seg listening hopens
    · exact .accepted seg connected hcarries hbetween

/-! ## From one end to the other -/

theorem plain_headerFor (a : TCPOverIPv4Adapter) (seg : TCPSegment) : (a.headerFor seg).Plain where
  ver := rfl
  least := show (5 : UInt8) ≤ 5 by decide
  most := show (5 : UInt8) ≤ 15 by decide
  offset := show (0 : UInt16) < 0x2000 by decide

/-- Wrapping fills a whole datagram with the bytes of the segment. -/
theorem wrapTcpInIp_spec (a : TCPOverIPv4Adapter) {seg : TCPSegment} (hleast : 5 ≤ seg.header.doff)
    (hfits : 20 + 4 * seg.header.doff.toNat + seg.payload.length ≤ 65535) :
    ∃ payload cksum, IPv4Datagram.Whole ⟨a.headerFor (a.addressed seg), payload⟩ ∧
      a.wrapTcpInIp seg = .ok (⟨a.headerFor (a.addressed seg), payload⟩, a.addressed seg) ∧
      payload.concatenate = (a.addressed seg).wire cksum ∧
      ((InternetChecksum.new (a.headerFor (a.addressed seg)).pseudoCksum).add
        ((a.addressed seg).wire 0)).value = .ok cksum ∧
      ((InternetChecksum.new (a.headerFor (a.addressed seg)).pseudoCksum).add
        ((a.addressed seg).wire cksum)).value = .ok 0 := by
  have hdoff : (a.addressed seg).header.doff = seg.header.doff := rfl
  have hbytes : (a.addressed seg).payload = seg.payload := rfl
  have hleast' : 5 ≤ (a.addressed seg).header.doff := hleast
  have hlow : (a.headerFor (a.addressed seg)).pseudoCksum.toNat + 65280 *
      (4 * (a.addressed seg).header.doff.toNat + (a.addressed seg).payload.length) < 2 ^ 32 := by
    have := (a.headerFor (a.addressed seg)).pseudoCksum_lt
    rw [hdoff, hbytes]
    omega
  obtain ⟨cksum, payload, hserialize, hpayload, hcksum, hcheck⟩ :=
    TCPSegment.serialize_spec hleast' hlow
  refine ⟨payload, cksum, ⟨plain_headerFor a _, ?_⟩, ?_, hpayload, hcksum, hcheck⟩
  · rw [BufferList.size_eq, hpayload, TCPSegment.length_wire hleast', hdoff, hbytes]
    change (UInt16.ofNat (5 * 4 + seg.header.doff.toNat * 4 + seg.payload.length)).toNat =
      4 * 5 + (4 * seg.header.doff.toNat + seg.payload.length)
    rw [UInt16.toNat_ofNat_of_lt' (show _ < 65536 by omega)]
    omega
  · simp only [wrapTcpInIp, hserialize, Exec.ok_bind, Exec.pure_ok]

/-- **Understood by the other end.** The peer reads back the segment, with the ports of the
sender's configuration and the checksum that was computed for it. -/
theorem understood_by_peer (a b : TCPOverIPv4Adapter)
    (hsource : a.cfg.source = b.cfg.destination) (hdestination : a.cfg.destination = b.cfg.source)
    (connected : b.listen = false) (seg : TCPSegment) (hleast : 5 ≤ seg.header.doff)
    (hmost : seg.header.doff ≤ 15)
    (hfits : 20 + 4 * seg.header.doff.toNat + seg.payload.length ≤ 65535) :
    ∃ ipDgram sent bytes cksum,
      a.wrapTcpInIp seg = .ok (ipDgram, sent) ∧
      ((InternetChecksum.new ipDgram.header.pseudoCksum).add (sent.wire 0)).value = .ok cksum ∧
      ipDgram.serialize = .ok bytes ∧
      ∀ buffer : Buffer, buffer.str = bytes.concatenate →
        ∃ received, IPv4Datagram.parse {} buffer = .ok (.noError, received) ∧
          b.unwrapTcpInIp received = .ok (some
            { header := { seg.header with
                sport := a.cfg.source.port, dport := a.cfg.destination.port, cksum := cksum }
              payload := seg.payload }, b) := by
  obtain ⟨payload, cksum, hwhole, hwrap, hpayload, hcksum, hcheck⟩ :=
    wrapTcpInIp_spec a hleast hfits
  obtain ⟨ipCksum, bytes, hbytes, hwire, -⟩ := IPv4Datagram.serialize_spec hwhole
  refine ⟨_, _, bytes, cksum, hwrap, hcksum, hbytes, ?_⟩
  intro buffer hbuffer
  obtain ⟨rest, hparse, hrest⟩ := IPv4Datagram.parse_wire hwhole (hbuffer.trans hwire)
  have hleast' : 5 ≤ (a.addressed seg).header.doff := hleast
  have hseg := TCPSegment.parse_wire hleast' hmost {} (hrest.trans hpayload) hcheck
  -- the checksum of the header is no part of the pseudo-header
  refine ⟨_, hparse, unwrapTcpInIp_between connected ⟨rfl, rest, rfl, hseg⟩ ?_⟩
  exact ⟨congrArg Address.ip hdestination, congrArg Address.ip hsource,
    congrArg Address.port hdestination, congrArg Address.port hsource⟩

/-- The two ends of one connection, and a segment for it. -/
def client : TCPOverIPv4Adapter :=
  { cfg := { source := ⟨0x0a000001, 1234⟩, destination := ⟨0x0a000002, 80⟩ } }

def server : TCPOverIPv4Adapter :=
  { cfg := { source := ⟨0x0a000002, 80⟩, destination := ⟨0x0a000001, 1234⟩ } }

def request : TCPSegment :=
  { header := { seqno := ⟨101⟩, ack := true, ackno := ⟨8⟩ }, payload := [104, 105] }

theorem understood_by_peer_request :
    ∃ ipDgram sent bytes, client.wrapTcpInIp request = .ok (ipDgram, sent) ∧
      ipDgram.serialize = .ok bytes ∧
      ∀ buffer : Buffer, buffer.str = bytes.concatenate →
        ∃ received seg, IPv4Datagram.parse {} buffer = .ok (.noError, received) ∧
          server.unwrapTcpInIp received = .ok (some seg, server) ∧
          seg.header.ackno = ⟨8⟩ ∧ seg.payload = [104, 105] := by
  obtain ⟨ipDgram, sent, bytes, cksum, hwrap, _, hbytes, hpeer⟩ :=
    understood_by_peer client server rfl rfl rfl request (by decide) (by decide) (by decide)
  refine ⟨ipDgram, sent, bytes, hwrap, hbytes, ?_⟩
  intro buffer hbuffer
  obtain ⟨received, hparse, hunwrap⟩ := hpeer buffer hbuffer
  exact ⟨received, _, hparse, hunwrap, rfl, rfl⟩

/-! ## A sequence of datagrams -/

/-- The adapter after the datagrams `ds`. -/
def after (a : TCPOverIPv4Adapter) (ds : List IPv4Datagram) : TCPOverIPv4Adapter :=
  ds.foldl (fun a d => (a.receive d).2) a

/-- What is returned for the datagrams `ds`, with the datagram it came in. -/
def returned (a : TCPOverIPv4Adapter) : List IPv4Datagram → List (IPv4Datagram × TCPSegment)
  | [] => []
  | d :: ds => ((a.receive d).1.map (d, ·)).toList ++ returned (a.receive d).2 ds

theorem after_cons (a : TCPOverIPv4Adapter) (d : IPv4Datagram) (ds : List IPv4Datagram) :
    a.after (d :: ds) = (a.receive d).2.after ds := rfl

theorem after_append (a : TCPOverIPv4Adapter) (ds es : List IPv4Datagram) :
    a.after (ds ++ es) = (a.after ds).after es :=
  List.foldl_append

theorem returned_append (a : TCPOverIPv4Adapter) (ds es : List IPv4Datagram) :
    a.returned (ds ++ es) = a.returned ds ++ (a.after ds).returned es := by
  induction ds generalizing a with
  | nil => rfl
  | cons d ds ih => rw [List.cons_append, returned, ih, returned, after_cons, List.append_assoc]

theorem receive_connected {a : TCPOverIPv4Adapter} (connected : a.listen = false)
    (d : IPv4Datagram) : (a.receive d).2 = a := by
  have h := receive_outcome a d
  generalize a.receive d = r at h
  cases h with
  | ignored _ => rfl
  | opened seg listening _ => rw [connected] at listening; cases listening
  | accepted _ _ _ _ => rfl

theorem receive_opens {a : TCPOverIPv4Adapter} {d : IPv4Datagram} {seg : TCPSegment}
    (listening : a.listen = true) (h : Opens a d seg) :
    a.receive d = (some seg, a.lockedTo d seg) := by
  rw [receive, unwrapTcpInIp_opens listening h]

theorem receive_unopened {a : TCPOverIPv4Adapter} {d : IPv4Datagram} (listening : a.listen = true)
    (unopened : ∀ seg, ¬ Opens a d seg) : a.receive d = (none, a) := by
  have h := receive_outcome a d
  generalize a.receive d = r at h
  cases h with
  | ignored _ => rfl
  | opened seg _ opens => exact absurd opens (unopened seg)
  | accepted _ connected _ _ => rw [listening] at connected; cases connected

theorem after_connected {a : TCPOverIPv4Adapter} (connected : a.listen = false)
    (ds : List IPv4Datagram) : a.after ds = a := by
  induction ds with
  | nil => rfl
  | cons d ds ih => rw [after_cons, receive_connected connected, ih]

theorem unopened_listens {a : TCPOverIPv4Adapter} (listening : a.listen = true)
    {ds : List IPv4Datagram} (unopened : ∀ d ∈ ds, ∀ seg, ¬ Opens a d seg) :
    a.after ds = a ∧ a.returned ds = [] := by
  induction ds with
  | nil => exact ⟨rfl, rfl⟩
  | cons d ds ih =>
    have hd := receive_unopened listening (unopened d List.mem_cons_self)
    obtain ⟨hafter, hreturned⟩ := ih fun e he => unopened e (List.mem_cons_of_mem d he)
    constructor
    · rw [after_cons, hd]
      exact hafter
    · rw [returned, hd]
      exact hreturned

/-- Everything returned is between the ends of the last configuration. -/
theorem returned_between (a : TCPOverIPv4Adapter) (ds : List IPv4Datagram) :
    ∀ p ∈ a.returned ds, Carries p.1 p.2 ∧ Between (a.after ds).cfg p.1 p.2 := by
  induction ds generalizing a with
  | nil => simp [returned]
  | cons d ds ih =>
    intro p hp
    rw [returned] at hp
    rw [after_cons]
    have h := receive_outcome a d
    generalize a.receive d = r at h hp
    cases h with
    | ignored _ => exact ih a p hp
    | opened seg listening opens =>
      cases List.mem_cons.mp hp with
      | inl hhead =>
        rw [hhead, after_connected rfl]
        exact ⟨opens.toCarries, opens.between⟩
      | inr hrest => exact ih _ p hrest
    | accepted seg connected carries between =>
      cases List.mem_cons.mp hp with
      | inl hhead =>
        rw [hhead, after_connected connected]
        exact ⟨carries, between⟩
      | inr hrest => exact ih _ p hrest

/-- **Locked to one peer.** What is returned is between the two ends of the configuration,
as it is in the end. An adapter that does not listen keeps its configuration. One that
listens keeps it, and returns nothing, up to the first opening segment; it returns that one,
and its configuration is then the one of that segment for good. -/
theorem locked_to_one_peer (a : TCPOverIPv4Adapter) (ds : List IPv4Datagram) :
    (∀ p ∈ a.returned ds, Carries p.1 p.2 ∧ Between (a.after ds).cfg p.1 p.2) ∧
    (a.listen = false → a.after ds = a) ∧
    (a.listen = true → (∀ d ∈ ds, ∀ seg, ¬ Opens a d seg) →
      a.after ds = a ∧ a.returned ds = []) ∧
    (a.listen = true → ∀ before d rest seg, ds = before ++ d :: rest →
      (∀ e ∈ before, ∀ seg, ¬ Opens a e seg) → Opens a d seg →
      a.after before = a ∧ a.after ds = a.lockedTo d seg ∧
      a.returned ds = (d, seg) :: (a.lockedTo d seg).returned rest) := by
  refine ⟨returned_between a ds, fun connected => after_connected connected ds,
    fun listening unopened => unopened_listens listening unopened, ?_⟩
  intro listening before d rest seg hds unopened hopens
  obtain ⟨hafter, hreturned⟩ := unopened_listens listening unopened
  have hd := receive_opens listening hopens
  refine ⟨hafter, ?_, ?_⟩
  · rw [hds, after_append, hafter, after_cons, hd, after_connected rfl]
  · rw [hds, returned_append, hafter, hreturned, returned, hd]
    rfl

/-- A server that waits for its client. -/
def waiting : TCPOverIPv4Adapter :=
  { cfg := { source := ⟨0, 80⟩ }, listen := true }

/-- The client's SYN, and the datagram it comes in from the address `src`. -/
def opening : TCPSegment :=
  { header := { sport := 1234, dport := 80, seqno := ⟨100⟩, syn := true, cksum := 0x965a } }

def openingFrom (src : UInt32) (proto : UInt8) : IPv4Datagram :=
  { header := { len := 40, proto := proto, src := src, dst := 0x0a000002 }
    payload := .ofString
      [0x04, 0xd2, 0, 0x50, 0, 0, 0, 100, 0, 0, 0, 0, 0x50, 0x02, 0, 0, 0x96, 0x5a, 0, 0] }

theorem opens_openingFrom : Opens waiting (openingFrom 0x0a000001 6) opening where
  proto := rfl
  parsed := by
    refine ⟨_, rfl, ?_⟩
    apply Exec.ok_of_toOption
    decide +kernel
  dport := rfl
  syn := rfl
  rst := rfl

/-- Not TCP at first, then the client, then somebody else. -/
theorem locked_to_one_peer_client :
    waiting.after [openingFrom 0x0a000001 17, openingFrom 0x0a000001 6, openingFrom 0x0a000003 6] =
        server ∧
      waiting.returned
        [openingFrom 0x0a000001 17, openingFrom 0x0a000001 6, openingFrom 0x0a000003 6] =
        [(openingFrom 0x0a000001 6, opening)] := by
  obtain ⟨_, _, _, hlocked⟩ := locked_to_one_peer waiting
    [openingFrom 0x0a000001 17, openingFrom 0x0a000001 6, openingFrom 0x0a000003 6]
  have hother : ∀ e ∈ [openingFrom 0x0a000001 17], ∀ seg, ¬ Opens waiting e seg := by
    intro e he seg hopens
    rw [List.mem_singleton.mp he] at hopens
    exact absurd hopens.proto (by decide)
  obtain ⟨_, hafter, hreturned⟩ := hlocked rfl [openingFrom 0x0a000001 17] _
    [openingFrom 0x0a000003 6] opening rfl hother opens_openingFrom
  exact ⟨hafter, hreturned⟩

end TCPOverIPv4Adapter

end Sponge
