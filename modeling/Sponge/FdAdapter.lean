import Sponge.FileDescriptor
import Sponge.TCPOverIP

/-!
# Datagram adapters

What a `TCPSpongeSocket` reads segments from and writes them to: `TCPOverUDPSocketAdapter` of
`fd_adapter.cc`, `TCPOverIPv4OverTunFdAdapter` of `tuntap_adapter.hh` and the wrapper
`LossyFdAdapter` of `lossy_fd_adapter.hh`. The socket is a template over them; the class
`FdAdapter` is what it uses. Beside each adapter stand the packets that it has put on the wire.

* `Authentic`: what is read out of a packet that an adapter has sent is a segment that was
  written to it, up to the ports and the checksum;
* the instances of `Authentic`, one for each adapter.
-/

namespace Sponge

/-- The functions of an adapter `α` that `TCPSpongeSocket` calls. What the kernel answers to one
of them is `ι`. -/
class FdAdapter (α : Type) (ι : outParam Type) where
  fd : α → FileDescriptor
  read : α → ι → Except Fault (Option TCPSegment × α)
  write : α → TCPSegment → ι → Except Fault α
  tick : α → Nat → ι → Except Fault α
  config : α → FdAdapterConfig
  setConfig : α → FdAdapterConfig → α
  setListening : α → Bool → α

/-! ## UDP -/

/-- A `UDPSocket`, with the datagrams sent and where to. -/
structure UDPSocket where
  fd : FileDescriptor := {}
  sent : List (Address × List Byte) := []

namespace UDPSocket

structure ReceivedDatagram where
  sourceAddress : Address
  payload : List Byte
  deriving DecidableEq, Repr

/-- The default of `mtu`. -/
def defaultMtu : Nat := 65536

/-- The kernel answers with the whole datagram, of which no more than `mtu` bytes are stored. -/
def recv (sock : UDPSocket) (mtu : Nat) (answer : Option ReceivedDatagram) :
    Except Fault (ReceivedDatagram × UDPSocket) :=
  match answer with
  | none => .error (.throws "recvfrom")
  | some datagram =>
    if datagram.payload.length > mtu then .error (.throws "recvfrom (oversized datagram)")
    else .ok (datagram, { sock with fd := sock.fd.registerRead })

/-- `kernel n` is the answer to `sendmsg(2)` of `n` bytes. -/
def sendto (sock : UDPSocket) (destination : Address) (payload : BufferViewList)
    (kernel : Nat → Option Nat) : Except Fault UDPSocket :=
  match kernel payload.size with
  | none => .error (.throws "sendmsg")
  | some bytesSent =>
    if bytesSent != payload.size then .error (.throws "datagram payload too big for sendmsg()")
    else .ok
      { fd := sock.fd.registerWrite
        sent := sock.sent ++ [(destination, payload.concatenate)] }

end UDPSocket

structure TCPOverUDPSocketAdapter where
  cfg : FdAdapterConfig := {}
  listen : Bool := false
  sock : UDPSocket := {}

namespace TCPOverUDPSocketAdapter

structure Kernel where
  recv : Option UDPSocket.ReceivedDatagram
  send : Nat → Option Nat

def read (a : TCPOverUDPSocketAdapter) (kernel : Kernel) :
    Except Fault (Option TCPSegment × TCPOverUDPSocketAdapter) := do
  let (datagram, sock) ← a.sock.recv UDPSocket.defaultMtu kernel.recv
  let a := { a with sock := sock }
  -- is it for us?
  if !a.listen && datagram.sourceAddress != a.cfg.destination then
    return (none, a)
  -- is the payload a valid TCP segment?
  let (res, seg) ← TCPSegment.parse {} (.ofString datagram.payload) 0
  if res != .noError then
    return (none, a)
  -- should we target this source in all future replies?
  if a.listen then
    if seg.header.syn && !seg.header.rst then
      return (some seg,
        { a with cfg := { a.cfg with destination := datagram.sourceAddress }, listen := false })
    else
      return (none, a)
  return (some seg, a)

def addressed (a : TCPOverUDPSocketAdapter) (seg : TCPSegment) : TCPSegment :=
  { seg with
    header := { seg.header with sport := a.cfg.source.port, dport := a.cfg.destination.port } }

def write (a : TCPOverUDPSocketAdapter) (seg : TCPSegment) (kernel : Kernel) :
    Except Fault TCPOverUDPSocketAdapter := do
  let bytes ← (a.addressed seg).serialize 0
  let sock ← a.sock.sendto a.cfg.destination (.ofBufferList bytes) kernel.send
  return { a with sock := sock }

instance : FdAdapter TCPOverUDPSocketAdapter Kernel where
  fd a := a.sock.fd
  read := read
  write := write
  tick a _ _ := .ok a
  config := cfg
  setConfig a cfg := { a with cfg := cfg }
  setListening a l := { a with listen := l }

end TCPOverUDPSocketAdapter

/-! ## TUN -/

/-- The adapter, with each packet that the device has taken. -/
structure TCPOverIPv4OverTunFdAdapter where
  adapter : TCPOverIPv4Adapter := {}
  tun : FileDescriptor := {}
  sent : List (List Byte) := []

/-- What the kernel answers to the calls on a TUN or TAP device. -/
structure TunKernel where
  read : Nat → Option (List Byte)
  /-- The `i`-th packet written in a call, and the answers to its calls of `writev`. -/
  write : Nat → Nat → Nat → Option Nat

namespace TCPOverIPv4OverTunFdAdapter

/-- The default of `limit`. -/
def noLimit : Nat := 2 ^ 64 - 1

def read (a : TCPOverIPv4OverTunFdAdapter) (kernel : TunKernel) :
    Except Fault (Option TCPSegment × TCPOverIPv4OverTunFdAdapter) := do
  let (bytes, tun) ← a.tun.read noLimit kernel.read
  let a := { a with tun := tun }
  let (res, ipDgram) ← IPv4Datagram.parse {} (.ofString bytes)
  if res != .noError then
    return (none, a)
  let (seg, adapter) ← a.adapter.unwrapTcpInIp ipDgram
  return (seg, { a with adapter := adapter })

def write (a : TCPOverIPv4OverTunFdAdapter) (seg : TCPSegment) (kernel : TunKernel) :
    Except Fault TCPOverIPv4OverTunFdAdapter := do
  let (ipDgram, _) ← a.adapter.wrapTcpInIp seg
  let bytes ← ipDgram.serialize
  let w ← a.tun.write (.ofBufferList bytes) true (kernel.write 0)
  return { a with tun := w.fd, sent := a.sent ++ w.taken }

instance : FdAdapter TCPOverIPv4OverTunFdAdapter TunKernel where
  fd := tun
  read := read
  write := write
  tick a _ _ := .ok a
  config a := a.adapter.cfg
  setConfig a cfg := { a with adapter := { a.adapter with cfg := cfg } }
  setListening a l := { a with adapter := { a.adapter with listen := l } }

end TCPOverIPv4OverTunFdAdapter

/-! ## Losing packets -/

structure LossyFdAdapter (α : Type) where
  adapter : α

namespace LossyFdAdapter

variable {α ι : Type} [FdAdapter α ι]

/-- `rand` is what the generator returns, if it is asked. -/
def shouldDrop (a : LossyFdAdapter α) (uplink : Bool) (rand : UInt16) : Bool :=
  let cfg := FdAdapter.config a.adapter
  let loss := if uplink then cfg.lossRateUp else cfg.lossRateDn
  loss != 0 && rand < loss

def read (a : LossyFdAdapter α) (kernel : ι × UInt16) :
    Except Fault (Option TCPSegment × LossyFdAdapter α) := do
  let (ret, adapter) ← FdAdapter.read a.adapter kernel.1
  let a := { a with adapter := adapter }
  if a.shouldDrop false kernel.2 then
    return (none, a)
  return (ret, a)

def write (a : LossyFdAdapter α) (seg : TCPSegment) (kernel : ι × UInt16) :
    Except Fault (LossyFdAdapter α) := do
  if a.shouldDrop true kernel.2 then
    return a
  let adapter ← FdAdapter.write a.adapter seg kernel.1
  return { a with adapter := adapter }

instance : FdAdapter (LossyFdAdapter α) (ι × UInt16) where
  fd a := FdAdapter.fd a.adapter
  read := read
  write := write
  tick a ms kernel := do
    let adapter ← FdAdapter.tick a.adapter ms kernel.1
    return { a with adapter := adapter }
  config a := FdAdapter.config a.adapter
  setConfig a cfg := { a with adapter := FdAdapter.setConfig a.adapter cfg }
  setListening a l := { a with adapter := FdAdapter.setListening a.adapter l }

end LossyFdAdapter

/-! ## What comes out of a packet -/

/-- The segment without what an adapter writes into it. -/
def TCPSegment.core (seg : TCPSegment) : TCPSegment :=
  { seg with header := { seg.header with sport := 0, dport := 0, cksum := 0 } }

/-- A segment that fits into an IPv4 datagram. -/
structure TCPSegment.Sendable (seg : TCPSegment) : Prop where
  least : 5 ≤ seg.header.doff
  most : seg.header.doff ≤ 15
  fits : 20 + 4 * seg.header.doff.toNat + seg.payload.length ≤ 65535

/-- A read counts as one, whatever comes of it. -/
class CountsReads (α : Type) (ι : outParam Type) [FdAdapter α ι] : Prop where
  read : ∀ {a b : α} {kernel : ι} {seg : Option TCPSegment},
    FdAdapter.read a kernel = .ok (seg, b) →
    (FdAdapter.fd b).readCount = (FdAdapter.fd a).readCount + 1

/-- An adapter whose packets can be told from others. `Holds a segs` says that `a` has been
given no other segments than `segs`; `Whole` is what its device promises. -/
class Authentic (α : Type) (ι : outParam Type) [FdAdapter α ι] where
  /-- The packets on the wire. -/
  sent : α → List (List Byte)
  /-- The packet that a read is given. -/
  packet : ι → Option (List Byte)
  Whole : ι → Prop
  Holds : α → List TCPSegment → Prop
  read : ∀ {a b : α} {kernel : ι} {seg : Option TCPSegment} {segs : List TCPSegment},
    Holds a segs → Whole kernel → FdAdapter.read a kernel = .ok (seg, b) → Holds b segs
  write : ∀ {a b : α} {kernel : ι} {seg : TCPSegment} {segs : List TCPSegment},
    Holds a segs → Whole kernel → seg.Sendable → FdAdapter.write a seg kernel = .ok b →
    Holds b (segs ++ [seg])
  tick : ∀ {a b : α} {kernel : ι} {ms : Nat} {segs : List TCPSegment},
    Holds a segs → Whole kernel → FdAdapter.tick a ms kernel = .ok b → Holds b segs
  setConfig : ∀ {a : α} {segs : List TCPSegment} (cfg : FdAdapterConfig),
    Holds a segs → Holds (FdAdapter.setConfig a cfg) segs
  setListening : ∀ {a : α} {segs : List TCPSegment} (l : Bool),
    Holds a segs → Holds (FdAdapter.setListening a l) segs
  heard : ∀ {a b c : α} {kernel : ι} {seg : TCPSegment} {segs : List TCPSegment},
    Holds a segs → (∀ bytes, packet kernel = some bytes → bytes ∈ sent a) →
    FdAdapter.read b kernel = .ok (some seg, c) → ∃ old ∈ segs, seg.core = old.core

/-- A call on an adapter. -/
inductive FdAdapter.Call (ι : Type)
  | read (kernel : ι)
  | write (seg : TCPSegment) (kernel : ι)
  | tick (ms : Nat) (kernel : ι)
  | setConfig (cfg : FdAdapterConfig)
  | setListening (l : Bool)

section Calls

variable {α ι : Type} [FdAdapter α ι]

/-- The adapter after a call, with the segments written to it. -/
def FdAdapter.call (x : α × List TCPSegment) : Call ι → Except Fault (α × List TCPSegment)
  | .read kernel => do
    let (_, a) ← read x.1 kernel
    return (a, x.2)
  | .write seg kernel => do
    let a ← write x.1 seg kernel
    return (a, x.2 ++ [seg])
  | .tick ms kernel => do
    let a ← tick x.1 ms kernel
    return (a, x.2)
  | .setConfig cfg => .ok (setConfig x.1 cfg, x.2)
  | .setListening l => .ok (setListening x.1 l, x.2)

variable [Authentic α ι]

/-- The device keeps its promises, and what is written fits. -/
def FdAdapter.Call.Fair (α : Type) [FdAdapter α ι] [Authentic α ι] : Call ι → Prop
  | .read kernel | .tick _ kernel => Authentic.Whole α kernel
  | .write seg kernel => Authentic.Whole α kernel ∧ seg.Sendable
  | _ => True

theorem Authentic.holds_call {x y : α × List TCPSegment} {c : FdAdapter.Call ι}
    (hx : Holds x.1 x.2) (hfair : c.Fair α) (h : FdAdapter.call x c = .ok y) :
    Holds y.1 y.2 := by
  cases c with
  | read kernel =>
    obtain ⟨⟨_, a⟩, hread, h⟩ := Exec.bind_eq_ok.mp h
    cases h
    exact Authentic.read hx hfair hread
  | write seg kernel =>
    obtain ⟨a, hwrite, h⟩ := Exec.bind_eq_ok.mp h
    cases h
    exact Authentic.write hx hfair.1 hfair.2 hwrite
  | tick ms kernel =>
    obtain ⟨a, htick, h⟩ := Exec.bind_eq_ok.mp h
    cases h
    exact Authentic.tick hx hfair htick
  | setConfig cfg =>
    cases h
    exact Authentic.setConfig cfg hx
  | setListening l =>
    cases h
    exact Authentic.setListening l hx

end Calls

/-! ## UDP datagrams -/

namespace TCPOverUDPSocketAdapter

/-- A read that returns: the datagram, and what it is parsed to if it returns a segment. -/
theorem read_ok {a b : TCPOverUDPSocketAdapter} {kernel : Kernel} {ret : Option TCPSegment}
    (h : a.read kernel = .ok (ret, b)) : ∃ datagram, kernel.recv = some datagram ∧
      b.sock = { a.sock with fd := a.sock.fd.registerRead } ∧
      ∀ seg ∈ ret, TCPSegment.parse {} (.ofString datagram.payload) 0 = .ok (.noError, seg) := by
  obtain ⟨⟨datagram, sock⟩, hrecv, h⟩ := Exec.bind_eq_ok.mp h
  have hsock : kernel.recv = some datagram ∧
      sock = { a.sock with fd := a.sock.fd.registerRead } := by
    unfold UDPSocket.recv at hrecv
    split at hrecv
    · cases hrecv
    · rename_i hk
      split at hrecv
      · cases hrecv
      · cases hrecv
        exact ⟨hk, rfl⟩
  refine ⟨datagram, hsock.1, ?_⟩
  obtain ⟨-, hr⟩ | ⟨-, h⟩ := Exec.ite_pure_eq_ok.mp h
  · cases hr
    exact ⟨hsock.2, by simp⟩
  obtain ⟨⟨res, seg⟩, hparse, h⟩ := Exec.bind_eq_ok.mp h
  obtain ⟨-, hr⟩ | ⟨hres, h⟩ := Exec.ite_pure_eq_ok.mp h
  · cases hr
    exact ⟨hsock.2, by simp⟩
  have hok : res = .noError := by simpa using hres
  subst hok
  have hseg : ∀ s ∈ some seg,
      TCPSegment.parse {} (.ofString datagram.payload) 0 = .ok (.noError, s) := by
    intro s hs
    cases hs
    exact hparse
  by_cases hlisten : a.listen = true
  · by_cases hopens : (seg.header.syn && !seg.header.rst) = true
    · simp only [hlisten, hopens, ↓reduceIte] at h
      cases h
      exact ⟨hsock.2, hseg⟩
    · simp only [hlisten, hopens, ↓reduceIte] at h
      cases h
      exact ⟨hsock.2, by simp⟩
  · simp only [hlisten] at h
    cases h
    exact ⟨hsock.2, hseg⟩

theorem write_ok {a b : TCPOverUDPSocketAdapter} {kernel : Kernel} {seg : TCPSegment}
    (h : a.write seg kernel = .ok b) : ∃ bytes, (a.addressed seg).serialize 0 = .ok bytes ∧
      b.sock.sent = a.sock.sent ++ [(a.cfg.destination, bytes.concatenate)] := by
  obtain ⟨bytes, hbytes, h⟩ := Exec.bind_eq_ok.mp h
  obtain ⟨sock, hsend, h⟩ := Exec.bind_eq_ok.mp h
  cases h
  refine ⟨bytes, hbytes, ?_⟩
  unfold UDPSocket.sendto at hsend
  split at hsend
  · cases hsend
  · split at hsend
    · cases hsend
    · cases hsend
      rw [BufferViewList.concatenate_ofBufferList]

instance : CountsReads TCPOverUDPSocketAdapter Kernel where
  read h := by
    obtain ⟨-, -, hsock, -⟩ := read_ok h
    change (FileDescriptor.readCount (UDPSocket.fd _)) = _
    rw [hsock]
    rfl

/-- The payload is one of the segments, in whatever ports it was sent. -/
def Encodes (segs : List TCPSegment) (bytes : List Byte) : Prop :=
  ∃ old ∈ segs, ∃ seg : TCPSegment, seg.core = old.core ∧ seg.Sendable ∧ ∃ cksum,
    bytes = seg.wire cksum ∧ ((InternetChecksum.new 0).add (seg.wire cksum)).value = .ok 0

theorem encodes_write {a : TCPOverUDPSocketAdapter} {seg : TCPSegment} {bytes : BufferList}
    (hs : seg.Sendable) (h : (a.addressed seg).serialize 0 = .ok bytes) :
    Encodes [seg] bytes.concatenate := by
  have hs' : (a.addressed seg).Sendable := ⟨hs.least, hs.most, hs.fits⟩
  have hlow : (0 : UInt32).toNat + 65280 * (4 * (a.addressed seg).header.doff.toNat +
      (a.addressed seg).payload.length) < 2 ^ 32 := by
    have := hs'.fits
    change 0 + _ < _
    omega
  obtain ⟨cksum, written, hserialize, hwire, -, hcheck⟩ := TCPSegment.serialize_spec hs'.least hlow
  rw [h] at hserialize
  cases hserialize
  exact ⟨seg, List.mem_singleton_self _, a.addressed seg, rfl, hs', cksum, hwire, hcheck⟩

theorem Encodes.heard {segs : List TCPSegment} {bytes : List Byte} {seg : TCPSegment}
    (h : Encodes segs bytes)
    (hparse : TCPSegment.parse {} (.ofString bytes) 0 = .ok (.noError, seg)) :
    ∃ old ∈ segs, seg.core = old.core := by
  obtain ⟨old, hold, sent, hcore, hs, cksum, hbytes, hcheck⟩ := h
  refine ⟨old, hold, ?_⟩
  have hstr : (Buffer.ofString bytes).str = sent.wire cksum := hbytes
  rw [TCPSegment.parse_wire hs.least hs.most {} hstr hcheck] at hparse
  cases hparse
  exact hcore

instance : Authentic TCPOverUDPSocketAdapter Kernel where
  sent a := a.sock.sent.map Prod.snd
  packet kernel := kernel.recv.map UDPSocket.ReceivedDatagram.payload
  Whole _ := True
  Holds a segs := ∀ bytes ∈ a.sock.sent.map Prod.snd, Encodes segs bytes
  read := by
    intro a b kernel seg segs h _ hr
    obtain ⟨-, -, hsock, -⟩ := read_ok hr
    rw [hsock]
    exact h
  write := by
    intro a b kernel seg segs h _ hs hw
    obtain ⟨bytes, hbytes, hsent⟩ := write_ok hw
    rw [hsent]
    intro packet hpacket
    rw [List.map_append, List.mem_append] at hpacket
    rcases hpacket with hold | hnew
    · obtain ⟨old, hmem, rest⟩ := h packet hold
      exact ⟨old, List.mem_append_left _ hmem, rest⟩
    · rw [List.map_singleton, List.mem_singleton] at hnew
      rw [hnew]
      obtain ⟨old, hmem, rest⟩ := encodes_write hs hbytes
      exact ⟨old, List.mem_append_right _ hmem, rest⟩
  tick h _ ht := by
    cases ht
    exact h
  setConfig _ h := h
  setListening _ h := h
  heard := by
    intro a b c kernel seg segs h hsent hr
    obtain ⟨datagram, hrecv, -, hparse⟩ := read_ok hr
    have hbytes := hsent datagram.payload (by rw [hrecv]; rfl)
    exact (h _ hbytes).heard (hparse seg rfl)

end TCPOverUDPSocketAdapter

/-! ## IPv4 datagrams -/

namespace TCPOverIPv4Adapter

/-- The datagram has one of the segments in it, in whatever ports. -/
def Contains (segs : List TCPSegment) (d : IPv4Datagram) : Prop :=
  ∃ old ∈ segs, ∃ seg : TCPSegment, seg.core = old.core ∧ seg.Sendable ∧ ∃ cksum,
    d.Whole ∧ d.payload.concatenate = seg.wire cksum ∧
      ((InternetChecksum.new d.header.pseudoCksum).add (seg.wire cksum)).value = .ok 0

theorem Contains.mono {segs more : List TCPSegment} {d : IPv4Datagram} (h : Contains segs d)
    (hsub : segs ⊆ more) : Contains more d := by
  obtain ⟨old, hold, rest⟩ := h
  exact ⟨old, hsub hold, rest⟩

theorem contains_wrap {a : TCPOverIPv4Adapter} {seg sent : TCPSegment} {d : IPv4Datagram}
    (hs : seg.Sendable) (hwrap : a.wrapTcpInIp seg = .ok (d, sent)) : Contains [seg] d := by
  obtain ⟨payload, cksum, hwhole, hspec, hpayload, -, hcheck⟩ :=
    wrapTcpInIp_spec a hs.least hs.fits
  rw [hwrap] at hspec
  cases hspec
  exact ⟨seg, List.mem_singleton_self _, a.addressed seg, rfl, ⟨hs.least, hs.most, hs.fits⟩, cksum,
    hwhole, hpayload, hcheck⟩

/-- The bytes are such a datagram. -/
def Encodes (segs : List TCPSegment) (bytes : List Byte) : Prop :=
  ∃ d cksum, Contains segs d ∧ bytes = d.wire cksum

theorem Encodes.mono {segs more : List TCPSegment} {bytes : List Byte} (h : Encodes segs bytes)
    (hsub : segs ⊆ more) : Encodes more bytes := by
  obtain ⟨d, cksum, hd, hbytes⟩ := h
  exact ⟨d, cksum, hd.mono hsub, hbytes⟩

theorem Contains.encodes {segs : List TCPSegment} {d : IPv4Datagram} {bytes : BufferList}
    (h : Contains segs d) (hbytes : d.serialize = .ok bytes) : Encodes segs bytes.concatenate := by
  obtain ⟨-, -, -, -, -, -, hwhole, -⟩ := id h
  obtain ⟨cksum, written, hserialize, hwire, -⟩ := IPv4Datagram.serialize_spec hwhole
  rw [hbytes] at hserialize
  cases hserialize
  exact ⟨d, cksum, h, hwire⟩

theorem carries_unwrap {b c : TCPOverIPv4Adapter} {d : IPv4Datagram} {seg : TCPSegment}
    (h : b.unwrapTcpInIp d = .ok (some seg, c)) : Carries d seg := by
  rcases unwrapTcpInIp_ok h with hnone | ⟨s, -, hopens, heq⟩ | ⟨s, -, hcarries, -, heq⟩
  · cases hnone
  · cases heq
    exact hopens.toCarries
  · cases heq
    exact hcarries

/-- Whoever reads the packet, what comes out of it is that segment. -/
theorem Encodes.heard {segs : List TCPSegment} {buffer : Buffer} {b c : TCPOverIPv4Adapter}
    {res : ParseResult} {d : IPv4Datagram} {seg : TCPSegment} (h : Encodes segs buffer.str)
    (hparse : IPv4Datagram.parse {} buffer = .ok (res, d))
    (hunwrap : b.unwrapTcpInIp d = .ok (some seg, c)) : ∃ old ∈ segs, seg.core = old.core := by
  obtain ⟨whole, ipCksum, hcontains, hbytes⟩ := h
  obtain ⟨old, hold, sent, hcore, hs, cksum, hwhole, hpayload, hcheck⟩ := hcontains
  obtain ⟨rest, hread, hrest⟩ := IPv4Datagram.parse_wire hwhole hbytes
  rw [hparse] at hread
  cases hread
  have hseg := TCPSegment.parse_wire hs.least hs.most {} (hrest.trans hpayload) hcheck
  obtain ⟨payload, hbuffer, hparsed⟩ := (carries_unwrap hunwrap).parsed
  cases hbuffer
  cases hseg.symm.trans hparsed
  exact ⟨old, hold, hcore⟩

end TCPOverIPv4Adapter

/-- A TUN or TAP device takes a packet whole or not at all. -/
def TunKernel.Whole (kernel : TunKernel) : Prop :=
  ∀ i, FileDescriptor.TakesWhole (kernel.write i)

namespace TCPOverIPv4OverTunFdAdapter

theorem read_ok {a b : TCPOverIPv4OverTunFdAdapter} {kernel : TunKernel}
    {ret : Option TCPSegment} (h : a.read kernel = .ok (ret, b)) :
    ∃ bytes, kernel.read FileDescriptor.maxRead = some bytes ∧ b.sent = a.sent ∧
      b.tun.readCount = a.tun.readCount + 1 ∧
      ∀ seg ∈ ret, ∃ res d c, IPv4Datagram.parse {} (.ofString bytes) = .ok (res, d) ∧
        a.adapter.unwrapTcpInIp d = .ok (some seg, c) := by
  obtain ⟨⟨bytes, tun⟩, hread, h⟩ := Exec.bind_eq_ok.mp h
  obtain ⟨⟨res, d⟩, hparse, h⟩ := Exec.bind_eq_ok.mp h
  have hfd := FileDescriptor.read_ok hread
  refine ⟨bytes, hfd.answer, ?_⟩
  have hcount : tun.readCount = a.tun.readCount + 1 := by rw [hfd.fd]
  obtain ⟨-, hr⟩ | ⟨-, h⟩ := Exec.ite_pure_eq_ok.mp h
  · cases hr
    exact ⟨rfl, hcount, by simp⟩
  · obtain ⟨⟨seg, c⟩, hunwrap, h⟩ := Exec.bind_eq_ok.mp h
    cases h
    refine ⟨rfl, hcount, ?_⟩
    rintro s rfl
    exact ⟨res, d, c, hparse, hunwrap⟩

instance : CountsReads TCPOverIPv4OverTunFdAdapter TunKernel where
  read h := by
    obtain ⟨-, -, -, hcount, -⟩ := read_ok h
    exact hcount

instance : Authentic TCPOverIPv4OverTunFdAdapter TunKernel where
  sent := sent
  packet kernel := kernel.read FileDescriptor.maxRead
  Whole := TunKernel.Whole
  Holds a segs := ∀ bytes ∈ a.sent, TCPOverIPv4Adapter.Encodes segs bytes
  read := by
    intro a b kernel seg segs h _ hr
    obtain ⟨-, -, hsent, -⟩ := read_ok hr
    rw [hsent]
    exact h
  write := by
    intro a b kernel seg segs h hwhole hs hw
    obtain ⟨⟨d, sent⟩, hwrap, hw⟩ := Exec.bind_eq_ok.mp hw
    obtain ⟨bytes, hbytes, hw⟩ := Exec.bind_eq_ok.mp hw
    obtain ⟨w, hwrite, hw⟩ := Exec.bind_eq_ok.mp hw
    cases hw
    have htaken := FileDescriptor.write_whole (hwhole 0) hwrite
    rw [BufferViewList.concatenate_ofBufferList] at htaken
    intro packet hpacket
    rcases List.mem_append.mp hpacket with hold | hnew
    · exact (h packet hold).mono (List.subset_append_left _ _)
    · rw [htaken, List.mem_singleton] at hnew
      rw [hnew]
      exact ((TCPOverIPv4Adapter.contains_wrap hs hwrap).encodes hbytes).mono
        (List.subset_append_right _ _)
  tick h _ ht := by
    cases ht
    exact h
  setConfig _ h := h
  setListening _ h := h
  heard := by
    intro a b c kernel seg segs h hsent hr
    obtain ⟨bytes, hbytes, -, -, hseg⟩ := read_ok hr
    obtain ⟨res, d, c', hparse, hunwrap⟩ := hseg seg rfl
    have henc := h _ (hsent bytes hbytes)
    exact @TCPOverIPv4Adapter.Encodes.heard _ (.ofString bytes) _ _ _ _ _ henc hparse hunwrap

end TCPOverIPv4OverTunFdAdapter

/-! ## Lost packets -/

namespace LossyFdAdapter

variable {α ι : Type} [FdAdapter α ι]

theorem read_ok {a b : LossyFdAdapter α} {kernel : ι × UInt16} {ret : Option TCPSegment}
    (h : a.read kernel = .ok (ret, b)) : ∃ heard,
      FdAdapter.read a.adapter kernel.1 = .ok (heard, b.adapter) ∧ (ret = none ∨ ret = heard) := by
  obtain ⟨⟨heard, adapter⟩, hread, h⟩ := Exec.bind_eq_ok.mp h
  refine ⟨heard, ?_⟩
  obtain ⟨-, hr⟩ | ⟨-, h⟩ := Exec.ite_pure_eq_ok.mp h
  · cases hr
    exact ⟨hread, .inl rfl⟩
  · cases h
    exact ⟨hread, .inr rfl⟩

instance [CountsReads α ι] : CountsReads (LossyFdAdapter α) (ι × UInt16) where
  read h := by
    obtain ⟨_, hread, -⟩ := read_ok h
    have hcount := CountsReads.read hread
    exact hcount

instance [Authentic α ι] : Authentic (LossyFdAdapter α) (ι × UInt16) where
  sent a := Authentic.sent a.adapter
  packet kernel := Authentic.packet α kernel.1
  Whole kernel := Authentic.Whole α kernel.1
  Holds a segs := ∃ given ⊆ segs, Authentic.Holds a.adapter given
  read := by
    rintro a b kernel seg segs ⟨given, hsub, h⟩ hwhole hr
    obtain ⟨_, hread, -⟩ := read_ok hr
    exact ⟨given, hsub, Authentic.read h hwhole hread⟩
  write := by
    rintro a b kernel seg segs ⟨given, hsub, h⟩ hwhole hs hw
    obtain ⟨-, hr⟩ | ⟨-, hw⟩ := Exec.ite_pure_eq_ok.mp hw
    · cases hr
      exact ⟨given, List.subset_append_of_subset_left _ hsub, h⟩
    · obtain ⟨adapter, hwrite, hw⟩ := Exec.bind_eq_ok.mp hw
      cases hw
      refine ⟨given ++ [seg], ?_, Authentic.write h hwhole hs hwrite⟩
      exact List.append_subset.mpr ⟨List.subset_append_of_subset_left _ hsub,
        List.subset_append_right _ _⟩
  tick := by
    rintro a b kernel ms segs ⟨given, hsub, h⟩ hwhole ht
    obtain ⟨adapter, htick, ht⟩ := Exec.bind_eq_ok.mp ht
    cases ht
    exact ⟨given, hsub, Authentic.tick h hwhole htick⟩
  setConfig cfg := by
    rintro ⟨given, hsub, h⟩
    exact ⟨given, hsub, Authentic.setConfig cfg h⟩
  setListening l := by
    rintro ⟨given, hsub, h⟩
    exact ⟨given, hsub, Authentic.setListening l h⟩
  heard := by
    rintro a b c kernel seg segs ⟨given, hsub, h⟩ hsent hr
    obtain ⟨heard, hread, hnone | hsome⟩ := read_ok hr
    · cases hnone
    · cases hsome
      obtain ⟨old, hold, hcore⟩ := Authentic.heard h hsent hread
      exact ⟨old, hsub hold, hcore⟩

end LossyFdAdapter

end Sponge
