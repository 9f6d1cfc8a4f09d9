import Sponge.Checksum
import Sponge.Lib.Words
import Sponge.Parser

/-!
# IPv4 datagrams

`IPv4Header` and `IPv4Datagram` of `ipv4_header.cc` and `ipv4_datagram.cc`.

* `parse_spec`: what the header parser reads, and what it answers;
* `accepts_well_formed_iff`: the datagram parser drops that answer, so it accepts the
  well-formed datagrams and, by coincidence of two lengths, others;
* `IPv4Datagram.serialize_spec`, `IPv4Datagram.parse_wire`: the bytes that a datagram is
  written as, and that it is read back from these.
-/

namespace Sponge

open NetParser Words

structure IPv4Header where
  ver : UInt8 := 4
  /-- In words of 32 bits. -/
  hlen : UInt8 := 5
  tos : UInt8 := 0
  len : UInt16 := 0
  id : UInt16 := 0
  df : Bool := true
  mf : Bool := false
  offset : UInt16 := 0
  ttl : UInt8 := 128
  proto : UInt8 := 6
  cksum : UInt16 := 0
  src : UInt32 := 0
  dst : UInt32 := 0
  deriving DecidableEq

namespace IPv4Header

/-- `LENGTH`. -/
def length : Nat := 20

/-- `PROTO_TCP`. -/
def protoTcp : UInt8 := 6

/-- The fields, in the order `parse` reads them. -/
def parseFields (p : NetParser) : Except Fault (IPv4Header × NetParser) := do
  let (firstByte, p) ← p.u8
  let (tos, p) ← p.u8
  let (len, p) ← p.u16
  let (id, p) ← p.u16
  let (foVal, p) ← p.u16
  let (ttl, p) ← p.u8
  let (proto, p) ← p.u8
  let (cksum, p) ← p.u16
  let (src, p) ← p.u32
  let (dst, p) ← p.u32
  return (
    { ver := firstByte >>> 4
      hlen := firstByte &&& 0x0f
      tos := tos
      len := len
      id := id
      df := foVal &&& 0x4000 != 0
      mf := foVal &&& 0x2000 != 0
      offset := foVal &&& 0x1fff
      ttl := ttl
      proto := proto
      cksum := cksum
      src := src
      dst := dst }, p)

def parse (h : IPv4Header) (p : NetParser) :
    Except Fault (ParseResult × IPv4Header × NetParser) := do
  let originalSerializedVersion := p.buffer
  let dataSize := p.buffer.size
  if dataSize < length then
    return (.packetTooShort, h, p)
  let (h, p) ← parseFields p
  if dataSize < 4 * h.hlen.toNat then
    return (.packetTooShort, h, p)
  if h.ver != 4 then
    return (.wrongIPVersion, h, p)
  if h.hlen < 5 then
    return (.headerTooShort, h, p)
  if dataSize ≠ h.len.toNat then
    return (.truncatedPacket, h, p)
  let p ← p.removePrefix (sub64 (h.hlen.toNat * 4) length)
  if p.error then
    return (p.getError, h, p)
  let check := (InternetChecksum.new 0).add (originalSerializedVersion.str.take (4 * h.hlen.toNat))
  if (← check.value) != 0 then
    return (.badChecksum, h, p)
  return (.noError, h, p)

/-- `std::string::resize`. -/
def resize (s : List Byte) (n : Nat) : List Byte := s.take n ++ List.replicate (n - s.length) 0

def serialize (h : IPv4Header) : Except Fault (List Byte) := do
  if h.ver != 4 then
    throw (.throws "wrong IP version")
  if 4 * h.hlen.toNat < length then
    throw (.throws "IP header too short")
  let firstByte := (h.ver <<< 4) ||| (h.hlen &&& 0xf)
  let ret := NetUnparser.u8 [] firstByte
  let ret := NetUnparser.u8 ret h.tos
  let ret := NetUnparser.u16 ret h.len
  let ret := NetUnparser.u16 ret h.id
  let foVal := (if h.df then 0x4000 else 0) ||| (if h.mf then 0x2000 else 0) |||
    (h.offset &&& 0x1fff)
  let ret := NetUnparser.u16 ret foVal
  let ret := NetUnparser.u8 ret h.ttl
  let ret := NetUnparser.u8 ret h.proto
  let ret := NetUnparser.u16 ret h.cksum
  let ret := NetUnparser.u32 ret h.src
  let ret := NetUnparser.u32 ret h.dst
  return resize ret (4 * h.hlen.toNat)

def payloadLength (h : IPv4Header) : UInt16 := h.len - 4 * h.hlen.toUInt16

def pseudoCksum (h : IPv4Header) : UInt32 :=
  let pcksum := (h.src >>> 16) + (h.src &&& 0xffff)
  let pcksum := pcksum + ((h.dst >>> 16) + (h.dst &&& 0xffff))
  let pcksum := pcksum + h.proto.toUInt32
  pcksum + h.payloadLength.toUInt32

end IPv4Header

structure IPv4Datagram where
  header : IPv4Header := {}
  payload : BufferList := .empty
  deriving DecidableEq

namespace IPv4Datagram

def parse (d : IPv4Datagram) (buffer : Buffer) : Except Fault (ParseResult × IPv4Datagram) := do
  -- the result of the header's `parse` is not looked at
  let (_, header, p) ← d.header.parse (NetParser.new buffer)
  let payload := BufferList.ofBuffer p.buffer
  let d := { header := header, payload := payload }
  if payload.size ≠ header.payloadLength.toNat then
    return (.packetTooShort, d)
  return (p.getError, d)

def serialize (d : IPv4Datagram) : Except Fault BufferList := do
  if d.payload.size ≠ d.header.payloadLength.toNat then
    throw (.throws "IPv4Datagram::serialize: payload is wrong size")
  let headerZeroChecksum ← { d.header with cksum := 0 }.serialize
  let check := (InternetChecksum.new 0).add headerZeroChecksum
  let cksum ← check.value
  let headerOut ← { d.header with cksum := cksum }.serialize
  return (BufferList.ofString headerOut).append d.payload

end IPv4Datagram

/-! ## What the bytes say -/

/-- The version nibble. -/
def versionOf (b : List Byte) : Nat := field b 0 1 / 16

/-- The header length nibble. -/
def headerLengthOf (b : List Byte) : Nat := field b 0 1 % 16

/-- The total-length field. -/
def totalLengthOf (b : List Byte) : Nat := field b 2 2

/-- The Internet checksum of the first bytes. -/
def checksumOf (b : List Byte) (n : Nat) : Except Fault UInt16 :=
  ((InternetChecksum.new 0).add (b.take n)).value

/-- The header's lengths and version are right. -/
structure Sized (b : List Byte) : Prop where
  header : 4 * headerLengthOf b ≤ b.length
  version : versionOf b = 4
  least : 5 ≤ headerLengthOf b
  total : totalLengthOf b = b.length

structure WellFormed (b : List Byte) : Prop extends Sized b where
  length : 20 ≤ b.length
  checksum : checksumOf b (4 * headerLengthOf b) = .ok 0

theorem sized_iff (b : List Byte) : Sized b ↔ 4 * headerLengthOf b ≤ b.length ∧
    versionOf b = 4 ∧ 5 ≤ headerLengthOf b ∧ totalLengthOf b = b.length :=
  ⟨fun ⟨h1, h2, h3, h4⟩ => ⟨h1, h2, h3, h4⟩, fun ⟨h1, h2, h3, h4⟩ => ⟨h1, h2, h3, h4⟩⟩

instance (b : List Byte) : Decidable (Sized b) := decidable_of_iff _ (sized_iff b).symm

/-! ## The header parser -/

/-- The options of a header of `n` words are skipped. -/
theorem NetParser.removePrefix_options {p q : NetParser} {n : Nat} (past : Past p 20 q)
    (hleast : 5 ≤ n) (hfits : 4 * n ≤ p.buffer.str.length) :
    ∃ r, q.removePrefix (sub64 (n * 4) 20) = .ok r ∧ Past p (4 * n) r ∧ r.error = false := by
  obtain ⟨r, hr, hpast⟩ := removePrefix_ok past (show 20 + (4 * n - 20) ≤ _ by omega)
  rw [Nat.add_sub_cancel' (by omega)] at hpast
  refine ⟨r, ?_, hpast, ?_⟩
  · rw [sub64_of_le (by omega), Nat.mul_comm]
    exact hr
  · rw [error, hpast.getError]
    rfl

namespace IPv4Header

/-- The header that the first twenty bytes spell. -/
def ofBytes (b : List Byte) : IPv4Header :=
  let firstByte := UInt8.ofNat (field b 0 1)
  let foVal := UInt16.ofNat (field b 6 2)
  { ver := firstByte >>> 4
    hlen := firstByte &&& 0x0f
    tos := UInt8.ofNat (field b 1 1)
    len := UInt16.ofNat (field b 2 2)
    id := UInt16.ofNat (field b 4 2)
    df := foVal &&& 0x4000 != 0
    mf := foVal &&& 0x2000 != 0
    offset := foVal &&& 0x1fff
    ttl := UInt8.ofNat (field b 8 1)
    proto := UInt8.ofNat (field b 9 1)
    cksum := UInt16.ofNat (field b 10 2)
    src := UInt32.ofNat (field b 12 4)
    dst := UInt32.ofNat (field b 16 4) }

theorem parseFields_ok {p : NetParser} (h : p.getError = .noError)
    (hlen : 20 ≤ p.buffer.str.length) :
    ∃ q, parseFields p = .ok (ofBytes p.buffer.str, q) ∧ Past p 20 q := by
  have h0 : Past p 0 p := ⟨rfl, h⟩
  obtain ⟨p1, e1, h1⟩ := u8_ok h0 (by omega)
  obtain ⟨p2, e2, h2⟩ := u8_ok h1 (by omega)
  obtain ⟨p3, e3, h3⟩ := u16_ok h2 (by omega)
  obtain ⟨p4, e4, h4⟩ := u16_ok h3 (by omega)
  obtain ⟨p5, e5, h5⟩ := u16_ok h4 (by omega)
  obtain ⟨p6, e6, h6⟩ := u8_ok h5 (by omega)
  obtain ⟨p7, e7, h7⟩ := u8_ok h6 (by omega)
  obtain ⟨p8, e8, h8⟩ := u16_ok h7 (by omega)
  obtain ⟨p9, e9, h9⟩ := u32_ok h8 (by omega)
  obtain ⟨q, e10, h10⟩ := u32_ok h9 (by omega)
  refine ⟨q, ?_, h10⟩
  simp only [parseFields, e1, e2, e3, e4, e5, e6, e7, e8, e9, e10, Exec.ok_bind, Exec.pure_ok]
  rfl

@[simp] theorem ofBytes_ver (b : List Byte) : (ofBytes b).ver.toNat = versionOf b := by
  have := field_lt b 0 1
  simp only [ofBytes, versionOf, UInt8.toNat_shiftRight, UInt8.toNat_ofNat',
    Nat.shiftRight_eq_div_pow]
  rw [Nat.mod_eq_of_lt (by omega)]
  rfl

@[simp] theorem ofBytes_hlen (b : List Byte) : (ofBytes b).hlen.toNat = headerLengthOf b := by
  have := field_lt b 0 1
  simp only [ofBytes, headerLengthOf, UInt8.toNat_and, UInt8.toNat_ofNat']
  rw [Nat.mod_eq_of_lt (by omega)]
  exact Nat.and_two_pow_sub_one_eq_mod _ 4

@[simp] theorem ofBytes_len (b : List Byte) : (ofBytes b).len.toNat = totalLengthOf b := by
  have := field_lt b 2 2
  simp only [ofBytes, totalLengthOf, UInt16.toNat_ofNat']
  exact Nat.mod_eq_of_lt (by omega)

/-- The payload length as the header gives it, in 16 bits. -/
theorem toNat_payloadLength (h : IPv4Header) :
    h.payloadLength.toNat = (h.len.toNat + 2 ^ 16 - 4 * h.hlen.toNat) % 2 ^ 16 := by
  have hlt := h.hlen.toNat_lt
  have hmul : (4 * h.hlen.toUInt16).toNat = 4 * h.hlen.toNat := by
    rw [UInt16.toNat_mul, UInt8.toNat_toUInt16, show (4 : UInt16).toNat = 4 from rfl,
      Nat.mod_eq_of_lt (by omega)]
  rw [payloadLength, UInt16.toNat_sub, hmul]
  congr 1
  omega

theorem ofBytes_payloadLength (b : List Byte) : (ofBytes b).payloadLength.toNat =
    (totalLengthOf b + 2 ^ 16 - 4 * headerLengthOf b) % 2 ^ 16 := by
  rw [toNat_payloadLength, ofBytes_len, ofBytes_hlen]

/-- **The header parser.** It answers `NoError` exactly on a well-formed datagram, and
stands after the header only when the lengths and the version are right. -/
theorem parse_spec (h : IPv4Header) (buffer : Buffer) (hlen : 20 ≤ buffer.str.length) :
    ∃ res q, h.parse (NetParser.new buffer) = .ok (res, ofBytes buffer.str, q) ∧
      (res = .noError ↔ WellFormed buffer.str) ∧
      Past (NetParser.new buffer)
        (if Sized buffer.str then 4 * headerLengthOf buffer.str else 20) q := by
  obtain ⟨p, hp, past⟩ := parseFields_ok (p := NetParser.new buffer) rfl hlen
  change parseFields (NetParser.new buffer) = .ok (ofBytes buffer.str, p) at hp
  have hsize : (NetParser.new buffer).buffer.size = buffer.str.length := rfl
  have hver : (ofBytes buffer.str).ver = 4 ↔ versionOf buffer.str = 4 := by
    rw [← ofBytes_ver, ← UInt8.toNat_inj]
    rfl
  have hleast : (ofBytes buffer.str).hlen < 5 ↔ headerLengthOf buffer.str < 5 := by
    rw [← ofBytes_hlen, UInt8.lt_iff_toNat_lt]
    rfl
  simp only [parse, hsize, if_neg (Nat.not_lt.mpr hlen), hp, Exec.ok_bind, Exec.pure_ok,
    ofBytes_hlen, bne_iff_ne, ne_eq, hver, hleast, ofBytes_len, length]
  by_cases hs : Sized buffer.str
  · have h1 := hs.header
    have h2 := hs.version
    have h3 := hs.least
    have h4 := hs.total
    obtain ⟨q, hq, hpast, hnone⟩ := removePrefix_options past h3 h1
    obtain ⟨v, hv⟩ := InternetChecksum.value_returns
      ((InternetChecksum.new 0).add (buffer.str.take (4 * headerLengthOf buffer.str)))
    have hbuf : (NetParser.new buffer).buffer = buffer := rfl
    rw [if_neg (by omega), if_neg (by omega), if_neg (by omega), if_neg (by omega), hq,
      Exec.ok_bind, hnone, if_neg (by decide), hbuf, hv, Exec.ok_bind, if_pos hs]
    have hsum : checksumOf buffer.str (4 * headerLengthOf buffer.str) = .ok v := hv
    split
    · rename_i hbad
      refine ⟨_, q, rfl, ⟨fun h => absurd h (by decide), fun h => ?_⟩, hpast⟩
      have := h.checksum
      rw [hsum] at this
      exact absurd (Except.ok.inj this) hbad
    · rename_i hgood
      refine ⟨_, q, rfl, ⟨fun _ => ⟨hs, hlen, ?_⟩, fun _ => rfl⟩, hpast⟩
      rw [hsum, Decidable.not_not.mp hgood]
  · -- the parser stays after the twenty bytes it has read
    have rejects : ∀ res : ParseResult, res ≠ .noError →
        (res = .noError ↔ WellFormed buffer.str) ∧ Past (NetParser.new buffer) 20 p :=
      fun res hres => ⟨⟨fun h => absurd h hres, fun h => absurd h.toSized hs⟩, past⟩
    rw [if_neg hs]
    split
    · exact ⟨_, _, rfl, rejects _ (by decide)⟩
    · split
      · exact ⟨_, _, rfl, rejects _ (by decide)⟩
      · split
        · exact ⟨_, _, rfl, rejects _ (by decide)⟩
        · split
          · exact ⟨_, _, rfl, rejects _ (by decide)⟩
          · rename_i h1 h2 h3 h4
            exact absurd ⟨by omega, by omega, by omega, by omega⟩ hs

end IPv4Header

/-! ## The datagram parser -/

namespace IPv4Datagram

/-- On fewer than twenty bytes no field is read, and the default header asks for a payload
longer than they are. -/
theorem parse_short (buffer : Buffer) (h : buffer.str.length < 20) :
    ∃ d, parse {} buffer = .ok (.packetTooShort, d) := by
  have hsize : (NetParser.new buffer).buffer.size = buffer.str.length := rfl
  have hdefault : (({} : IPv4Header).payloadLength).toNat = 65516 := by decide
  have hpayload : (BufferList.ofBuffer (NetParser.new buffer).buffer).size = buffer.str.length :=
    BufferList.size_ofBuffer buffer
  simp only [parse, IPv4Header.parse, hsize, IPv4Header.length, if_pos h, Exec.pure_ok,
    Exec.ok_bind, hdefault, hpayload]
  exact ⟨_, if_pos (by omega)⟩

/-- Past the first twenty bytes only the two lengths are compared. -/
theorem parse_long (buffer : Buffer) (h : 20 ≤ buffer.str.length) :
    ∃ res rest, parse {} buffer =
        .ok (res, { header := .ofBytes buffer.str, payload := .ofBuffer rest }) ∧
      rest.str = buffer.str.drop
        (if Sized buffer.str then 4 * headerLengthOf buffer.str else 20) ∧
      (res = .noError ↔ rest.str.length =
        (totalLengthOf buffer.str + 2 ^ 16 - 4 * headerLengthOf buffer.str) % 2 ^ 16) := by
  obtain ⟨ignored, q, hq, _, hpast⟩ := IPv4Header.parse_spec {} buffer h
  have hstr := hpast.str
  have hbuf : (NetParser.new buffer).buffer = buffer := rfl
  rw [hbuf] at hstr
  simp only [parse, hq, Exec.ok_bind, Exec.pure_ok, BufferList.size_ofBuffer,
    IPv4Header.ofBytes_payloadLength, hpast.getError]
  split
  · rename_i hne
    exact ⟨_, q.buffer, rfl, hstr, fun h => absurd h (by decide), fun h => absurd h hne⟩
  · rename_i heq
    exact ⟨_, q.buffer, rfl, hstr, fun _ => Decidable.not_not.mp heq, fun _ => rfl⟩

theorem parse_returns (buffer : Buffer) : ∃ res d, parse {} buffer = .ok (res, d) := by
  by_cases h : 20 ≤ buffer.str.length
  · obtain ⟨res, rest, hp, -⟩ := parse_long buffer h
    exact ⟨res, _, hp⟩
  · obtain ⟨d, hp⟩ := parse_short buffer (by omega)
    exact ⟨_, d, hp⟩

/-- The datagrams on which the answer is right: a correct header has a correct checksum,
and an incorrect one does not give, in 16 bits, the length of what follows the first
twenty bytes. -/
def Judged (b : List Byte) : Prop :=
  20 ≤ b.length →
    if Sized b then checksumOf b (4 * headerLengthOf b) = .ok 0
    else b.length - 20 ≠ (totalLengthOf b + 2 ^ 16 - 4 * headerLengthOf b) % 2 ^ 16

/-- **Acceptance.** `parse` always returns. Its answer is `NoError` exactly for the
well-formed datagrams, with the payload that follows the header, on the byte strings that
`Judged` describes and on no others. -/
theorem accepts_well_formed_iff (buffer : Buffer) :
    ∃ res d, parse {} buffer = .ok (res, d) ∧
      ((res = .noError ↔ WellFormed buffer.str) ∧
          (res = .noError →
            d.payload.concatenate = buffer.str.drop (4 * headerLengthOf buffer.str)) ↔
        Judged buffer.str) := by
  by_cases hlen : 20 ≤ buffer.str.length
  · obtain ⟨res, rest, hp, hpayload, hres⟩ := parse_long buffer hlen
    refine ⟨res, _, hp, ?_⟩
    rw [hpayload, List.length_drop] at hres
    rw [BufferList.concatenate_ofBuffer, hpayload, hres]
    by_cases hs : Sized buffer.str
    · -- the lengths agree, so the answer is `NoError` whatever the checksum
      have hle := hs.header
      have htotal := hs.total
      have hlt := field_lt buffer.str 2 2
      have hsame : buffer.str.length - 4 * headerLengthOf buffer.str =
          (totalLengthOf buffer.str + 2 ^ 16 - 4 * headerLengthOf buffer.str) % 2 ^ 16 := by
        change totalLengthOf buffer.str < _ at hlt
        omega
      simp only [Judged, if_pos hs, hsame, hlen, true_iff, true_implies, implies_true, and_true]
      exact ⟨fun h => h.checksum, fun h => ⟨hs, hlen, h⟩⟩
    · have hnot : ¬ WellFormed buffer.str := fun h => hs h.toSized
      simp only [Judged, if_neg hs, hlen, hnot, iff_false, true_implies]
      exact ⟨fun h => h.1, fun h => ⟨h, fun heq => absurd heq h⟩⟩
  · obtain ⟨d, hp⟩ := parse_short buffer (by omega)
    refine ⟨_, d, hp, ?_⟩
    have hnot : ¬ WellFormed buffer.str := fun h => hlen h.length
    simp [Judged, hlen, hnot]

/-- A header with a wrong checksum is accepted, and so is a header of version 5, both of
twenty bytes and without a payload. -/
theorem malformed_accepted :
    (∃ d, parse {} (.ofString ([0x45, 0, 0, 20] ++ List.replicate 16 0)) = .ok (.noError, d) ∧
      ¬ WellFormed ([0x45, 0, 0, 20] ++ List.replicate 16 0)) ∧
    ∃ d, parse {} (.ofString ([0x55, 0, 0, 20] ++ List.replicate 16 0)) = .ok (.noError, d) ∧
      ¬ WellFormed ([0x55, 0, 0, 20] ++ List.replicate 16 0) := by
  constructor
  · refine ⟨_, by rfl, fun h => ?_⟩
    have hsum : checksumOf ([0x45, 0, 0, 20] ++ List.replicate 16 0) 20 = .ok 0xbaeb := by rfl
    exact absurd (Except.ok.inj (hsum.symm.trans h.checksum)) (by decide)
  · refine ⟨_, by rfl, fun h => ?_⟩
    exact absurd h.version (by decide)

end IPv4Datagram

/-! ## Writing a datagram out -/

/-- A header is written out exactly when its version and length are right. -/
theorem IPv4Header.serialize_ok_iff {h : IPv4Header} :
    (∃ out, h.serialize = .ok out) ↔ h.ver = 4 ∧ 5 ≤ h.hlen := by
  have hlen : 4 * h.hlen.toNat < 20 ↔ ¬ 5 ≤ h.hlen := by
    rw [UInt8.le_iff_toNat_le, show (5 : UInt8).toNat = 5 from rfl]
    omega
  simp only [serialize, length, hlen]
  by_cases hv : h.ver = 4
  · by_cases hl : 5 ≤ h.hlen
    · simp [hv, hl]
    · simp [hv, hl, throw, throwThe, MonadExceptOf.throw]
  · simp [hv, throw, throwThe, MonadExceptOf.throw]

namespace IPv4Datagram

/-- What `serialize` asks of a datagram. -/
structure Sendable (d : IPv4Datagram) : Prop where
  size : d.payload.size = d.header.payloadLength.toNat
  ver : d.header.ver = 4
  hlen : 5 ≤ d.header.hlen

theorem serialize_ok_iff {d : IPv4Datagram} : (∃ out, d.serialize = .ok out) ↔ d.Sendable := by
  constructor
  · rintro ⟨out, h⟩
    unfold serialize at h
    split at h
    · cases h
    · rename_i hsize
      obtain ⟨bytes, hbytes, -⟩ := Exec.bind_eq_ok.mp h
      obtain ⟨hver, hlen⟩ := IPv4Header.serialize_ok_iff.mp ⟨bytes, hbytes⟩
      exact ⟨Decidable.not_not.mp hsize, hver, hlen⟩
  · intro h
    obtain ⟨zeroed, hz⟩ := (IPv4Header.serialize_ok_iff (h := { d.header with cksum := 0 })).mpr
      ⟨h.ver, h.hlen⟩
    obtain ⟨cksum, hc⟩ := InternetChecksum.value_returns ((InternetChecksum.new 0).add zeroed)
    obtain ⟨bytes, hb⟩ :=
      (IPv4Header.serialize_ok_iff (h := { d.header with cksum := cksum })).mpr ⟨h.ver, h.hlen⟩
    apply Exists.intro
    simp only [serialize, h.size, ne_eq, not_true_eq_false, ↓reduceIte, hz, hc, hb, Exec.ok_bind,
      Exec.pure_ok]
    rfl

end IPv4Datagram

/-! ## Writing out and reading back -/

namespace IPv4Header

/-- The first byte, and the word of the flags and the offset. -/
def firstByte (h : IPv4Header) : UInt8 := (h.ver <<< 4) ||| (h.hlen &&& 0xf)

def foVal (h : IPv4Header) : UInt16 :=
  (if h.df then 0x4000 else 0) ||| (if h.mf then 0x2000 else 0) ||| (h.offset &&& 0x1fff)

/-- The bytes before the checksum. -/
def front (h : IPv4Header) : List Byte :=
  BigEndian.digits 1 h.firstByte.toNat ++ (BigEndian.digits 1 h.tos.toNat ++
  (BigEndian.digits 2 h.len.toNat ++ (BigEndian.digits 2 h.id.toNat ++
  (BigEndian.digits 2 h.foVal.toNat ++ (BigEndian.digits 1 h.ttl.toNat ++
  BigEndian.digits 1 h.proto.toNat)))))

/-- The bytes after it, with the place of the options. -/
def back (h : IPv4Header) : List Byte :=
  BigEndian.digits 4 h.src.toNat ++ (BigEndian.digits 4 h.dst.toNat ++
  List.replicate (4 * h.hlen.toNat - 20) 0)

/-- What a header needs to be written out and read back. -/
structure Plain (h : IPv4Header) : Prop where
  ver : h.ver = 4
  least : 5 ≤ h.hlen
  most : h.hlen ≤ 15
  offset : h.offset < 0x2000

theorem Plain.five {h : IPv4Header} (hp : Plain h) : 5 ≤ h.hlen.toNat :=
  UInt8.le_iff_toNat_le.mp hp.least

theorem resize_of_le {s : List Byte} {n : Nat} (h : s.length ≤ n) :
    resize s n = s ++ List.replicate (n - s.length) 0 := by
  rw [resize, List.take_of_length_le h]

theorem length_front (h : IPv4Header) : h.front.length = 10 := by simp [front]

theorem length_back {h : IPv4Header} (hp : Plain h) : h.back.length = 4 * h.hlen.toNat - 12 := by
  have := hp.five
  simp only [back, List.length_append, BigEndian.length_digits, List.length_replicate]
  omega

theorem serialize_eq {h : IPv4Header} (hp : Plain h) :
    h.serialize = .ok (h.front ++ (BigEndian.digits 2 h.cksum.toNat ++ h.back)) := by
  have hfive := hp.five
  have hshort : ¬ 4 * h.hlen.toNat < length := by
    rw [length]
    omega
  simp only [serialize, hp.ver, bne_self_eq_false, Bool.false_eq_true, ↓reduceIte, if_neg hshort,
    Exec.pure_ok, NetUnparser.u16_eq, NetUnparser.u8_eq, NetUnparser.u32_eq, List.nil_append]
  rw [resize_of_le (by simp; omega)]
  simp [front, back, firstByte, foVal, hp.ver]

theorem firstByte_read {h : IPv4Header} (hp : Plain h) :
    h.firstByte >>> 4 = h.ver ∧ h.firstByte &&& 0x0f = h.hlen := by
  have hmost : h.hlen.toNat ≤ 15 := UInt8.le_iff_toNat_le.mp hp.most
  have hall : ∀ n : Nat, n < 16 → (((4 : UInt8) <<< 4) ||| (UInt8.ofNat n &&& 0xf)) >>> 4 = 4 ∧
      (((4 : UInt8) <<< 4) ||| (UInt8.ofNat n &&& 0xf)) &&& 0x0f = UInt8.ofNat n := by decide
  have hthis := hall h.hlen.toNat (by omega)
  rw [UInt8.ofNat_toNat] at hthis
  rw [firstByte, hp.ver]
  exact hthis

theorem foVal_read {h : IPv4Header} (hp : Plain h) :
    (h.foVal &&& 0x4000 != 0) = h.df ∧ (h.foVal &&& 0x2000 != 0) = h.mf ∧
      h.foVal &&& 0x1fff = h.offset := by
  have hoffset : h.offset &&& 0x1fff = h.offset := by
    have hlt : h.offset.toNat < 2 ^ 13 := UInt16.lt_iff_toNat_lt.mp hp.offset
    apply UInt16.toNat_inj.mp
    rw [UInt16.toNat_and]
    exact (Nat.and_two_pow_sub_one_eq_mod _ 13).trans (Nat.mod_eq_of_lt hlt)
  have hdisjoint : ∀ m : UInt16, 0x1fff &&& m = 0 → h.offset &&& m = 0 := by
    intro m hm
    rw [← hoffset, UInt16.and_assoc, hm, UInt16.and_zero]
  have hor : ∀ a b m : UInt16, (a ||| b) &&& m = (a &&& m) ||| (b &&& m) :=
    fun a b m => UInt16.toBitVec_inj.mp BitVec.and_or_distrib_right
  rw [foVal, hoffset]
  simp only [hor, hoffset, hdisjoint 0x4000 (by decide),
    hdisjoint 0x2000 (by decide)]
  have hflags : (0x4000 : UInt16) &&& 0x2000 = 0 ∧ (0x2000 : UInt16) &&& 0x4000 = 0 ∧
      (0x4000 : UInt16) &&& 0x1fff = 0 ∧ (0x2000 : UInt16) &&& 0x1fff = 0 := by decide
  obtain ⟨hd, hm, hd', hm'⟩ := hflags
  cases h.df with
  | true => cases h.mf <;> simp [hd, hd', hm']
  | false => cases h.mf <;> simp [hm, hm']

/-- The header that a written header spells, whatever follows it. -/
theorem ofBytes_front {h : IPv4Header} (hp : Plain h) {b : List Byte} (rest : List Byte)
    (hb : b = h.front ++ (BigEndian.digits 2 h.cksum.toNat ++ (h.back ++ rest))) :
    ofBytes b = h := by
  have d0 : b.drop 0 = _ := hb
  simp only [front, back, List.append_assoc] at d0
  have d1 := drop_add d0 (BigEndian.length_digits _ _)
  have d2 := drop_add d1 (BigEndian.length_digits _ _)
  have d4 := drop_add d2 (BigEndian.length_digits _ _)
  have d6 := drop_add d4 (BigEndian.length_digits _ _)
  have d8 := drop_add d6 (BigEndian.length_digits _ _)
  have d9 := drop_add d8 (BigEndian.length_digits _ _)
  have d10 := drop_add d9 (BigEndian.length_digits _ _)
  have d12 := drop_add d10 (BigEndian.length_digits _ _)
  have d16 := drop_add d12 (BigEndian.length_digits _ _)
  have hfirst : UInt8.ofNat (field b 0 1) = h.firstByte := by
    rw [field_digits d0 (UInt8.toNat_lt _), UInt8.ofNat_toNat]
  have hfo : UInt16.ofNat (field b 6 2) = h.foVal := by
    rw [field_digits d6 (UInt16.toNat_lt _), UInt16.ofNat_toNat]
  obtain ⟨hver, hhlen⟩ := firstByte_read hp
  obtain ⟨hdf, hmf, hoffset⟩ := foVal_read hp
  rw [ofBytes, hfirst, hfo, hver, hhlen, hdf, hmf, hoffset,
    field_digits d1 (UInt8.toNat_lt _), field_digits d2 (UInt16.toNat_lt _),
    field_digits d4 (UInt16.toNat_lt _), field_digits d8 (UInt8.toNat_lt _),
    field_digits d9 (UInt8.toNat_lt _), field_digits d10 (UInt16.toNat_lt _),
    field_digits d12 (UInt32.toNat_lt _), field_digits d16 (UInt32.toNat_lt _)]
  simp only [UInt8.ofNat_toNat, UInt16.ofNat_toNat, UInt32.ofNat_toNat]

/-- Five words of 16 bits and a byte. -/
theorem pseudoCksum_lt (h : IPv4Header) : h.pseudoCksum.toNat < 2 ^ 20 := by
  have hhalves : ∀ a : UInt32, ((a >>> 16) + (a &&& 0xffff)).toNat < 2 ^ 17 := by
    intro a
    have hlt := a.toNat_lt
    rw [InternetChecksum.fold_carry, OnesComplement.carry]
    omega
  have hsrc := hhalves h.src
  have hdst := hhalves h.dst
  have hproto := h.proto.toNat_lt
  have hlength := h.payloadLength.toNat_lt
  simp only [pseudoCksum]
  generalize (h.src >>> 16) + (h.src &&& 0xffff) = s at *
  generalize (h.dst >>> 16) + (h.dst &&& 0xffff) = d at *
  rw [UInt32.toNat_add, UInt32.toNat_add, UInt32.toNat_add, UInt8.toNat_toUInt32,
    UInt16.toNat_toUInt32]
  omega

end IPv4Header

namespace IPv4Datagram

/-- A header to write out, and its total length is right. -/
structure Whole (d : IPv4Datagram) : Prop where
  plain : d.header.Plain
  total : d.header.len.toNat = 4 * d.header.hlen.toNat + d.payload.size

theorem Whole.payloadLength {d : IPv4Datagram} (h : Whole d) :
    d.header.payloadLength.toNat = d.payload.size := by
  have hlen := d.header.len.toNat_lt
  have htotal := h.total
  rw [IPv4Header.toNat_payloadLength]
  omega

/-- The bytes of a datagram with the checksum `cksum`. -/
def wire (d : IPv4Datagram) (cksum : UInt16) : List Byte :=
  d.header.front ++ (BigEndian.digits 2 cksum.toNat ++ (d.header.back ++ d.payload.concatenate))

/-- **Writing a datagram out.** -/
theorem serialize_spec {d : IPv4Datagram} (h : Whole d) :
    ∃ cksum bytes, d.serialize = .ok bytes ∧ bytes.concatenate = d.wire cksum ∧
      ((InternetChecksum.new 0).add (d.header.front ++
        (BigEndian.digits 2 0 ++ d.header.back))).value = .ok cksum := by
  have hout : ∀ v : UInt16, { d.header with cksum := v }.serialize =
      .ok (d.header.front ++ (BigEndian.digits 2 v.toNat ++ d.header.back)) :=
    fun v => IPv4Header.serialize_eq (h := { d.header with cksum := v })
      ⟨h.plain.ver, h.plain.least, h.plain.most, h.plain.offset⟩
  obtain ⟨cksum, hvalue⟩ := InternetChecksum.value_returns ((InternetChecksum.new 0).add
    (d.header.front ++ (BigEndian.digits 2 (0 : UInt16).toNat ++ d.header.back)))
  refine ⟨cksum, (BufferList.ofString (d.header.front ++ (BigEndian.digits 2 cksum.toNat ++
    d.header.back))).append d.payload, ?_, ?_, hvalue⟩
  · simp only [serialize, h.payloadLength, ne_eq, not_true_eq_false, ↓reduceIte, hout,
      Exec.ok_bind, hvalue, Exec.pure_ok]
  · simp [BufferList.ofString, BufferList.append, BufferList.concatenate, wire]

/-- **Round trip.** The bytes of a datagram are read back as the datagram, with the checksum
filled in and the payload in one buffer. -/
theorem parse_wire {d : IPv4Datagram} (h : Whole d) {cksum : UInt16} {buffer : Buffer}
    (hb : buffer.str = d.wire cksum) :
    ∃ rest, parse {} buffer = .ok (.noError,
        { header := { d.header with cksum := cksum }, payload := .ofBuffer rest }) ∧
      rest.str = d.payload.concatenate := by
  have hfive := h.plain.five
  have hmost : d.header.hlen.toNat ≤ 15 := UInt8.le_iff_toNat_le.mp h.plain.most
  have htotal := h.total
  have hlen := d.header.len.toNat_lt
  rw [BufferList.size_eq] at htotal
  have hlength : buffer.str.length = 4 * d.header.hlen.toNat + d.payload.concatenate.length := by
    rw [hb, wire, List.length_append, List.length_append, List.length_append,
      IPv4Header.length_front, BigEndian.length_digits, IPv4Header.length_back h.plain]
    omega
  have hheader : IPv4Header.ofBytes buffer.str = { d.header with cksum := cksum } :=
    IPv4Header.ofBytes_front (h := { d.header with cksum := cksum })
      ⟨h.plain.ver, h.plain.least, h.plain.most, h.plain.offset⟩ d.payload.concatenate hb
  have hhlen : headerLengthOf buffer.str = d.header.hlen.toNat := by
    rw [← IPv4Header.ofBytes_hlen, hheader]
  have hlenOf : totalLengthOf buffer.str = d.header.len.toNat := by
    rw [← IPv4Header.ofBytes_len, hheader]
  have hsized : Sized buffer.str := by
    refine ⟨by omega, ?_, by omega, by omega⟩
    rw [← IPv4Header.ofBytes_ver, hheader]
    exact congrArg UInt8.toNat h.plain.ver
  obtain ⟨res, rest, hp, hrest, hres⟩ := parse_long buffer (by omega)
  have hpayload : rest.str = d.payload.concatenate := by
    rw [hrest, if_pos hsized, hhlen, hb, wire]
    apply drop_pieces
    rw [IPv4Header.length_front, BigEndian.length_digits, IPv4Header.length_back h.plain]
    omega
  have hok : res = .noError := by
    rw [hres, hpayload, hhlen, hlenOf]
    omega
  rw [hok, hheader] at hp
  exact ⟨rest, hp, hpayload⟩

end IPv4Datagram

end Sponge
