import Sponge.IPv4

/-!
# Ethernet frames and ARP messages

`EthernetHeader`, `EthernetFrame` and `ARPMessage` of `ethernet_header.cc`,
`ethernet_frame.cc` and `arp_message.cc`.

* `EthernetFrame.parse_enough`, `EthernetFrame.parse_short`: what the frame parser reads;
* `ARPMessage.parse_spec`: what the ARP parser reads, and what it answers;
* `ARPMessage.parse_serialize`: a message that is written out is read back.
-/

namespace Sponge

abbrev EthernetAddress := Vector Byte 6

/-- `ETHERNET_BROADCAST`. -/
def ethernetBroadcast : EthernetAddress := Vector.replicate 6 0xff

/-- The loop that reads an address byte by byte. -/
def NetParser.bytes : (n : Nat) → NetParser → Except Fault (Vector Byte n × NetParser)
  | 0, p => .ok (Vector.replicate 0 0, p)
  | n + 1, p => do
    let (address, p) ← p.bytes n
    let (byte, p) ← p.u8
    return (address.push byte, p)

/-- The loop that writes an address byte by byte. -/
def NetUnparser.bytes (s : List Byte) (address : EthernetAddress) : List Byte :=
  address.toList.foldl NetUnparser.u8 s

structure EthernetHeader where
  dst : EthernetAddress
  src : EthernetAddress
  type : UInt16
  deriving DecidableEq

namespace EthernetHeader

/-- `LENGTH`. -/
def length : Nat := 14

/-- `TYPE_IPv4`. -/
def typeIPv4 : UInt16 := 0x800

/-- `TYPE_ARP`. -/
def typeARP : UInt16 := 0x806

def parse (h : EthernetHeader) (p : NetParser) :
    Except Fault (ParseResult × EthernetHeader × NetParser) := do
  if p.buffer.size < length then
    return (.packetTooShort, h, p)
  let (dst, p) ← p.bytes 6
  let (src, p) ← p.bytes 6
  let (type, p) ← p.u16
  return (p.getError, { dst := dst, src := src, type := type }, p)

def serialize (h : EthernetHeader) : List Byte :=
  let ret := NetUnparser.bytes [] h.dst
  let ret := NetUnparser.bytes ret h.src
  NetUnparser.u16 ret h.type

end EthernetHeader

structure EthernetFrame where
  header : EthernetHeader := ⟨Vector.replicate 6 0, Vector.replicate 6 0, 0⟩
  payload : BufferList := .empty
  deriving DecidableEq

namespace EthernetFrame

def parse (f : EthernetFrame) (buffer : Buffer) : Except Fault (ParseResult × EthernetFrame) := do
  let (_, header, p) ← f.header.parse (NetParser.new buffer)
  return (p.getError, { header := header, payload := .ofBuffer p.buffer })

def serialize (f : EthernetFrame) : BufferList :=
  (BufferList.ofString f.header.serialize).append f.payload

end EthernetFrame

structure ARPMessage where
  hardwareType : UInt16 := 1
  protocolType : UInt16 := EthernetHeader.typeIPv4
  hardwareAddressSize : UInt8 := 6
  protocolAddressSize : UInt8 := 4
  opcode : UInt16 := 0
  senderEthernetAddress : EthernetAddress := Vector.replicate 6 0
  senderIpAddress : UInt32 := 0
  targetEthernetAddress : EthernetAddress := Vector.replicate 6 0
  targetIpAddress : UInt32 := 0
  deriving DecidableEq

namespace ARPMessage

/-- `LENGTH`. -/
def length : Nat := 28

/-- `TYPE_ETHERNET`. -/
def typeEthernet : UInt16 := 1

/-- `OPCODE_REQUEST`. -/
def opcodeRequest : UInt16 := 1

/-- `OPCODE_REPLY`. -/
def opcodeReply : UInt16 := 2

def supported (m : ARPMessage) : Bool :=
  m.hardwareType == typeEthernet && m.protocolType == EthernetHeader.typeIPv4 &&
    m.hardwareAddressSize == 6 && m.protocolAddressSize == 4 &&
    (m.opcode == opcodeRequest || m.opcode == opcodeReply)

def parse (m : ARPMessage) (buffer : Buffer) : Except Fault (ParseResult × ARPMessage) := do
  let p := NetParser.new buffer
  if p.buffer.size < length then
    return (.packetTooShort, m)
  let (hardwareType, p) ← p.u16
  let (protocolType, p) ← p.u16
  let (hardwareAddressSize, p) ← p.u8
  let (protocolAddressSize, p) ← p.u8
  let (opcode, p) ← p.u16
  let m := { m with
    hardwareType := hardwareType
    protocolType := protocolType
    hardwareAddressSize := hardwareAddressSize
    protocolAddressSize := protocolAddressSize
    opcode := opcode }
  if !m.supported then
    return (.unsupported, m)
  let (senderEthernetAddress, p) ← p.bytes 6
  let (senderIpAddress, p) ← p.u32
  let (targetEthernetAddress, p) ← p.bytes 6
  let (targetIpAddress, p) ← p.u32
  return (p.getError, { m with
    senderEthernetAddress := senderEthernetAddress
    senderIpAddress := senderIpAddress
    targetEthernetAddress := targetEthernetAddress
    targetIpAddress := targetIpAddress })

def serialize (m : ARPMessage) : Except Fault (List Byte) := do
  if !m.supported then
    throw (.throws ("ARPMessage::serialize(): unsupported field combination " ++
      "(must be Ethernet/IP, and request or reply)"))
  let ret := NetUnparser.u16 [] m.hardwareType
  let ret := NetUnparser.u16 ret m.protocolType
  let ret := NetUnparser.u8 ret m.hardwareAddressSize
  let ret := NetUnparser.u8 ret m.protocolAddressSize
  let ret := NetUnparser.u16 ret m.opcode
  let ret := NetUnparser.bytes ret m.senderEthernetAddress
  let ret := NetUnparser.u32 ret m.senderIpAddress
  let ret := NetUnparser.bytes ret m.targetEthernetAddress
  return NetUnparser.u32 ret m.targetIpAddress

end ARPMessage

/-! ## Addresses on the wire -/

open NetParser

/-- The bytes from `offset` on, as an address of `n` bytes. -/
def addressAt (b : List Byte) (offset n : Nat) : Vector Byte n :=
  Vector.ofFn fun i => UInt8.ofNat (field b (offset + i) 1)

theorem addressAt_succ (b : List Byte) (offset n : Nat) :
    addressAt b offset (n + 1) =
      (addressAt b offset n).push (UInt8.ofNat (field b (offset + n) 1)) := by
  apply Vector.ext
  intro i hi
  by_cases h : i < n
  · simp [addressAt, h]
  · have : i = n := by omega
    simp [addressAt, this]

theorem NetParser.bytes_ok {p q : NetParser} {offset : Nat} (h : Past p offset q) (n : Nat)
    (hlen : offset + n ≤ p.buffer.str.length) :
    ∃ r, q.bytes n = .ok (addressAt p.buffer.str offset n, r) ∧ Past p (offset + n) r := by
  induction n with
  | zero => exact ⟨q, rfl, h⟩
  | succ n ih =>
    obtain ⟨q', hq, past⟩ := ih (by omega)
    obtain ⟨r, hr, past⟩ := u8_ok past hlen
    refine ⟨r, ?_, past⟩
    rw [addressAt_succ]
    simp only [bytes, hq, hr, Exec.ok_bind, Exec.pure_ok]

theorem NetUnparser.bytes_eq (s : List Byte) (address : EthernetAddress) :
    NetUnparser.bytes s address = s ++ address.toList := by
  have hfold : ∀ (l s : List Byte), l.foldl NetUnparser.u8 s = s ++ l := by
    intro l
    induction l with
    | nil => simp
    | cons b l ih =>
      intro s
      rw [List.foldl_cons, ih, NetUnparser.u8_eq]
      simp [BigEndian.digits]
  exact hfold address.toList s

theorem field_one {b : List Byte} {offset : Nat} {x : Byte} (h : b[offset]? = some x) :
    field b offset 1 = x.toNat := by
  rw [field, List.take_one, List.head?_drop, h]
  simp [BigEndian.value]

/-- An address written out at `offset` is the one read there. -/
theorem addressAt_eq {b rest : List Byte} {offset n : Nat} {address : Vector Byte n}
    (h : b.drop offset = address.toList ++ rest) : addressAt b offset n = address := by
  apply Vector.ext
  intro i hi
  have hget : b[offset + i]? = some address[i] := by
    rw [← List.getElem?_drop, h, List.getElem?_append_left (by simpa using hi)]
    simp [hi]
  simp [addressAt, field_one hget]

/-! ## Frames on the wire -/

namespace EthernetFrame

/-- Fourteen bytes are enough for a header, and the rest is the payload. -/
theorem parse_enough (f : EthernetFrame) {buffer : Buffer} (hlen : 14 ≤ buffer.str.length) :
    ∃ rest, parse f buffer = .ok (.noError,
        { header :=
            { dst := addressAt buffer.str 0 6
              src := addressAt buffer.str 6 6
              type := UInt16.ofNat (field buffer.str 12 2) }
          payload := .ofBuffer rest }) ∧
      rest.str = buffer.str.drop 14 := by
  have hsize : (NetParser.new buffer).buffer.size = buffer.str.length := rfl
  have hlong : ¬ buffer.str.length < EthernetHeader.length := Nat.not_lt.mpr hlen
  have henough : 14 ≤ (NetParser.new buffer).buffer.str.length := hlen
  have h0 : Past (NetParser.new buffer) 0 (NetParser.new buffer) := ⟨rfl, rfl⟩
  obtain ⟨p1, e1, h1⟩ := bytes_ok h0 6 (by omega)
  obtain ⟨p2, e2, h2⟩ := bytes_ok h1 6 (by omega)
  obtain ⟨p3, e3, h3⟩ := u16_ok h2 (by omega)
  refine ⟨p3.buffer, ?_, h3.str⟩
  simp only [parse, EthernetHeader.parse, hsize, hlong, ↓reduceIte, e1, e2, e3, Exec.ok_bind,
    Exec.pure_ok, h3.getError]
  rfl

/-- Fewer are accepted too, and leave the header as it was. -/
theorem parse_short (f : EthernetFrame) {buffer : Buffer} (hlen : buffer.str.length < 14) :
    parse f buffer = .ok (.noError, { f with payload := .ofBuffer buffer }) := by
  have hshort : (NetParser.new buffer).buffer.size < EthernetHeader.length := hlen
  simp only [parse, EthernetHeader.parse, hshort, ↓reduceIte, Exec.ok_bind, Exec.pure_ok]
  rfl

theorem parse_returns (f : EthernetFrame) (buffer : Buffer) :
    ∃ res frame, parse f buffer = .ok (res, frame) := by
  by_cases hlen : 14 ≤ buffer.str.length
  · obtain ⟨rest, h, -⟩ := parse_enough f hlen
    exact ⟨_, _, h⟩
  · exact ⟨_, _, parse_short f (Nat.lt_of_not_le hlen)⟩

end EthernetFrame

/-! ## ARP messages on the wire -/

namespace ARPMessage

/-- The message that the first 28 bytes spell. -/
def ofBytes (b : List Byte) : ARPMessage where
  hardwareType := UInt16.ofNat (field b 0 2)
  protocolType := UInt16.ofNat (field b 2 2)
  hardwareAddressSize := UInt8.ofNat (field b 4 1)
  protocolAddressSize := UInt8.ofNat (field b 5 1)
  opcode := UInt16.ofNat (field b 6 2)
  senderEthernetAddress := addressAt b 8 6
  senderIpAddress := UInt32.ofNat (field b 14 4)
  targetEthernetAddress := addressAt b 18 6
  targetIpAddress := UInt32.ofNat (field b 24 4)

/-- The bytes tell whether a message is supported. -/
def Supported (b : List Byte) : Prop := length ≤ b.length ∧ (ofBytes b).supported = true

/-- **The ARP parser.** It always returns, accepts exactly the supported messages, and then
returns the message that the bytes spell. -/
theorem parse_spec (m : ARPMessage) (buffer : Buffer) :
    ∃ res m', parse m buffer = .ok (res, m') ∧ (res = .noError ↔ Supported buffer.str) ∧
      (res = .noError → m' = ofBytes buffer.str) := by
  by_cases hlen : buffer.str.length < length
  · have hshort : (NetParser.new buffer).buffer.size < length := hlen
    simp only [parse, hshort, ↓reduceIte, Exec.pure_ok]
    refine ⟨_, _, rfl, ?_, fun h => absurd h (by decide)⟩
    exact ⟨fun h => absurd h (by decide), fun h => absurd h.1 (Nat.not_le.mpr hlen)⟩
  · have henough : 28 ≤ (NetParser.new buffer).buffer.str.length := Nat.not_lt.mp hlen
    have hlong : ¬ (NetParser.new buffer).buffer.size < length := hlen
    have h0 : Past (NetParser.new buffer) 0 (NetParser.new buffer) := ⟨rfl, rfl⟩
    obtain ⟨p1, e1, h1⟩ := u16_ok h0 (by omega)
    obtain ⟨p2, e2, h2⟩ := u16_ok h1 (by omega)
    obtain ⟨p3, e3, h3⟩ := u8_ok h2 (by omega)
    obtain ⟨p4, e4, h4⟩ := u8_ok h3 (by omega)
    obtain ⟨p5, e5, h5⟩ := u16_ok h4 (by omega)
    obtain ⟨p6, e6, h6⟩ := bytes_ok h5 6 (by omega)
    obtain ⟨p7, e7, h7⟩ := u32_ok h6 (by omega)
    obtain ⟨p8, e8, h8⟩ := bytes_ok h7 6 (by omega)
    obtain ⟨p9, e9, h9⟩ := u32_ok h8 (by omega)
    simp only [parse, hlong, ↓reduceIte, e1, e2, e3, e4, e5, e6, e7, e8, e9, Exec.ok_bind,
      Exec.pure_ok, h9.getError]
    -- `supported` looks only at the fields read so far
    cases hs : (ofBytes buffer.str).supported with
    | true =>
      refine ⟨.noError, ofBytes buffer.str, ?_, ?_, fun _ => rfl⟩
      · exact if_neg (by rw [Bool.not_eq_true', Bool.not_eq_false]; exact hs)
      · exact ⟨fun _ => ⟨Nat.not_lt.mp hlen, hs⟩, fun _ => rfl⟩
    | false =>
      refine ⟨.unsupported, _, if_pos (by rw [Bool.not_eq_true']; exact hs), ?_,
        fun h => absurd h (by decide)⟩
      exact ⟨fun h => absurd h (by decide), fun h => absurd h.2 (by rw [hs]; decide)⟩

/-- A supported message is written out, field by field. -/
theorem serialize_eq {m : ARPMessage} (h : m.supported = true) : m.serialize = .ok (
    BigEndian.digits 2 m.hardwareType.toNat ++ (BigEndian.digits 2 m.protocolType.toNat ++
    (BigEndian.digits 1 m.hardwareAddressSize.toNat ++
    (BigEndian.digits 1 m.protocolAddressSize.toNat ++ (BigEndian.digits 2 m.opcode.toNat ++
    (m.senderEthernetAddress.toList ++ (BigEndian.digits 4 m.senderIpAddress.toNat ++
    (m.targetEthernetAddress.toList ++
    (BigEndian.digits 4 m.targetIpAddress.toNat ++ []))))))))) := by
  simp only [serialize, h, Bool.not_true, Bool.false_eq_true, ↓reduceIte, Exec.pure_ok,
    NetUnparser.u16_eq, NetUnparser.u8_eq, NetUnparser.u32_eq, NetUnparser.bytes_eq,
    List.append_assoc, List.nil_append, List.append_nil]

/-- The message that a written message spells. -/
theorem ofBytes_serialize {m : ARPMessage} {b : List Byte} (h : m.supported = true)
    (hb : m.serialize = .ok b) : length ≤ b.length ∧ ofBytes b = m := by
  rw [serialize_eq h] at hb
  have d0 : b.drop 0 = _ := Except.ok.inj hb.symm
  have hlen : length ≤ b.length := by
    rw [List.drop_zero] at d0
    simp [d0, length]
  have d2 := drop_add d0 (BigEndian.length_digits _ _)
  have d4 := drop_add d2 (BigEndian.length_digits _ _)
  have d5 := drop_add d4 (BigEndian.length_digits _ _)
  have d6 := drop_add d5 (BigEndian.length_digits _ _)
  have d8 := drop_add d6 (BigEndian.length_digits _ _)
  have d14 := drop_add d8 Vector.length_toList
  have d18 := drop_add d14 (BigEndian.length_digits _ _)
  have d24 := drop_add d18 Vector.length_toList
  refine ⟨hlen, ?_⟩
  rw [ofBytes, field_digits d0 m.hardwareType.toNat_lt, field_digits d2 m.protocolType.toNat_lt,
    field_digits d4 m.hardwareAddressSize.toNat_lt, field_digits d5 m.protocolAddressSize.toNat_lt,
    field_digits d6 m.opcode.toNat_lt, addressAt_eq d8, field_digits d14 m.senderIpAddress.toNat_lt,
    addressAt_eq d18, field_digits d24 m.targetIpAddress.toNat_lt]
  simp only [UInt16.ofNat_toNat, UInt8.ofNat_toNat, UInt32.ofNat_toNat]

/-- **Round trip.** What is written out is read back. -/
theorem parse_serialize {m : ARPMessage} (h : m.supported = true) :
    ∃ b, m.serialize = .ok b ∧ ∀ m₀, parse m₀ (.ofString b) = .ok (.noError, m) := by
  refine ⟨_, serialize_eq h, ?_⟩
  intro m₀
  obtain ⟨hlen, hm⟩ := ofBytes_serialize h (serialize_eq h)
  obtain ⟨res, m', hp, hres, hm'⟩ := parse_spec m₀ (.ofString _)
  have hok := hres.mpr ⟨hlen, by rw [Buffer.str_ofString, hm]; exact h⟩
  rw [hp, hok, hm' hok, Buffer.str_ofString, hm]

end ARPMessage

end Sponge
