import Sponge.IPv4
import Sponge.Segment

/-!
# Segments on the wire

`parse` and `serialize` of `tcp_header.cc` and `tcp_segment.cc`.

* `TCPHeader.parse_enough`, `TCPHeader.parse_below`, `TCPHeader.parse_beyond`,
  `TCPHeader.parse_short`: what the header parser reads when the data offset is right, below
  the least, beyond the end, and when there are too few bytes to have one;
* `TCPSegment.parse_returns`: the segment parser answers whatever it is given;
* `TCPSegment.serialize_spec`, `TCPSegment.parse_wire`: the bytes that a segment is written
  as, and that it is read back from these.
-/

namespace Sponge

open NetParser Words

namespace TCPHeader

/-- `LENGTH`. -/
def length : Nat := 20

/-- The fields, in the order `parse` reads them. -/
def parseFields (p : NetParser) : Except Fault (TCPHeader × NetParser) := do
  let (sport, p) ← p.u16
  let (dport, p) ← p.u16
  let (seqno, p) ← p.u32
  let (ackno, p) ← p.u32
  let (offByte, p) ← p.u8
  let (flB, p) ← p.u8
  let (win, p) ← p.u16
  let (cksum, p) ← p.u16
  let (uptr, p) ← p.u16
  return (
    { sport := sport
      dport := dport
      seqno := ⟨seqno⟩
      ackno := ⟨ackno⟩
      doff := offByte >>> 4
      urg := flB &&& 0x20 != 0
      ack := flB &&& 0x10 != 0
      psh := flB &&& 0x08 != 0
      rst := flB &&& 0x04 != 0
      syn := flB &&& 0x02 != 0
      fin := flB &&& 0x01 != 0
      win := win
      cksum := cksum
      uptr := uptr }, p)

def parse (p : NetParser) : Except Fault (ParseResult × TCPHeader × NetParser) := do
  let (h, p) ← parseFields p
  if h.doff < 5 then
    return (.headerTooShort, h, p)
  -- options are skipped
  let p ← p.removePrefix (sub64 (h.doff.toNat * 4) length)
  if p.error then
    return (p.getError, h, p)
  return (.noError, h, p)

/-- The byte of the flags. -/
def flags (h : TCPHeader) : UInt8 :=
  (if h.urg then 0x20 else 0) ||| (if h.ack then 0x10 else 0) ||| (if h.psh then 0x08 else 0) |||
    (if h.rst then 0x04 else 0) ||| (if h.syn then 0x02 else 0) ||| (if h.fin then 0x01 else 0)

def serialize (h : TCPHeader) : Except Fault (List Byte) := do
  if h.doff < 5 then
    throw (.throws "TCP header too short")
  let ret := NetUnparser.u16 [] h.sport
  let ret := NetUnparser.u16 ret h.dport
  let ret := NetUnparser.u32 ret h.seqno.rawValue
  let ret := NetUnparser.u32 ret h.ackno.rawValue
  let ret := NetUnparser.u8 ret (h.doff <<< 4)
  let ret := NetUnparser.u8 ret h.flags
  let ret := NetUnparser.u16 ret h.win
  let ret := NetUnparser.u16 ret h.cksum
  let ret := NetUnparser.u16 ret h.uptr
  return IPv4Header.resize ret (4 * h.doff.toNat)

end TCPHeader

namespace TCPSegment

def parse (seg : TCPSegment) (buffer : Buffer) (datagramLayerChecksum : UInt32) :
    Except Fault (ParseResult × TCPSegment) := do
  let check := (InternetChecksum.new datagramLayerChecksum).add buffer.str
  if (← check.value) != 0 then
    return (.badChecksum, seg)
  -- the result of the header's `parse` is not looked at
  let (_, header, p) ← TCPHeader.parse (NetParser.new buffer)
  return (p.getError, { header := header, payload := p.buffer.str })

def serialize (seg : TCPSegment) (datagramLayerChecksum : UInt32) : Except Fault BufferList := do
  let check := InternetChecksum.new datagramLayerChecksum
  let check := check.add (← { seg.header with cksum := 0 }.serialize)
  let check := check.add seg.payload
  let cksum ← check.value
  let headerOut ← { seg.header with cksum := cksum }.serialize
  return (BufferList.ofString headerOut).append (.ofString seg.payload)

end TCPSegment

/-! ## The header parser -/

namespace TCPHeader

/-- The header that the first twenty bytes spell. -/
def ofBytes (b : List Byte) : TCPHeader :=
  let flB := UInt8.ofNat (field b 13 1)
  { sport := UInt16.ofNat (field b 0 2)
    dport := UInt16.ofNat (field b 2 2)
    seqno := ⟨UInt32.ofNat (field b 4 4)⟩
    ackno := ⟨UInt32.ofNat (field b 8 4)⟩
    doff := UInt8.ofNat (field b 12 1) >>> 4
    urg := flB &&& 0x20 != 0
    ack := flB &&& 0x10 != 0
    psh := flB &&& 0x08 != 0
    rst := flB &&& 0x04 != 0
    syn := flB &&& 0x02 != 0
    fin := flB &&& 0x01 != 0
    win := UInt16.ofNat (field b 14 2)
    cksum := UInt16.ofNat (field b 16 2)
    uptr := UInt16.ofNat (field b 18 2) }

/-- The data-offset nibble. -/
def dataOffsetOf (b : List Byte) : Nat := field b 12 1 / 16

@[simp] theorem ofBytes_doff (b : List Byte) : (ofBytes b).doff.toNat = dataOffsetOf b := by
  have := field_lt b 12 1
  simp only [ofBytes, dataOffsetOf, UInt8.toNat_shiftRight, UInt8.toNat_ofNat',
    Nat.shiftRight_eq_div_pow]
  rw [Nat.mod_eq_of_lt (by omega)]
  rfl

theorem parseFields_ok {p : NetParser} (h : p.getError = .noError)
    (hlen : 20 ≤ p.buffer.str.length) :
    ∃ q, parseFields p = .ok (ofBytes p.buffer.str, q) ∧ Past p 20 q := by
  have h0 : Past p 0 p := ⟨rfl, h⟩
  obtain ⟨p1, e1, h1⟩ := u16_ok h0 (by omega)
  obtain ⟨p2, e2, h2⟩ := u16_ok h1 (by omega)
  obtain ⟨p3, e3, h3⟩ := u32_ok h2 (by omega)
  obtain ⟨p4, e4, h4⟩ := u32_ok h3 (by omega)
  obtain ⟨p5, e5, h5⟩ := u8_ok h4 (by omega)
  obtain ⟨p6, e6, h6⟩ := u8_ok h5 (by omega)
  obtain ⟨p7, e7, h7⟩ := u16_ok h6 (by omega)
  obtain ⟨p8, e8, h8⟩ := u16_ok h7 (by omega)
  obtain ⟨q, e9, h9⟩ := u16_ok h8 (by omega)
  refine ⟨q, ?_, h9⟩
  simp only [parseFields, e1, e2, e3, e4, e5, e6, e7, e8, e9, Exec.ok_bind, Exec.pure_ok]
  rfl

theorem parseFields_new {b : Buffer} (hlen : 20 ≤ b.str.length) :
    ∃ p, parseFields (NetParser.new b) = .ok (ofBytes b.str, p) ∧ Past (NetParser.new b) 20 p :=
  parseFields_ok rfl hlen

/-- **The header parser.** With as many bytes as the data offset says, it stands after
these. -/
theorem parse_enough {b : Buffer} (hlen : 20 ≤ b.str.length) (hleast : 5 ≤ (ofBytes b.str).doff)
    (hoff : 4 * (ofBytes b.str).doff.toNat ≤ b.str.length) :
    ∃ q, parse (NetParser.new b) = .ok (.noError, ofBytes b.str, q) ∧
      Past (NetParser.new b) (4 * (ofBytes b.str).doff.toNat) q := by
  obtain ⟨p, hp, past⟩ := parseFields_new hlen
  have hfive : 5 ≤ (ofBytes b.str).doff.toNat := UInt8.le_iff_toNat_le.mp hleast
  have hshort : ¬ (ofBytes b.str).doff < 5 := UInt8.not_lt.mpr hleast
  obtain ⟨q, hq, hpast, hnone⟩ := removePrefix_options past hfive hoff
  refine ⟨q, ?_, hpast⟩
  simp only [parse, length, hp, Exec.ok_bind, Exec.pure_ok, if_neg hshort, hq, hnone,
    Bool.false_eq_true, ↓reduceIte]

/-- An offset below the least is answered, but no error is set. -/
theorem parse_below {b : Buffer} (hlen : 20 ≤ b.str.length) (hless : (ofBytes b.str).doff < 5) :
    ∃ q, parse (NetParser.new b) = .ok (.headerTooShort, ofBytes b.str, q) ∧
      Past (NetParser.new b) 20 q := by
  obtain ⟨q, hq, past⟩ := parseFields_new hlen
  refine ⟨q, ?_, past⟩
  simp only [parse, hq, Exec.ok_bind, Exec.pure_ok, if_pos hless]

theorem parse_beyond {b : Buffer} (hlen : 20 ≤ b.str.length) (hleast : 5 ≤ (ofBytes b.str).doff)
    (hoff : b.str.length < 4 * (ofBytes b.str).doff.toNat) :
    ∃ res q, parse (NetParser.new b) = .ok (res, ofBytes b.str, q) ∧ q.error = true := by
  obtain ⟨p, hp, past⟩ := parseFields_new hlen
  have hfive : 5 ≤ (ofBytes b.str).doff.toNat := UInt8.le_iff_toNat_le.mp hleast
  have hshort : ¬ (ofBytes b.str).doff < 5 := UInt8.not_lt.mpr hleast
  have hlacks : p.Lacks (sub64 ((ofBytes b.str).doff.toNat * 4) 20) := by
    right
    rw [past.str, List.length_drop, sub64_of_le (by omega)]
    change b.str.length - 20 < _
    omega
  obtain ⟨q, hq, herror⟩ := removePrefix_lacks hlacks
  refine ⟨q.getError, q, ?_, herror⟩
  simp only [parse, length, hp, Exec.ok_bind, Exec.pure_ok, if_neg hshort, hq, herror, ↓reduceIte]

/-- With fewer than twenty bytes one of the fields sets the error. -/
theorem parse_short {b : Buffer} (hlen : b.str.length < 20) :
    ∃ res h q, parse (NetParser.new b) = .ok (res, h, q) ∧ q.error = true := by
  have h0 : (NetParser.new b).Lacks 20 := .inr hlen
  obtain ⟨_, p1, e1, h1⟩ := u16_lacks (n := 18) h0
  obtain ⟨_, p2, e2, h2⟩ := u16_lacks (n := 16) h1
  obtain ⟨_, p3, e3, h3⟩ := u32_lacks (n := 12) h2
  obtain ⟨_, p4, e4, h4⟩ := u32_lacks (n := 8) h3
  obtain ⟨_, p5, e5, h5⟩ := u8_lacks (n := 7) h4
  obtain ⟨_, p6, e6, h6⟩ := u8_lacks (n := 6) h5
  obtain ⟨_, p7, e7, h7⟩ := u16_lacks (n := 4) h6
  obtain ⟨_, p8, e8, h8⟩ := u16_lacks (n := 2) h7
  obtain ⟨_, p9, e9, h9⟩ := u16_lacks (n := 0) h8
  have herror : p9.error = true := h9.resolve_right (Nat.not_lt_zero _)
  simp only [parse, parseFields, e1, e2, e3, e4, e5, e6, e7, e8, e9, Exec.ok_bind, Exec.pure_ok]
  split
  · exact ⟨_, _, _, rfl, herror⟩
  · obtain ⟨q, hq, herror'⟩ := removePrefix_lacks (n := sub64 (_ * 4) length) (.inl herror)
    rw [hq, Exec.ok_bind, if_pos herror']
    exact ⟨_, _, _, rfl, herror'⟩

theorem parse_returns (p : NetParser) : ∃ res h q, parse p = .ok (res, h, q) := by
  obtain ⟨_, p1, e1⟩ := u16_returns p
  obtain ⟨_, p2, e2⟩ := u16_returns p1
  obtain ⟨_, p3, e3⟩ := u32_returns p2
  obtain ⟨_, p4, e4⟩ := u32_returns p3
  obtain ⟨_, p5, e5⟩ := u8_returns p4
  obtain ⟨_, p6, e6⟩ := u8_returns p5
  obtain ⟨_, p7, e7⟩ := u16_returns p6
  obtain ⟨_, p8, e8⟩ := u16_returns p7
  obtain ⟨_, p9, e9⟩ := u16_returns p8
  simp only [parse, parseFields, e1, e2, e3, e4, e5, e6, e7, e8, e9, Exec.ok_bind, Exec.pure_ok]
  split
  · exact ⟨_, _, _, rfl⟩
  · obtain ⟨q, hq⟩ := removePrefix_returns p9 (sub64 (_ * 4) length)
    rw [hq, Exec.ok_bind]
    split
    · exact ⟨_, _, _, rfl⟩
    · exact ⟨_, _, _, rfl⟩

/-! ## Writing a header out -/

/-- The bytes before the checksum. -/
def front (h : TCPHeader) : List Byte :=
  BigEndian.digits 2 h.sport.toNat ++ (BigEndian.digits 2 h.dport.toNat ++
  (BigEndian.digits 4 h.seqno.rawValue.toNat ++ (BigEndian.digits 4 h.ackno.rawValue.toNat ++
  (BigEndian.digits 1 (h.doff <<< 4).toNat ++ (BigEndian.digits 1 h.flags.toNat ++
  BigEndian.digits 2 h.win.toNat)))))

/-- The bytes after it, with the place of the options. -/
def back (h : TCPHeader) : List Byte :=
  BigEndian.digits 2 h.uptr.toNat ++ List.replicate (4 * h.doff.toNat - 20) 0

theorem length_front (h : TCPHeader) : h.front.length = 16 := by simp [front]

theorem length_back {h : TCPHeader} (hleast : 5 ≤ h.doff) :
    h.back.length = 4 * h.doff.toNat - 18 := by
  have : 5 ≤ h.doff.toNat := UInt8.le_iff_toNat_le.mp hleast
  simp only [back, List.length_append, BigEndian.length_digits, List.length_replicate]
  omega

theorem serialize_eq {h : TCPHeader} (hleast : 5 ≤ h.doff) :
    h.serialize = .ok (h.front ++ (BigEndian.digits 2 h.cksum.toNat ++ h.back)) := by
  have hfive : 5 ≤ h.doff.toNat := UInt8.le_iff_toNat_le.mp hleast
  have hshort : ¬ h.doff < 5 := by
    rw [UInt8.lt_iff_toNat_lt]
    exact Nat.not_lt.mpr hfive
  simp only [serialize, if_neg hshort, Exec.pure_ok, NetUnparser.u16_eq, NetUnparser.u8_eq,
    NetUnparser.u32_eq, List.nil_append]
  rw [IPv4Header.resize_of_le (by simp; omega)]
  simp [front, back]

/-- The flags are read back from their byte. -/
theorem flags_read (h : TCPHeader) :
    (h.flags &&& 0x20 != 0) = h.urg ∧ (h.flags &&& 0x10 != 0) = h.ack ∧
    (h.flags &&& 0x08 != 0) = h.psh ∧ (h.flags &&& 0x04 != 0) = h.rst ∧
    (h.flags &&& 0x02 != 0) = h.syn ∧ (h.flags &&& 0x01 != 0) = h.fin := by
  unfold flags
  generalize h.urg = urg, h.ack = ack, h.psh = psh, h.rst = rst, h.syn = syn, h.fin = fin
  revert urg ack psh rst syn fin
  decide

theorem doff_read {doff : UInt8} (h : doff ≤ 15) :
    UInt8.ofNat (doff <<< 4).toNat >>> 4 = doff := by
  have hlt : doff.toNat ≤ 15 := UInt8.le_iff_toNat_le.mp h
  apply UInt8.toNat_inj.mp
  rw [UInt8.ofNat_toNat, UInt8.toNat_shiftRight, UInt8.toNat_shiftLeft, Nat.shiftLeft_eq,
    Nat.shiftRight_eq_div_pow]
  simp
  omega

/-- The header that a written header spells, whatever follows it. -/
theorem ofBytes_front {h : TCPHeader} (hmost : h.doff ≤ 15) {b : List Byte} (rest : List Byte)
    (hb : b = h.front ++ (BigEndian.digits 2 h.cksum.toNat ++
      (BigEndian.digits 2 h.uptr.toNat ++ rest))) : ofBytes b = h := by
  have d0 : b.drop 0 = _ := hb
  simp only [front, List.append_assoc] at d0
  have d2 := drop_add d0 (BigEndian.length_digits _ _)
  have d4 := drop_add d2 (BigEndian.length_digits _ _)
  have d8 := drop_add d4 (BigEndian.length_digits _ _)
  have d12 := drop_add d8 (BigEndian.length_digits _ _)
  have d13 := drop_add d12 (BigEndian.length_digits _ _)
  have d14 := drop_add d13 (BigEndian.length_digits _ _)
  have d16 := drop_add d14 (BigEndian.length_digits _ _)
  have d18 := drop_add d16 (BigEndian.length_digits _ _)
  have hflags : UInt8.ofNat (field b 13 1) = h.flags := by
    rw [field_digits d13 (UInt8.toNat_lt _), UInt8.ofNat_toNat]
  obtain ⟨hurg, hack, hpsh, hrst, hsyn, hfin⟩ := flags_read h
  rw [ofBytes, hflags]
  rw [field_digits d0 (UInt16.toNat_lt _), field_digits d2 (UInt16.toNat_lt _),
    field_digits d4 (UInt32.toNat_lt _), field_digits d8 (UInt32.toNat_lt _),
    field_digits d12 (UInt8.toNat_lt _), field_digits d14 (UInt16.toNat_lt _),
    field_digits d16 (UInt16.toNat_lt _), field_digits d18 (UInt16.toNat_lt _),
    doff_read hmost, hurg, hack, hpsh, hrst, hsyn, hfin]
  simp only [UInt16.ofNat_toNat, UInt32.ofNat_toNat]

end TCPHeader

/-! ## The segment parser -/

namespace TCPSegment

theorem parse_returns (seg : TCPSegment) (buffer : Buffer) (datagramLayerChecksum : UInt32) :
    ∃ res seg', parse seg buffer datagramLayerChecksum = .ok (res, seg') := by
  obtain ⟨v, hv⟩ := InternetChecksum.value_returns
    ((InternetChecksum.new datagramLayerChecksum).add buffer.str)
  simp only [parse, hv, Exec.ok_bind, Exec.pure_ok]
  split
  · exact ⟨_, _, rfl⟩
  · obtain ⟨res, h, q, hq⟩ := TCPHeader.parse_returns (NetParser.new buffer)
    rw [hq]
    exact ⟨_, _, rfl⟩

/-- The bytes of a segment with the checksum `cksum`. -/
def wire (seg : TCPSegment) (cksum : UInt16) : List Byte :=
  seg.header.front ++ (BigEndian.digits 2 cksum.toNat ++ (seg.header.back ++ seg.payload))

theorem length_wire {seg : TCPSegment} (hleast : 5 ≤ seg.header.doff) (cksum : UInt16) :
    (seg.wire cksum).length = 4 * seg.header.doff.toNat + seg.payload.length := by
  have : 5 ≤ seg.header.doff.toNat := UInt8.le_iff_toNat_le.mp hleast
  simp only [wire, List.length_append, TCPHeader.length_front, BigEndian.length_digits,
    TCPHeader.length_back hleast]
  omega

/-- **Writing a segment out.** The header with the checksum, and then the payload; and the
whole sums up to all ones. -/
theorem serialize_spec {seg : TCPSegment} {datagramLayerChecksum : UInt32}
    (hleast : 5 ≤ seg.header.doff)
    (hlow : datagramLayerChecksum.toNat +
      65280 * (4 * seg.header.doff.toNat + seg.payload.length) < 2 ^ 32) :
    ∃ cksum bytes, seg.serialize datagramLayerChecksum = .ok bytes ∧
      bytes.concatenate = seg.wire cksum ∧
      ((InternetChecksum.new datagramLayerChecksum).add (seg.wire 0)).value = .ok cksum ∧
      ((InternetChecksum.new datagramLayerChecksum).add (seg.wire cksum)).value = .ok 0 := by
  have hfive : 5 ≤ seg.header.doff.toNat := UInt8.le_iff_toNat_le.mp hleast
  obtain ⟨cksum, hvalue⟩ := InternetChecksum.value_returns
    ((InternetChecksum.new datagramLayerChecksum).add (seg.wire 0))
  have hout : ∀ v : UInt16, { seg.header with cksum := v }.serialize =
      .ok (seg.header.front ++ (BigEndian.digits 2 v.toNat ++ seg.header.back)) :=
    fun v => TCPHeader.serialize_eq (h := { seg.header with cksum := v }) hleast
  have hcheck : ((InternetChecksum.new datagramLayerChecksum).add (seg.header.front ++
      (BigEndian.digits 2 (0 : UInt16).toNat ++ seg.header.back))).add seg.payload =
      (InternetChecksum.new datagramLayerChecksum).add (seg.wire 0) := by
    rw [InternetChecksum.add_append, wire]
    simp only [List.append_assoc]
  refine ⟨cksum, (BufferList.ofString (seg.header.front ++ (BigEndian.digits 2 cksum.toNat ++
    seg.header.back))).append (.ofString seg.payload), ?_, ?_, hvalue, ?_⟩
  · simp only [serialize, hout, Exec.ok_bind, hcheck, hvalue, Exec.pure_ok]
  · simp [BufferList.ofString, BufferList.append, BufferList.concatenate, wire]
  · apply InternetChecksum.value_filled (by rw [TCPHeader.length_front]) ?_ hvalue
    rw [TCPHeader.length_front, List.length_append, TCPHeader.length_back hleast]
    omega

/-- **Round trip.** The bytes of a segment are read back as the segment, with the checksum
filled in. -/
theorem parse_wire {seg : TCPSegment} {datagramLayerChecksum : UInt32} {cksum : UInt16}
    (hleast : 5 ≤ seg.header.doff) (hmost : seg.header.doff ≤ 15) (seg₀ : TCPSegment)
    {buffer : Buffer} (hb : buffer.str = seg.wire cksum)
    (hcheck : ((InternetChecksum.new datagramLayerChecksum).add (seg.wire cksum)).value = .ok 0) :
    parse seg₀ buffer datagramLayerChecksum =
      .ok (.noError, { seg with header := { seg.header with cksum := cksum } }) := by
  have hfive : 5 ≤ seg.header.doff.toNat := UInt8.le_iff_toNat_le.mp hleast
  have hlength := length_wire hleast cksum
  have hheader : TCPHeader.ofBytes buffer.str = { seg.header with cksum := cksum } := by
    apply TCPHeader.ofBytes_front (h := { seg.header with cksum := cksum }) hmost
      (List.replicate (4 * seg.header.doff.toNat - 20) 0 ++ seg.payload)
    rw [hb, wire, TCPHeader.back]
    simp only [List.append_assoc]
    rfl
  obtain ⟨q, hq, hpast⟩ := TCPHeader.parse_enough (b := buffer) (by rw [hb]; omega)
    (by rw [hheader]; exact hleast) (by rw [hheader, hb]; dsimp only; omega)
  rw [hheader] at hq hpast
  have hpayload : q.buffer.str = seg.payload := by
    have hdrop := hpast.str
    change q.buffer.str = buffer.str.drop (4 * seg.header.doff.toNat) at hdrop
    rw [hdrop, hb, wire]
    apply drop_pieces
    rw [TCPHeader.length_front, BigEndian.length_digits, TCPHeader.length_back hleast]
    omega
  simp only [parse, hb, hcheck, Exec.ok_bind, bne_self_eq_false, Bool.false_eq_true, ↓reduceIte,
    hq, Exec.pure_ok, hpast.getError, hpayload]

end TCPSegment

end Sponge
