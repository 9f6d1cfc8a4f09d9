import Sponge.Ethernet
import Sponge.TCPWire

/-!
# Wire formats

What the parsers and the serializers of datagrams, segments and frames say together.

* `ipv4_inverse`: a datagram is read back from its bytes, and bytes without options are
  written back as they were read;
* `segment_read_back`, `corruption_detected`: a segment is read back from its bytes, and not
  from its bytes with one of them replaced;
* `malformed_reported_iff`: which malformed headers the parsers of segments and frames report.
-/

namespace Sponge

open NetParser Words

/-! ## Bytes written back -/

theorem take_join (b : List Byte) (i m n : Nat) :
    (b.drop i).take m ++ (b.drop (i + m)).take n = (b.drop i).take (m + n) := by
  rw [List.take_add, List.drop_drop]

section
variable {b : List Byte} {offset : Nat}

theorem digits_u8 (h : offset + 1 ≤ b.length) :
    BigEndian.digits 1 (UInt8.ofNat (field b offset 1)).toNat = (b.drop offset).take 1 := by
  have := field_lt b offset 1
  rw [UInt8.toNat_ofNat', Nat.mod_eq_of_lt (by omega), digits_field h]

theorem digits_u16 (h : offset + 2 ≤ b.length) :
    BigEndian.digits 2 (UInt16.ofNat (field b offset 2)).toNat = (b.drop offset).take 2 := by
  have := field_lt b offset 2
  rw [UInt16.toNat_ofNat', Nat.mod_eq_of_lt (by omega), digits_field h]

theorem digits_u32 (h : offset + 4 ≤ b.length) :
    BigEndian.digits 4 (UInt32.ofNat (field b offset 4)).toNat = (b.drop offset).take 4 := by
  have := field_lt b offset 4
  rw [UInt32.toNat_ofNat', Nat.mod_eq_of_lt (by omega), digits_field h]

end

/-- The two nibbles make up the byte. -/
theorem nibbles (x : UInt8) : ((x >>> 4) <<< 4) ||| ((x &&& 0x0f) &&& 0xf) = x := by
  have hall : ∀ n : Nat, n < 256 → ((UInt8.ofNat n >>> 4) <<< 4) |||
      ((UInt8.ofNat n &&& 0x0f) &&& 0xf) = UInt8.ofNat n := by decide +kernel
  have hx := hall x.toNat x.toNat_lt
  rw [UInt8.ofNat_toNat] at hx
  exact hx

/-- A flag is put back where it was read. -/
theorem flag_back (x : UInt16) {m : UInt16} {i : Nat} (hm : m.toBitVec = BitVec.twoPow 16 i) :
    (if (x &&& m != 0) = true then m else 0) = x &&& m := by
  have hbit : x &&& m = if x.toBitVec.getLsbD i then m else 0 := by
    apply UInt16.toBitVec_inj.mp
    rw [UInt16.toBitVec_and, hm, BitVec.and_twoPow]
    split
    · exact hm.symm
    · rfl
  cases hset : x.toBitVec.getLsbD i with
  | true =>
    rw [hset, if_pos rfl] at hbit
    rw [hbit]
    by_cases hz : m = 0
    · simp [hz]
    · simp [hz]
  | false =>
    rw [hset, if_neg (by decide)] at hbit
    rw [hbit]
    rfl

theorem foVal_back {x : UInt16} (h : x.toNat < 2 ^ 15) :
    (if (x &&& 0x4000 != 0) = true then 0x4000 else 0) |||
      (if (x &&& 0x2000 != 0) = true then 0x2000 else 0) ||| (x &&& 0x1fff &&& 0x1fff) = x := by
  have hjoin : ∀ m n : UInt16, (x &&& m) ||| (x &&& n) = x &&& (m ||| n) :=
    fun m n => UInt16.toBitVec_inj.mp BitVec.and_or_distrib_left.symm
  rw [flag_back x (m := 0x4000) (i := 14) rfl, flag_back x (m := 0x2000) (i := 13) rfl,
    UInt16.and_assoc, hjoin, hjoin]
  apply UInt16.toNat_inj.mp
  rw [UInt16.toNat_and]
  exact (Nat.and_two_pow_sub_one_eq_mod x.toNat 15).trans (Nat.mod_eq_of_lt h)

/-- Bytes that can come back: version 4, no options, the total length right, the reserved flag
clear and the checksum valid. -/
structure Canonical (b : List Byte) : Prop where
  length : 20 ≤ b.length
  version : versionOf b = 4
  header : headerLengthOf b = 5
  total : totalLengthOf b = b.length
  reserved : field b 6 2 < 2 ^ 15
  checksum : checksumOf b 20 = .ok 0

namespace IPv4Header

theorem ofBytes_offset (b : List Byte) : (ofBytes b).offset.toNat < 2 ^ 13 := by
  have hand : (ofBytes b).offset.toNat = (UInt16.ofNat (field b 6 2)).toNat % 2 ^ 13 := by
    simp only [ofBytes, UInt16.toNat_and]
    exact Nat.and_two_pow_sub_one_eq_mod _ 13
  rw [hand]
  exact Nat.mod_lt _ (by decide)

theorem front_ofBytes {b : List Byte} (h : Canonical b) : (ofBytes b).front = b.take 10 := by
  have hlen := h.length
  have hfirst : (ofBytes b).firstByte = UInt8.ofNat (field b 0 1) := nibbles _
  have hfo : (ofBytes b).foVal = UInt16.ofNat (field b 6 2) := by
    apply foVal_back
    rw [UInt16.toNat_ofNat']
    exact Nat.lt_of_le_of_lt (Nat.mod_le _ _) h.reserved
  rw [front, hfirst, hfo]
  simp only [ofBytes]
  rw [digits_u8 (by omega), digits_u8 (by omega), digits_u16 (by omega), digits_u16 (by omega),
    digits_u16 (by omega), digits_u8 (by omega), digits_u8 (by omega)]
  rw [take_join b 8 1 1, take_join b 6 2 2, take_join b 4 2 4, take_join b 2 2 6, take_join b 1 1 8,
    take_join b 0 1 9]
  rfl

theorem back_ofBytes {b : List Byte} (h : Canonical b) :
    (ofBytes b).back = (b.drop 12).take 8 := by
  have hlen := h.length
  have hhlen : (ofBytes b).hlen.toNat = 5 := (ofBytes_hlen b).trans h.header
  rw [back, hhlen]
  simp only [ofBytes]
  rw [digits_u32 (by omega), digits_u32 (by omega), List.replicate_zero, List.append_nil,
    take_join b 12 4 4]

end IPv4Header

section
variable {b : List Byte}

/-- The bytes around the checksum. -/
theorem around_checksum (h : 12 ≤ b.length) :
    b.take 10 ++ (BigEndian.digits 2 (UInt16.ofNat (field b 10 2)).toNat ++ b.drop 12) = b := by
  have hrest : (b.drop 10).take 2 ++ b.drop 12 = b.drop 10 := by
    rw [← List.drop_drop (i := 2) (j := 10), List.take_append_drop]
  rw [digits_u16 h, hrest, List.take_append_drop]

/-- The same for the header alone. -/
theorem header_around_checksum (h : 20 ≤ b.length) :
    b.take 10 ++ (BigEndian.digits 2 (UInt16.ofNat (field b 10 2)).toNat ++ (b.drop 12).take 8) =
      b.take 20 := by
  rw [digits_u16 (by omega), take_join b 10 2 8]
  exact take_join b 0 10 10

end

namespace IPv4Datagram

theorem whole_of_canonical {b : List Byte} (h : Canonical b) {rest : Buffer}
    (hrest : rest.str = b.drop 20) :
    Whole { header := .ofBytes b, payload := .ofBuffer rest } := by
  have hlen := h.length
  have hhlen : (IPv4Header.ofBytes b).hlen.toNat = 5 := (IPv4Header.ofBytes_hlen b).trans h.header
  refine ⟨⟨?_, ?_, ?_, ?_⟩, ?_⟩
  · exact UInt8.toNat_inj.mp ((IPv4Header.ofBytes_ver b).trans h.version)
  · exact UInt8.le_iff_toNat_le.mpr (Nat.le_of_eq hhlen.symm)
  · apply UInt8.le_iff_toNat_le.mpr
    change (IPv4Header.ofBytes b).hlen.toNat ≤ 15
    omega
  · exact UInt16.lt_iff_toNat_lt.mpr (IPv4Header.ofBytes_offset b)
  · change (IPv4Header.ofBytes b).len.toNat = 4 * (IPv4Header.ofBytes b).hlen.toNat + _
    rw [IPv4Header.ofBytes_len, hhlen, h.total, BufferList.size_ofBuffer, hrest, List.length_drop]
    omega

theorem parse_canonical {buffer : Buffer} (h : Canonical buffer.str) :
    ∃ rest : Buffer, parse {} buffer =
        .ok (.noError, { header := .ofBytes buffer.str, payload := .ofBuffer rest }) ∧
      rest.str = buffer.str.drop 20 := by
  have hlen := h.length
  have hsized : Sized buffer.str :=
    ⟨by rw [h.header]; exact hlen, h.version, Nat.le_of_eq h.header.symm, h.total⟩
  obtain ⟨res, rest, hp, hrest, hres⟩ := parse_long buffer hlen
  rw [if_pos hsized, h.header] at hrest
  have hok : res = .noError := by
    have hlt := field_lt buffer.str 2 2
    have htotal := h.total
    rw [totalLengthOf] at htotal
    rw [hres, hrest, List.length_drop, h.header, totalLengthOf]
    omega
  rw [hok] at hp
  exact ⟨rest, hp, hrest⟩

/-- The checksum written out is the one that was read, or zero for all ones. -/
theorem canonical_checksum {b : List Byte} (h : Canonical b) {cksum : UInt16}
    (hvalue : ((InternetChecksum.new 0).add (b.take 10 ++ (BigEndian.digits 2 0 ++
      (b.drop 12).take 8))).value = .ok cksum) :
    cksum = UInt16.ofNat (field b 10 2) ∨ field b 10 2 = 0xffff ∧ cksum = 0 := by
  have hlen := h.length
  have hvalid : ((InternetChecksum.new 0).add (b.take 20)).value = .ok 0 := h.checksum
  rw [← header_around_checksum hlen] at hvalid
  have hten : (b.take 10).length = 10 := by
    rw [List.length_take]
    omega
  have hafter : ((b.drop 12).take 8).length = 8 := by
    rw [List.length_take, List.length_drop]
    omega
  refine (InternetChecksum.value_field (by rw [hten]) (by rw [hten, hafter]; decide) hvalue
    hvalid).imp_right ?_
  rintro ⟨hones, hzero⟩
  have hlt := field_lt b 10 2
  have hfield := congrArg UInt16.toNat hones
  rw [UInt16.toNat_ofNat', Nat.mod_eq_of_lt (by omega)] at hfield
  exact ⟨hfield, hzero⟩

/-- Bytes that were read are written back, with the checksum that belongs to them. -/
theorem serialize_parsed {buffer : Buffer} (h : Canonical buffer.str) :
    ∃ d out, parse {} buffer = .ok (.noError, d) ∧ d.serialize = .ok out ∧
      (out.concatenate = buffer.str ∨ field buffer.str 10 2 = 0xffff ∧
        out.concatenate = buffer.str.take 10 ++ ([0, 0] ++ buffer.str.drop 12)) := by
  have hlen := h.length
  obtain ⟨rest, hp, hrest⟩ := parse_canonical h
  obtain ⟨cksum, out, hout, hwire, hvalue⟩ := serialize_spec (whole_of_canonical h hrest)
  rw [wire, IPv4Header.front_ofBytes h, IPv4Header.back_ofBytes h,
    BufferList.concatenate_ofBuffer, hrest, ← List.drop_drop (i := 8) (j := 12),
    List.take_append_drop] at hwire
  simp only [IPv4Header.front_ofBytes h, IPv4Header.back_ofBytes h] at hvalue
  refine ⟨_, out, hp, hout, ?_⟩
  obtain hsame | ⟨hones, hzero⟩ := canonical_checksum h hvalue
  · left
    rw [hwire, hsame, around_checksum (by omega)]
  · right
    rw [hwire, hzero]
    exact ⟨hones, rfl⟩

/-- **Datagrams.** What is written out is read back, with the checksum filled in; and what is
read, with no options in it, is written back, with a checksum of zero for all ones. -/
theorem ipv4_inverse :
    (∀ d : IPv4Datagram, d.Whole → ∃ out, d.serialize = .ok out ∧
      ∀ buffer : Buffer, buffer.str = out.concatenate →
        ∃ cksum payload, parse {} buffer =
            .ok (.noError, { header := { d.header with cksum := cksum }, payload := payload }) ∧
          payload.concatenate = d.payload.concatenate) ∧
    ∀ buffer : Buffer, Canonical buffer.str →
      ∃ d out, parse {} buffer = .ok (.noError, d) ∧ d.serialize = .ok out ∧
        (out.concatenate = buffer.str ∨ field buffer.str 10 2 = 0xffff ∧
          out.concatenate = buffer.str.take 10 ++ ([0, 0] ++ buffer.str.drop 12)) := by
  constructor
  · intro d h
    obtain ⟨cksum, out, hout, hwire, -⟩ := serialize_spec h
    refine ⟨out, hout, ?_⟩
    intro buffer hb
    obtain ⟨rest, hp, hrest⟩ := parse_wire h (hb.trans hwire)
    exact ⟨cksum, .ofBuffer rest, hp, by rw [BufferList.concatenate_ofBuffer, hrest]⟩
  · intro buffer h
    exact serialize_parsed h

/-- A datagram of one byte, and a header of twenty bytes. -/
theorem ipv4_inverse_small :
    (∃ out, serialize { header := { len := 21 }, payload := .ofString [97] } = .ok out ∧
      ∃ cksum payload, parse {} (.ofString out.concatenate) =
          .ok (.noError, { header := { len := 21, cksum := cksum }, payload := payload }) ∧
        payload.concatenate = [97]) ∧
    ∃ d out, parse {} (.ofString ([0x45, 0, 0, 20, 0, 0, 0, 0, 0, 0, 0xba, 0xeb] ++
        List.replicate 8 0)) = .ok (.noError, d) ∧ d.serialize = .ok out ∧
      out.concatenate = [0x45, 0, 0, 20, 0, 0, 0, 0, 0, 0, 0xba, 0xeb] ++ List.replicate 8 0 := by
  constructor
  · obtain ⟨out, hout, hback⟩ := ipv4_inverse.1
      { header := { len := 21 }, payload := .ofString [97] }
      ⟨⟨rfl, by decide, by decide, by decide⟩, rfl⟩
    obtain ⟨cksum, payload, hp, hpayload⟩ := hback (.ofString out.concatenate) rfl
    exact ⟨out, hout, cksum, payload, hp, hpayload⟩
  · obtain ⟨d, out, hp, hout, hsame | ⟨hones, -⟩⟩ := ipv4_inverse.2
      (.ofString ([0x45, 0, 0, 20, 0, 0, 0, 0, 0, 0, 0xba, 0xeb] ++ List.replicate 8 0))
      ⟨by decide, by decide, by decide, by decide, by decide, by rfl⟩
    · exact ⟨d, out, hp, hout, hsame⟩
    · exact absurd hones (by decide)

end IPv4Datagram

/-! ## Segments -/

namespace TCPSegment

section
variable {seg : TCPSegment} {datagramLayerChecksum : UInt32}

/-- A segment of an ordinary length does not fill the 32-bit sum. -/
theorem sum_bound (hlen : 4 * seg.header.doff.toNat + seg.payload.length ≤ 65535)
    (hsum : datagramLayerChecksum.toNat < 2 ^ 20) :
    datagramLayerChecksum.toNat +
      65280 * (4 * seg.header.doff.toNat + seg.payload.length) < 2 ^ 32 := by omega

/-- Bytes with a wrong checksum are rejected before anything is read. -/
theorem parse_bad {buffer : Buffer}
    (h : ((InternetChecksum.new datagramLayerChecksum).add buffer.str).value ≠ .ok 0)
    (seg₀ : TCPSegment) : parse seg₀ buffer datagramLayerChecksum = .ok (.badChecksum, seg₀) := by
  obtain ⟨v, hv⟩ := InternetChecksum.value_returns
    ((InternetChecksum.new datagramLayerChecksum).add buffer.str)
  have hne : (v != 0) = true := by
    apply bne_iff_ne.mpr
    rintro rfl
    exact h hv
  simp only [parse, hv, Exec.ok_bind, hne, ↓reduceIte, Exec.pure_ok]

end

/-- **Segments read back.** -/
theorem segment_read_back (seg : TCPSegment) (hleast : 5 ≤ seg.header.doff)
    (hmost : seg.header.doff ≤ 15)
    (hlen : 4 * seg.header.doff.toNat + seg.payload.length ≤ 65535)
    (datagramLayerChecksum : UInt32) (hsum : datagramLayerChecksum.toNat < 2 ^ 20)
    (seg₀ : TCPSegment) :
    ∃ out cksum, seg.serialize datagramLayerChecksum = .ok out ∧
      ∀ buffer : Buffer, buffer.str = out.concatenate →
        parse seg₀ buffer datagramLayerChecksum =
          .ok (.noError, { seg with header := { seg.header with cksum := cksum } }) := by
  obtain ⟨cksum, out, hout, hwire, -, hcheck⟩ := serialize_spec hleast (sum_bound hlen hsum)
  refine ⟨out, cksum, hout, ?_⟩
  intro buffer hb
  exact parse_wire hleast hmost seg₀ (hb.trans hwire) hcheck

/-- An odd payload and a header with options. -/
theorem segment_read_back_abc :
    ∃ out cksum, serialize { header := { doff := 6, syn := true }, payload := [97, 98, 99] } 7 =
        .ok out ∧
      parse {} (.ofString out.concatenate) 7 = .ok (.noError,
        { header := { doff := 6, syn := true, cksum := cksum }, payload := [97, 98, 99] }) := by
  obtain ⟨out, cksum, hout, hback⟩ := segment_read_back
    { header := { doff := 6, syn := true }, payload := [97, 98, 99] } (by decide) (by decide)
    (by decide) 7 (by decide) {}
  exact ⟨out, cksum, hout, hback (.ofString out.concatenate) rfl⟩

/-- **Corruption.** One byte of a written segment replaced by another makes the checksum
wrong, wherever it stands. -/
theorem corruption_detected (seg : TCPSegment) (hleast : 5 ≤ seg.header.doff)
    (hlen : 4 * seg.header.doff.toNat + seg.payload.length ≤ 65535)
    (datagramLayerChecksum : UInt32) (hsum : datagramLayerChecksum.toNat < 2 ^ 20)
    (seg₀ : TCPSegment) :
    ∃ out, seg.serialize datagramLayerChecksum = .ok out ∧
      ∀ k old b, out.concatenate[k]? = some old → b ≠ old →
        ∀ buffer : Buffer, buffer.str = out.concatenate.set k b →
          parse seg₀ buffer datagramLayerChecksum = .ok (.badChecksum, seg₀) := by
  have hlow := sum_bound hlen hsum
  obtain ⟨cksum, out, hout, hwire, -, hcheck⟩ := serialize_spec hleast hlow
  refine ⟨out, hout, ?_⟩
  intro k old b hk hne buffer hb
  apply parse_bad
  rw [hwire] at hk hb
  rw [hb]
  apply InternetChecksum.value_changed _ hk hne hcheck
  rw [length_wire hleast]
  exact hlow

/-- The checksum field itself, and the last byte of an odd payload. -/
theorem corruption_detected_abc :
    ∃ out, serialize { payload := [97, 98, 99] } 0 = .ok out ∧
      out.concatenate.length = 23 ∧
      parse {} (.ofString (out.concatenate.set 16 0)) 0 = .ok (.badChecksum, {}) ∧
      parse {} (.ofString (out.concatenate.set 22 0)) 0 = .ok (.badChecksum, {}) := by
  obtain ⟨out, hout, hbad⟩ := corruption_detected { payload := [97, 98, 99] } (by decide)
    (by decide) 0 (by decide) {}
  have hview : (serialize { payload := [97, 98, 99] } 0).toOption.map (fun out =>
      (out.concatenate.length, out.concatenate[16]?, out.concatenate[22]?)) =
      some (23, some 0xeb, some 99) := by decide +kernel
  rw [hout] at hview
  simp only [Except.toOption, Option.map_some, Option.some.injEq, Prod.mk.injEq] at hview
  obtain ⟨hlen, hcksum, hlast⟩ := hview
  exact ⟨out, hout, hlen, hbad 16 0xeb 0 hcksum (by decide) _ rfl,
    hbad 22 99 0 hlast (by decide) _ rfl⟩

end TCPSegment

/-! ## Malformed headers -/

namespace TCPSegment

/-- What the bytes of a segment need to be read: the checksum, and a data offset between the
least and the end. -/
structure Readable (b : List Byte) (datagramLayerChecksum : UInt32) : Prop where
  checksum : ((InternetChecksum.new datagramLayerChecksum).add b).value = .ok 0
  length : 20 ≤ b.length
  least : 5 ≤ TCPHeader.dataOffsetOf b
  inside : 4 * TCPHeader.dataOffsetOf b ≤ b.length

/-- An answer is right: no error just for readable bytes, with the payload behind the header. -/
def Reports (b : List Byte) (datagramLayerChecksum : UInt32) (res : ParseResult)
    (seg : TCPSegment) : Prop :=
  (res = .noError ↔ Readable b datagramLayerChecksum) ∧
    (res = .noError → seg.payload = b.drop (4 * TCPHeader.dataOffsetOf b))

theorem parse_good {buffer : Buffer} {datagramLayerChecksum : UInt32}
    (h : ((InternetChecksum.new datagramLayerChecksum).add buffer.str).value = .ok 0)
    (seg₀ : TCPSegment) {res : ParseResult} {header : TCPHeader} {p : NetParser}
    (hp : TCPHeader.parse (NetParser.new buffer) = .ok (res, header, p)) :
    parse seg₀ buffer datagramLayerChecksum =
      .ok (p.getError, { header := header, payload := p.buffer.str }) := by
  simp only [parse, h, Exec.ok_bind, bne_self_eq_false, Bool.false_eq_true, ↓reduceIte, hp,
    Exec.pure_ok]

/-- An error of the parser is an answer for bytes that cannot be read. -/
theorem reports_error {b : List Byte} {datagramLayerChecksum : UInt32} {p : NetParser}
    (h : p.error = true) (hnot : ¬ Readable b datagramLayerChecksum) (seg : TCPSegment) :
    Reports b datagramLayerChecksum p.getError seg := by
  have hne : p.getError ≠ .noError := by simpa [NetParser.error] using h
  exact ⟨⟨fun h => absurd h hne, fun h => absurd h hnot⟩, fun h => absurd h hne⟩

/-- The checksum is right and the data offset below the least. -/
structure Overlooked (b : List Byte) (datagramLayerChecksum : UInt32) : Prop where
  checksum : ((InternetChecksum.new datagramLayerChecksum).add b).value = .ok 0
  length : 20 ≤ b.length
  below : TCPHeader.dataOffsetOf b < 5

section
variable {buffer : Buffer} {datagramLayerChecksum : UInt32} (seg₀ : TCPSegment)

/-- A data offset that is not below the least is checked against the end. -/
theorem parse_reports
    (hcheck : ((InternetChecksum.new datagramLayerChecksum).add buffer.str).value = .ok 0)
    (hlen : 20 ≤ buffer.str.length) (hleast : 5 ≤ TCPHeader.dataOffsetOf buffer.str) :
    ∃ res seg, parse seg₀ buffer datagramLayerChecksum = .ok (res, seg) ∧
      Reports buffer.str datagramLayerChecksum res seg := by
  have hdoff := TCPHeader.ofBytes_doff buffer.str
  have hfive : 5 ≤ (TCPHeader.ofBytes buffer.str).doff :=
    UInt8.le_iff_toNat_le.mpr (by rw [hdoff]; exact hleast)
  by_cases hin : 4 * TCPHeader.dataOffsetOf buffer.str ≤ buffer.str.length
  · obtain ⟨q, hq, past⟩ := TCPHeader.parse_enough hlen hfive (by rw [hdoff]; exact hin)
    refine ⟨_, _, parse_good hcheck seg₀ hq, ?_, ?_⟩
    · exact ⟨fun _ => ⟨hcheck, hlen, hleast, hin⟩, fun _ => past.getError⟩
    · intro _
      rw [← hdoff]
      exact past.str
  · obtain ⟨res, q, hq, herror⟩ :=
      TCPHeader.parse_beyond hlen hfive (by rw [hdoff]; exact Nat.lt_of_not_le hin)
    exact ⟨_, _, parse_good hcheck seg₀ hq, reports_error herror (fun h => hin h.inside) _⟩

/-- One that is below the least is taken for a header of twenty bytes. -/
theorem parse_overlooks (h : Overlooked buffer.str datagramLayerChecksum) :
    ∃ seg, parse seg₀ buffer datagramLayerChecksum = .ok (.noError, seg) := by
  have hless : (TCPHeader.ofBytes buffer.str).doff < 5 :=
    UInt8.lt_iff_toNat_lt.mpr (by rw [TCPHeader.ofBytes_doff]; exact h.below)
  obtain ⟨q, hq, past⟩ := TCPHeader.parse_below h.length hless
  exact ⟨_, by rw [parse_good h.checksum seg₀ hq, past.getError]⟩

theorem parse_reports_iff : ∃ res seg, parse seg₀ buffer datagramLayerChecksum = .ok (res, seg) ∧
    (Reports buffer.str datagramLayerChecksum res seg ↔
      ¬ Overlooked buffer.str datagramLayerChecksum) := by
  by_cases hover : Overlooked buffer.str datagramLayerChecksum
  · obtain ⟨seg, hp⟩ := parse_overlooks seg₀ hover
    refine ⟨_, seg, hp, iff_of_false ?_ (not_not_intro hover)⟩
    intro h
    exact Nat.not_le.mpr hover.below (h.1.mp rfl).least
  · suffices h : ∃ res seg, parse seg₀ buffer datagramLayerChecksum = .ok (res, seg) ∧
        Reports buffer.str datagramLayerChecksum res seg by
      obtain ⟨res, seg, hp, hreports⟩ := h
      exact ⟨res, seg, hp, iff_of_true hreports hover⟩
    by_cases hcheck : ((InternetChecksum.new datagramLayerChecksum).add buffer.str).value = .ok 0
    · by_cases hlen : 20 ≤ buffer.str.length
      · apply parse_reports seg₀ hcheck hlen
        exact Nat.le_of_not_lt fun hbelow => hover ⟨hcheck, hlen, hbelow⟩
      · obtain ⟨res, h, q, hq, herror⟩ := TCPHeader.parse_short (Nat.lt_of_not_le hlen)
        exact ⟨_, _, parse_good hcheck seg₀ hq, reports_error herror (fun h => hlen h.length) _⟩
    · refine ⟨_, _, parse_bad hcheck seg₀, ⟨?_, ?_⟩, ?_⟩
      · intro h
        cases h
      · intro h
        exact absurd h.checksum hcheck
      · intro h
        cases h

end

end TCPSegment

namespace EthernetFrame

/-- An answer is right: no error just for fourteen bytes and more, with the payload behind
them. -/
def Reports (b : List Byte) (res : ParseResult) (frame : EthernetFrame) : Prop :=
  (res = .noError ↔ 14 ≤ b.length) ∧
    (res = .noError → frame.payload.concatenate = b.drop 14)

/-- The frame parser does not look at what the header's parser answers, which sets no error. -/
theorem parse_reports_iff (frame₀ : EthernetFrame) (buffer : Buffer) :
    ∃ res frame, parse frame₀ buffer = .ok (res, frame) ∧
      (Reports buffer.str res frame ↔ 14 ≤ buffer.str.length) := by
  by_cases hlen : 14 ≤ buffer.str.length
  · obtain ⟨rest, hparse, hrest⟩ := parse_enough frame₀ hlen
    refine ⟨_, _, hparse, iff_of_true ⟨iff_of_true rfl hlen, fun _ => ?_⟩ hlen⟩
    rw [BufferList.concatenate_ofBuffer, hrest]
  · refine ⟨_, _, parse_short frame₀ (Nat.lt_of_not_le hlen), iff_of_false ?_ hlen⟩
    intro h
    exact hlen (h.1.mp rfl)

end EthernetFrame

/-- **Malformed headers.** Whatever the bytes, both parsers return. What they answer is right
except for a segment with a valid checksum and a data offset below 5, and for a frame of fewer
than fourteen bytes: these are accepted. -/
theorem malformed_reported_iff (seg₀ : TCPSegment) (frame₀ : EthernetFrame) (buffer : Buffer)
    (datagramLayerChecksum : UInt32) :
    (∃ res seg, TCPSegment.parse seg₀ buffer datagramLayerChecksum = .ok (res, seg) ∧
      (TCPSegment.Reports buffer.str datagramLayerChecksum res seg ↔
        ¬ TCPSegment.Overlooked buffer.str datagramLayerChecksum)) ∧
    ∃ res frame, EthernetFrame.parse frame₀ buffer = .ok (res, frame) ∧
      (EthernetFrame.Reports buffer.str res frame ↔ 14 ≤ buffer.str.length) :=
  ⟨TCPSegment.parse_reports_iff seg₀, EthernetFrame.parse_reports_iff frame₀ buffer⟩

/-- A segment of twenty bytes whose data offset is zero, and an empty frame. -/
theorem malformed_not_reported :
    (∃ seg, TCPSegment.parse {} (.ofString (List.replicate 16 0 ++ [255, 255, 0, 0])) 0 =
      .ok (.noError, seg) ∧
      TCPHeader.dataOffsetOf (List.replicate 16 0 ++ [255, 255, 0, 0]) = 0) ∧
    ∃ frame, EthernetFrame.parse {} (.ofString []) = .ok (.noError, frame) :=
  ⟨⟨_, by rfl, by decide⟩, _, by rfl⟩

end Sponge
