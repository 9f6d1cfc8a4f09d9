import Sponge.WireFormats

/-!
# Link layer formats

What the parsers and the serializers of Ethernet frames and ARP messages say together.

* `frame_inverse`: a frame is read back from its bytes, and bytes are written back as they were
  read;
* `arp_inverse`: the same of ARP messages, which are checked on both sides.
-/

namespace Sponge

open NetParser

/-- An address read at `offset` is written out as the bytes there. -/
theorem toList_addressAt {b : List Byte} {offset n : Nat} (h : offset + n ≤ b.length) :
    (addressAt b offset n).toList = (b.drop offset).take n := by
  have hlen : ((b.drop offset).take n).length = n := by
    rw [List.length_take, List.length_drop]
    omega
  have hbytes : b.drop offset =
      (⟨⟨(b.drop offset).take n⟩, hlen⟩ : Vector Byte n).toList ++ b.drop (offset + n) := by
    rw [← List.drop_drop]
    exact (List.take_append_drop n _).symm
  rw [addressAt_eq hbytes]
  rfl

/-- What is read does not depend on what comes after. -/
theorem field_append {b rest : List Byte} {offset len : Nat} (h : offset + len ≤ b.length) :
    field (b ++ rest) offset len = field b offset len := by
  have hdrop : len ≤ (b.drop offset).length := by
    rw [List.length_drop]
    omega
  rw [field, field, List.drop_append_of_le_length (by omega), List.take_append_of_le_length hdrop]

theorem addressAt_append {b rest : List Byte} {offset n : Nat} (h : offset + n ≤ b.length) :
    addressAt (b ++ rest) offset n = addressAt b offset n := by
  apply Vector.ext
  intro i hi
  have hone : field (b ++ rest) (offset + i) 1 = field b (offset + i) 1 := field_append (by omega)
  simp only [addressAt, Vector.getElem_ofFn, hone]

/-! ## Frames -/

namespace EthernetFrame

/-- A header is written out in fourteen bytes. -/
theorem serialize_header (h : EthernetHeader) : h.serialize =
    h.dst.toList ++ (h.src.toList ++ (BigEndian.digits 2 h.type.toNat ++ [])) := by
  simp only [EthernetHeader.serialize, NetUnparser.u16_eq, NetUnparser.bytes_eq, List.append_assoc,
    List.nil_append, List.append_nil]

theorem concatenate_serialize (f : EthernetFrame) :
    f.serialize.concatenate = f.header.serialize ++ f.payload.concatenate := by
  simp [serialize, BufferList.concatenate, BufferList.append, BufferList.ofString]

theorem parse_serialized (f₀ f : EthernetFrame) {buffer : Buffer}
    (hb : buffer.str = f.serialize.concatenate) :
    ∃ rest, parse f₀ buffer = .ok (.noError, { header := f.header, payload := .ofBuffer rest }) ∧
      rest.str = f.payload.concatenate := by
  have hbytes : buffer.str.drop 0 = f.header.dst.toList ++ (f.header.src.toList ++
      (BigEndian.digits 2 f.header.type.toNat ++ f.payload.concatenate)) := by
    rw [List.drop_zero, hb, concatenate_serialize, serialize_header]
    simp only [List.append_assoc, List.append_nil]
  have h6 := drop_add hbytes Vector.length_toList
  have h12 := drop_add h6 Vector.length_toList
  have h14 := drop_add h12 (BigEndian.length_digits _ _)
  have hlen : 14 ≤ buffer.str.length := by
    rw [List.drop_zero] at hbytes
    rw [hbytes, List.length_append, List.length_append, List.length_append, Vector.length_toList,
      Vector.length_toList, BigEndian.length_digits]
    omega
  obtain ⟨rest, hparse, hrest⟩ := parse_enough f₀ hlen
  refine ⟨rest, ?_, hrest.trans h14⟩
  rw [hparse, addressAt_eq hbytes, addressAt_eq h6, field_digits h12 f.header.type.toNat_lt,
    UInt16.ofNat_toNat]

/-- Bytes that were read as a header are written back. -/
theorem serialize_parsed {b : List Byte} (h : 14 ≤ b.length) : EthernetHeader.serialize
    { dst := addressAt b 0 6, src := addressAt b 6 6, type := UInt16.ofNat (field b 12 2) } =
      b.take 14 := by
  rw [serialize_header, toList_addressAt (by omega), toList_addressAt (by omega),
    digits_u16 (by omega), List.append_nil, take_join b 6 6 2, take_join b 0 6 8, List.drop_zero]

/-- **Frames.** What is written out is read back, whatever the payload; and whatever is long enough
to hold a header is read, and written back as it was. -/
theorem frame_inverse :
    (∀ (f₀ f : EthernetFrame) (buffer : Buffer), buffer.str = f.serialize.concatenate →
      ∃ payload, parse f₀ buffer = .ok (.noError, { header := f.header, payload := payload }) ∧
        payload.concatenate = f.payload.concatenate) ∧
    ∀ (f₀ : EthernetFrame) (buffer : Buffer), EthernetHeader.length ≤ buffer.str.length →
      ∃ f, parse f₀ buffer = .ok (.noError, f) ∧ f.serialize.concatenate = buffer.str := by
  constructor
  · intro f₀ f buffer hb
    obtain ⟨rest, hparse, hrest⟩ := parse_serialized f₀ f hb
    exact ⟨.ofBuffer rest, hparse, by rw [BufferList.concatenate_ofBuffer, hrest]⟩
  · intro f₀ buffer hlen
    obtain ⟨rest, hparse, hrest⟩ := parse_enough f₀ hlen
    refine ⟨_, hparse, ?_⟩
    rw [concatenate_serialize, serialize_parsed hlen, BufferList.concatenate_ofBuffer, hrest,
      List.take_append_drop]

/-- A frame with two bytes in it, and the shortest one. -/
theorem frame_inverse_small :
    (∃ payload, parse {} (.ofString ({ payload := .ofString [97, 98] } :
        EthernetFrame).serialize.concatenate) = .ok (.noError, { payload := payload }) ∧
      payload.concatenate = [97, 98]) ∧
    ∃ f, parse {} (.ofString (List.replicate 14 7)) = .ok (.noError, f) ∧
      f.serialize.concatenate = List.replicate 14 7 :=
  ⟨frame_inverse.1 {} { payload := .ofString [97, 98] } (.ofString _) rfl,
    frame_inverse.2 {} (.ofString (List.replicate 14 7)) (by decide)⟩

end EthernetFrame

/-! ## ARP messages -/

namespace ARPMessage

/-- Bytes that were read as a message are written back. -/
theorem serialize_ofBytes {b : List Byte} (h : Supported b) :
    (ofBytes b).serialize = .ok (b.take 28) := by
  have hlen : 28 ≤ b.length := h.1
  have hsize : b.take 28 = (b.drop 0).take 2 ++ ((b.drop 2).take 2 ++ ((b.drop 4).take 1 ++
      ((b.drop 5).take 1 ++ ((b.drop 6).take 2 ++ ((b.drop 8).take 6 ++ ((b.drop 14).take 4 ++
      ((b.drop 18).take 6 ++ (b.drop 24).take 4))))))) := by
    rw [take_join b 18 6 4, take_join b 14 4 10, take_join b 8 6 14, take_join b 6 2 20,
      take_join b 5 1 22, take_join b 4 1 23, take_join b 2 2 24, take_join b 0 2 26,
      List.drop_zero]
  rw [serialize_eq h.2, hsize, List.append_nil]
  simp only [ofBytes]
  rw [digits_u16 (by omega), digits_u16 (by omega), digits_u8 (by omega), digits_u8 (by omega),
    digits_u16 (by omega), toList_addressAt (by omega), digits_u32 (by omega),
    toList_addressAt (by omega), digits_u32 (by omega)]

theorem ofBytes_append {b rest : List Byte} (h : length ≤ b.length) :
    ofBytes (b ++ rest) = ofBytes b := by
  have hlen : 28 ≤ b.length := h
  rw [ofBytes, ofBytes, field_append (by omega), field_append (by omega), field_append (by omega),
    field_append (by omega), field_append (by omega), field_append (by omega),
    field_append (by omega), addressAt_append (by omega), addressAt_append (by omega)]

/-- **ARP messages.** A supported message is written out in 28 bytes and read back from them,
whatever comes after; what is not supported is not written. The parser always returns, reads just
the supported messages, and what it reads is written back as the 28 bytes it was read from. -/
theorem arp_inverse :
    (∀ m : ARPMessage, m.supported = true → ∃ b, m.serialize = .ok b ∧ b.length = length ∧
      ∀ (m₀ : ARPMessage) (buffer : Buffer) (rest : List Byte), buffer.str = b ++ rest →
        parse m₀ buffer = .ok (.noError, m)) ∧
    (∀ m : ARPMessage, m.supported = false → ∃ what, m.serialize = .error (.throws what)) ∧
    ∀ (m₀ : ARPMessage) (buffer : Buffer), ∃ res m, parse m₀ buffer = .ok (res, m) ∧
      (res = .noError ↔ Supported buffer.str) ∧
      (res = .noError → m.supported = true ∧ m.serialize = .ok (buffer.str.take length)) := by
  refine ⟨?_, ?_, ?_⟩
  · intro m hm
    obtain ⟨hlen, hback⟩ := ofBytes_serialize hm (serialize_eq hm)
    refine ⟨_, serialize_eq hm, ?_, ?_⟩
    · simp [BigEndian.length_digits, length]
    · intro m₀ buffer rest hb
      obtain ⟨res, m', hp, hres, hm'⟩ := parse_spec m₀ buffer
      have hspelled : ofBytes buffer.str = m := by rw [hb, ofBytes_append hlen, hback]
      have hok : res = .noError := by
        apply hres.mpr
        refine ⟨?_, by rw [hspelled]; exact hm⟩
        rw [hb, List.length_append]
        exact Nat.le_trans hlen (Nat.le_add_right _ _)
      rw [hp, hm' hok, hok, hspelled]
  · intro m hm
    refine ⟨"ARPMessage::serialize(): unsupported field combination " ++
      "(must be Ethernet/IP, and request or reply)", ?_⟩
    rw [serialize, hm]
    rfl
  · intro m₀ buffer
    obtain ⟨res, m, hparse, hres, hm⟩ := parse_spec m₀ buffer
    refine ⟨res, m, hparse, hres, ?_⟩
    intro hok
    have hsupported := hres.mp hok
    rw [hm hok]
    exact ⟨hsupported.2, serialize_ofBytes hsupported⟩

/-- A request, padded as a short frame is. -/
theorem arp_inverse_request :
    ∃ b, ({ opcode := opcodeRequest } : ARPMessage).serialize = .ok b ∧
      parse {} (.ofString (b ++ List.replicate 18 0)) =
        .ok (.noError, { opcode := opcodeRequest }) ∧
      ({ opcode := opcodeRequest } : ARPMessage).serialize =
        .ok ((b ++ List.replicate 18 0).take 28) := by
  obtain ⟨b, hb, -, hread⟩ := arp_inverse.1 { opcode := opcodeRequest } (by decide)
  have hparse := hread {} (.ofString (b ++ List.replicate 18 0)) (List.replicate 18 0) rfl
  obtain ⟨res, m, hread, -, hback⟩ := arp_inverse.2.2 {} (.ofString (b ++ List.replicate 18 0))
  cases hparse.symm.trans hread
  exact ⟨b, hb, hparse, (hback rfl).2⟩

end ARPMessage

end Sponge
