import Mesim.BundleCodec

/-!
Which strings are packets.
parse_packet() cuts the payload by the length that the header declares, verify_mac()
by the distance from the end. The two agree where the declared length is the one that
the string leaves for a payload, and nothing checks that it is: a packet with bytes
missing or added is parsed all the same, with a payload that no MAC was made over.
-/
namespace Mesim.PacketFraming

open Octets Crypto Packet BundleCodec

/-- The length field of a header. -/
def declaredLength (data : Bytes) : ℕ := unpackBE (slice data 34 2)

/-- The region `packet[HEADER_SIZE:-MAC_SIZE]`. -/
def authenticated (data : Bytes) : Bytes := (data.take (data.length - macSize)).drop headerSize

/-- A header for this type, sender and payload, the payload, and a MAC. -/
def FrameOf (data : Bytes) (p : ParsedPacket) : Prop :=
  ∃ (senderId : Fixed 32) (mac : Bytes), senderId.toList = p.senderId ∧
    mac.length = macSize ∧ p.payload.length < 65536 ∧ data = frame p.ptype senderId p.payload mac

/-- The packets are what parse_packet() accepts, and their payload is what is authenticated. -/
def ExactlyFramed (data : Bytes) : Prop :=
  (∀ p, parsePacket data = .ok p ↔ FrameOf data p) ∧
    ∀ p, parsePacket data = .ok p → p.payload = authenticated data

/-- Long enough, of the supported version and of a known type. -/
def Recognised (data : Bytes) : Prop :=
  overhead ≤ data.length ∧ data.getD 0 0 = protocolVersion ∧
    ∃ t, PacketType.ofByte? (data.getD 1 0) = .ok t

section Header

/-- One link of the chain that looks a type up. -/
theorem of_ite_ok {c : Prop} [Decidable c] {a t : PacketType} {rest : Except PyError PacketType}
    (h : (if c then .ok a else rest) = .ok t) : (c ∧ a = t) ∨ rest = .ok t := by
  by_cases hc : c
  · rw [if_pos hc] at h
    exact Or.inl ⟨hc, Except.ok.inj h⟩
  · rw [if_neg hc] at h
    exact Or.inr h

theorem packetType_toByte {x : UInt8} {t : PacketType} (h : PacketType.ofByte? x = .ok t) :
    t.toByte = x := by
  unfold PacketType.ofByte? at h
  repeat
    rcases of_ite_ok h with ⟨rfl, rfl⟩ | h
    · rfl
  cases h

theorem parsePacket_ok_iff (data : Bytes) (p : ParsedPacket) :
    parsePacket data = .ok p ↔ overhead ≤ data.length ∧ data.getD 0 0 = protocolVersion ∧
      PacketType.ofByte? (data.getD 1 0) = .ok p.ptype ∧ p.senderId = slice data 2 32 ∧
      p.payload = slice data headerSize (declaredLength data) := by
  unfold parsePacket
  by_cases hshort : data.length < overhead
  · rw [if_pos hshort]
    constructor
    · intro h
      cases h
    · rintro ⟨hlong, _⟩
      exact absurd hshort (Nat.not_lt.mpr hlong)
  · by_cases hversion : data.getD 0 0 = protocolVersion
    · rw [if_neg hshort, if_neg (not_not.mpr hversion)]
      cases htype : PacketType.ofByte? (data.getD 1 0) with
      | error e =>
        constructor
        · intro h
          cases h
        · rintro ⟨_, _, h, _⟩
          cases h
      | ok t =>
        constructor
        · intro h
          cases h
          exact ⟨Nat.not_lt.mp hshort, hversion, rfl, rfl, rfl⟩
        · rintro ⟨_, _, ht, hsender, hpayload⟩
          cases ht
          cases p
          cases hsender
          cases hpayload
          rfl
    · rw [if_neg hshort, if_pos hversion]
      constructor
      · intro h
        cases h
      · rintro ⟨_, h, _⟩
        exact absurd h hversion

/-- Only what is not recognised is refused. -/
theorem recognised_iff (data : Bytes) : Recognised data ↔ ∃ p, parsePacket data = .ok p := by
  constructor
  · rintro ⟨hlong, hversion, t, ht⟩
    exact ⟨⟨t, slice data 2 32, slice data headerSize (declaredLength data)⟩,
      (parsePacket_ok_iff data _).mpr ⟨hlong, hversion, ht, rfl, rfl⟩⟩
  · rintro ⟨p, hp⟩
    obtain ⟨hlong, hversion, htype, _⟩ := (parsePacket_ok_iff data p).mp hp
    exact ⟨hlong, hversion, p.ptype, htype⟩

end Header

section Framing

variable {data : Bytes} {p : ParsedPacket}

theorem FrameOf.parsed (h : FrameOf data p) : parsePacket data = .ok p := by
  obtain ⟨senderId, mac, hsender, hmac, hfits, rfl⟩ := h
  rw [parsePacket_frame p.ptype senderId p.payload mac hfits hmac, hsender]

/-- The length field of a frame leaves nothing over. -/
theorem FrameOf.declared (h : FrameOf data p) :
    declaredLength data + overhead = data.length := by
  obtain ⟨senderId, mac, hsender, hmac, hfits, rfl⟩ := h
  rw [frame_length p.ptype senderId p.payload mac hmac]
  have hfield : slice (frame p.ptype senderId p.payload mac) 34 2 = packBE 2 p.payload.length := by
    have hpre : ([protocolVersion, p.ptype.toByte] ++ senderId.toList).length = 34 := by
      simp only [List.length_append, List.Vector.toList_length, List.length_cons, List.length_nil]
    have hcut := slice_piece _ (packBE 2 p.payload.length) (p.payload ++ mac) 34 2 hpre
      (packBE_length 2 _)
    simpa only [frame, List.append_assoc] using hcut
  rw [declaredLength, hfield, unpackBE_packBE 2 _ hfits]

theorem first_two (hlong : overhead ≤ data.length) :
    slice data 0 2 = [data.getD 0 0, data.getD 1 0] := by
  have hlong' : 52 ≤ data.length := hlong
  rw [← slice_append_slice data 0 1 1, slice_one data 0 (by omega), slice_one data (0 + 1) (by omega)]
  rfl

/-- Where the lengths agree, the string is the frame of what was parsed. -/
theorem frameOf_of_declared (hp : parsePacket data = .ok p)
    (hdeclared : declaredLength data + overhead = data.length) : FrameOf data p := by
  obtain ⟨hlong, hversion, htype, hsender, hpayload⟩ := (parsePacket_ok_iff data p).mp hp
  have hlen : declaredLength data + 52 = data.length := hdeclared
  have hregion : 36 + declaredLength data ≤ data.length := by omega
  have hpayloadLen : p.payload.length = declaredLength data := by
    rw [hpayload]
    exact slice_length data headerSize _ hregion
  have hfieldLen : (slice data 34 2).length = 2 := slice_length data 34 2 (by omega)
  have hfits : declaredLength data < 65536 := by
    have hlt := unpackBE_lt (slice data 34 2)
    rwa [hfieldLen] at hlt
  refine ⟨⟨slice data 2 32, slice_length data 2 32 (by omega)⟩,
    slice data (36 + declaredLength data) 16, hsender.symm,
    slice_length data _ 16 (by omega), by rw [hpayloadLen]; exact hfits, ?_⟩
  have hfield : packBE 2 p.payload.length = slice data 34 2 := by
    have hpack := packBE_unpackBE (slice data 34 2)
    rwa [hfieldLen, ← declaredLength, ← hpayloadLen] at hpack
  have hhead : [protocolVersion, p.ptype.toByte] = slice data 0 2 := by
    rw [first_two hlong, hversion, packetType_toByte htype]
  show data = [protocolVersion, p.ptype.toByte] ++ slice data 2 32 ++ packBE 2 p.payload.length ++
    p.payload ++ slice data (36 + declaredLength data) 16
  rw [hfield, hhead, hpayload, slice_append_slice data 0 2 32, slice_append_slice data 0 34 2,
    slice_append_slice data 0 36 (declaredLength data)]
  have hlast := slice_append_slice data 0 (36 + declaredLength data) 16
  rw [Nat.zero_add] at hlast
  rw [hlast, slice_self data _ (by omega)]

theorem authenticated_of_declared (hp : parsePacket data = .ok p)
    (hdeclared : declaredLength data + overhead = data.length) :
    p.payload = authenticated data := by
  have hlen : declaredLength data + 52 = data.length := hdeclared
  have hcount : data.length - macSize - headerSize = declaredLength data := by
    show data.length - 16 - 36 = _
    omega
  rw [((parsePacket_ok_iff data p).mp hp).2.2.2.2, authenticated, List.drop_take, hcount, slice]

theorem exactlyFramed_iff (data : Bytes) :
    ExactlyFramed data ↔ (Recognised data → declaredLength data + overhead = data.length) := by
  constructor
  · rintro ⟨hframed, _⟩ hrecognised
    obtain ⟨p, hp⟩ := (recognised_iff data).mp hrecognised
    exact ((hframed p).mp hp).declared
  · intro h
    have hdeclared : ∀ p, parsePacket data = .ok p →
        declaredLength data + overhead = data.length :=
      fun p hp => h ((recognised_iff data).mpr ⟨p, hp⟩)
    refine ⟨fun p => ⟨fun hp => frameOf_of_declared hp (hdeclared p hp), FrameOf.parsed⟩, ?_⟩
    intro p hp
    exact authenticated_of_declared hp (hdeclared p hp)

end Framing

section Packets

variable (C : Suite)

theorem parse_buildPacket (ptype : PacketType) (senderId : Fixed 32) (payload : Bytes)
    (sessionKey : Option SessionKey) (h : payload.length ≤ 65535) :
    ∃ pkt, buildPacket C ptype senderId payload sessionKey = .ok pkt ∧
      parsePacket pkt = .ok ⟨ptype, senderId.toList, payload⟩ := by
  have hfits : payload.length < 65536 := by omega
  cases hbuild : buildPacket C ptype senderId payload sessionKey with
  | error e =>
    simp only [buildPacket, packHeader_ok ptype senderId payload.length hfits] at hbuild
    cases hbuild
  | ok pkt =>
    obtain ⟨_, mac, hmac, rfl, _⟩ := buildPacket_eq_frame C ptype senderId payload sessionKey pkt hbuild
    exact ⟨_, rfl, parsePacket_frame ptype senderId payload mac hfits hmac⟩

/-- A string is treated as a packet exactly when it is one, unless it is recognised and
declares another length than it has. Built packets are parsed back in any case. -/
theorem packet_framing :
    (∀ data, ExactlyFramed data ↔
      (Recognised data → declaredLength data + overhead = data.length)) ∧
    ∀ (ptype : PacketType) (senderId : Fixed 32) (payload : Bytes) (sessionKey : Option SessionKey),
      payload.length ≤ 65535 → ∃ pkt, buildPacket C ptype senderId payload sessionKey = .ok pkt ∧
        parsePacket pkt = .ok ⟨ptype, senderId.toList, payload⟩ :=
  ⟨exactlyFramed_iff, parse_buildPacket C⟩

end Packets

section Stub

/-- A PING that declares an empty payload and carries one byte. -/
def overlongPing : Bytes := [1, 7] ++ List.replicate 32 97 ++ [0, 0] ++ [42] ++ List.replicate 16 0

theorem packet_framing_ping :
    (ExactlyFramed overlongPing ↔
      (Recognised overlongPing → declaredLength overlongPing + overhead = overlongPing.length)) ∧
    ∃ pkt, buildPacket stub .ping (List.Vector.replicate 32 97) [42] none = .ok pkt ∧
      parsePacket pkt = .ok ⟨.ping, (List.Vector.replicate 32 97 : Fixed 32).toList, [42]⟩ :=
  ⟨(packet_framing stub).1 overlongPing,
    (packet_framing stub).2 .ping (List.Vector.replicate 32 97) [42] none (by decide)⟩

/-- It is parsed, with an empty payload. -/
theorem overlong_ping_accepted : ¬ ∀ data, ExactlyFramed data := by
  intro h
  have hrecognised : Recognised overlongPing := ⟨by decide, by decide, .ping, by decide⟩
  have hdeclared := (exactlyFramed_iff overlongPing).mp (h overlongPing) hrecognised
  exact absurd hdeclared (by decide)

end Stub

end Mesim.PacketFraming
