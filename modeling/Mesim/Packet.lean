import Mesim.Identity

/-!
Packet framing and the bundle wire format.
A packet is a 36-byte header (version, type, sender id, payload length), the
payload and a 16-byte MAC. Parsing trusts the length field; the MAC covers
everything between the header and the last 16 bytes.
-/
namespace Mesim.Packet

open Octets TextCodec Crypto Identity

abbrev protocolVersion : UInt8 := 1
abbrev headerSize : ℕ := 36
abbrev macSize : ℕ := 16
abbrev overhead : ℕ := headerSize + macSize
abbrev mtu : ℕ := 1400
abbrev maxPayload : ℕ := mtu - overhead
abbrev bundleWireLen : ℕ := 1381
abbrev fragHeaderSize : ℕ := 6
abbrev nonceSize : ℕ := 12
abbrev tagSize : ℕ := 16
abbrev sigSize : ℕ := 64
abbrev maxFragPt : ℕ := maxPayload - fragHeaderSize - nonceSize - tagSize - sigSize

def zeroMac : Bytes := List.replicate macSize 0

/-- `b"MESIM_ACK"`. -/
def keyAckMagic : Bytes := [77, 69, 83, 73, 77, 95, 65, 67, 75]

inductive PacketType where
  | handshake
  | handshakeResp
  | keyInit
  | keyAck
  | message
  | ack
  | ping
  | pong
  | storeForward
  | originator
  deriving DecidableEq, Repr

namespace PacketType

def toByte : PacketType → UInt8
  | .handshake => 1
  | .handshakeResp => 2
  | .keyInit => 3
  | .keyAck => 4
  | .message => 5
  | .ack => 6
  | .ping => 7
  | .pong => 8
  | .storeForward => 9
  | .originator => 10

def ofByte? (x : UInt8) : Except PyError PacketType :=
  if x = 1 then .ok .handshake
  else if x = 2 then .ok .handshakeResp
  else if x = 3 then .ok .keyInit
  else if x = 4 then .ok .keyAck
  else if x = 5 then .ok .message
  else if x = 6 then .ok .ack
  else if x = 7 then .ok .ping
  else if x = 8 then .ok .pong
  else if x = 9 then .ok .storeForward
  else if x = 10 then .ok .originator
  else .error (.valueError (toString x ++ " is not a valid PacketType"))

/-- Membership in `_HANDSHAKE_TYPES`. -/
def isHandshake : PacketType → Bool
  | .handshake | .handshakeResp | .keyInit | .keyAck => true
  | _ => false

theorem ofByte_toByte (t : PacketType) : ofByte? t.toByte = .ok t := by
  cases t <;> rfl

end PacketType

/-- `device_id.replace("-", "")[:32].encode("ascii").ljust(32, b"0")`. -/
def senderIdBytes (deviceId : String) : Except PyError (Fixed 32) :=
  let trimmed := String.ofList ((deviceId.toList.filter (· ≠ '-')).take 32)
  match h : encodeAscii trimmed with
  | some b => .ok ⟨ljust b 32 48, by
      have hlen := encodeAscii_length _ _ h
      apply ljust_length
      rw [hlen, String.toList_ofList, List.length_take]
      omega⟩
  | none => .error .unicodeError

def deviceIdFromBytes (raw : Bytes) : Except PyError String :=
  match decodeAscii raw with
  | some s => .ok s
  | none => .error .unicodeError

def packBundle (bundle : PublicBundle) : Except PyError Bytes :=
  let deviceIdB := (ljust (encodeUtf8 bundle.deviceId) 36 0).take 36
  match encodeAscii bundle.callsign with
  | none => .error .unicodeError
  | some callsign =>
    let callsignB := (ljust callsign 32 0).take 32
    .ok (deviceIdB ++ bundle.verifyKey.raw.toList ++ bundle.encryptPub.raw.toList ++
      bundle.kemPub.raw.toList ++ callsignB ++ [bundle.rank.toByte] ++ bundle.bundleSig)

/-- The key fields of a bundle of the right length, cut out at their offsets. -/
def bundleField (data : Bytes) (offset width : ℕ) (h : offset + width ≤ data.length) :
    Fixed width :=
  ⟨slice data offset width, slice_length data offset width h⟩

def unpackBundle (data : Bytes) : Except PyError PublicBundle :=
  if h : data.length = bundleWireLen then
    match decodeUtf8 (rstrip (slice data 0 36) 0) with
    | none => .error .unicodeError
    | some deviceId =>
      match decodeAscii (rstrip (slice data 1284 32) 0) with
      | none => .error .unicodeError
      | some callsign =>
        match Rank.ofByte? (data.getD 1316 0) with
        | .error e => .error e
        | .ok rank =>
          .ok {
            deviceId := deviceId
            callsign := callsign
            rank := rank
            verifyKey := ⟨bundleField data 36 32 (by rw [h]; decide)⟩
            encryptPub := ⟨bundleField data 68 32 (by rw [h]; decide)⟩
            kemPub := ⟨bundleField data 100 1184 (by rw [h]; decide)⟩
            bundleSig := slice data 1317 64 }
  else
    .error (.valueError ("Bundle wire data must be 1381 bytes, got " ++ toString data.length))

variable (C : Suite)

/-- HMAC-SHA256 over header and payload, cut to 16 bytes. -/
def computeMac (sessionKey : SessionKey) (header payload : Bytes) : Bytes :=
  (C.hmacSha256 sessionKey.raw (header ++ payload)).toList.take macSize

def verifyMac (sessionKey : SessionKey) (packet : Bytes) : Except PyError Unit :=
  let header := packet.take headerSize
  let payload := (packet.take (packet.length - macSize)).drop headerSize
  let embeddedMac := packet.drop (packet.length - macSize)
  if computeMac C sessionKey header payload = embeddedMac then .ok () else .error .invalidTag

/-- `struct.pack(HEADER_FMT, ...)`: the length field is two bytes wide. -/
def packHeader (ptype : PacketType) (senderId : Fixed 32) (payloadLen : ℕ) :
    Except PyError Bytes :=
  if payloadLen < 256 ^ 2 then
    .ok ([protocolVersion, ptype.toByte] ++ senderId.toList ++ packBE 2 payloadLen)
  else .error .structError

def buildPacket (ptype : PacketType) (senderId : Fixed 32) (payload : Bytes)
    (sessionKey : Option SessionKey) : Except PyError Bytes := do
  let header ← packHeader ptype senderId payload.length
  let mac := match sessionKey with
    | none => zeroMac
    | some key => if ptype.isHandshake then zeroMac else computeMac C key header payload
  return header ++ payload ++ mac

structure ParsedPacket where
  ptype : PacketType
  senderId : Bytes
  payload : Bytes
  deriving DecidableEq

/-- The version is always the supported one in a successful parse, so it is not repeated. -/
def parsePacket (data : Bytes) : Except PyError ParsedPacket :=
  if data.length < overhead then
    .error (.valueError ("Packet too short: " ++ toString data.length ++ " < 52"))
  else if data.getD 0 0 ≠ protocolVersion then
    .error (.valueError ("Unsupported protocol version: " ++ toString (data.getD 0 0)))
  else
    let payloadLen := unpackBE (slice data 34 2)
    match PacketType.ofByte? (data.getD 1 0) with
    | .error e => .error e
    | .ok ptype => .ok ⟨ptype, slice data 2 32, slice data headerSize payloadLen⟩

/-- A whole packet with the given MAC, when its payload length fits the field. -/
def frame (ptype : PacketType) (senderId : Fixed 32) (payload mac : Bytes) : Bytes :=
  [protocolVersion, ptype.toByte] ++ senderId.toList ++ packBE 2 payload.length ++ payload ++ mac

theorem packHeader_ok (ptype : PacketType) (senderId : Fixed 32) (n : ℕ) (h : n < 65536) :
    packHeader ptype senderId n =
      .ok ([protocolVersion, ptype.toByte] ++ senderId.toList ++ packBE 2 n) := by
  unfold packHeader
  rw [if_pos (by omega)]

theorem packHeader_error (ptype : PacketType) (senderId : Fixed 32) (n : ℕ) (h : ¬ n < 65536) :
    packHeader ptype senderId n = .error .structError := by
  unfold packHeader
  rw [if_neg (by omega)]

theorem header_length (ptype : PacketType) (senderId : Fixed 32) (n : ℕ) :
    ([protocolVersion, ptype.toByte] ++ senderId.toList ++ packBE 2 n).length = headerSize := by
  simp only [List.length_append, List.Vector.toList_length, packBE_length, List.length_cons,
    List.length_nil]

theorem computeMac_length (key : SessionKey) (header payload : Bytes) :
    (computeMac C key header payload).length = macSize := by
  simp only [computeMac, List.length_take, List.Vector.toList_length]
  decide

theorem frame_length (ptype : PacketType) (senderId : Fixed 32) (payload mac : Bytes)
    (hmac : mac.length = macSize) :
    (frame ptype senderId payload mac).length = payload.length + overhead := by
  rw [frame, List.length_append, List.length_append, header_length, hmac]
  simp only [overhead, headerSize, macSize]
  omega

/-- Parsing a framed packet gives back its type, sender and payload. -/
theorem parsePacket_frame (ptype : PacketType) (senderId : Fixed 32) (payload mac : Bytes)
    (hlen : payload.length < 65536) (hmac : mac.length = macSize) :
    parsePacket (frame ptype senderId payload mac) =
      .ok ⟨ptype, senderId.toList, payload⟩ := by
  have htotal := frame_length ptype senderId payload mac hmac
  have hsender : slice (frame ptype senderId payload mac) 2 32 = senderId.toList := by
    simp only [frame, slice, List.append_assoc, List.cons_append, List.nil_append,
      List.drop_succ_cons, List.drop_zero]
    exact List.take_left' senderId.toList_length
  have hfield : slice (frame ptype senderId payload mac) 34 2 = packBE 2 payload.length := by
    have hdrop : ([protocolVersion, ptype.toByte] ++ senderId.toList).length = 34 := by
      simp only [List.length_append, List.Vector.toList_length, List.length_cons, List.length_nil]
    simp only [frame, slice]
    rw [List.append_assoc, List.append_assoc, List.drop_left' hdrop]
    exact List.take_left' (packBE_length 2 _)
  have hpayload : slice (frame ptype senderId payload mac) headerSize payload.length = payload := by
    simp only [frame, slice]
    rw [List.append_assoc, List.drop_left' (header_length ptype senderId payload.length)]
    exact List.take_left
  unfold parsePacket
  rw [if_neg (by rw [htotal]; omega), if_neg (by simp [frame]), hfield,
    unpackBE_packBE 2 payload.length (by omega)]
  have htype : (frame ptype senderId payload mac).getD 1 0 = ptype.toByte := rfl
  simp only [htype, PacketType.ofByte_toByte, hpayload, hsender]

theorem buildPacket_unkeyed (ptype : PacketType) (senderId : Fixed 32) (payload : Bytes)
    (h : payload.length < 65536) :
    buildPacket C ptype senderId payload none = .ok (frame ptype senderId payload zeroMac) := by
  simp only [buildPacket, packHeader_ok ptype senderId payload.length h, frame]
  rfl

theorem buildPacket_keyed (ptype : PacketType) (senderId : Fixed 32) (payload : Bytes)
    (key : SessionKey) (htype : ptype.isHandshake = false) (h : payload.length < 65536) :
    buildPacket C ptype senderId payload (some key) =
      .ok (frame ptype senderId payload (computeMac C key ([protocolVersion, ptype.toByte] ++
        senderId.toList ++ packBE 2 payload.length) payload)) := by
  simp only [buildPacket, packHeader_ok ptype senderId payload.length h, frame, htype]
  rfl

/-- Every packet that is built is a frame. -/
theorem buildPacket_eq_frame (ptype : PacketType) (senderId : Fixed 32) (payload : Bytes)
    (sessionKey : Option SessionKey) (pkt : Bytes)
    (h : buildPacket C ptype senderId payload sessionKey = .ok pkt) :
    payload.length < 65536 ∧ ∃ mac, mac.length = macSize ∧
      pkt = frame ptype senderId payload mac ∧ (sessionKey = none → mac = zeroMac) := by
  by_cases hlen : payload.length < 65536
  · have hheader := packHeader_ok ptype senderId payload.length hlen
    simp only [buildPacket, hheader] at h
    have hpkt := Except.ok.inj h
    refine ⟨hlen, _, ?_, hpkt.symm, ?_⟩
    · cases sessionKey with
      | none => exact List.length_replicate
      | some key =>
        dsimp only
        split
        · exact List.length_replicate
        · exact computeMac_length C key _ payload
    · rintro rfl
      rfl
  · have hheader := packHeader_error ptype senderId payload.length hlen
    simp only [buildPacket, hheader] at h
    contradiction

/-- The bytes a frame's MAC covers, and the MAC itself, are where `verify_mac` looks. -/
theorem verifyMac_frame (key : SessionKey) (ptype : PacketType) (senderId : Fixed 32)
    (payload mac : Bytes) (hmac : mac.length = macSize) :
    verifyMac C key (frame ptype senderId payload mac) =
      if computeMac C key ([protocolVersion, ptype.toByte] ++ senderId.toList ++
        packBE 2 payload.length) payload = mac then .ok () else .error .invalidTag := by
  have hheader := header_length ptype senderId payload.length
  have hbody : ([protocolVersion, ptype.toByte] ++ senderId.toList ++ packBE 2 payload.length ++
      payload).length = (frame ptype senderId payload mac).length - macSize := by
    rw [frame_length ptype senderId payload mac hmac, List.length_append, hheader]
    simp only [overhead, headerSize, macSize]
    omega
  have hhead : (frame ptype senderId payload mac).take headerSize =
      [protocolVersion, ptype.toByte] ++ senderId.toList ++ packBE 2 payload.length := by
    rw [frame, List.append_assoc]
    exact List.take_left' hheader
  have htake : (frame ptype senderId payload mac).take
      ((frame ptype senderId payload mac).length - macSize) =
      [protocolVersion, ptype.toByte] ++ senderId.toList ++ packBE 2 payload.length ++ payload := by
    rw [← hbody]
    exact List.take_left
  have hdrop : (frame ptype senderId payload mac).drop
      ((frame ptype senderId payload mac).length - macSize) = mac := by
    rw [← hbody]
    exact List.drop_left
  simp only [verifyMac, hhead, htake, hdrop]
  rw [List.drop_left' hheader]

/-- What a bundle must satisfy for its text fields to survive the fixed-width
wire format. Every bundle of a created identity does. -/
structure Publishable (bundle : PublicBundle) : Prop where
  deviceId_fits : (encodeUtf8 bundle.deviceId).length ≤ 36
  deviceId_end : (encodeUtf8 bundle.deviceId).getLast? ≠ some 0
  callsign_fits : ∃ callsign, encodeAscii bundle.callsign = some callsign ∧
    callsign.length ≤ 32 ∧ callsign.getLast? ≠ some 0
  sig_length : bundle.bundleSig.length = sigSize

theorem packBundle_length (bundle : PublicBundle) (h : Publishable bundle) (wire : Bytes)
    (hwire : packBundle bundle = .ok wire) : wire.length = bundleWireLen := by
  obtain ⟨callsign, hcallsign, hfits, _⟩ := h.callsign_fits
  have hid := ljust_length (encodeUtf8 bundle.deviceId) 36 0 h.deviceId_fits
  have hcs := ljust_length callsign 32 0 hfits
  have hsig := h.sig_length
  simp only [packBundle, hcallsign] at hwire
  have hwire' := Except.ok.inj hwire
  subst wire
  simp only [List.length_append, List.length_take, hid, hcs, hsig, List.Vector.toList_length,
    List.length_cons, List.length_nil]
  decide

/-- The wire format carries every field of a publishable bundle. -/
theorem unpackBundle_packBundle (bundle : PublicBundle) (h : Publishable bundle) :
    ∃ wire, packBundle bundle = .ok wire ∧ wire.length = bundleWireLen ∧
      unpackBundle wire = .ok bundle := by
  obtain ⟨callsign, hcallsign, hfits, hend⟩ := h.callsign_fits
  let deviceIdB := ljust (encodeUtf8 bundle.deviceId) 36 0
  let callsignB := ljust callsign 32 0
  let rankB : Bytes := [bundle.rank.toByte]
  have hid : deviceIdB.length = 36 := ljust_length _ _ _ h.deviceId_fits
  have hcs : callsignB.length = 32 := ljust_length _ _ _ hfits
  let wire := deviceIdB ++ (bundle.verifyKey.raw.toList ++ (bundle.encryptPub.raw.toList ++
    (bundle.kemPub.raw.toList ++ (callsignB ++ (rankB ++ bundle.bundleSig)))))
  have hpack : packBundle bundle = .ok wire := by
    simp only [packBundle, hcallsign, wire, List.append_assoc,
      List.take_of_length_le (Nat.le_of_eq hid), List.take_of_length_le (Nat.le_of_eq hcs),
      deviceIdB, callsignB, rankB]
  have hlen := packBundle_length bundle h wire hpack
  have hvk : slice wire 36 32 = bundle.verifyKey.raw.toList :=
    slice_piece _ _ _ _ _ hid bundle.verifyKey.raw.toList_length
  have hxk : slice wire 68 32 = bundle.encryptPub.raw.toList := by
    have hpre : (deviceIdB ++ bundle.verifyKey.raw.toList).length = 68 := by
      rw [List.length_append, hid, List.Vector.toList_length]
    simpa only [List.append_assoc, wire] using
      slice_piece _ _ _ _ _ hpre bundle.encryptPub.raw.toList_length
  have hkem : slice wire 100 1184 = bundle.kemPub.raw.toList := by
    have hpre : (deviceIdB ++ bundle.verifyKey.raw.toList ++
        bundle.encryptPub.raw.toList).length = 100 := by
      simp only [List.length_append, hid, List.Vector.toList_length]
    simpa only [List.append_assoc, wire] using
      slice_piece _ _ _ _ _ hpre bundle.kemPub.raw.toList_length
  have hprefix : (deviceIdB ++ bundle.verifyKey.raw.toList ++ bundle.encryptPub.raw.toList ++
      bundle.kemPub.raw.toList).length = 1284 := by
    simp only [List.length_append, hid, List.Vector.toList_length]
  have hcallB : slice wire 1284 32 = callsignB := by
    simpa only [List.append_assoc, wire] using slice_piece _ _ _ _ _ hprefix hcs
  have hprefix' : (deviceIdB ++ bundle.verifyKey.raw.toList ++ bundle.encryptPub.raw.toList ++
      bundle.kemPub.raw.toList ++ callsignB).length = 1316 := by
    rw [List.length_append, hprefix, hcs]
  have hrank : wire.getD 1316 0 = bundle.rank.toByte := by
    have hsplit : wire = (deviceIdB ++ bundle.verifyKey.raw.toList ++
        bundle.encryptPub.raw.toList ++ bundle.kemPub.raw.toList ++ callsignB) ++
        (rankB ++ bundle.bundleSig) := by
      simp only [List.append_assoc, wire]
    rw [hsplit, List.getD_eq_getElem?_getD, List.getElem?_append_right (by rw [hprefix']),
      hprefix']
    rfl
  have hsig : slice wire 1317 64 = bundle.bundleSig := by
    have hpre : (deviceIdB ++ bundle.verifyKey.raw.toList ++ bundle.encryptPub.raw.toList ++
        bundle.kemPub.raw.toList ++ callsignB ++ rankB).length = 1317 := by
      rw [List.length_append, hprefix']
      rfl
    simpa only [List.append_assoc, List.append_nil, wire] using
      slice_piece _ bundle.bundleSig [] _ _ hpre h.sig_length
  have hidSlice : slice wire 0 36 = deviceIdB := slice_append_left _ _ _ hid
  have hdevice : decodeUtf8 (rstrip (slice wire 0 36) 0) = some bundle.deviceId := by
    rw [hidSlice, rstrip_ljust _ _ _ h.deviceId_end, decodeUtf8_encodeUtf8]
  have hcall : decodeAscii (rstrip (slice wire 1284 32) 0) = some bundle.callsign := by
    rw [hcallB, rstrip_ljust _ _ _ hend, decodeAscii_encodeAscii _ _ hcallsign]
  refine ⟨wire, hpack, hlen, ?_⟩
  simp only [unpackBundle, hlen, dite_true, hdevice, hcall, hrank, Rank.ofByte_toByte, bundleField,
    hvk, hxk, hkem, hsig]
  rfl

end Mesim.Packet
