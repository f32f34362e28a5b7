import Mesim.Honest

/-!
The bundle wire codec in both directions.
Packing pads the two texts with zero bytes and unpacking strips them, so a bundle
whose texts fit and do not end in NUL comes back as it was. Conversely every string
that unpack_bundle() accepts is the packed form of what it returns, and the bytes
that the signature is checked over are the received ones in another order.
-/
namespace Mesim.BundleCodec

open Octets TextCodec Crypto Identity Packet

/-- What the fixed widths of the wire format can carry. -/
structure Carriable (bundle : PublicBundle) : Prop where
  deviceId_fits : (encodeUtf8 bundle.deviceId).length ≤ 36
  deviceId_end : bundle.deviceId.toList.getLast? ≠ some '\x00'
  callsign_ascii : IsAscii bundle.callsign
  callsign_fits : bundle.callsign.toList.length ≤ 32
  callsign_end : bundle.callsign.toList.getLast? ≠ some '\x00'
  sig_length : bundle.bundleSig.length = 64

/-- The fields of a bundle are where the layout puts them. -/
structure Unpacked (data : Bytes) (bundle : PublicBundle) : Prop where
  length : data.length = bundleWireLen
  deviceId : decodeUtf8 (rstrip (slice data 0 36) 0) = some bundle.deviceId
  verifyKey : bundle.verifyKey.raw.toList = slice data 36 32
  encryptPub : bundle.encryptPub.raw.toList = slice data 68 32
  kemPub : bundle.kemPub.raw.toList = slice data 100 1184
  callsign : decodeAscii (rstrip (slice data 1284 32) 0) = some bundle.callsign
  rank : [bundle.rank.toByte] = slice data 1316 1
  bundleSig : bundle.bundleSig = slice data 1317 64

section Texts

theorem encodeAscii_ascii {s : String} (h : IsAscii s) : encodeAscii s = some (encodeUtf8 s) := by
  rw [encodeAscii, if_pos h, encodeUtf8_ascii s h]

theorem ascii_of_encodeAscii {s : String} {b : Bytes} (h : encodeAscii s = some b) :
    IsAscii s ∧ b = encodeUtf8 s := by
  unfold encodeAscii at h
  split at h
  · rename_i hascii
    rw [encodeUtf8_ascii s hascii]
    exact ⟨hascii, (Option.some.inj h).symm⟩
  · cases h

theorem encodeUtf8_length {s : String} (h : IsAscii s) :
    (encodeUtf8 s).length = s.toList.length := by
  rw [encodeUtf8_ascii s h, List.length_map]

/-- The padded field that a stripped text was read from. -/
theorem padded_rstrip (data : Bytes) (start width : ℕ) (h : start + width ≤ data.length) :
    (ljust (rstrip (slice data start width) 0) width 0).take width = slice data start width := by
  have hlen := slice_length data start width h
  have hpad := ljust_rstrip (slice data start width) 0
  rw [hlen] at hpad
  rw [hpad]
  exact List.take_of_length_le hlen.le

end Texts

section Fields

theorem toByte_of_ofByte {x : UInt8} {r : Rank} (h : Rank.ofByte? x = .ok r) : r.toByte = x := by
  unfold Rank.ofByte? at h
  split_ifs at h with h1 h2 h3 h4 <;> cases h
  · exact h1.symm
  · exact h2.symm
  · exact h3.symm
  · exact h4.symm

theorem slice_one (data : Bytes) (start : ℕ) (h : start < data.length) :
    slice data start 1 = [data.getD start 0] := by
  rw [slice, List.drop_eq_getElem_cons h, List.getD_eq_getElem?_getD, List.getElem?_eq_getElem h]
  rfl

theorem unpacked_of_unpackBundle {data : Bytes} {bundle : PublicBundle}
    (h : unpackBundle data = .ok bundle) : Unpacked data bundle := by
  unfold unpackBundle at h
  split at h
  · rename_i hlen
    split at h
    · cases h
    · rename_i deviceId hid
      split at h
      · cases h
      · rename_i callsign hcallsign
        split at h
        · cases h
        · rename_i rank hrank
          rw [← Except.ok.inj h]
          have hbyte : slice data 1316 1 = [data.getD 1316 0] :=
            slice_one data 1316 (by rw [hlen]; decide)
          exact ⟨hlen, hid, rfl, rfl, rfl, hcallsign,
            by rw [hbyte, toByte_of_ofByte hrank], rfl⟩
  · cases h

/-- A carriable bundle is what the wire format asks of published ones. -/
theorem Carriable.publishable {bundle : PublicBundle} (h : Carriable bundle) :
    Publishable bundle where
  deviceId_fits := h.deviceId_fits
  deviceId_end := fun hlast => h.deviceId_end ((getLast?_encodeUtf8 _).mp hlast)
  callsign_fits := ⟨encodeUtf8 bundle.callsign, encodeAscii_ascii h.callsign_ascii,
    (encodeUtf8_length h.callsign_ascii).le.trans h.callsign_fits,
    fun hlast => h.callsign_end ((getLast?_encodeUtf8 _).mp hlast)⟩
  sig_length := h.sig_length

namespace Unpacked

variable {data : Bytes} {bundle : PublicBundle}

theorem deviceId_bytes (h : Unpacked data bundle) :
    encodeUtf8 bundle.deviceId = rstrip (slice data 0 36) 0 :=
  encodeUtf8_decodeUtf8 _ _ h.deviceId

theorem callsign_ascii (h : Unpacked data bundle) : IsAscii bundle.callsign :=
  (ascii_of_encodeAscii (encodeAscii_decodeAscii _ _ h.callsign)).1

theorem callsign_bytes (h : Unpacked data bundle) :
    encodeUtf8 bundle.callsign = rstrip (slice data 1284 32) 0 :=
  (ascii_of_encodeAscii (encodeAscii_decodeAscii _ _ h.callsign)).2.symm

/-- Both padded texts stand in the received bytes as they were padded. -/
theorem deviceId_field (h : Unpacked data bundle) :
    (ljust (encodeUtf8 bundle.deviceId) 36 0).take 36 = slice data 0 36 := by
  rw [h.deviceId_bytes]
  exact padded_rstrip data 0 36 (by rw [h.length]; decide)

theorem callsign_field (h : Unpacked data bundle) :
    (ljust (encodeUtf8 bundle.callsign) 32 0).take 32 = slice data 1284 32 := by
  rw [h.callsign_bytes]
  exact padded_rstrip data 1284 32 (by rw [h.length]; decide)

/-- The decoded bundle is one that the wire format can carry. -/
theorem carriable (h : Unpacked data bundle) : Carriable bundle where
  deviceId_fits := by
    rw [h.deviceId_bytes]
    exact (rstrip_length_le _ _).trans (List.length_take_le _ _)
  deviceId_end := by
    intro hlast
    have hbytes := (getLast?_encodeUtf8 bundle.deviceId).mpr hlast
    rw [h.deviceId_bytes] at hbytes
    exact getLast?_rstrip _ _ hbytes
  callsign_ascii := h.callsign_ascii
  callsign_fits := by
    rw [← encodeUtf8_length h.callsign_ascii, h.callsign_bytes]
    exact (rstrip_length_le _ _).trans (List.length_take_le _ _)
  callsign_end := by
    intro hlast
    have hbytes := (getLast?_encodeUtf8 bundle.callsign).mpr hlast
    rw [h.callsign_bytes] at hbytes
    exact getLast?_rstrip _ _ hbytes
  sig_length := by
    rw [h.bundleSig]
    exact slice_length data 1317 64 (by rw [h.length])

/-- Packing the decoded bundle returns the bytes it was decoded from. -/
theorem packBundle (h : Unpacked data bundle) : packBundle bundle = .ok data := by
  have hwhole : slice data 0 1381 = data := slice_self data 1381 h.length.le
  simp only [Packet.packBundle, encodeAscii_ascii h.callsign_ascii, h.deviceId_field,
    h.callsign_field, h.verifyKey, h.encryptPub, h.kemPub, h.rank, h.bundleSig]
  have hpieces : slice data 0 36 ++ slice data 36 32 ++ slice data 68 32 ++ slice data 100 1184 ++
      slice data 1284 32 ++ slice data 1316 1 ++ slice data 1317 64 = data := by
    conv => rhs; rw [← hwhole]
    rw [slice_append_slice data 0 36 32, slice_append_slice data 0 68 32,
      slice_append_slice data 0 100 1184, slice_append_slice data 0 1284 32,
      slice_append_slice data 0 1316 1, slice_append_slice data 0 1317 64]
  rw [hpieces]

end Unpacked

end Fields

section Codec

variable (C : Suite)

/-- Packing and unpacking are inverse to each other between the bundles that the
format can carry and the strings that are accepted, and verification does not tell
the two ends of the wire apart. -/
theorem bundle_codec :
    (∀ bundle, Carriable bundle → ∃ wire, packBundle bundle = .ok wire ∧ wire.length = 1381 ∧
      unpackBundle wire = .ok bundle) ∧
    (∀ data bundle, unpackBundle data = .ok bundle →
      Carriable bundle ∧ packBundle bundle = .ok data) ∧
    (∀ bundle wire received, Carriable bundle → packBundle bundle = .ok wire →
      unpackBundle wire = .ok received →
      verifyPublicBundle C received = verifyPublicBundle C bundle) ∧
    ∀ data bundle wire received, unpackBundle data = .ok bundle → packBundle bundle = .ok wire →
      unpackBundle wire = .ok received →
      verifyPublicBundle C received = verifyPublicBundle C bundle := by
  have hsame : ∀ bundle wire received, Carriable bundle → packBundle bundle = .ok wire →
      unpackBundle wire = .ok received → received = bundle := by
    intro bundle wire received hbundle hpack hunpack
    obtain ⟨wire', hpack', _, hunpack'⟩ := unpackBundle_packBundle bundle hbundle.publishable
    rw [hpack] at hpack'
    rw [← Except.ok.inj hpack', hunpack] at hunpack'
    exact Except.ok.inj hunpack'
  refine ⟨fun bundle h => unpackBundle_packBundle bundle h.publishable, ?_, ?_, ?_⟩
  · intro data bundle h
    have hfields := unpacked_of_unpackBundle h
    exact ⟨hfields.carriable, hfields.packBundle⟩
  · intro bundle wire received hbundle hpack hunpack
    rw [hsame bundle wire received hbundle hpack hunpack]
  · intro data bundle wire received h hpack hunpack
    rw [hsame bundle wire received (unpacked_of_unpackBundle h).carriable hpack hunpack]

end Codec

end Mesim.BundleCodec
