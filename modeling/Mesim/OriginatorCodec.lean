import Mesim.OriginatorSignatures

/-!
The three layouts of an announcement.
The wire has the hop count between the other fields, the signature covers these in another
order without it, and a forwarder packs the wire again around the signature it received.
So an announcement is signed whatever hop counts it is forwarded with, and packing what
was unpacked gives back the same 110 bytes.
-/
namespace Mesim.OriginatorCodec

open Octets Crypto Identity Packet Router RouterPackets OriginatorSignatures
open RouterNetwork RouteTables Honest

/-- `_repack_originator(...)` of unpacked fields with a hop count of the forwarder's. -/
def repacked (o : Originator) (hopCount : ℕ) : Except PyError Bytes :=
  repackOriginator o.oidBytes o.seqNum hopCount o.maxHops o.timestamp o.sig

/-- One forwarder after the other unpacks the announcement and packs it again. -/
def relay (data : Bytes) (hopCounts : List ℕ) : Except PyError Bytes :=
  hopCounts.foldlM (fun data hopCount => do
    let o ← unpackOriginator data
    repacked o hopCount) data

/-- The signature verifies over the string that the receiver puts together. -/
def Verifies (C : Suite) (key : Ed25519VerifyKey) (o : Originator) : Prop :=
  ∃ signed, originatorSignedBytes o.oidBytes o.seqNum o.maxHops o.timestamp = .ok signed ∧
    C.verifySignature signed o.sig key = .ok ()

section Fields

variable {o : Originator} {data : Bytes}

theorem originatorHeader_fits {oidBytes : Fixed 32} {seqNum hopCount maxHops : ℕ}
    {timestamp : Timestamp} (h : seqNum < 256 ^ 4 ∧ hopCount < 256 ∧ maxHops < 256) :
    originatorHeader oidBytes seqNum hopCount maxHops timestamp =
      .ok (originatorFields oidBytes seqNum hopCount maxHops timestamp) := if_pos h

/-- Fields that fit their width and a whole signature pack into what unpacks to them. -/
theorem repacked_fits {hopCount : ℕ} (hseq : o.seqNum < 256 ^ 4) (hmax : o.maxHops < 256)
    (hsig : o.sig.length = sigSize) (hhop : hopCount < 256) :
    ∃ data, repacked o hopCount = .ok data ∧
      unpackOriginator data = .ok { o with hopCount := hopCount } := by
  have hpacked : repacked o hopCount = .ok
      (originatorFields o.oidBytes o.seqNum hopCount o.maxHops o.timestamp ++ o.sig) := by
    rw [repacked, repackOriginator, originatorHeader_fits ⟨hseq, hhop, hmax⟩]
    rfl
  exact ⟨_, hpacked, unpackOriginator_repackOriginator _ _ _ _ _ _ _ hsig hpacked⟩

/-- Forwarding changes the hop count alone, however often. -/
theorem relay_unpacks (hunpack : unpackOriginator data = .ok o) {hopCounts : List ℕ}
    (hhops : ∀ hopCount ∈ hopCounts, hopCount < 256) :
    ∃ data', relay data hopCounts = .ok data' ∧
      unpackOriginator data' = .ok { o with hopCount := hopCounts.getLastD o.hopCount } := by
  induction hopCounts generalizing data o with
  | nil => exact ⟨data, rfl, hunpack⟩
  | cons hopCount rest ih =>
    obtain ⟨hseq, _, hmax⟩ := unpackOriginator_fits data o hunpack
    obtain ⟨next, hnext, hunpack'⟩ := repacked_fits hseq hmax (unpackOriginator_sig data o hunpack)
      (hhops hopCount List.mem_cons_self)
    obtain ⟨data', hdata', hfinal⟩ :=
      ih hunpack' fun h hmem => hhops h (List.mem_cons_of_mem _ hmem)
    refine ⟨data', ?_, ?_⟩
    · rw [relay, List.foldlM_cons, hunpack, ok_bind, hnext, ok_bind]
      exact hdata'
    · rw [hfinal, List.getLastD_cons]

theorem packBE_slice (b : Bytes) (start len : ℕ) (h : start + len ≤ b.length) :
    packBE len (unpackBE (slice b start len)) = slice b start len := by
  have hpack := packBE_unpackBE (slice b start len)
  rwa [slice_length b start len h] at hpack

/-- Packing what was unpacked gives back the bytes. -/
theorem repacked_unpacked (hunpack : unpackOriginator data = .ok o) :
    repacked o o.hopCount = .ok data := by
  have hfits := unpackOriginator_fits data o hunpack
  rw [repacked, repackOriginator, originatorHeader_fits hfits, ok_bind]
  rw [unpackOriginator] at hunpack
  split at hunpack
  · next hlen =>
    cases hunpack
    have hheader : originatorFields (bundleField data 0 32 (by rw [hlen]; decide))
        (unpackBE (slice data 32 4)) (unpackBE (slice data 36 1)) (unpackBE (slice data 37 1))
        ⟨bundleField data 38 8 (by rw [hlen]; decide)⟩ = slice data 0 46 := by
      rw [originatorFields, packBE_slice data 32 4 (by rw [hlen]; decide),
        packBE_slice data 36 1 (by rw [hlen]; decide),
        packBE_slice data 37 1 (by rw [hlen]; decide)]
      show slice data 0 32 ++ slice data 32 4 ++ slice data 36 1 ++ slice data 37 1 ++
        slice data 38 8 = slice data 0 46
      rw [slice_append_slice data 0 32 4, slice_append_slice data 0 36 1,
        slice_append_slice data 0 37 1, slice_append_slice data 0 38 8]
    rw [hheader]
    exact congrArg Except.ok (List.take_append_drop originatorSize data)
  · cases hunpack

end Fields

section Codec

variable {C : Suite} {pair : Ed25519KeyPair} {deviceId : String} {seqNum hopCount maxHops : ℕ}

/-- What is packed unpacks to the same fields, signed by the pair. -/
theorem packOriginator_unpacks (hsign : C.SignCorrect pair) (hdevice : UuidText deviceId)
    (hseq : seqNum < 2 ^ 32) (hhop : hopCount < 256) (hmax : maxHops < 256)
    (timestamp : Timestamp) : ∃ data oidBytes sig,
      packOriginator C deviceId seqNum hopCount maxHops timestamp pair.signingKey = .ok data ∧
      senderIdBytes deviceId = .ok oidBytes ∧
      unpackOriginator data = .ok ⟨oidBytes, seqNum, hopCount, maxHops, timestamp, sig⟩ ∧
      Verifies C pair.verifyKey ⟨oidBytes, seqNum, hopCount, maxHops, timestamp, sig⟩ := by
  obtain ⟨oidBytes, hoid, _⟩ := senderIdBytes_hex (hexId_of_uuidText hdevice)
  have hfits : seqNum < 256 ^ 4 ∧ hopCount < 256 ∧ maxHops < 256 := by omega
  have hsigned : originatorSignedBytes oidBytes seqNum maxHops timestamp =
      .ok (oidBytes.toList ++ packBE 4 seqNum ++ timestamp.raw.toList ++ packBE 1 maxHops) := by
    rw [originatorSignedBytes, if_pos hfits.1, if_pos hmax]
  obtain ⟨data, hdata⟩ : ∃ data,
      packOriginator C deviceId seqNum hopCount maxHops timestamp pair.signingKey = .ok data := by
    rw [packOriginator, hoid, ok_bind, originatorHeader_fits hfits, ok_bind, hsigned]
    exact ⟨_, rfl⟩
  obtain ⟨signed, hsigned', hunpack⟩ := unpackOriginator_packSigned C deviceId oidBytes seqNum
    hopCount maxHops timestamp pair.signingKey data hoid hdata
  exact ⟨data, oidBytes, _, hdata, hoid, hunpack, signed, hsigned',
    C.verify_sign pair hsign signed⟩

/-- An announcement of a device unpacks to the bytes of its id and to what was packed, with a
signature that verifies here and after any number of forwarders. Packing is the inverse of
unpacking, and only strings of 110 bytes are unpacked. -/
theorem originator_codec (C : Suite) (pair : Ed25519KeyPair) (hsign : C.SignCorrect pair) :
    (∀ deviceId seqNum hopCount maxHops timestamp, UuidText deviceId → seqNum < 2 ^ 32 →
      hopCount < 256 → maxHops < 256 → ∃ data oidBytes sig,
        packOriginator C deviceId seqNum hopCount maxHops timestamp pair.signingKey = .ok data ∧
        senderIdBytes deviceId = .ok oidBytes ∧
        unpackOriginator data = .ok ⟨oidBytes, seqNum, hopCount, maxHops, timestamp, sig⟩ ∧
        Verifies C pair.verifyKey ⟨oidBytes, seqNum, hopCount, maxHops, timestamp, sig⟩ ∧
        ∀ hopCounts : List ℕ, (∀ forwarded ∈ hopCounts, forwarded < 256) →
          ∃ data' o, relay data hopCounts = .ok data' ∧ unpackOriginator data' = .ok o ∧
            o = ⟨oidBytes, seqNum, hopCounts.getLastD hopCount, maxHops, timestamp, sig⟩ ∧
            Verifies C pair.verifyKey o) ∧
    (∀ data : Bytes, data.length = 110 →
      ∃ o, unpackOriginator data = .ok o ∧ repacked o o.hopCount = .ok data) ∧
    ∀ data : Bytes, data.length ≠ 110 →
      ∃ msg, unpackOriginator data = .error (.valueError msg) := by
  refine ⟨?_, fun data hlen => ?_, fun data hlen => ?_⟩
  · intro deviceId seqNum hopCount maxHops timestamp hdevice hseq hhop hmax
    obtain ⟨data, oidBytes, sig, hdata, hoid, hunpack, hverifies⟩ :=
      packOriginator_unpacks hsign hdevice hseq hhop hmax timestamp
    refine ⟨data, oidBytes, sig, hdata, hoid, hunpack, hverifies, fun hopCounts hhops => ?_⟩
    obtain ⟨data', hrelay, hunpack'⟩ := relay_unpacks hunpack hhops
    exact ⟨data', _, hrelay, hunpack', rfl, hverifies⟩
  · obtain ⟨o, hunpack⟩ : ∃ o, unpackOriginator data = .ok o := ⟨_, dif_pos hlen⟩
    exact ⟨o, hunpack, repacked_unpacked hunpack⟩
  · exact ⟨_, dif_neg hlen⟩

/-- An announcement that was forwarded once. -/
theorem originator_codec_forwarded : ∃ data o,
    packOriginator stub (duo.identity false).deviceId 1 0 7 epoch ⟨List.Vector.replicate 32 1⟩ =
      .ok data ∧
    (relay data [1] >>= unpackOriginator) = .ok o ∧ o.hopCount = 1 ∧
    Verifies stub ⟨List.Vector.replicate 32 1⟩ o := by
  obtain ⟨data, oidBytes, sig, hdata, _, _, _, hrelay⟩ :=
    (originator_codec stub _ (stub_signCorrect (List.Vector.replicate 32 1))).1
      (duo.identity false).deviceId 1 0 7 epoch (uuidText_duo false) (by decide) (by decide)
      (by decide)
  obtain ⟨data', o, hdata', hunpack, ho, hverifies⟩ := hrelay [1] (by decide)
  refine ⟨data, o, hdata, ?_, by rw [ho]; rfl, hverifies⟩
  rw [hdata', ok_bind, hunpack]

end Codec

end Mesim.OriginatorCodec
