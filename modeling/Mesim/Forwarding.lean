import Mesim.OriginatorSignatures

/-!
An announcement on its way through routers.
A router that has a bundle filed under the originator's digits passes the
signature on; one that has none signs the announcement anew with its own key.
Everything but the hop count and the signature survives every hop, and the
signature survives a chain when no router of it signs anew.
-/
namespace Mesim.Forwarding

open Octets TextCodec Crypto Identity Packet Transport Router RouterPackets RouterNetwork
open OriginatorSignatures Honest RouteTables MeshTransport RouterOutcome

section Ids

theorem encodeAscii_eq_some (text : String) (b : Bytes) (h : encodeAscii text = some b) :
    IsAscii text ∧ b = text.toList.map (fun c => UInt8.ofNat c.toNat) := by
  unfold encodeAscii at h
  split at h
  · exact ⟨‹_›, (Option.some.inj h).symm⟩
  · contradiction

/-- A sender id is the ASCII text of 32 characters other than the dash. -/
theorem senderIdBytes_chars (deviceId : String) (oidBytes : Fixed 32)
    (h : senderIdBytes deviceId = .ok oidBytes) :
    ∃ chars : List Char, (∀ c ∈ chars, c.toNat < 128 ∧ c ≠ '-') ∧
      oidBytes.toList = chars.map (fun c => UInt8.ofNat c.toNat) := by
  unfold senderIdBytes at h
  dsimp only at h
  split at h
  · rename_i b hencode
    cases h
    obtain ⟨hascii, hb⟩ := encodeAscii_eq_some _ b hencode
    rw [IsAscii, String.toList_ofList] at hascii
    rw [String.toList_ofList] at hb
    let digits := (deviceId.toList.filter (· ≠ '-')).take 32
    refine ⟨digits ++ List.replicate (32 - digits.length) '0', fun c hc => ?_, ?_⟩
    · rcases List.mem_append.mp hc with hc | hc
      · refine ⟨hascii c hc, ?_⟩
        simpa using (List.mem_filter.mp (List.mem_of_mem_take hc)).2
      · rw [List.eq_of_mem_replicate hc]
        decide
    · show ljust b 32 48 = _
      rw [List.map_append, List.map_replicate, ljust, hb, List.length_map]
      rfl
  · cases h

/-- Decoding a sender id and encoding it again gives it back. -/
theorem senderIdBytes_decode (deviceId : String) (oidBytes : Fixed 32)
    (h : senderIdBytes deviceId = .ok oidBytes) :
    senderIdBytes (decodeAsciiReplace oidBytes.toList) = .ok oidBytes := by
  obtain ⟨chars, hchars, hbytes⟩ := senderIdBytes_chars deviceId oidBytes h
  have hlen : chars.length = 32 := by
    have hlen := congrArg List.length hbytes
    rwa [List.length_map, List.Vector.toList_length, eq_comm] at hlen
  have hdecode : decodeAsciiReplace oidBytes.toList = String.ofList chars := by
    rw [decodeAsciiReplace, hbytes, List.map_map]
    conv => rhs; rw [← List.map_id chars]
    refine congrArg String.ofList (List.map_congr_left fun c hc => ?_)
    have hlow := (hchars c hc).1
    have hbyte : (UInt8.ofNat c.toNat).toNat < 128 := by
      rw [UInt8.toNat_ofNat', Nat.mod_eq_of_lt (by omega)]
      exact hlow
    exact (if_pos hbyte).trans (ascii_byte_roundtrip c hlow)
  have htrimmed : ((String.ofList chars).toList.filter (· ≠ '-')).take 32 = chars := by
    rw [String.toList_ofList, List.filter_eq_self.mpr fun c hc => decide_eq_true (hchars c hc).2,
      List.take_of_length_le (Nat.le_of_eq hlen)]
  have hencode : encodeAscii (String.ofList (((String.ofList chars).toList.filter
      (· ≠ '-')).take 32)) = some (chars.map (fun c => UInt8.ofNat c.toNat)) := by
    rw [htrimmed, encodeAscii, String.toList_ofList, if_pos]
    intro c hc
    rw [String.toList_ofList] at hc
    exact (hchars c hc).1
  rw [hdecode]
  unfold senderIdBytes
  dsimp only
  split
  · rename_i b hb
    have heq : some b = some _ := hb.symm.trans hencode
    cases heq
    refine congrArg Except.ok (Subtype.ext ?_)
    exact (ljust_eq_self _ _ _ (by rw [List.length_map, hlen])).trans hbytes.symm
  · rename_i hnone
    exact absurd (hencode.symm.trans hnone) (Option.some_ne_none _)

end Ids

variable (C : Suite)

/-- A router at the moment an announcement reaches it. -/
structure Hop where
  router : MeshRouter
  transport : MeshTransport
  fromAddr : Addr
  senderId : Bytes

/-- The router emits this announcement on receiving that one. -/
def Forwards (hop : Hop) (payload data : Bytes) : Prop :=
  ∃ dest, .sendto (frame .originator hop.transport.senderId data zeroMac) dest ∈
    (handleOriginator C hop.router hop.transport payload hop.fromAddr hop.senderId).effects

/-- Each router forwards what the one before it has emitted. -/
inductive Chain : Bytes → List (Hop × Bytes) → Prop
  | nil (payload : Bytes) : Chain payload []
  | cons (payload : Bytes) (hop : Hop) (data : Bytes) (rest : List (Hop × Bytes))
      (hforwards : Forwards C hop payload data) (hrest : Chain data rest) :
      Chain payload ((hop, data) :: rest)

/-- A bundle is filed under the originator's digits, or the router's own signature over
the announcement is the one it already has. -/
def Keeps (o : Originator) (hop : Hop) : Prop :=
  (hop.router.knownBundles.get? (decodeAsciiReplace o.oidBytes.toList)).isSome ∨
    (C.signMessage (signedBytes o) hop.router.identity.signingKeypair.signingKey).toList = o.sig

section Relay

/-- The announcement as this router passes it on. -/
def relayed (r : MeshRouter) (o : Originator) : Originator :=
  { o with
    hopCount := o.hopCount + 1
    sig := match r.knownBundles.get? (decodeAsciiReplace o.oidBytes.toList) with
      | some _ => o.sig
      | none => (C.signMessage (signedBytes o) r.identity.signingKeypair.signingKey).toList }

theorem unpack_forwardData (r : MeshRouter) (payload data : Bytes) (o : Originator)
    (deviceId : String) (hunpack : unpackOriginator payload = .ok o)
    (hoid : senderIdBytes deviceId = .ok o.oidBytes) (h : forwardData C r o = .ok data) :
    unpackOriginator data = .ok (relayed C r o) := by
  unfold forwardData at h
  split at h
  · rename_i hnone
    obtain ⟨signed, hsigned, hdata⟩ := unpackOriginator_packSigned C _ _ _ _ _ _ _ _
      (senderIdBytes_decode deviceId o.oidBytes hoid) h
    rw [originatorSignedBytes_unpacked payload o hunpack] at hsigned
    cases hsigned
    rw [hdata, relayed, hnone]
  · rename_i bundle hsome
    rw [unpackOriginator_repackOriginator _ _ _ _ _ _ _ (unpackOriginator_sig payload o hunpack) h,
      relayed, hsome]

theorem frame_injective (senderId : Fixed 32) (data data' : Bytes) (hlen : data.length < 65536)
    (h : frame .originator senderId data zeroMac = frame .originator senderId data' zeroMac) :
    data = data' := by
  have hsize := congrArg List.length h
  rw [frame_length .originator senderId data zeroMac List.length_replicate,
    frame_length .originator senderId data' zeroMac List.length_replicate] at hsize
  have hparse := parsePacket_unkeyed .originator senderId data hlen
  rw [h, parsePacket_unkeyed .originator senderId data' (by omega)] at hparse
  exact (congrArg ParsedPacket.payload (Except.ok.inj hparse)).symm

/-- What a router emits is the announcement as it passes it on. -/
theorem unpack_forwards (hop : Hop) (payload data : Bytes) (o : Originator) (deviceId : String)
    (hunpack : unpackOriginator payload = .ok o) (hoid : senderIdBytes deviceId = .ok o.oidBytes)
    (h : Forwards C hop payload data) : unpackOriginator data = .ok (relayed C hop.router o) := by
  obtain ⟨dest, hsent⟩ := h
  have hhandled := handleOriginator_handled C hop.router hop.transport payload hop.fromAddr
    hop.senderId
  generalize handleOriginator C hop.router hop.transport payload hop.fromAddr hop.senderId = out
    at hhandled hsent
  cases hhandled with
  | dropped e => exact (List.not_mem_nil hsent).elim
  | unroutable o' e _ _ => exact (List.not_mem_nil hsent).elim
  | routed o' nextHopId out hunpack' _ _ _ hstate heffects =>
    cases Except.ok.inj (hunpack.symm.trans hunpack')
    rcases heffects with hnone | ⟨data', _, hdata, hsends⟩
    · rw [hnone] at hsent
      exact (List.not_mem_nil hsent).elim
    · obtain ⟨session, _, hlen, heq⟩ := hsends _ hsent
      have hsame : forwardData C out.state o = forwardData C hop.router o := by
        rw [hstate]
        unfold MeshRouter.updateRoute
        dsimp only
        repeat' split
        all_goals rfl
      rw [hsame] at hdata
      have hframe : frame .originator hop.transport.senderId data' zeroMac =
          frame .originator hop.transport.senderId data zeroMac := (Effect.sendto.inj heq).1.symm
      rw [← frame_injective _ _ _ hlen hframe]
      exact unpack_forwardData C hop.router payload data' o deviceId hunpack hoid hdata

theorem relayed_eq_iff (hop : Hop) (o : Originator) :
    relayed C hop.router o = { o with hopCount := o.hopCount + 1 } ↔ Keeps C o hop := by
  unfold relayed Keeps
  cases hop.router.knownBundles.get? (decodeAsciiReplace o.oidBytes.toList) with
  | some bundle => exact iff_of_true rfl (Or.inl rfl)
  | none =>
    constructor
    · intro heq
      exact Or.inr (congrArg Originator.sig heq)
    · rintro (hsome | hsig)
      · contradiction
      · rw [hsig]

end Relay

section Chains

/-- Along every chain of routers, the announcement a router emits is the originator's, hop
count apart, with a signature that verifies under its key, exactly when no router of the
chain signs anew. -/
theorem announcement_preserved_iff (D : DeviceIdentity) (payload : Bytes) (o : Originator)
    (hunpack : unpackOriginator payload = .ok o) (hoid : senderIdBytes D.deviceId = .ok o.oidBytes)
    (hvalid : C.verifySignature (signedBytes o) o.sig D.signingKeypair.verifyKey = .ok ())
    (chain : List (Hop × Bytes)) (hchain : Chain C payload chain) :
    (∀ i hop data, chain[i]? = some (hop, data) → ∃ o', unpackOriginator data = .ok o' ∧
      o' = { o with hopCount := o.hopCount + (i + 1) } ∧
      C.verifySignature (signedBytes o') o'.sig D.signingKeypair.verifyKey = .ok ()) ↔
      ∀ step ∈ chain, Keeps C o step.1 := by
  induction hchain generalizing o with
  | nil payload => simp
  | cons payload hop data rest hforwards hrest ih =>
    have hdata := unpack_forwards C hop payload data o D.deviceId hunpack hoid hforwards
    have hkeeps := relayed_eq_iff C hop o
    let next : Originator := { o with hopCount := o.hopCount + 1 }
    have hhops : ∀ i, { next with hopCount := next.hopCount + (i + 1) } =
        { o with hopCount := o.hopCount + (i + 1 + 1) } := fun i =>
      congrArg (fun hops => { o with hopCount := hops })
        (show o.hopCount + 1 + (i + 1) = o.hopCount + (i + 1 + 1) by omega)
    constructor
    · intro hall
      obtain ⟨o', hfirst, heq, _⟩ := hall 0 hop data rfl
      rw [hdata] at hfirst
      have hsame : relayed C hop.router o = next := (Except.ok.inj hfirst).trans heq
      have hrest' := (ih next (hdata.trans (congrArg Except.ok hsame)) hoid hvalid).mp (by
        intro i hop' data' hget
        obtain ⟨o'', hunpack'', heq'', hvalid''⟩ := hall (i + 1) hop' data' hget
        exact ⟨o'', hunpack'', heq''.trans (hhops i).symm, hvalid''⟩)
      intro step hstep
      rcases List.mem_cons.mp hstep with rfl | hstep
      · exact hkeeps.mp hsame
      · exact hrest' step hstep
    · intro hall i hop' data' hget
      have hsame := hkeeps.mpr (hall (hop, data) List.mem_cons_self)
      have hnext : unpackOriginator data = .ok next := hdata.trans (congrArg Except.ok hsame)
      cases i with
      | zero =>
        cases hget
        exact ⟨next, hnext, rfl, hvalid⟩
      | succ i =>
        obtain ⟨o'', hunpack'', heq'', hvalid''⟩ := (ih next hnext hoid hvalid).mpr
          (fun step hstep => hall step (List.mem_cons_of_mem _ hstep)) i hop' data' hget
        exact ⟨o'', hunpack'', heq''.trans (hhops i), hvalid''⟩

end Chains

section Stub

/-- The second router's transport, with a session to a third node. -/
def relayTransport : MeshTransport :=
  { duoTransport true with
    sessions := (duoTransport true).sessions.set "charlie"
      ⟨"charlie", ("10.0.0.3", 7000), sharedKey, getPublicBundle stub charlie, 0, 0, 0, 0⟩ }

/-- The first router's first announcement. -/
def announcement : Originator :=
  ⟨duo.senderId false, 1, 0, defaultMaxHops, epoch,
    (stub.signMessage ((duo.senderId false).toList ++ packBE 4 1 ++ epoch.raw.toList ++
      packBE 1 defaultMaxHops) (duo.identity false).signingKeypair.signingKey).toList⟩

def announcementBytes (hopCount : ℕ) (sig : Bytes) : Bytes :=
  originatorFields (duo.senderId false) 1 hopCount defaultMaxHops epoch ++ sig

theorem unpack_announcement :
    unpackOriginator (announcementBytes 0 announcement.sig) = .ok announcement :=
  unpackOriginator_fields (duo.senderId false) 1 0 defaultMaxHops epoch _ (by decide)
    (List.Vector.toList_length _)

theorem announcement_valid : stub.verifySignature (signedBytes announcement) announcement.sig
    (duo.identity false).signingKeypair.verifyKey = .ok () :=
  stub.verify_sign (duo.identity false).signingKeypair (stub_signCorrect _) _

/-- The second router where the announcement reaches it. -/
def relayHop (r : MeshRouter) : Hop := ⟨r, relayTransport, alphaAddr, (duo.senderId false).toList⟩

def knowing : MeshRouter :=
  (MeshRouter.init (duo.identity true) defaultMaxHops).registerBundle (duo.id false)
    (getPublicBundle stub (duo.identity false))

def unknowing : MeshRouter := MeshRouter.init (duo.identity true) defaultMaxHops

theorem knowing_forwards : Forwards stub (relayHop knowing) (announcementBytes 0 announcement.sig)
    (announcementBytes 1 announcement.sig) :=
  ⟨("10.0.0.3", 7000), by decide +kernel⟩

theorem unknowing_forwards : Forwards stub (relayHop unknowing)
    (announcementBytes 0 announcement.sig) (announcementBytes 1
      (stub.signMessage (signedBytes announcement)
        (duo.identity true).signingKeypair.signingKey).toList) :=
  ⟨("10.0.0.3", 7000), by decide +kernel⟩

theorem announcement_preserved_iff_knowing :
    (∀ i hop data, [(relayHop knowing, announcementBytes 1 announcement.sig)][i]? = some (hop, data) →
      ∃ o', unpackOriginator data = .ok o' ∧
        o' = { announcement with hopCount := announcement.hopCount + (i + 1) } ∧
        stub.verifySignature (signedBytes o') o'.sig (duo.identity false).signingKeypair.verifyKey =
          .ok ()) ↔
      ∀ step ∈ [(relayHop knowing, announcementBytes 1 announcement.sig)],
        Keeps stub announcement step.1 :=
  announcement_preserved_iff stub (duo.identity false) (announcementBytes 0 announcement.sig)
    announcement unpack_announcement (duo.senderIdBytes_deviceId false) announcement_valid _
    (.cons _ _ _ _ knowing_forwards (.nil _))

/-- A router without the bundle puts its own signature in place of the originator's. -/
theorem unknown_originator_resigned : ¬ ∀ (D : DeviceIdentity) (payload : Bytes) (o : Originator),
    unpackOriginator payload = .ok o → senderIdBytes D.deviceId = .ok o.oidBytes →
    stub.verifySignature (signedBytes o) o.sig D.signingKeypair.verifyKey = .ok () →
    ∀ chain : List (Hop × Bytes), Chain stub payload chain →
    ∀ i hop data, chain[i]? = some (hop, data) → ∃ o', unpackOriginator data = .ok o' ∧
      o' = { o with hopCount := o.hopCount + (i + 1) } ∧
      stub.verifySignature (signedBytes o') o'.sig D.signingKeypair.verifyKey = .ok () := by
  intro hclaim
  obtain ⟨o', hunpack, heq, _⟩ := hclaim (duo.identity false) _ announcement unpack_announcement
    (duo.senderIdBytes_deviceId false) announcement_valid _
    (.cons _ _ _ _ unknowing_forwards (.nil _)) 0 _ _ rfl
  have hunpack' := unpackOriginator_fields (duo.senderId false) 1 1 defaultMaxHops epoch
    (stub.signMessage (signedBytes announcement)
      (duo.identity true).signingKeypair.signingKey).toList (by decide) (List.Vector.toList_length _)
  have hsig := congrArg Originator.sig ((Except.ok.inj (hunpack'.symm.trans hunpack)).trans heq)
  revert hsig
  decide +kernel

end Stub

end Mesim.Forwarding
