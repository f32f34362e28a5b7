import Mesim.Honest
import Mesim.Router

/-!
ORIGINATOR packets between two nodes.
A router frames its announcements itself and leaves their MAC zero. What it
sends parses back to the fields it put in, so the parser never rejects it. The
receiving transport checks the MAC of every data packet from an address that is
bound to a non-empty peer id, and so never shows the packet to the router there.
-/
namespace Mesim.RouterPackets

open Octets TextCodec Crypto Identity Packet Transport Router Nodes Honest
open MeshTransport RouterOutcome

section Wire

/-- The fields of an ORIGINATOR payload one after the other. -/
def originatorFields (oidBytes : Fixed 32) (seqNum hopCount maxHops : ℕ) (timestamp : Timestamp) :
    Bytes :=
  oidBytes.toList ++ packBE 4 seqNum ++ packBE 1 hopCount ++ packBE 1 maxHops ++
    timestamp.raw.toList

theorem originatorFields_length (oidBytes : Fixed 32) (seqNum hopCount maxHops : ℕ)
    (timestamp : Timestamp) :
    (originatorFields oidBytes seqNum hopCount maxHops timestamp).length = originatorSize := by
  simp only [originatorFields, List.length_append, List.Vector.toList_length, packBE_length]

theorem originatorHeader_eq (oidBytes : Fixed 32) (seqNum hopCount maxHops : ℕ)
    (timestamp : Timestamp) (header : Bytes)
    (h : originatorHeader oidBytes seqNum hopCount maxHops timestamp = .ok header) :
    (seqNum < 256 ^ 4 ∧ hopCount < 256 ∧ maxHops < 256) ∧
      header = originatorFields oidBytes seqNum hopCount maxHops timestamp := by
  unfold originatorHeader at h
  split at h
  · rename_i hfits
    exact ⟨hfits, (Except.ok.inj h).symm⟩
  · contradiction

/-- Unpacking gives back the packed fields and the signature behind them. -/
theorem unpackOriginator_fields (oidBytes : Fixed 32) (seqNum hopCount maxHops : ℕ)
    (timestamp : Timestamp) (sig : Bytes)
    (hfits : seqNum < 256 ^ 4 ∧ hopCount < 256 ∧ maxHops < 256) (hsig : sig.length = sigSize) :
    unpackOriginator (originatorFields oidBytes seqNum hopCount maxHops timestamp ++ sig) =
      .ok ⟨oidBytes, seqNum, hopCount, maxHops, timestamp, sig⟩ := by
  let data := originatorFields oidBytes seqNum hopCount maxHops timestamp ++ sig
  have hlen : data.length = originatorWireLen := by
    rw [List.length_append, originatorFields_length, hsig]
  have hoid : slice data 0 32 = oidBytes.toList := by
    simp only [data, originatorFields, List.append_assoc]
    exact slice_append_left _ _ _ oidBytes.toList_length
  have hseq : slice data 32 4 = packBE 4 seqNum := by
    simp only [data, originatorFields, List.append_assoc]
    exact slice_piece _ _ _ _ _ oidBytes.toList_length (packBE_length 4 _)
  have hhop : slice data 36 1 = packBE 1 hopCount := by
    have hpre : (oidBytes.toList ++ packBE 4 seqNum).length = 36 := by
      rw [List.length_append, List.Vector.toList_length, packBE_length]
    simpa only [data, originatorFields, List.append_assoc] using
      slice_piece _ (packBE 1 hopCount) (packBE 1 maxHops ++ (timestamp.raw.toList ++ sig)) _ _ hpre
        (packBE_length 1 _)
  have hmax : slice data 37 1 = packBE 1 maxHops := by
    have hpre : (oidBytes.toList ++ packBE 4 seqNum ++ packBE 1 hopCount).length = 37 := by
      simp only [List.length_append, List.Vector.toList_length, packBE_length]
    simpa only [data, originatorFields, List.append_assoc] using
      slice_piece _ (packBE 1 maxHops) (timestamp.raw.toList ++ sig) _ _ hpre (packBE_length 1 _)
  have htime : slice data 38 8 = timestamp.raw.toList := by
    have hpre : (oidBytes.toList ++ packBE 4 seqNum ++ packBE 1 hopCount ++
        packBE 1 maxHops).length = 38 := by
      simp only [List.length_append, List.Vector.toList_length, packBE_length]
    simpa only [data, originatorFields, List.append_assoc] using
      slice_piece _ timestamp.raw.toList sig _ _ hpre timestamp.raw.toList_length
  have hrest : data.drop originatorSize = sig :=
    List.drop_left' (originatorFields_length oidBytes seqNum hopCount maxHops timestamp)
  show unpackOriginator data = _
  simp only [unpackOriginator, hlen, dite_true, bundleField, hoid, hseq, hhop, hmax, htime, hrest,
    unpackBE_packBE 4 seqNum hfits.1, unpackBE_packBE 1 hopCount (by omega),
    unpackBE_packBE 1 maxHops (by omega)]
  rfl

theorem unpackOriginator_sig (data : Bytes) (o : Originator) (h : unpackOriginator data = .ok o) :
    o.sig.length = sigSize := by
  unfold unpackOriginator at h
  split at h
  · rename_i hlen
    cases h
    rw [List.length_drop, hlen]
    rfl
  · contradiction

theorem unpackOriginator_fits (data : Bytes) (o : Originator) (h : unpackOriginator data = .ok o) :
    o.seqNum < 256 ^ 4 ∧ o.hopCount < 256 ∧ o.maxHops < 256 := by
  unfold unpackOriginator at h
  split at h
  · rename_i hlen
    have hfield : ∀ start len, start + len ≤ 110 → unpackBE (slice data start len) < 256 ^ len := by
      intro start len hle
      have hlt := unpackBE_lt (slice data start len)
      rwa [slice_length data start len (by rw [hlen]; exact hle)] at hlt
    cases h
    exact ⟨hfield 32 4 (by decide), hfield 36 1 (by decide), hfield 37 1 (by decide)⟩
  · contradiction

variable (C : Suite)

/-- A packed announcement unpacks to its fields, signed with the key it was packed with. -/
theorem unpackOriginator_packSigned (originatorId : String) (oidBytes : Fixed 32)
    (seqNum hopCount maxHops : ℕ) (timestamp : Timestamp) (key : Ed25519SigningKey) (data : Bytes)
    (hoid : senderIdBytes originatorId = .ok oidBytes)
    (h : packOriginator C originatorId seqNum hopCount maxHops timestamp key = .ok data) :
    ∃ signed, originatorSignedBytes oidBytes seqNum maxHops timestamp = .ok signed ∧
      unpackOriginator data = .ok ⟨oidBytes, seqNum, hopCount, maxHops, timestamp,
        (C.signMessage signed key).toList⟩ := by
  rw [packOriginator] at h
  obtain ⟨oidBytes', hoid', h⟩ := bind_ok_iff.mp h
  cases Except.ok.inj (hoid.symm.trans hoid')
  obtain ⟨header, hheader, h⟩ := bind_ok_iff.mp h
  obtain ⟨signed, hsigned, h⟩ := bind_ok_iff.mp h
  obtain ⟨hfits, rfl⟩ := originatorHeader_eq _ _ _ _ _ _ hheader
  cases h
  exact ⟨signed, hsigned, unpackOriginator_fields _ _ _ _ _ _ hfits (List.Vector.toList_length _)⟩

theorem unpackOriginator_packOriginator (originatorId : String) (oidBytes : Fixed 32)
    (seqNum hopCount maxHops : ℕ) (timestamp : Timestamp) (key : Ed25519SigningKey) (data : Bytes)
    (hoid : senderIdBytes originatorId = .ok oidBytes)
    (h : packOriginator C originatorId seqNum hopCount maxHops timestamp key = .ok data) :
    ∃ sig, unpackOriginator data = .ok ⟨oidBytes, seqNum, hopCount, maxHops, timestamp, sig⟩ := by
  obtain ⟨signed, _, hunpack⟩ := unpackOriginator_packSigned C originatorId oidBytes seqNum hopCount
    maxHops timestamp key data hoid h
  exact ⟨_, hunpack⟩

theorem unpackOriginator_repackOriginator (oidBytes : Fixed 32) (seqNum hopCount maxHops : ℕ)
    (timestamp : Timestamp) (sig data : Bytes) (hsig : sig.length = sigSize)
    (h : repackOriginator oidBytes seqNum hopCount maxHops timestamp sig = .ok data) :
    unpackOriginator data = .ok ⟨oidBytes, seqNum, hopCount, maxHops, timestamp, sig⟩ := by
  rw [repackOriginator] at h
  obtain ⟨header, hheader, h⟩ := bind_ok_iff.mp h
  obtain ⟨hfits, rfl⟩ := originatorHeader_eq _ _ _ _ _ _ hheader
  cases h
  exact unpackOriginator_fields _ _ _ _ _ _ hfits hsig

theorem packOriginator_length (originatorId : String) (seqNum hopCount maxHops : ℕ)
    (timestamp : Timestamp) (key : Ed25519SigningKey) (data : Bytes)
    (h : packOriginator C originatorId seqNum hopCount maxHops timestamp key = .ok data) :
    data.length = originatorWireLen := by
  rw [packOriginator] at h
  obtain ⟨oidBytes, _, h⟩ := bind_ok_iff.mp h
  obtain ⟨header, hheader, h⟩ := bind_ok_iff.mp h
  obtain ⟨signed, _, h⟩ := bind_ok_iff.mp h
  obtain ⟨_, rfl⟩ := originatorHeader_eq _ _ _ _ _ _ hheader
  cases h
  rw [List.length_append, originatorFields_length, List.Vector.toList_length]

theorem repackOriginator_length (oidBytes : Fixed 32) (seqNum hopCount maxHops : ℕ)
    (timestamp : Timestamp) (sig data : Bytes) (hsig : sig.length = sigSize)
    (h : repackOriginator oidBytes seqNum hopCount maxHops timestamp sig = .ok data) :
    data.length = originatorWireLen := by
  rw [repackOriginator] at h
  obtain ⟨header, hheader, h⟩ := bind_ok_iff.mp h
  obtain ⟨_, rfl⟩ := originatorHeader_eq _ _ _ _ _ _ hheader
  cases h
  rw [List.length_append, originatorFields_length, hsig]

/-- What is forwarded is as long as what was received. -/
theorem forwardData_length (r : MeshRouter) (payload : Bytes) (o : Originator) (data : Bytes)
    (hunpack : unpackOriginator payload = .ok o) (h : forwardData C r o = .ok data) :
    data.length = originatorWireLen := by
  unfold forwardData at h
  split at h
  · exact packOriginator_length C _ _ _ _ _ _ data h
  · exact repackOriginator_length _ _ _ _ _ _ data (unpackOriginator_sig payload o hunpack) h

theorem originatorPacket_eq (t : MeshTransport) (data pkt : Bytes)
    (h : originatorPacket t data = .ok pkt) :
    data.length < 65536 ∧ pkt = frame .originator t.senderId data zeroMac := by
  rw [originatorPacket] at h
  obtain ⟨header, hheader, h⟩ := bind_ok_iff.mp h
  by_cases hlen : data.length < 65536
  · rw [packHeader_ok .originator t.senderId _ hlen] at hheader
    cases hheader
    cases h
    exact ⟨hlen, rfl⟩
  · rw [packHeader_error .originator t.senderId _ hlen] at hheader
    contradiction

end Wire

section Emissions

variable (C : Suite)

/-- The two ways a router comes to send: its own announcement, or one it has received. -/
inductive Emission where
  | broadcast (timestamp : Timestamp)
  | forward (payload : Bytes) (fromAddr : Addr) (senderId : Bytes)

def Emission.run (r : MeshRouter) (t : MeshTransport) : Emission → RouterOutcome
  | .broadcast timestamp => broadcastOriginator C r t timestamp
  | .forward payload fromAddr senderId => handleOriginator C r t payload fromAddr senderId

/-- Everything the router sends in one step is one packet, to addresses of its sessions. -/
def SendsOnly (t : MeshTransport) (data : Bytes) (out : RouterOutcome) : Prop :=
  ∀ e ∈ out.effects, ∃ session ∈ t.sessions.values, data.length < 65536 ∧
    e = .sendto (frame .originator t.senderId data zeroMac) session.peerAddr

theorem sendsOnly_broadcast (r : MeshRouter) (t : MeshTransport) (timestamp : Timestamp)
    (out : RouterOutcome) (hout : broadcastOriginator C r t timestamp = out) :
    out.state = { r with seqNum := r.seqNum + 1 } ∧ (out.effects = [] ∨
      ∃ data, packOriginator C r.identity.deviceId (r.seqNum + 1) 0 r.maxHops timestamp
        r.identity.signingKeypair.signingKey = .ok data ∧ SendsOnly t data out) := by
  subst out
  unfold broadcastOriginator attempt
  cases hdata : packOriginator C r.identity.deviceId (r.seqNum + 1) 0 r.maxHops timestamp
      r.identity.signingKeypair.signingKey with
  | error e => exact ⟨by simp only [hdata], Or.inl (by simp only [hdata])⟩
  | ok data =>
    cases hpkt : originatorPacket t data with
    | error e => exact ⟨by simp only [hdata, hpkt], Or.inl (by simp only [hdata, hpkt])⟩
    | ok pkt =>
      refine ⟨by simp only [hdata, hpkt], Or.inr ⟨data, rfl, ?_⟩⟩
      obtain ⟨hlen, rfl⟩ := originatorPacket_eq t data pkt hpkt
      simp only [hdata, hpkt]
      intro e he
      obtain ⟨session, hsession, hsend⟩ := List.mem_flatMap.mp he
      exact ⟨session, hsession, hlen, Dispatch.mem_sendRaw _ _ _ _ hsend⟩

theorem sendsOnly_forward (r : MeshRouter) (t : MeshTransport) (o : Originator) (fromAddr : Addr)
    (out : RouterOutcome) (hout : forwardOriginator C r t o fromAddr = out) :
    out.state = r ∧ (out.effects = [] ∨ ∃ data, o.hopCount < o.maxHops ∧
      forwardData C r o = .ok data ∧ SendsOnly t data out) := by
  subst out
  unfold forwardOriginator attempt
  by_cases hbudget : o.hopCount ≥ o.maxHops
  · rw [if_pos hbudget]
    exact ⟨rfl, Or.inl rfl⟩
  · rw [if_neg hbudget]
    cases hdata : forwardData C r o with
    | error e => exact ⟨rfl, Or.inl rfl⟩
    | ok data =>
      dsimp only
      cases hpkt : originatorPacket t data with
      | error e => exact ⟨rfl, Or.inl rfl⟩
      | ok pkt =>
        refine ⟨rfl, Or.inr ⟨data, by omega, rfl, ?_⟩⟩
        obtain ⟨hlen, rfl⟩ := originatorPacket_eq t data pkt hpkt
        intro e he
        obtain ⟨session, hsession, hsend⟩ := List.mem_flatMap.mp he
        split at hsend
        · exact ⟨session, hsession, hlen, Dispatch.mem_sendRaw _ _ _ _ hsend⟩
        · simp at hsend

/-- The three outcomes of a received ORIGINATOR: dropped, seen but not routable, or
routed and, within the hop budget, forwarded. -/
inductive Handled (r : MeshRouter) (t : MeshTransport) (payload : Bytes) (fromAddr : Addr)
    (senderId : Bytes) : RouterOutcome → Prop
  | dropped (e : Option PyError) : Handled r t payload fromAddr senderId ⟨r, [], e⟩
  | unroutable (o : Originator) (e : PyError) (hunpack : unpackOriginator payload = .ok o)
      (hsender : deviceIdFromBytes senderId = .error e) :
      Handled r t payload fromAddr senderId
        ⟨{ r with seenSeq := r.seenSeq.set (decodeAsciiReplace o.oidBytes.toList) o.seqNum }, [],
          some e⟩
  | routed (o : Originator) (nextHopId : String) (out : RouterOutcome)
      (hunpack : unpackOriginator payload = .ok o) (hforeign : o.oidBytes ≠ t.senderId)
      (hfresh : ∀ seen, r.seenSeq.get? (decodeAsciiReplace o.oidBytes.toList) = some seen →
        seen < o.seqNum)
      (hsender : deviceIdFromBytes senderId = .ok nextHopId)
      (hstate : out.state = { r with
        seenSeq := r.seenSeq.set (decodeAsciiReplace o.oidBytes.toList) o.seqNum }.updateRoute
          (decodeAsciiReplace o.oidBytes.toList) nextHopId fromAddr (o.hopCount + 1) o.seqNum
          o.timestamp)
      (heffects : out.effects = [] ∨ ∃ data, o.hopCount < o.maxHops ∧
        forwardData C out.state o = .ok data ∧ SendsOnly t data out) :
      Handled r t payload fromAddr senderId out

theorem handleOriginator_handled (r : MeshRouter) (t : MeshTransport) (payload : Bytes)
    (fromAddr : Addr) (senderId : Bytes) :
    Handled C r t payload fromAddr senderId
      (handleOriginator C r t payload fromAddr senderId) := by
  unfold handleOriginator
  cases hunpack : unpackOriginator payload with
  | error e => exact .dropped none
  | ok o =>
    dsimp only
    by_cases hown : o.oidBytes = t.senderId
    · rw [if_pos hown]
      exact .dropped none
    · rw [if_neg hown]
      split
      · exact .dropped none
      · exact .dropped _
      · split
        · exact .dropped none
        · rename_i hseen
          have hfresh : ∀ seen, r.seenSeq.get? (decodeAsciiReplace o.oidBytes.toList) = some seen →
              seen < o.seqNum := by
            intro seen hget
            simp only [hget, Option.any_some, decide_eq_true_eq] at hseen
            omega
          cases hsender : deviceIdFromBytes senderId with
          | error e => exact .unroutable o e hunpack hsender
          | ok nextHopId =>
            obtain ⟨hstate, heffects⟩ := sendsOnly_forward C _ t o fromAddr _ rfl
            refine .routed o nextHopId _ hunpack hown hfresh hsender hstate ?_
            rcases heffects with hnone | ⟨data, hbudget, hdata, hsends⟩
            · exact Or.inl hnone
            · refine Or.inr ⟨data, hbudget, ?_, hsends⟩
              simp only [attempt] at hstate ⊢
              rw [hstate]
              exact hdata

/-- Whatever a router sends is an ORIGINATOR frame of one length, with a zero MAC. -/
theorem emission_framed (r : MeshRouter) (t : MeshTransport) (emission : Emission) (pkt : Bytes)
    (addr : Addr) (h : .sendto pkt addr ∈ (emission.run C r t).effects) :
    ∃ data, data.length = originatorWireLen ∧ pkt = frame .originator t.senderId data zeroMac := by
  have hsends : (emission.run C r t).effects = [] ∨ ∃ data, data.length = originatorWireLen ∧
      SendsOnly t data (emission.run C r t) := by
    cases emission with
    | broadcast timestamp =>
      rcases (sendsOnly_broadcast C r t timestamp _ rfl).2 with hnone | ⟨data, hpack, hsends⟩
      · exact Or.inl hnone
      · exact Or.inr ⟨data, packOriginator_length C _ _ _ _ _ _ data hpack, hsends⟩
    | forward payload fromAddr senderId =>
      have hhandled := handleOriginator_handled C r t payload fromAddr senderId
      simp only [Emission.run]
      generalize handleOriginator C r t payload fromAddr senderId = out at hhandled
      cases hhandled with
      | dropped e => exact Or.inl rfl
      | unroutable o e _ _ => exact Or.inl rfl
      | routed o nextHopId out hunpack _ _ _ _ heffects =>
        rcases heffects with hnone | ⟨data, _, hdata, hsends⟩
        · exact Or.inl hnone
        · exact Or.inr ⟨data, forwardData_length C _ payload o data hunpack hdata, hsends⟩
  rcases hsends with hnone | ⟨data, hlen, hsends⟩
  · rw [hnone] at h
    simp at h
  · obtain ⟨session, _, _, heq⟩ := hsends _ h
    cases heq
    exact ⟨data, hlen, rfl⟩

end Emissions

section Reception

variable (C : Suite)

/-- The MAC a packet should carry under a session key. -/
def expectedMac (key : SessionKey) (pkt : Bytes) : Bytes :=
  computeMac C key (pkt.take headerSize) ((pkt.take (pkt.length - macSize)).drop headerSize)

/-- The packet reaches the router: its payload and sender id are passed to the callback. -/
def PassedTo (cb : Callback) (t : MeshTransport) (pkt : Bytes) (fromAddr : Addr)
    (effects : List Effect) : Prop :=
  ∃ data, pkt = frame .originator t.senderId data zeroMac ∧
    effects = [.rawPacket cb data fromAddr t.senderId.toList]

theorem expectedMac_frame (key : SessionKey) (senderId : Fixed 32) (data : Bytes) :
    verifyMac C key (frame .originator senderId data zeroMac) =
      if expectedMac C key (frame .originator senderId data zeroMac) = zeroMac then .ok ()
      else .error .invalidTag := by
  have hlen : (frame .originator senderId data zeroMac).length - macSize =
      data.length + headerSize := by
    rw [frame_length .originator senderId data zeroMac List.length_replicate]
    rfl
  have hdrop : (frame .originator senderId data zeroMac).drop
      ((frame .originator senderId data zeroMac).length - macSize) = zeroMac := by
    rw [hlen, frame, List.drop_left']
    rw [List.length_append, header_length, Nat.add_comm]
  simp only [verifyMac, expectedMac, hdrop]
  rfl

/-- What `_dispatch` checks of a packet before it hands it on. -/
def passes (t : MeshTransport) (packet : Bytes) (fromAddr : Addr) : Bool :=
  match parsePacket packet with
  | .ok parsed => macGate C t parsed.ptype packet fromAddr
  | .error _ => false

/-- An ORIGINATOR packet does nothing but that, if it passes, the router's callback is scheduled. -/
theorem dispatch_rawPacket (env : Env) (t : MeshTransport) (packet : Bytes) (fromAddr : Addr)
    {senderId payload : Bytes} {cb : Callback}
    (hparse : parsePacket packet = .ok ⟨.originator, senderId, payload⟩)
    (hcb : t.rawPacketCbs.get? .originator = some cb) :
    dispatch C env t packet fromAddr = ⟨t,
      if passes C t packet fromAddr then [.rawPacket cb payload fromAddr senderId] else [], none⟩ := by
  simp only [dispatch, passes, hparse, handle, hcb]
  split <;> rfl

/-- From an address that is bound to no peer id every packet that parses passes. -/
theorem passes_unbound (t : MeshTransport) (packet : Bytes) (fromAddr : Addr) {parsed : ParsedPacket}
    (hparse : parsePacket packet = .ok parsed)
    (hunbound : ∀ peerId, t.sessionsByAddr.get? fromAddr = some peerId → peerId = "") :
    passes C t packet fromAddr = true := by
  simp only [passes, hparse, macGate]
  cases haddr : t.sessionsByAddr.get? fromAddr with
  | none => rfl
  | some peerId => simp only [hunbound peerId haddr, true_or, if_true]

/-- From a bound address an ORIGINATOR frame with a wrong zero MAC passes under the
empty peer id only. -/
theorem dispatch_originator (env : Env) (t : MeshTransport) (senderId : Fixed 32) (data : Bytes)
    (fromAddr : Addr) (peerId : String) (session : SessionInfo) (cb : Callback)
    (hlen : data.length < 65536) (hbound : t.sessionsByAddr.get? fromAddr = some peerId)
    (hpeer : t.sessions.get? peerId = some session)
    (hcb : t.rawPacketCbs.get? .originator = some cb)
    (hmac : expectedMac C session.sessionKey (frame .originator senderId data zeroMac) ≠ zeroMac) :
    (dispatch C env t (frame .originator senderId data zeroMac) fromAddr).effects =
      if peerId = "" then [.rawPacket cb data fromAddr senderId.toList] else [] := by
  have hparse := parsePacket_unkeyed .originator senderId data hlen
  have hverify := expectedMac_frame C session.sessionKey senderId data
  rw [if_neg hmac] at hverify
  have hpasses : passes C t (frame .originator senderId data zeroMac) fromAddr =
      decide (peerId = "") := by
    simp only [passes, hparse, macGate, hbound, hpeer, PacketType.isHandshake, Bool.false_eq_true,
      or_false, hverify]
    split <;> simp_all
  rw [dispatch_rawPacket C env t _ fromAddr hparse hcb, hpasses]
  simp only [decide_eq_true_eq]

/-- A router's packet to a session reaches the other router exactly when the other
transport has the sender registered under the empty peer id, where it checks no MAC. -/
theorem originator_passed_iff (r : MeshRouter) (t t' : MeshTransport) (session session' : SessionInfo)
    (fromAddr : Addr) (peerId : String) (cb : Callback)
    (hbound : t'.sessionsByAddr.get? fromAddr = some peerId)
    (hpeer : t'.sessions.get? peerId = some session')
    (hkey : session'.sessionKey = session.sessionKey)
    (hcb : t'.rawPacketCbs.get? .originator = some cb)
    (emission : Emission) (pkt : Bytes)
    (hpkt : .sendto pkt session.peerAddr ∈ (emission.run C r t).effects)
    (hmac : expectedMac C session.sessionKey pkt ≠ zeroMac) (env : Env) :
    PassedTo cb t pkt fromAddr (dispatch C env t' pkt fromAddr).effects ↔ peerId = "" := by
  obtain ⟨data, hwire, rfl⟩ := emission_framed C r t emission pkt _ hpkt
  have hlen : data.length < 65536 := by rw [hwire]; decide
  rw [← hkey] at hmac
  have heffects := dispatch_originator C env t' t.senderId data fromAddr peerId session' cb hlen
    hbound hpeer hcb hmac
  by_cases hempty : peerId = ""
  · rw [if_pos hempty] at heffects
    exact iff_of_true ⟨data, rfl, heffects⟩ hempty
  · rw [if_neg hempty] at heffects
    refine iff_of_false ?_ hempty
    rintro ⟨_, _, hpassed⟩
    rw [heffects] at hpassed
    contradiction

end Reception

section Stub

variable (C : Suite)

theorem broadcast_sends (r : MeshRouter) (t : MeshTransport) (timestamp : Timestamp)
    (session : SessionInfo) (data : Bytes) (hudp : t.udpTransport = true)
    (hsession : session ∈ t.sessions.values) (hlen : data.length < 65536)
    (hdata : packOriginator C r.identity.deviceId (r.seqNum + 1) 0 r.maxHops timestamp
      r.identity.signingKeypair.signingKey = .ok data) :
    .sendto (frame .originator t.senderId data zeroMac) session.peerAddr ∈
      (broadcastOriginator C r t timestamp).effects := by
  have hpkt : originatorPacket t data = .ok (frame .originator t.senderId data zeroMac) := by
    simp only [originatorPacket, packHeader_ok .originator t.senderId _ hlen]
    rfl
  simp only [broadcastOriginator, attempt, hdata, hpkt]
  exact List.mem_flatMap.mpr ⟨session, hsession, by simp [sendRaw, hudp]⟩

def alphaSid : Fixed 32 := ⟨ljust [97, 108, 112, 104, 97] 32 48, by decide⟩

theorem senderIdBytes_alpha : senderIdBytes alpha.deviceId = .ok alphaSid := by
  rfl

def epoch : Timestamp := ⟨List.Vector.replicate 8 0⟩

/-- Alpha's first announcement. -/
def firstData : Bytes :=
  originatorFields alphaSid 1 0 defaultMaxHops epoch ++
    (stub.signMessage (alphaSid.toList ++ packBE 4 1 ++ epoch.raw.toList ++ packBE 1 defaultMaxHops)
      alpha.signingKeypair.signingKey).toList

theorem packOriginator_first : packOriginator stub alpha.deviceId 1 0 defaultMaxHops epoch
    alpha.signingKeypair.signingKey = .ok firstData := by
  simp only [packOriginator, senderIdBytes_alpha]
  rfl

theorem expectedMac_first :
    expectedMac stub sharedKey (frame .originator alphaSid firstData zeroMac) ≠ zeroMac := by
  decide +kernel

/-- Two connected nodes, and the first announcement that one's router sends the other. -/
theorem exists_first : ∃ (a b : Operations.Node) (session session' : SessionInfo) (pkt : Bytes),
    Reachable stub alpha a ∧ Reachable stub bravo b ∧ session ∈ a.transport.sessions.values ∧
    b.transport.sessionsByAddr.get? alphaAddr = some "alpha" ∧
    b.transport.sessions.get? "alpha" = some session' ∧
    session'.sessionKey = session.sessionKey ∧ b.transport.rawPacketCbs.get? .originator = some 0 ∧
    .sendto pkt session.peerAddr ∈ ((Emission.broadcast epoch).run stub
      (MeshRouter.init alpha defaultMaxHops) a.transport).effects ∧
    expectedMac stub session.sessionKey pkt ≠ zeroMac := by
  obtain ⟨a, b, hreachA, hreachB, hestA, hestB, ⟨ta, hta, _, _, hsameA⟩, ⟨tb, _, _, hraw, hsameB⟩⟩ :=
    exists_established [] (OrderedDict.empty.set .originator 0)
  obtain ⟨session, hsession, heq⟩ := Option.map_eq_some_iff.mp hestA.session
  obtain ⟨session', hsession', heq'⟩ := Option.map_eq_some_iff.mp hestB.session
  simp only [Prod.mk.injEq] at heq heq'
  have hmem := OrderedDict.mem_values_of_get? _ _ _ hsession
  have hsid : a.transport.senderId = alphaSid := by
    rw [hsameA.senderId]
    exact Except.ok.inj (hta.senderId.symm.trans senderIdBytes_alpha)
  have hsent := broadcast_sends stub (MeshRouter.init alpha defaultMaxHops) a.transport epoch session
    firstData (hsameA.udpTransport.trans hta.udpTransport) hmem (by decide) packOriginator_first
  rw [hsid] at hsent
  refine ⟨a, b, session, session', _, hreachA, hreachB, hmem, hestB.byAddr, hsession',
    heq'.2.1.trans heq.2.1.symm, ?_, hsent, ?_⟩
  · rw [hsameB.rawPacketCbs, hraw]
    rfl
  · rw [heq.2.1]
    exact expectedMac_first

theorem originator_passed_iff_first : ∃ (a b : Operations.Node) (pkt : Bytes),
    Reachable stub alpha a ∧ Reachable stub bravo b ∧
    (PassedTo 0 a.transport pkt alphaAddr
      (dispatch stub stillEnv b.transport pkt alphaAddr).effects ↔ "alpha" = "") := by
  obtain ⟨a, b, session, session', pkt, hreachA, hreachB, _, hbound, hpeer, hkey, hcb, hpkt, hmac⟩ :=
    exists_first
  exact ⟨a, b, pkt, hreachA, hreachB, originator_passed_iff stub
    (MeshRouter.init alpha defaultMaxHops) a.transport b.transport session session' alphaAddr "alpha"
    0 hbound hpeer hkey hcb (.broadcast epoch) pkt hpkt hmac stillEnv⟩

/-- Alpha's first announcement never reaches bravo's router. -/
theorem first_announcement_dropped : ¬ ∀ (owner owner' : DeviceIdentity) (a b : Operations.Node)
    (r : MeshRouter) (session session' : SessionInfo) (fromAddr : Addr) (peerId : String)
    (cb : Callback) (emission : Emission) (pkt : Bytes) (env : Env),
    Reachable stub owner a → Reachable stub owner' b → session ∈ a.transport.sessions.values →
    b.transport.sessionsByAddr.get? fromAddr = some peerId →
    b.transport.sessions.get? peerId = some session' →
    session'.sessionKey = session.sessionKey →
    b.transport.rawPacketCbs.get? .originator = some cb →
    .sendto pkt session.peerAddr ∈ (emission.run stub r a.transport).effects →
    expectedMac stub session.sessionKey pkt ≠ zeroMac →
    PassedTo cb a.transport pkt fromAddr (dispatch stub env b.transport pkt fromAddr).effects := by
  intro hclaim
  obtain ⟨a, b, session, session', pkt, hreachA, hreachB, hmem, hbound, hpeer, hkey, hcb, hpkt,
    hmac⟩ := exists_first
  obtain ⟨_, _, hpassed⟩ := hclaim alpha bravo a b _ session session' alphaAddr "alpha" 0 _
    pkt stillEnv hreachA hreachB hmem hbound hpeer hkey hcb hpkt hmac
  obtain ⟨data, hwire, rfl⟩ := emission_framed stub _ _ _ _ _ hpkt
  have hlen : data.length < 65536 := by rw [hwire]; decide
  rw [← hkey] at hmac
  rw [dispatch_originator stub stillEnv b.transport _ data alphaAddr "alpha" session' 0 hlen hbound
    hpeer hcb hmac, if_neg (by decide)] at hpassed
  contradiction

end Stub

end Mesim.RouterPackets
