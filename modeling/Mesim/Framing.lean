import Mesim.Honest
import Mesim.Reassembly

/-!
send() as a whole.
The first packet decides: the message counter and the number of fragments stand in
its fragment header, so a message with too many chunks, or sent too late, raises
before anything is emitted or recorded. Otherwise every chunk becomes the packet
that build_packet() would have made of its payload, and the receiver reads back the
length, the indices and the chunks.
-/
namespace Mesim.Framing

open Octets TextCodec Crypto Identity Packet Transport Operations Fragments Reassembly
open MeshTransport Outcome

section Counting

/-- The number of chunks is the length over the chunk size, rounded up. -/
theorem chunks_length (size fuel : ℕ) (b : Bytes) (hsize : 0 < size) (hfuel : b.length ≤ fuel) :
    (chunks size fuel b).length = (b.length + size - 1) / size := by
  induction fuel generalizing b with
  | zero =>
    have hnil : b = [] := List.length_eq_zero_iff.mp (Nat.le_zero.mp hfuel)
    rw [hnil, List.length_nil, Nat.zero_add, Nat.div_eq_of_lt (by omega)]
    rfl
  | succ fuel ih =>
    unfold chunks
    split
    · rename_i hempty
      rw [List.isEmpty_iff.mp hempty, List.length_nil, List.length_nil, Nat.zero_add,
        Nat.div_eq_of_lt (by omega)]
    · rename_i hne
      have hpos : 0 < b.length :=
        List.length_pos_iff.mpr fun hnil => hne (List.isEmpty_iff.mpr hnil)
      have hrest := ih (b.drop size) (by rw [List.length_drop]; omega)
      rw [List.length_cons, hrest, List.length_drop]
      by_cases hlast : b.length ≤ size
      · -- the chunk that is cut off is the last one
        have hzero : b.length - size = 0 := by omega
        have hone : b.length + size - 1 = (b.length - 1) + size := by omega
        rw [hzero, Nat.zero_add, Nat.div_eq_of_lt (by omega), hone, Nat.add_div_right _ hsize,
          Nat.div_eq_of_lt (by omega)]
      · have hmore : b.length + size - 1 = (b.length - size + size - 1) + size := by omega
        rw [hmore, Nat.add_div_right _ hsize]

/-- The packets that a message needs: its signature goes with it. -/
def packetCount (message : Bytes) : ℕ := (64 + message.length + maxFragPt - 1) / maxFragPt

variable (C : Suite)

theorem sending_total (env : Env) (t : MeshTransport) (key : SessionKey) (message : Bytes) :
    (sending C env t key message).total = packetCount message := by
  rw [Sending.total, sending, splitFragments, chunks_length _ _ _ (by decide) le_rfl,
    List.length_append, List.Vector.toList_length, packetCount]

end Counting

section Failing

variable (C : Suite)

/-- A counter or a number of fragments that does not fit its field stops the loop
before its first packet. -/
theorem sendFragments_refused (env : Env) (session : SessionInfo) (msgId fragTotal : ℕ)
    (t : MeshTransport) (chunks : List Bytes) (hchunks : chunks ≠ [])
    (h : ¬ (msgId < 256 ^ 4 ∧ fragTotal < 256)) :
    sendFragments C env session msgId fragTotal t 0 chunks = raise t .structError := by
  cases chunks with
  | nil => exact absurd rfl hchunks
  | cons first rest =>
    have hfits : ¬ Fits msgId 0 fragTotal first.length := fun hfits => h ⟨hfits.1, hfits.2.2.1⟩
    have hpacket := fragmentPacket_eq C t.senderId session.sessionKey (env.nonce 0) msgId 0
      fragTotal first
    rw [if_neg hfits] at hpacket
    simp only [sendFragments, attempt, hpacket]

/-- A call that raises has sent and recorded nothing; only the counter has moved. -/
theorem send_refused (env : Env) (t : MeshTransport) (peerId : String) (message : Bytes)
    (session : SessionInfo) (hsession : t.sessions.get? peerId = some session)
    (h : ¬ (t.msgIdCounter < 256 ^ 4 ∧ packetCount message < 256)) :
    send C env t peerId message =
      raise { t with msgIdCounter := t.msgIdCounter + 1 } .structError := by
  rw [← sending_total C env t session.sessionKey message] at h
  have hloop := sendFragments_refused C env session t.msgIdCounter
    (sending C env t session.sessionKey message).total
    { t with msgIdCounter := t.msgIdCounter + 1 } (sending C env t session.sessionKey message).chunks
    (sending_chunks_ne_nil C env t session.sessionKey message) h
  simp only [Sending.total, sending] at hloop
  simp only [send, hsession, hloop, raise]

end Failing

section Framed

variable (C : Suite)

/-- The chunk that the receiver of a MESSAGE packet decrypts from it. -/
def decryptedChunk (key : SessionKey) (pkt : Bytes) : Except PyError Bytes := do
  let packet ← parsePacket pkt
  C.decryptMessage (slice packet.payload fragHeaderSize nonceSize)
    (packet.payload.drop (fragHeaderSize + nonceSize)) key (pkt.take headerSize)

/-- What a packet of a message must be: the one build_packet() makes of its payload,
accepted by both checks, with its true length, its place among the fragments and its chunk. -/
structure WellFramed (senderId : Fixed 32) (key : SessionKey) (msgId fragTotal fragIdx : ℕ)
    (chunk payload pkt : Bytes) : Prop where
  built : buildPacket C .message senderId payload (some key) = .ok pkt
  verified : verifyMac C key pkt = .ok ()
  parsed : parsePacket pkt = .ok ⟨.message, senderId.toList, payload⟩
  declared : unpackBE (slice pkt 34 2) = payload.length
  header : unpackFragHeader payload = ⟨msgId, fragIdx, fragTotal⟩
  decrypted : decryptedChunk C key pkt = .ok chunk

theorem buildPacket_messagePayload (senderId : Fixed 32) (key : SessionKey) (nonce : Nonce)
    (msgId fragIdx fragTotal : ℕ) (chunk : Bytes)
    (hfits : Fits msgId fragIdx fragTotal chunk.length) :
    buildPacket C .message senderId
      (messagePayload C senderId key nonce msgId fragIdx fragTotal chunk) (some key) =
      .ok (messagePacket C senderId key nonce msgId fragIdx fragTotal chunk) := by
  have hlen := messagePayload_length C senderId key nonce msgId fragIdx fragTotal chunk
  rw [buildPacket_keyed C .message senderId _ key rfl (by rw [hlen]; exact hfits.2.2.2),
    messagePacket, messageHeader, hlen]

/-- The length field of a frame holds the length of its payload. -/
theorem declared_length (ptype : PacketType) (senderId : Fixed 32) (payload mac : Bytes)
    (hlen : payload.length < 65536) :
    unpackBE (slice (frame ptype senderId payload mac) 34 2) = payload.length := by
  have hpre : ([protocolVersion, ptype.toByte] ++ senderId.toList).length = 34 := by
    simp only [List.length_append, List.Vector.toList_length, List.length_cons, List.length_nil]
  have hfield : slice (frame ptype senderId payload mac) 34 2 = packBE 2 payload.length := by
    rw [frame, List.append_assoc, List.append_assoc]
    exact slice_piece _ _ _ _ _ hpre (packBE_length 2 _)
  rw [hfield, unpackBE_packBE 2 _ (by omega)]

theorem wellFramed_packet (haead : C.AeadCorrect) {x : Sending} (hx : x.Sendable) {i : ℕ}
    {chunk : Bytes} (hchunk : x.chunks[i]? = some chunk) :
    WellFramed C x.senderId x.key x.msgId x.total i chunk (x.payload C i chunk)
      (x.packet C i chunk) where
  built := buildPacket_messagePayload C _ _ _ _ _ _ _ (hx i chunk hchunk)
  verified := verifyMac_messagePacket C _ _ _ _ _ _ _
  parsed := Sending.parse_packet C hx hchunk
  declared := by
    apply declared_length .message x.senderId _ _
    rw [messagePayload_length]
    exact (hx i chunk hchunk).2.2.2
  header := Sending.unpack_payload C hx hchunk
  decrypted := by
    rw [decryptedChunk, Sending.parse_packet C hx hchunk]
    exact decrypt_payload C haead x.senderId x.key (x.nonce i) x.msgId i x.total chunk

end Framed

section Send

variable (C : Suite)

/-- send() emits nothing and raises, or emits the whole message, packet by packet. -/
theorem send_all_or_nothing (haead : C.AeadCorrect) (env : Env) (t : MeshTransport)
    (peerId : String) (message : Bytes) (session : SessionInfo)
    (hsession : t.sessions.get? peerId = some session) :
    (packetCount message > 255 ∨ t.msgIdCounter ≥ 2 ^ 32 →
      (send C env t peerId message).raised = some .structError ∧
      (send C env t peerId message).effects = [] ∧
      (send C env t peerId message).state.inFlight = t.inFlight ∧
      (send C env t peerId message).state.sessions = t.sessions) ∧
    (¬ (packetCount message > 255 ∨ t.msgIdCounter ≥ 2 ^ 32) →
      (send C env t peerId message).raised = none ∧ ∃ packets chunks : List Bytes,
        (send C env t peerId message).effects =
          packets.flatMap (fun pkt => t.sendRaw pkt session.peerAddr) ∧
        (t.udpTransport = true → (send C env t peerId message).effects =
          packets.map fun pkt => .sendto pkt session.peerAddr) ∧
        packets.length = packetCount message ∧ chunks.length = packetCount message ∧
        chunks.flatten =
          (C.signMessage message t.identity.signingKeypair.signingKey).toList ++ message ∧
        ∀ i pkt chunk, packets[i]? = some pkt → chunks[i]? = some chunk →
          ∃ payload, WellFramed C t.senderId session.sessionKey t.msgIdCounter
            (packetCount message) i chunk payload pkt) := by
  constructor
  · intro h
    rw [send_refused C env t peerId message session hsession (by omega)]
    exact ⟨rfl, rfl, rfl, rfl⟩
  · intro h
    let x := sending C env t session.sessionKey message
    have htotal : x.total = packetCount message := sending_total C env t session.sessionKey message
    have hsendable : x.Sendable := by
      refine (sendable_iff C env t session.sessionKey message).mpr ⟨by omega, ?_⟩
      show x.total < 256
      omega
    have hok := (send_raised_iff C env t peerId message session hsession).mpr hsendable
    have heffects := (send_ok C env t peerId message session hsession hok).2
    refine ⟨hok, x.packets C, x.chunks, heffects, ?_, ?_, htotal, splitFragments_flatten _, ?_⟩
    · intro hudp
      rw [heffects, List.map_eq_flatMap]
      refine List.flatMap_congr fun pkt _ => ?_
      rw [sendRaw, if_pos hudp]
    · rw [← htotal, Sending.packets, List.length_mapIdx, Sending.total]
    · intro i pkt chunk hpkt hchunk
      have hpkt' : x.packet C i chunk = pkt := by
        rw [Sending.packets, List.getElem?_mapIdx, hchunk] at hpkt
        exact Option.some.inj hpkt
      rw [← hpkt', ← htotal]
      exact ⟨_, wellFramed_packet C haead hsendable hchunk⟩

end Send

section Stub

open Honest Nodes

def stubSession : SessionInfo where
  peerId := "bravo"
  peerAddr := ("10.0.0.2", 9000)
  sessionKey := ⟨List.Vector.replicate 32 5⟩
  peerBundle := getPublicBundle stub bravo
  establishedAt := 0
  lastActive := 0
  bytesSent := 0
  bytesRecv := 0

theorem send_all_or_nothing_short : ∃ t : MeshTransport,
    t.sessions.get? "bravo" = some stubSession ∧
    (send stub stillEnv t "bravo" [104, 105]).raised = none ∧
    ∃ pkt payload, (send stub stillEnv t "bravo" [104, 105]).effects =
      [.sendto pkt stubSession.peerAddr] ∧
      WellFramed stub t.senderId stubSession.sessionKey 1 1 0
        ((stub.signMessage [104, 105] t.identity.signingKeypair.signingKey).toList ++ [104, 105])
        payload pkt := by
  obtain ⟨t₀, _⟩ := init_ok alpha (by decide)
  let t : MeshTransport := { t₀ with
    sessions := OrderedDict.empty.set "bravo" stubSession
    msgIdCounter := 1
    udpTransport := true }
  have hsession : t.sessions.get? "bravo" = some stubSession := OrderedDict.get?_set_self _ _ _
  have hcount : packetCount [104, 105] = 1 := by decide
  have hcounter : t.msgIdCounter = 1 := rfl
  obtain ⟨hok, packets, chunks, _, heffects, hpackets, hchunks, hflat, hframed⟩ :=
    (send_all_or_nothing stub stub_aeadCorrect stillEnv t "bravo" [104, 105] stubSession hsession).2
      (by rw [hcount, hcounter]; decide)
  rw [hcount] at hpackets hchunks hframed
  obtain ⟨pkt, rfl⟩ := List.length_eq_one_iff.mp hpackets
  obtain ⟨chunk, rfl⟩ := List.length_eq_one_iff.mp hchunks
  rw [List.flatten_singleton] at hflat
  obtain ⟨payload, hpayload⟩ := hframed 0 pkt chunk rfl rfl
  rw [hflat] at hpayload
  exact ⟨t, hsession, hok, pkt, payload, heffects rfl, hpayload⟩

end Stub

end Mesim.Framing
