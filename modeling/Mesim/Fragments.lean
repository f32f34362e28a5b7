import Mesim.Honest

/-!
The packets of a message.
Each chunk of signature and plaintext becomes one MESSAGE packet: a frame whose
payload is the fragment header, the nonce and the ciphertext, with the packet
header as associated data. send() and the retry loop emit no other packets, and
only they and an ACK change the in-flight table.
-/
namespace Mesim.Fragments

open Octets TextCodec Crypto Identity Packet Transport Operations Dispatch Nodes Honest
open MeshTransport Outcome

def fragHeader (msgId fragIdx fragTotal : ℕ) : Bytes :=
  packBE 4 msgId ++ packBE 1 fragIdx ++ packBE 1 fragTotal

theorem fragHeader_length (msgId fragIdx fragTotal : ℕ) :
    (fragHeader msgId fragIdx fragTotal).length = fragHeaderSize := by
  simp only [fragHeader, List.length_append, packBE_length]

/-- The header of the MESSAGE packet that carries `size` bytes of a message. -/
def messageHeader (senderId : Fixed 32) (size : ℕ) : Bytes :=
  [protocolVersion, PacketType.message.toByte] ++ senderId.toList ++
    packBE 2 (fragHeaderSize + nonceSize + size + tagSize)

variable (C : Suite)

def messagePayload (senderId : Fixed 32) (key : SessionKey) (nonce : Nonce)
    (msgId fragIdx fragTotal : ℕ) (chunk : Bytes) : Bytes :=
  fragHeader msgId fragIdx fragTotal ++ nonce.toList ++
    C.chachaEncrypt key.raw nonce.toList (messageHeader senderId chunk.length) chunk

/-- The packet send() makes of one chunk. -/
def messagePacket (senderId : Fixed 32) (key : SessionKey) (nonce : Nonce)
    (msgId fragIdx fragTotal : ℕ) (chunk : Bytes) : Bytes :=
  frame .message senderId (messagePayload C senderId key nonce msgId fragIdx fragTotal chunk)
    (computeMac C key (messageHeader senderId chunk.length)
      (messagePayload C senderId key nonce msgId fragIdx fragTotal chunk))

theorem messagePayload_length (senderId : Fixed 32) (key : SessionKey) (nonce : Nonce)
    (msgId fragIdx fragTotal : ℕ) (chunk : Bytes) :
    (messagePayload C senderId key nonce msgId fragIdx fragTotal chunk).length =
      fragHeaderSize + nonceSize + chunk.length + tagSize := by
  rw [messagePayload, List.length_append, List.length_append, fragHeader_length, C.chacha_length,
    List.Vector.toList_length]
  simp only [nonceSize, tagSize]
  omega

/-- The three numbers fit their fields, and the payload its length field. -/
def Fits (msgId fragIdx fragTotal size : ℕ) : Prop :=
  msgId < 256 ^ 4 ∧ fragIdx < 256 ∧ fragTotal < 256 ∧
    fragHeaderSize + nonceSize + size + tagSize < 65536

instance (msgId fragIdx fragTotal size : ℕ) : Decidable (Fits msgId fragIdx fragTotal size) := by
  unfold Fits
  infer_instance

theorem fragmentPacket_eq (senderId : Fixed 32) (key : SessionKey) (nonce : Nonce)
    (msgId fragIdx fragTotal : ℕ) (chunk : Bytes) :
    fragmentPacket C senderId key nonce msgId fragIdx fragTotal chunk =
      if Fits msgId fragIdx fragTotal chunk.length then
        .ok (messagePacket C senderId key nonce msgId fragIdx fragTotal chunk)
      else .error .structError := by
  unfold fragmentPacket
  by_cases hids : msgId < 256 ^ 4 ∧ fragIdx < 256 ∧ fragTotal < 256
  · rw [if_pos hids]
    by_cases hlen : fragHeaderSize + nonceSize + chunk.length + tagSize < 65536
    · have hfits : Fits msgId fragIdx fragTotal chunk.length := ⟨hids.1, hids.2.1, hids.2.2, hlen⟩
      rw [if_pos hfits]
      simp only [packHeader_ok .message senderId _ hlen]
      have hpayload := messagePayload_length C senderId key nonce msgId fragIdx fragTotal chunk
      simp only [messagePacket, frame, hpayload]
      rfl
    · have hfits : ¬ Fits msgId fragIdx fragTotal chunk.length := fun h => hlen h.2.2.2
      rw [if_neg hfits]
      simp only [packHeader_error .message senderId _ hlen]
      rfl
  · have hfits : ¬ Fits msgId fragIdx fragTotal chunk.length :=
      fun h => hids ⟨h.1, h.2.1, h.2.2.1⟩
    rw [if_neg hids, if_neg hfits]

theorem parsePacket_messagePacket (senderId : Fixed 32) (key : SessionKey) (nonce : Nonce)
    (msgId fragIdx fragTotal : ℕ) (chunk : Bytes)
    (hfits : Fits msgId fragIdx fragTotal chunk.length) :
    parsePacket (messagePacket C senderId key nonce msgId fragIdx fragTotal chunk) =
      .ok ⟨.message, senderId.toList,
        messagePayload C senderId key nonce msgId fragIdx fragTotal chunk⟩ :=
  parsePacket_frame _ _ _ _
    (by rw [messagePayload_length]; exact hfits.2.2.2) (computeMac_length C _ _ _)

theorem isTraffic_fragmentPacket (senderId : Fixed 32) (key : SessionKey) (nonce : Nonce)
    (msgId fragIdx fragTotal : ℕ) (chunk pkt : Bytes)
    (h : fragmentPacket C senderId key nonce msgId fragIdx fragTotal chunk = .ok pkt) :
    IsTraffic pkt := by
  rw [fragmentPacket_eq] at h
  split at h
  · rename_i hfits
    cases h
    intro p hp
    rw [parsePacket_messagePacket C senderId key nonce msgId fragIdx fragTotal chunk hfits] at hp
    cases hp
    rfl
  · contradiction

section InFlight

/-- Every packet waiting for an acknowledgement has the property. -/
def InFlightAll (p : Bytes → Prop) (t : MeshTransport) : Prop :=
  ∀ msgId inf, t.inFlight.get? msgId = some inf → p inf.packetBytes

/-- Every packet waiting for an acknowledgement is traffic. -/
def TrafficInFlight (t : MeshTransport) : Prop :=
  ∀ msgId inf, t.inFlight.get? msgId = some inf → IsTraffic inf.packetBytes

variable {p : Bytes → Prop}

theorem InFlightAll.set {t : MeshTransport} (h : InFlightAll p t) {entry : InFlight}
    (hentry : p entry.packetBytes) (msgId : ℕ) :
    InFlightAll p { t with inFlight := t.inFlight.set msgId entry } := by
  intro m inf hinf
  simp only [OrderedDict.get?_set] at hinf
  split at hinf
  · cases hinf
    exact hentry
  · exact h m inf hinf

theorem InFlightAll.erase {t : MeshTransport} (h : InFlightAll p t) (msgId : ℕ) :
    InFlightAll p { t with inFlight := t.inFlight.erase msgId } := by
  intro m inf hinf
  simp only [OrderedDict.get?_erase] at hinf
  split at hinf
  · contradiction
  · exact h m inf hinf

/-- What the packets of all chunks have, the table keeps and the loop sends. -/
theorem sendFragments_all (env : Env) (session : SessionInfo) (msgId fragTotal : ℕ)
    (t : MeshTransport) (fragIdx : ℕ) (chunks : List Bytes)
    (hp : ∀ chunk ∈ chunks, ∀ senderId nonce fragIdx pkt,
      fragmentPacket C senderId session.sessionKey nonce msgId fragIdx fragTotal chunk = .ok pkt →
        p pkt) (ht : InFlightAll p t) :
    InFlightAll p (sendFragments C env session msgId fragTotal t fragIdx chunks).state ∧
    ∀ pkt addr, .sendto pkt addr ∈
      (sendFragments C env session msgId fragTotal t fragIdx chunks).effects → p pkt := by
  induction chunks generalizing t fragIdx with
  | nil => exact ⟨ht, by simp [sendFragments, done]⟩
  | cons chunk rest ih =>
    unfold sendFragments attempt
    split
    · exact ⟨ht, by simp [raise]⟩
    · rename_i pkt hpkt
      have hpacket := hp chunk List.mem_cons_self _ _ _ _ hpkt
      obtain ⟨hstate, heffects⟩ := ih { t with inFlight := t.inFlight.set msgId {
        msgId := msgId
        packetBytes := pkt
        peerAddr := session.peerAddr
        attempt := 1
        nextRetryAt := env.monotonic + retryBackoffs.getD 0 0 } } (fragIdx + 1)
        (fun other hother => hp other (List.mem_cons_of_mem _ hother)) (ht.set hpacket msgId)
      refine ⟨hstate, ?_⟩
      intro pkt' addr hmem
      rcases List.mem_append.mp hmem with hsent | hrest
      · have heq := mem_sendRaw _ pkt _ _ hsent
        cases heq
        exact hpacket
      · exact heffects pkt' addr hrest

theorem send_all (env : Env) (t : MeshTransport) (peerId : String) (message : Bytes)
    (hp : ∀ chunk ∈ splitFragments ((C.signMessage message
        t.identity.signingKeypair.signingKey).toList ++ message),
      ∀ senderId key nonce msgId fragIdx fragTotal pkt,
        fragmentPacket C senderId key nonce msgId fragIdx fragTotal chunk = .ok pkt → p pkt)
    (ht : InFlightAll p t) : InFlightAll p (send C env t peerId message).state ∧
      ∀ pkt addr, .sendto pkt addr ∈ (send C env t peerId message).effects → p pkt := by
  unfold send
  split
  · exact ⟨ht, by simp [raise]⟩
  · rename_i session _
    have hloop := sendFragments_all C env session t.msgIdCounter
      (splitFragments ((C.signMessage message t.identity.signingKeypair.signingKey).toList
        ++ message)).length { t with msgIdCounter := t.msgIdCounter + 1 } 0
      (splitFragments ((C.signMessage message t.identity.signingKeypair.signingKey).toList
        ++ message)) (fun chunk hchunk senderId nonce fragIdx pkt hpkt =>
          hp chunk hchunk senderId _ nonce _ fragIdx _ pkt hpkt) ht
    dsimp only
    split
    · exact hloop
    · exact hloop

/-- The retry loop sends what is in the table. -/
theorem retryEntries_all (now : ℚ) (t : MeshTransport) (entries : List InFlight)
    (ht : InFlightAll p t) (hentries : ∀ inf ∈ entries, p inf.packetBytes) :
    InFlightAll p (retryEntries now t entries).1 ∧
    ∀ pkt addr, .sendto pkt addr ∈ (retryEntries now t entries).2 → p pkt := by
  induction entries generalizing t with
  | nil => exact ⟨ht, by simp [retryEntries]⟩
  | cons inf rest ih =>
    have hinf := hentries inf List.mem_cons_self
    have hentry : InFlightAll p (retryEntry now t inf).1 ∧
        ∀ pkt addr, .sendto pkt addr ∈ (retryEntry now t inf).2 → p pkt := by
      unfold retryEntry
      split
      · exact ⟨ht.erase _, by simp⟩
      · constructor
        · apply InFlightAll.set ht
          exact hinf
        · intro pkt addr hmem
          have heq := mem_sendRaw _ _ _ _ hmem
          cases heq
          exact hinf
    obtain ⟨hstate, heffects⟩ := ih (retryEntry now t inf).1 hentry.1
      (fun x hx => hentries x (List.mem_cons_of_mem _ hx))
    refine ⟨hstate, ?_⟩
    intro pkt addr hmem
    rcases List.mem_append.mp hmem with hfirst | hrest
    · exact hentry.2 pkt addr hfirst
    · exact heffects pkt addr hrest

theorem retrySweep_all (env : Env) (t : MeshTransport) (ht : InFlightAll p t) :
    InFlightAll p (retrySweep env t).state ∧
    ∀ pkt addr, .sendto pkt addr ∈ (retrySweep env t).effects → p pkt := by
  apply retryEntries_all env.monotonic t _ ht
  intro inf hinf
  obtain ⟨msgId, hget⟩ := (OrderedDict.mem_values_iff _ _).mp (List.mem_filter.mp hinf).1
  exact ht msgId inf hget

theorem send_traffic (env : Env) (t : MeshTransport) (peerId : String) (message : Bytes)
    (ht : TrafficInFlight t) :
    TrafficInFlight (send C env t peerId message).state ∧
    ∀ pkt addr, .sendto pkt addr ∈ (send C env t peerId message).effects → IsTraffic pkt :=
  send_all C env t peerId message
    (fun chunk _ senderId key nonce msgId fragIdx fragTotal pkt hpkt =>
      isTraffic_fragmentPacket C senderId key nonce msgId fragIdx fragTotal chunk pkt hpkt) ht

theorem retrySweep_traffic (env : Env) (t : MeshTransport) (ht : TrafficInFlight t) :
    TrafficInFlight (retrySweep env t).state ∧
    ∀ pkt addr, .sendto pkt addr ∈ (retrySweep env t).effects → IsTraffic pkt :=
  retrySweep_all env t ht

/-- The message id a datagram acknowledges: an ACK that passes the MAC check. -/
def acknowledges (t : MeshTransport) (data : Bytes) (addr : Addr) : Option ℕ :=
  match parsePacket data with
  | .ok ⟨.ack, _, payload⟩ =>
    if macGate C t .ack data addr ∧ ¬ payload.length < 4 then some (unpackBE (slice payload 0 4))
    else none
  | _ => none

/-- A MESSAGE leaves alone what send() has put aside. -/
theorem sent_deliverAssembled (env : Env) (t : MeshTransport) (session : SessionInfo)
    (peerId : String) (addr : Addr) (msgId : ℕ) (assembled : Bytes) :
    (deliverAssembled C env t session peerId addr msgId assembled).state.inFlight = t.inFlight ∧
      (deliverAssembled C env t session peerId addr msgId assembled).state.msgIdCounter =
        t.msgIdCounter := by
  unfold deliverAssembled attempt
  dsimp only
  repeat' split
  all_goals exact ⟨rfl, rfl⟩

theorem sent_storeFragment (env : Env) (t : MeshTransport) (session : SessionInfo)
    (peerId : String) (addr : Addr) (msgId fragIdx fragTotal : ℕ) (fragment : Bytes) :
    (storeFragment C env t session peerId addr msgId fragIdx fragTotal fragment).state.inFlight =
        t.inFlight ∧
      (storeFragment C env t session peerId addr msgId fragIdx fragTotal
        fragment).state.msgIdCounter = t.msgIdCounter := by
  unfold storeFragment attempt
  dsimp only
  repeat' split
  all_goals first
    | exact ⟨rfl, rfl⟩
    | exact sent_deliverAssembled C env _ session peerId addr msgId _

theorem sent_handleMessage (env : Env) (t : MeshTransport) (payload : Bytes) (addr : Addr)
    (data : Bytes) : (handleMessage C env t payload addr data).state.inFlight = t.inFlight ∧
      (handleMessage C env t payload addr data).state.msgIdCounter = t.msgIdCounter := by
  unfold handleMessage
  dsimp only
  repeat' split
  all_goals first
    | exact ⟨rfl, rfl⟩
    | exact sent_storeFragment C env t _ _ addr _ _ _ _

/-- A datagram removes the entry it acknowledges and no other. -/
theorem inFlight_dispatch (env : Env) (t : MeshTransport) (data : Bytes) (addr : Addr) :
    (dispatch C env t data addr).state.inFlight =
      match acknowledges C t data addr with
      | some msgId => t.inFlight.erase msgId
      | none => t.inFlight := by
  unfold dispatch acknowledges
  cases hparse : parsePacket data with
  | error e => rfl
  | ok packet =>
    obtain ⟨ptype, sid, payload⟩ := packet
    by_cases hgate : macGate C t ptype data addr = true
    · simp only [hgate, if_true]
      cases ptype with
      | message => exact (sent_handleMessage C env t payload addr data).1
      | ack =>
        simp only [handle, handleAck, hgate, true_and]
        split <;> simp_all [done]
      | _ =>
        exact (sameTraffic_handle C env t ⟨_, sid, payload⟩ data addr (by simp)
          (by simp)).inFlight
    · simp only [hgate]
      cases ptype <;> first | rfl | simp [hgate, done]

theorem dispatch_all (env : Env) (t : MeshTransport) (data : Bytes) (addr : Addr)
    (ht : InFlightAll p t) : InFlightAll p (dispatch C env t data addr).state := by
  intro m inf hinf
  rw [inFlight_dispatch] at hinf
  split at hinf
  · exact ht.erase _ m inf hinf
  · exact ht m inf hinf

theorem dispatch_trafficInFlight (env : Env) (t : MeshTransport) (data : Bytes) (addr : Addr)
    (ht : TrafficInFlight t) : TrafficInFlight (dispatch C env t data addr).state :=
  dispatch_all C env t data addr ht

end InFlight

section Buffers

theorem fragBufs_sendFragments (env : Env) (session : SessionInfo) (msgId fragTotal : ℕ)
    (t : MeshTransport) (fragIdx : ℕ) (chunks : List Bytes) :
    (sendFragments C env session msgId fragTotal t fragIdx chunks).state.fragBufs = t.fragBufs := by
  induction chunks generalizing t fragIdx with
  | nil => rfl
  | cons chunk rest ih =>
    unfold sendFragments attempt
    split
    · rfl
    · exact ih _ _

theorem fragBufs_send (env : Env) (t : MeshTransport) (peerId : String) (message : Bytes) :
    (send C env t peerId message).state.fragBufs = t.fragBufs := by
  unfold send
  split
  · rfl
  · rename_i session _
    have hloop := fragBufs_sendFragments C env session t.msgIdCounter
      (splitFragments ((C.signMessage message t.identity.signingKeypair.signingKey).toList
        ++ message)).length { t with msgIdCounter := t.msgIdCounter + 1 } 0
      (splitFragments ((C.signMessage message t.identity.signingKeypair.signingKey).toList
        ++ message))
    dsimp only
    split <;> exact hloop

theorem fragBufs_retryEntries (now : ℚ) (t : MeshTransport) (entries : List InFlight) :
    (retryEntries now t entries).1.fragBufs = t.fragBufs := by
  induction entries generalizing t with
  | nil => rfl
  | cons inf rest ih =>
    have hentry : (retryEntry now t inf).1.fragBufs = t.fragBufs := by
      unfold retryEntry
      split <;> rfl
    exact (ih _).trans hentry

/-- Only datagrams touch the reassembly buffers. -/
theorem fragBufs_own (n : Node) (env : Env) (e : Event)
    (h : ∀ data addr, e ≠ .datagram data addr) :
    (nodeStep C n (env, e)).transport.fragBufs = n.transport.fragBufs := by
  cases e with
  | datagram data addr => exact absurd rfl (h data addr)
  | connect addr bundle =>
    show (connectBegin C n.transport addr bundle).state.fragBufs = _
    have hbegun := connectBegin_begun C n.transport addr bundle
    generalize connectBegin C n.transport addr bundle = out at hbegun
    cases hbegun <;> rfl
  | resume i =>
    show (n.resume C env i).1.transport.fragBufs = _
    have hresumed := resume_resumed C env n i
    generalize n.resume C env i = out at hresumed
    cases hresumed <;> rfl
  | timeout i =>
    show (n.timeout i).transport.fragBufs = _
    rcases timeout_eq n i with heq | ⟨call, _, _, heq⟩
    · rw [heq]
    · rw [heq]
      rfl
  | send peerId message => exact fragBufs_send C env n.transport peerId message
  | retry => exact fragBufs_retryEntries env.monotonic n.transport _

end Buffers

end Mesim.Fragments
