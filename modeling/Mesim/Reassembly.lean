import Mesim.Collector
import Mesim.Fragments

/-!
One message between its sender and its receiver.
send() cuts signature and plaintext into fragments, one packet each. The
receiver's buffer for the message is a collector of fragment indices: every
packet that it lets in adds its index, and the last missing one joins the
fragments, which are the bytes that were cut, and delivers the plaintext.
-/
namespace Mesim.Reassembly

open Octets TextCodec Crypto Identity Packet Transport Operations Dispatch Nodes Fragments
open MeshTransport Outcome Collector

section Cutting

theorem chunks_flatten (size fuel : ℕ) (b : Bytes) (hsize : 0 < size) (hfuel : b.length ≤ fuel) :
    (chunks size fuel b).flatten = b := by
  induction fuel generalizing b with
  | zero =>
    have hnil : b = [] := List.length_eq_zero_iff.mp (Nat.le_zero.mp hfuel)
    rw [hnil]
    rfl
  | succ fuel ih =>
    unfold chunks
    split
    · rename_i hempty
      rw [List.isEmpty_iff.mp hempty]
      rfl
    · have hdrop : (b.drop size).length ≤ fuel := by
        rw [List.length_drop]
        omega
      rw [List.flatten_cons, ih (b.drop size) hdrop, List.take_append_drop]

theorem splitFragments_flatten (b : Bytes) : (splitFragments b).flatten = b :=
  chunks_flatten maxFragPt b.length b (by decide) le_rfl

theorem splitFragments_ne_nil (b : Bytes) (h : 0 < b.length) : splitFragments b ≠ [] := by
  intro hnil
  have hflatten := splitFragments_flatten b
  rw [hnil] at hflatten
  rw [← hflatten] at h
  simp at h

theorem chunks_nil (size fuel : ℕ) : chunks size fuel [] = [] := by
  cases fuel <;> rfl

theorem chunk_length_le (size fuel : ℕ) (b chunk : Bytes) (h : chunk ∈ chunks size fuel b) :
    chunk.length ≤ size := by
  induction fuel generalizing b with
  | zero => simp [chunks] at h
  | succ fuel ih =>
    unfold chunks at h
    split at h
    · simp at h
    · rcases List.mem_cons.mp h with rfl | hrest
      · rw [List.length_take]
        exact Nat.min_le_left _ _
      · exact ih (b.drop size) hrest

theorem splitFragments_single (b : Bytes) (hlow : 0 < b.length) (hhigh : b.length ≤ maxFragPt) :
    splitFragments b = [b] := by
  obtain ⟨n, hn⟩ : ∃ n, b.length = n + 1 := ⟨b.length - 1, by omega⟩
  have hfirst : b.isEmpty = false := by
    rw [List.isEmpty_eq_false_iff]
    rintro rfl
    simp at hlow
  rw [splitFragments, hn, chunks, hfirst, if_neg (by simp), List.drop_of_length_le hhigh, chunks_nil,
    List.take_of_length_le hhigh]

theorem splitFragments_pair (b : Bytes) (hlow : maxFragPt < b.length)
    (hhigh : b.length ≤ 2 * maxFragPt) :
    splitFragments b = [b.take maxFragPt, b.drop maxFragPt] := by
  obtain ⟨n, hn⟩ : ∃ n, b.length = n + 2 := ⟨b.length - 2, by omega⟩
  have hfirst : b.isEmpty = false := by
    rw [List.isEmpty_eq_false_iff]
    rintro rfl
    simp at hlow
  have hdrop : (b.drop maxFragPt).length = b.length - maxFragPt := List.length_drop
  have hsecond : (b.drop maxFragPt).isEmpty = false := by
    rw [List.isEmpty_eq_false_iff]
    intro hnil
    rw [hnil, List.length_nil] at hdrop
    omega
  have hrest : (b.drop maxFragPt).drop maxFragPt = [] := by
    rw [List.drop_drop]
    exact List.drop_of_length_le (by omega)
  have htake : (b.drop maxFragPt).take maxFragPt = b.drop maxFragPt :=
    List.take_of_length_le (by omega)
  rw [splitFragments, hn, chunks, hfirst, if_neg (by simp), chunks, hsecond, if_neg (by simp),
    hrest, chunks_nil, htake]

end Cutting

section Sender

variable (C : Suite)

/-- What the packets of one message are made of. -/
structure Sending where
  senderId : Fixed 32
  key : SessionKey
  msgId : ℕ
  nonce : ℕ → Nonce
  chunks : List Bytes

namespace Sending

def total (x : Sending) : ℕ := x.chunks.length

def payload (x : Sending) (i : ℕ) (chunk : Bytes) : Bytes :=
  messagePayload C x.senderId x.key (x.nonce i) x.msgId i x.total chunk

def packet (x : Sending) (i : ℕ) (chunk : Bytes) : Bytes :=
  messagePacket C x.senderId x.key (x.nonce i) x.msgId i x.total chunk

def packets (x : Sending) : List Bytes := x.chunks.mapIdx (x.packet C)

def Sendable (x : Sending) : Prop :=
  ∀ i chunk, x.chunks[i]? = some chunk → Fits x.msgId i x.total chunk.length

theorem mem_packets (x : Sending) (p : Bytes) :
    p ∈ x.packets C ↔ ∃ i chunk, x.chunks[i]? = some chunk ∧ p = x.packet C i chunk := by
  rw [packets, List.mem_mapIdx]
  constructor
  · rintro ⟨i, hi, rfl⟩
    exact ⟨i, x.chunks[i], List.getElem?_eq_getElem hi, rfl⟩
  · rintro ⟨i, chunk, hchunk, rfl⟩
    obtain ⟨hi, rfl⟩ := List.getElem?_eq_some_iff.mp hchunk
    exact ⟨i, hi, rfl⟩

end Sending

/-- The message a call of send() is about to put on the wire. -/
def sending (env : Env) (t : MeshTransport) (key : SessionKey) (message : Bytes) : Sending where
  senderId := t.senderId
  key := key
  msgId := t.msgIdCounter
  nonce := env.nonce
  chunks := splitFragments
    ((C.signMessage message t.identity.signingKeypair.signingKey).toList ++ message)

/-- There is always a fragment to send: it starts with the signature. -/
theorem sending_chunks_ne_nil (env : Env) (t : MeshTransport) (key : SessionKey) (message : Bytes) :
    (sending C env t key message).chunks ≠ [] := by
  apply splitFragments_ne_nil _
  rw [List.length_append, List.Vector.toList_length]
  omega

theorem exists_first_chunk (env : Env) (t : MeshTransport) (key : SessionKey) (message : Bytes) :
    ∃ chunk, (sending C env t key message).chunks[0]? = some chunk := by
  have hpos := List.length_pos_iff.mpr (sending_chunks_ne_nil C env t key message)
  exact ⟨_, List.getElem?_eq_getElem hpos⟩

theorem exists_last_chunk (env : Env) (t : MeshTransport) (key : SessionKey) (message : Bytes) :
    ∃ i chunk, (sending C env t key message).chunks[i]? = some chunk ∧
      i + 1 = (sending C env t key message).total := by
  have hpos : 0 < (sending C env t key message).chunks.length :=
    List.length_pos_iff.mpr (sending_chunks_ne_nil C env t key message)
  have hlast : (sending C env t key message).chunks.length - 1 <
      (sending C env t key message).chunks.length := by omega
  refine ⟨_, _, List.getElem?_eq_getElem hlast, ?_⟩
  rw [Sending.total]
  omega

theorem sendFragments_raised_iff (env : Env) (session : SessionInfo) (msgId fragTotal : ℕ)
    (t : MeshTransport) (fragIdx : ℕ) (chunks : List Bytes) :
    (sendFragments C env session msgId fragTotal t fragIdx chunks).raised = none ↔
      ∀ i chunk, chunks[i]? = some chunk → Fits msgId (fragIdx + i) fragTotal chunk.length := by
  induction chunks generalizing t fragIdx with
  | nil => simp [sendFragments, done]
  | cons first rest ih =>
    have hpacket := fragmentPacket_eq C t.senderId session.sessionKey (env.nonce fragIdx) msgId
      fragIdx fragTotal first
    by_cases hfits : Fits msgId fragIdx fragTotal first.length
    · rw [if_pos hfits] at hpacket
      simp only [sendFragments, attempt, hpacket]
      rw [ih]
      constructor
      · intro hrest i chunk hchunk
        cases i with
        | zero =>
          have heq : first = chunk := Option.some.inj hchunk
          rw [← heq]
          exact hfits
        | succ i =>
          have hfits' := hrest i chunk hchunk
          rwa [Nat.add_assoc, Nat.add_comm 1 i] at hfits'
      · intro hall i chunk hchunk
        have hfits' := hall (i + 1) chunk hchunk
        rwa [Nat.add_comm i 1, ← Nat.add_assoc] at hfits'
    · rw [if_neg hfits] at hpacket
      simp only [sendFragments, attempt, hpacket, raise]
      exact iff_of_false (by simp) fun hall => hfits (hall 0 first rfl)

theorem sendFragments_effects (env : Env) (session : SessionInfo) (msgId fragTotal : ℕ)
    (t : MeshTransport) (fragIdx : ℕ) (chunks : List Bytes)
    (h : ∀ i chunk, chunks[i]? = some chunk → Fits msgId (fragIdx + i) fragTotal chunk.length) :
    (sendFragments C env session msgId fragTotal t fragIdx chunks).effects =
      (chunks.mapIdx fun i chunk => messagePacket C t.senderId session.sessionKey
        (env.nonce (fragIdx + i)) msgId (fragIdx + i) fragTotal chunk).flatMap
          (fun pkt => t.sendRaw pkt session.peerAddr) := by
  induction chunks generalizing t fragIdx with
  | nil => rfl
  | cons first rest ih =>
    have hfits : Fits msgId fragIdx fragTotal first.length := h 0 first rfl
    have hpacket := fragmentPacket_eq C t.senderId session.sessionKey (env.nonce fragIdx) msgId
      fragIdx fragTotal first
    rw [if_pos hfits] at hpacket
    simp only [sendFragments, attempt, hpacket]
    rw [ih _ _ (fun i chunk hchunk => by
      have hfits' := h (i + 1) chunk hchunk
      rwa [Nat.add_comm i 1, ← Nat.add_assoc] at hfits'), List.mapIdx_cons, List.flatMap_cons]
    simp only [Nat.add_zero, sendRaw, Nat.add_comm, Nat.add_left_comm]

/-- A call of send() to a peer with a session raises unless its packets can be built. -/
theorem send_raised_iff (env : Env) (t : MeshTransport) (peerId : String) (message : Bytes)
    (session : SessionInfo) (hsession : t.sessions.get? peerId = some session) :
    (send C env t peerId message).raised = none ↔
      (sending C env t session.sessionKey message).Sendable := by
  have hloop := sendFragments_raised_iff C env session t.msgIdCounter
    (sending C env t session.sessionKey message).total
    { t with msgIdCounter := t.msgIdCounter + 1 } 0
    (sending C env t session.sessionKey message).chunks
  simp only [Nat.zero_add] at hloop
  refine Iff.trans ?_ hloop
  simp only [send, hsession]
  split <;> rfl

/-- Packets can be built for every msg_id of four bytes and up to 255 fragments. -/
theorem sendable_iff (env : Env) (t : MeshTransport) (key : SessionKey) (message : Bytes) :
    (sending C env t key message).Sendable ↔
      t.msgIdCounter < 256 ^ 4 ∧ (sending C env t key message).total < 256 := by
  constructor
  · intro h
    obtain ⟨first, hfirst⟩ := exists_first_chunk C env t key message
    have hfits := h 0 first hfirst
    exact ⟨hfits.1, hfits.2.2.1⟩
  · rintro ⟨hid, htotal⟩ i chunk hchunk
    obtain ⟨hi, hget⟩ := List.getElem?_eq_some_iff.mp hchunk
    have hi' : i < (sending C env t key message).total := hi
    have hsize : chunk.length ≤ maxFragPt :=
      chunk_length_le _ _ _ chunk (List.mem_iff_getElem.mpr ⟨i, hi, hget⟩)
    refine ⟨hid, by omega, htotal, ?_⟩
    simp only [maxFragPt, maxPayload, mtu, overhead, headerSize, macSize, fragHeaderSize, nonceSize,
      tagSize, sigSize] at hsize ⊢
    omega

/-- A call of send() that does not raise sends every packet of its message. -/
theorem send_ok (env : Env) (t : MeshTransport) (peerId : String) (message : Bytes)
    (session : SessionInfo) (hsession : t.sessions.get? peerId = some session)
    (h : (send C env t peerId message).raised = none) :
    (sending C env t session.sessionKey message).Sendable ∧
    (send C env t peerId message).effects =
      ((sending C env t session.sessionKey message).packets C).flatMap
        (fun pkt => t.sendRaw pkt session.peerAddr) := by
  have hsendable := (send_raised_iff C env t peerId message session hsession).mp h
  have heffects := sendFragments_effects C env session t.msgIdCounter
    (sending C env t session.sessionKey message).total
    { t with msgIdCounter := t.msgIdCounter + 1 } 0
    (sending C env t session.sessionKey message).chunks
    (fun i chunk hchunk => by rw [Nat.zero_add]; exact hsendable i chunk hchunk)
  simp only [Nat.zero_add] at heffects
  refine ⟨hsendable, ?_⟩
  simp only [send, hsession]
  split <;> exact heffects

theorem sendto_packet (env : Env) (t : MeshTransport) (peerId : String) (message : Bytes)
    (session : SessionInfo) (hsession : t.sessions.get? peerId = some session)
    (h : (send C env t peerId message).raised = none) (hudp : t.udpTransport = true) (i : ℕ)
    (chunk : Bytes) (hchunk : (sending C env t session.sessionKey message).chunks[i]? = some chunk) :
    .sendto ((sending C env t session.sessionKey message).packet C i chunk) session.peerAddr ∈
      (send C env t peerId message).effects := by
  rw [(send_ok C env t peerId message session hsession h).2]
  refine List.mem_flatMap.mpr ⟨_, (Sending.mem_packets C _ _).mpr ⟨i, chunk, hchunk, rfl⟩, ?_⟩
  rw [sendRaw, if_pos hudp]
  exact List.mem_singleton_self _

end Sender

section Parsing

variable (C : Suite)

theorem unpackFragHeader_payload (senderId : Fixed 32) (key : SessionKey) (nonce : Nonce)
    (msgId fragIdx fragTotal : ℕ) (chunk : Bytes)
    (hfits : Fits msgId fragIdx fragTotal chunk.length) :
    unpackFragHeader (messagePayload C senderId key nonce msgId fragIdx fragTotal chunk) =
      ⟨msgId, fragIdx, fragTotal⟩ := by
  obtain ⟨hid, hidx, htotal, _⟩ := hfits
  have hmsg : slice (messagePayload C senderId key nonce msgId fragIdx fragTotal chunk) 0 4 =
      packBE 4 msgId := by
    simp only [messagePayload, fragHeader, List.append_assoc]
    exact slice_append_left _ _ _ (packBE_length 4 _)
  have hindex : slice (messagePayload C senderId key nonce msgId fragIdx fragTotal chunk) 4 1 =
      packBE 1 fragIdx := by
    simp only [messagePayload, fragHeader, List.append_assoc]
    exact slice_piece _ _ _ _ _ (packBE_length 4 _) (packBE_length 1 _)
  have hcount : slice (messagePayload C senderId key nonce msgId fragIdx fragTotal chunk) 5 1 =
      packBE 1 fragTotal := by
    have hpre : (packBE 4 msgId ++ packBE 1 fragIdx).length = 5 := by
      simp only [List.length_append, packBE_length]
    simp only [messagePayload, fragHeader, List.append_assoc]
    have hpiece := slice_piece _ (packBE 1 fragTotal) (nonce.toList ++ C.chachaEncrypt key.raw
      nonce.toList (messageHeader senderId chunk.length) chunk) _ _ hpre (packBE_length 1 _)
    simpa only [List.append_assoc] using hpiece
  simp only [unpackFragHeader, hmsg, hindex, hcount, unpackBE_packBE 4 msgId hid,
    unpackBE_packBE 1 fragIdx (by omega), unpackBE_packBE 1 fragTotal (by omega)]

/-- The nonce and the ciphertext are where the receiver looks for them. -/
theorem decrypt_payload (haead : C.AeadCorrect) (senderId : Fixed 32) (key : SessionKey)
    (nonce : Nonce) (msgId fragIdx fragTotal : ℕ) (chunk : Bytes) :
    C.decryptMessage
      (slice (messagePayload C senderId key nonce msgId fragIdx fragTotal chunk) fragHeaderSize
        nonceSize)
      ((messagePayload C senderId key nonce msgId fragIdx fragTotal chunk).drop
        (fragHeaderSize + nonceSize)) key
      ((messagePacket C senderId key nonce msgId fragIdx fragTotal chunk).take headerSize) =
        .ok chunk := by
  have hheader : (messagePacket C senderId key nonce msgId fragIdx fragTotal chunk).take
      headerSize = messageHeader senderId chunk.length := by
    have hlen := messagePayload_length C senderId key nonce msgId fragIdx fragTotal chunk
    simp only [messagePacket, frame, hlen]
    rw [List.append_assoc]
    exact List.take_left' (header_length .message senderId _)
  have hnonce : slice (messagePayload C senderId key nonce msgId fragIdx fragTotal chunk)
      fragHeaderSize nonceSize = nonce.toList := by
    simp only [messagePayload, List.append_assoc]
    exact slice_piece _ _ _ _ _ (fragHeader_length _ _ _) nonce.toList_length
  have hcipher : (messagePayload C senderId key nonce msgId fragIdx fragTotal chunk).drop
      (fragHeaderSize + nonceSize) =
        C.chachaEncrypt key.raw nonce.toList (messageHeader senderId chunk.length) chunk := by
    have hpre : (fragHeader msgId fragIdx fragTotal ++ nonce.toList).length =
        fragHeaderSize + nonceSize := by
      rw [List.length_append, fragHeader_length, List.Vector.toList_length]
    exact List.drop_left' hpre
  rw [hheader, hnonce, hcipher]
  exact C.decrypt_encrypt haead nonce chunk key (messageHeader senderId chunk.length)

theorem verifyMac_messagePacket (senderId : Fixed 32) (key : SessionKey) (nonce : Nonce)
    (msgId fragIdx fragTotal : ℕ) (chunk : Bytes) :
    verifyMac C key (messagePacket C senderId key nonce msgId fragIdx fragTotal chunk) =
      .ok () := by
  rw [messagePacket, verifyMac_frame C key .message senderId _ _ (computeMac_length C _ _ _),
    messagePayload_length, if_pos]
  rfl

theorem Sending.parse_packet {x : Sending} (hx : x.Sendable) {i : ℕ} {chunk : Bytes}
    (hchunk : x.chunks[i]? = some chunk) :
    parsePacket (x.packet C i chunk) = .ok ⟨.message, x.senderId.toList, x.payload C i chunk⟩ :=
  parsePacket_messagePacket C x.senderId x.key (x.nonce i) x.msgId i x.total chunk
    (hx i chunk hchunk)

theorem Sending.unpack_payload {x : Sending} (hx : x.Sendable) {i : ℕ} {chunk : Bytes}
    (hchunk : x.chunks[i]? = some chunk) :
    unpackFragHeader (x.payload C i chunk) = ⟨x.msgId, i, x.total⟩ :=
  unpackFragHeader_payload C x.senderId x.key (x.nonce i) x.msgId i x.total chunk (hx i chunk hchunk)

end Parsing

section Receiver

variable (C : Suite)

/-- The peer id an address is bound to, and the session it holds. -/
structure Holds (t : MeshTransport) (addr : Addr) (peerId : String) (session : SessionInfo) :
    Prop where
  byAddr : t.sessionsByAddr.get? addr = some peerId
  session : t.sessions.get? peerId = some session

theorem macGate_of_verified {t : MeshTransport} {addr : Addr} {peerId : String}
    {session : SessionInfo} (h : Holds t addr peerId session) (ptype : PacketType) (data : Bytes)
    (hmac : verifyMac C session.sessionKey data = .ok ()) : macGate C t ptype data addr = true := by
  simp only [macGate, h.byAddr, h.session, hmac, decide_true, ite_self]

/-- The datagram is a fragment that passes every check of the receiver. -/
structure Admitted (t : MeshTransport) (data : Bytes) (addr : Addr) (peerId : String)
    (session : SessionInfo) (payload fragment : Bytes) : Prop where
  parsed : ∃ sid, parsePacket data = .ok ⟨.message, sid, payload⟩
  gate : macGate C t .message data addr = true
  holds : Holds t addr peerId session
  size : fragHeaderSize + nonceSize + tagSize ≤ payload.length
  index : (unpackFragHeader payload).fragIdx < (unpackFragHeader payload).fragTotal
  opened : C.decryptMessage (slice payload fragHeaderSize nonceSize)
    (payload.drop (fragHeaderSize + nonceSize)) session.sessionKey (data.take headerSize) =
      .ok fragment

/-- What the handler does with an admitted fragment. -/
def stored (env : Env) (t : MeshTransport) (addr : Addr) (peerId : String) (session : SessionInfo)
    (payload fragment : Bytes) : Outcome :=
  storeFragment C env t session peerId addr (unpackFragHeader payload).msgId
    (unpackFragHeader payload).fragIdx (unpackFragHeader payload).fragTotal fragment

theorem handleMessage_admitted (env : Env) {t : MeshTransport} {data : Bytes} {addr : Addr}
    {peerId : String} {session : SessionInfo} {payload fragment : Bytes}
    (h : Admitted C t data addr peerId session payload fragment) :
    handleMessage C env t payload addr data =
      stored C env t addr peerId session payload fragment := by
  have hsize := h.size
  have hindex := h.index
  simp only [handleMessage, h.holds.byAddr, h.holds.session, h.opened]
  rw [if_neg (by omega), if_neg (by omega)]
  rfl

theorem dispatch_admitted (env : Env) {t : MeshTransport} {data : Bytes} {addr : Addr}
    {peerId : String} {session : SessionInfo} {payload fragment : Bytes}
    (h : Admitted C t data addr peerId session payload fragment) :
    dispatch C env t data addr =
      { stored C env t addr peerId session payload fragment with
        raised := (stored C env t addr peerId session payload fragment).raised.filter
          (fun e => ¬ swallowed e) } := by
  obtain ⟨sid, hparse⟩ := h.parsed
  simp only [dispatch, hparse, h.gate, if_true, handle, handleMessage_admitted C env h]

/-- A packet of the message passes every check. -/
theorem admitted_packet (haead : C.AeadCorrect) {t : MeshTransport} {addr : Addr}
    {peerId : String} {session : SessionInfo} (h : Holds t addr peerId session) (x : Sending)
    (hkey : session.sessionKey = x.key) (hx : x.Sendable) (i : ℕ) (chunk : Bytes)
    (hchunk : x.chunks[i]? = some chunk) :
    Admitted C t (x.packet C i chunk) addr peerId session (x.payload C i chunk) chunk where
  parsed := ⟨_, Sending.parse_packet C hx hchunk⟩
  gate := macGate_of_verified C h .message (x.packet C i chunk) (by
    rw [hkey]
    exact verifyMac_messagePacket C x.senderId x.key (x.nonce i) x.msgId i x.total chunk)
  holds := h
  size := by
    have hlen : (x.payload C i chunk).length = _ :=
      messagePayload_length C x.senderId x.key (x.nonce i) x.msgId i x.total chunk
    omega
  index := by
    rw [Sending.unpack_payload C hx hchunk]
    exact (List.getElem?_eq_some_iff.mp hchunk).1
  opened := by
    rw [hkey]
    exact decrypt_payload C haead x.senderId x.key (x.nonce i) x.msgId i x.total chunk

/-- A packet of the message has its fragment stored. -/
theorem dispatch_packet (haead : C.AeadCorrect) (env : Env) {t : MeshTransport} {addr : Addr}
    {peerId : String} {session : SessionInfo} (h : Holds t addr peerId session) (x : Sending)
    (hkey : session.sessionKey = x.key) (hx : x.Sendable) (i : ℕ) (chunk : Bytes)
    (hchunk : x.chunks[i]? = some chunk) :
    (dispatch C env t (x.packet C i chunk) addr).state =
      (storeFragment C env t session peerId addr x.msgId i x.total chunk).state ∧
    (dispatch C env t (x.packet C i chunk) addr).effects =
      (storeFragment C env t session peerId addr x.msgId i x.total chunk).effects := by
  have hstored := dispatch_admitted C env (admitted_packet C haead h x hkey hx i chunk hchunk)
  simp only [stored, Sending.unpack_payload C hx hchunk] at hstored
  rw [hstored]
  exact ⟨rfl, rfl⟩

/-- What the buffer of a message holds when the fragments in `kept` have arrived. -/
inductive Buffered (t : MeshTransport) (bufKey : String × ℕ) (chunks : List Bytes) :
    Finset ℕ → Prop
  | absent (hget : t.fragBufs.get? bufKey = none) : Buffered t bufKey chunks ∅
  | present (kept : Finset ℕ) (buf : OrderedDict ℕ Bytes) (hkept : kept ≠ ∅)
      (hget : t.fragBufs.get? bufKey = some buf)
      (hbuf : ∀ j, buf.get? j = if j ∈ kept then chunks[j]? else none) :
      Buffered t bufKey chunks kept

theorem Buffered.openBuffer {t : MeshTransport} {bufKey : String × ℕ} {chunks : List Bytes}
    {kept : Finset ℕ} (h : Buffered t bufKey chunks kept) {buf : OrderedDict ℕ Bytes}
    (hopen : openBuffer t bufKey = some buf) (j : ℕ) :
    buf.get? j = if j ∈ kept then chunks[j]? else none := by
  cases h with
  | absent hget =>
    simp only [Transport.openBuffer, hget] at hopen
    split at hopen
    · contradiction
    · cases hopen
      simp
  | present kept buf' hkept hget hbuf =>
    simp only [Transport.openBuffer, hget, Option.some.injEq] at hopen
    subst hopen
    exact hbuf j

theorem Buffered.eq_empty {t : MeshTransport} {bufKey : String × ℕ} {chunks : List Bytes}
    {kept : Finset ℕ} (h : Buffered t bufKey chunks kept)
    (hopen : Transport.openBuffer t bufKey = none) : kept = ∅ := by
  cases h with
  | absent hget => rfl
  | present kept buf hkept hget hbuf =>
    simp only [Transport.openBuffer, hget] at hopen
    contradiction

theorem size_eq_card (buf : OrderedDict ℕ Bytes) (chunks : List Bytes) (kept : Finset ℕ)
    (hkept : kept ⊆ Finset.range chunks.length)
    (hbuf : ∀ j, buf.get? j = if j ∈ kept then chunks[j]? else none) : buf.size = kept.card := by
  rw [OrderedDict.size_eq_card_keys]
  congr 1
  apply Finset.ext
  intro j
  rw [List.mem_toFinset, OrderedDict.mem_keys_iff]
  constructor
  · rintro ⟨v, hv⟩
    rw [hbuf] at hv
    split at hv
    · assumption
    · contradiction
  · intro hj
    have hlt := Finset.mem_range.mp (hkept hj)
    exact ⟨chunks[j], by rw [hbuf, if_pos hj, List.getElem?_eq_getElem hlt]⟩

theorem joinFragments_eq (buf : OrderedDict ℕ Bytes) (chunks : List Bytes) (n : ℕ)
    (hn : n ≤ chunks.length) (hbuf : ∀ j < n, buf.get? j = chunks[j]?) :
    joinFragments buf n = .ok (chunks.take n).flatten := by
  induction n with
  | zero => rfl
  | succ n ih =>
    have hlt : n < chunks.length := hn
    have hlast : buf.get? n = some chunks[n] := by
      rw [hbuf n (Nat.lt_succ_self n), List.getElem?_eq_getElem hlt]
    simp only [joinFragments, ih (Nat.le_of_succ_le hn) (fun j hj => hbuf j (by omega)), hlast]
    rw [List.take_succ_eq_append_getElem hlt, List.flatten_append, List.flatten_singleton]

/-- A message that its receiver will accept under this verify key. -/
structure Genuine (x : Sending) (message : Bytes) (verifyKey : Ed25519VerifyKey) : Prop where
  sendable : x.Sendable
  nonempty : x.chunks ≠ []
  signed : ∃ sig, sig.length = sigSize ∧ x.chunks.flatten = sig ++ message ∧
    C.verifySignature message sig verifyKey = .ok ()

theorem genuine_sending (env : Env) (t : MeshTransport) (key : SessionKey) (message : Bytes)
    (hsign : C.SignCorrect t.identity.signingKeypair)
    (hsendable : (sending C env t key message).Sendable) :
    Genuine C (sending C env t key message) message t.identity.signingKeypair.verifyKey where
  sendable := hsendable
  nonempty := sending_chunks_ne_nil C env t key message
  signed := ⟨_, List.Vector.toList_length _, splitFragments_flatten _,
    C.verify_sign _ hsign message⟩

def ackPacket (senderId : Fixed 32) (key : SessionKey) (msgId : ℕ) : Bytes :=
  frame .ack senderId (packBE 4 msgId) (computeMac C key
    ([protocolVersion, PacketType.ack.toByte] ++ senderId.toList ++
      packBE 2 (packBE 4 msgId).length) (packBE 4 msgId))

/-- The acknowledgement, and the message callbacks. -/
def delivery (t : MeshTransport) (addr : Addr) (peerId : String) (key : SessionKey) (msgId : ℕ)
    (message : Bytes) : List Effect :=
  t.sendRaw (ackPacket C t.senderId key msgId) addr ++
    t.messageCbs.map (fun cb => .message cb peerId message)

theorem deliverAssembled_signed (env : Env) (t : MeshTransport) (session : SessionInfo)
    (peerId : String) (addr : Addr) (msgId : ℕ) (sig message : Bytes)
    (hsig : sig.length = sigSize)
    (hverify : C.verifySignature message sig session.peerBundle.verifyKey = .ok ()) :
    (deliverAssembled C env t session peerId addr msgId (sig ++ message)).state.fragBufs =
      t.fragBufs ∧
    (deliverAssembled C env t session peerId addr msgId (sig ++ message)).effects =
      delivery C t addr peerId session.sessionKey msgId message := by
  have hack := buildPacket_keyed C .ack t.senderId (packBE 4 msgId) session.sessionKey rfl
    (by rw [packBE_length]; decide)
  unfold deliverAssembled
  rw [if_neg (by rw [List.length_append, hsig]; omega), List.take_left' hsig,
    List.drop_left' hsig]
  simp only [hverify, attempt, hack]
  exact ⟨trivial, rfl⟩

/-- A packet that finds no buffer and no room for one changes nothing. -/
theorem receive_turnedAway (haead : C.AeadCorrect) (env : Env) {t : MeshTransport} {addr : Addr}
    {peerId : String} {session : SessionInfo} (h : Holds t addr peerId session) (x : Sending)
    (hkey : session.sessionKey = x.key) (hx : x.Sendable) (i : ℕ) (chunk : Bytes)
    (hchunk : x.chunks[i]? = some chunk) (hopen : openBuffer t (peerId, x.msgId) = none) :
    (dispatch C env t (x.packet C i chunk) addr).state = t ∧
    (dispatch C env t (x.packet C i chunk) addr).effects = [] := by
  obtain ⟨hstate, heffects⟩ := dispatch_packet C haead env h x hkey hx i chunk hchunk
  rw [hstate, heffects]
  simp only [storeFragment, hopen]
  exact ⟨rfl, rfl⟩

/-- A packet that is let in adds its fragment; the last one missing delivers. -/
theorem receive_kept (haead : C.AeadCorrect) (env : Env) {t : MeshTransport} {addr : Addr}
    {peerId : String} {session : SessionInfo} (h : Holds t addr peerId session) (x : Sending)
    (message : Bytes) (hkey : session.sessionKey = x.key)
    (hx : Genuine C x message session.peerBundle.verifyKey) (i : ℕ) (chunk : Bytes)
    (hchunk : x.chunks[i]? = some chunk) (kept : Finset ℕ)
    (hkept : kept ⊆ Finset.range x.total)
    (hbuf : Buffered t (peerId, x.msgId) x.chunks kept)
    (hopen : openBuffer t (peerId, x.msgId) ≠ none) :
    Buffered (dispatch C env t (x.packet C i chunk) addr).state (peerId, x.msgId) x.chunks
      (collect (Finset.range x.total) kept i) ∧
    (dispatch C env t (x.packet C i chunk) addr).effects =
      if insert i kept = Finset.range x.total then delivery C t addr peerId x.key x.msgId message
      else [] := by
  obtain ⟨hstate, heffects⟩ := dispatch_packet C haead env h x hkey hx.sendable i chunk hchunk
  rw [hstate, heffects]
  obtain ⟨buf, hopen⟩ := Option.ne_none_iff_exists'.mp hopen
  have hi : i < x.total := (List.getElem?_eq_some_iff.mp hchunk).1
  have hinsert : insert i kept ⊆ Finset.range x.total :=
    Finset.insert_subset (Finset.mem_range.mpr hi) hkept
  have hset : ∀ j, (buf.set i chunk).get? j = if j ∈ insert i kept then x.chunks[j]? else none := by
    intro j
    rw [OrderedDict.get?_set]
    by_cases hij : i = j
    · subst j
      rw [if_pos rfl, if_pos (Finset.mem_insert_self i kept), hchunk]
    · rw [if_neg hij, hbuf.openBuffer hopen j]
      simp only [Finset.mem_insert, Ne.symm hij, false_or]
  have hsize := size_eq_card (buf.set i chunk) x.chunks _ hinsert hset
  by_cases hfull : insert i kept = Finset.range x.total
  · have hcard : ¬ (buf.set i chunk).size < x.total := by
      rw [hsize, hfull, Finset.card_range]
      exact Nat.lt_irrefl _
    obtain ⟨sig, hsig, hcontent, hverify⟩ := hx.signed
    have hjoin : joinFragments (buf.set i chunk) x.total = .ok (sig ++ message) := by
      rw [joinFragments_eq _ x.chunks x.total le_rfl, Sending.total, List.take_length, hcontent]
      intro j hj
      rw [hset, hfull, if_pos (Finset.mem_range.mpr hj)]
    simp only [storeFragment, hopen, hcard, if_false, attempt, hjoin]
    let joined : MeshTransport := { t with
      fragBufs := (t.fragBufs.set (peerId, x.msgId) (buf.set i chunk)).erase (peerId, x.msgId) }
    obtain ⟨hbufs, hdelivered⟩ := deliverAssembled_signed C env joined session peerId addr x.msgId
      sig message hsig hverify
    refine ⟨?_, ?_⟩
    · rw [collect, if_pos hfull]
      exact .absent (by rw [hbufs]; exact OrderedDict.get?_erase_self _ _)
    · rw [hdelivered, if_pos hfull, hkey]
      rfl
  · have hcard : (buf.set i chunk).size < x.total := by
      rw [hsize, ← Finset.card_range x.total]
      exact Finset.card_lt_card (Finset.ssubset_iff_subset_ne.mpr ⟨hinsert, hfull⟩)
    simp only [storeFragment, hopen, hcard, if_true, if_neg hfull]
    refine ⟨?_, rfl⟩
    rw [collect, if_neg hfull]
    exact .present _ (buf.set i chunk) (Finset.insert_ne_empty i kept)
      (OrderedDict.get?_set_self _ _ _) hset

end Receiver

section Frame

variable (C : Suite)

/-- The peer and the message id that a MESSAGE datagram is handled under. -/
def about (t : MeshTransport) (data : Bytes) (addr : Addr) : Option (String × ℕ) :=
  match parsePacket data with
  | .ok ⟨.message, _, payload⟩ =>
    (t.sessionsByAddr.get? addr).map (fun peerId => (peerId, (unpackFragHeader payload).msgId))
  | _ => none

theorem fragBufs_deliverAssembled (env : Env) (t : MeshTransport) (session : SessionInfo)
    (peerId : String) (addr : Addr) (msgId : ℕ) (assembled : Bytes) :
    (deliverAssembled C env t session peerId addr msgId assembled).state.fragBufs = t.fragBufs := by
  unfold deliverAssembled attempt
  dsimp only
  repeat' split
  all_goals rfl

/-- Storing a fragment leaves the buffers of other messages alone. -/
theorem fragBufs_storeFragment (env : Env) (t : MeshTransport) (session : SessionInfo)
    (peerId : String) (addr : Addr) (msgId fragIdx fragTotal : ℕ) (fragment : Bytes)
    (bufKey : String × ℕ) (h : (peerId, msgId) ≠ bufKey) :
    (storeFragment C env t session peerId addr msgId fragIdx fragTotal
      fragment).state.fragBufs.get? bufKey = t.fragBufs.get? bufKey := by
  unfold storeFragment attempt
  dsimp only
  repeat' split
  · rfl
  · exact OrderedDict.get?_set_of_ne _ _ h
  · exact OrderedDict.get?_set_of_ne _ _ h
  · rw [fragBufs_deliverAssembled, OrderedDict.get?_erase_of_ne _ h,
      OrderedDict.get?_set_of_ne _ _ h]

theorem fragBufs_handleMessage (env : Env) (t : MeshTransport) (payload : Bytes) (addr : Addr)
    (data : Bytes) (bufKey : String × ℕ)
    (h : ∀ peerId, t.sessionsByAddr.get? addr = some peerId →
      (peerId, (unpackFragHeader payload).msgId) ≠ bufKey) :
    (handleMessage C env t payload addr data).state.fragBufs.get? bufKey =
      t.fragBufs.get? bufKey := by
  unfold handleMessage
  dsimp only
  repeat' split
  all_goals first
    | rfl
    | exact fragBufs_storeFragment C env t _ _ addr _ _ _ _ bufKey (h _ ‹_›)

/-- A datagram touches no buffer but that of the message it is about. -/
theorem fragBufs_dispatch (env : Env) (t : MeshTransport) (data : Bytes) (addr : Addr)
    (bufKey : String × ℕ) (h : about t data addr ≠ some bufKey) :
    (dispatch C env t data addr).state.fragBufs.get? bufKey = t.fragBufs.get? bufKey := by
  unfold about at h
  unfold dispatch
  cases hparse : parsePacket data with
  | error e => rfl
  | ok packet =>
    obtain ⟨ptype, sid, payload⟩ := packet
    rw [hparse] at h
    by_cases hgate : macGate C t ptype data addr = true
    · simp only [hgate, if_true]
      by_cases hmessage : ptype = .message
      · subst hmessage
        refine fragBufs_handleMessage C env t payload addr data bufKey (fun peerId hby heq => h ?_)
        simp only [hby, Option.map_some, heq]
      · by_cases hack : ptype = .ack
        · subst hack
          simp only [handle, handleAck]
          split <;> rfl
        · have hsame := Honest.sameTraffic_handle C env t ⟨ptype, sid, payload⟩ data addr hmessage
            hack
          rw [hsame.fragBufs]
    · simp only [hgate]
      rfl

/-- The message verifies under the session's verify key. -/
def Verified (session : SessionInfo) (message : Bytes) : Prop :=
  ∃ sig, C.verifySignature message sig session.peerBundle.verifyKey = .ok ()

theorem effects_deliverAssembled (env : Env) (t : MeshTransport) (session : SessionInfo)
    (peerId : String) (addr : Addr) (msgId : ℕ) (assembled : Bytes) :
    (deliverAssembled C env t session peerId addr msgId assembled).effects = [] ∨
      ∃ message, Verified C session message ∧
        (deliverAssembled C env t session peerId addr msgId assembled).effects =
          delivery C t addr peerId session.sessionKey msgId message := by
  have hack := buildPacket_keyed C .ack t.senderId (packBE 4 msgId) session.sessionKey rfl
    (by rw [packBE_length]; decide)
  unfold deliverAssembled
  simp only [attempt, hack]
  repeat' split
  · exact Or.inl rfl
  · exact Or.inl rfl
  · exact Or.inl rfl
  · rename_i hverify
    exact Or.inr ⟨_, ⟨_, hverify⟩, rfl⟩

theorem effects_storeFragment (env : Env) (t : MeshTransport) (session : SessionInfo)
    (peerId : String) (addr : Addr) (msgId fragIdx fragTotal : ℕ) (fragment : Bytes) :
    (storeFragment C env t session peerId addr msgId fragIdx fragTotal fragment).effects = [] ∨
      ∃ message, Verified C session message ∧
        (storeFragment C env t session peerId addr msgId fragIdx fragTotal fragment).effects =
          delivery C t addr peerId session.sessionKey msgId message := by
  unfold storeFragment attempt
  dsimp only
  repeat' split
  · exact Or.inl rfl
  · exact Or.inl rfl
  · exact Or.inl rfl
  · exact effects_deliverAssembled C env _ session peerId addr msgId _

/-- All that a MESSAGE datagram can cause is the delivery of the message it is about. -/
theorem effects_message (env : Env) (t : MeshTransport) (data sid payload : Bytes) (addr : Addr)
    (hparse : parsePacket data = .ok ⟨.message, sid, payload⟩) :
    (dispatch C env t data addr).effects = [] ∨ ∃ peerId session message,
      Holds t addr peerId session ∧ Verified C session message ∧
      (dispatch C env t data addr).effects =
        delivery C t addr peerId session.sessionKey (unpackFragHeader payload).msgId message := by
  have hhandle : (handleMessage C env t payload addr data).effects = [] ∨
      ∃ peerId session message, Holds t addr peerId session ∧ Verified C session message ∧
        (handleMessage C env t payload addr data).effects = delivery C t addr peerId
          session.sessionKey (unpackFragHeader payload).msgId message := by
    unfold handleMessage
    split
    · exact Or.inl rfl
    · rename_i peerId hby
      split
      · exact Or.inl rfl
      · rename_i session hsession
        split
        · exact Or.inl rfl
        · dsimp only
          split
          · exact Or.inl rfl
          · split
            · exact Or.inl rfl
            · exact Or.inl rfl
            · rcases effects_storeFragment C env t session peerId addr _ _ _ _ with
                hnone | ⟨m, hverified, heq⟩
              · exact Or.inl hnone
              · exact Or.inr ⟨peerId, session, m, ⟨hby, hsession⟩, hverified, heq⟩
  unfold dispatch
  simp only [hparse]
  split
  · exact hhandle
  · exact Or.inl rfl

/-- MESSAGE datagrams leave the sessions' keys and addresses as they are. -/
theorem sameHandshakes_message (env : Env) (t : MeshTransport) (data sid payload : Bytes)
    (addr : Addr) (hparse : parsePacket data = .ok ⟨.message, sid, payload⟩) :
    SameHandshakes t (dispatch C env t data addr).state := by
  unfold dispatch
  simp only [hparse]
  split
  · exact (handleMessage_trafficOnly C env t payload addr data).same
  · exact SameHandshakes.refl t

end Frame

end Mesim.Reassembly
