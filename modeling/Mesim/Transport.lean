import Mesim.OrderedDict
import Mesim.Packet
import Mathlib.Data.Rat.Defs

/-!
The state of one node's UDP transport and its packet handlers.
Each handler is a function from the state to an outcome: the state it leaves,
the packets and callbacks it produced in order, and the exception it raised, if
any. Mutations made before an exception stay in the outcome's state. Pending
handshakes are objects shared between the handlers and a suspended connect();
they live in a store, and the pending table holds references into it.
-/
namespace Mesim.Transport

open Octets TextCodec Crypto Identity Packet

abbrev Addr := String × ℕ

/-- A registered callable, by identity. -/
abbrev Callback := ℕ

structure SessionInfo where
  peerId : String
  peerAddr : Addr
  sessionKey : SessionKey
  peerBundle : PublicBundle
  establishedAt : ℚ
  lastActive : ℚ
  bytesSent : ℕ
  bytesRecv : ℕ
  deriving DecidableEq

structure PendingHandshake where
  peerAddr : Addr
  peerBundle : Option PublicBundle
  ourSessionKey : Option SessionKey
  respEvent : Bool
  ackEvent : Bool
  deriving DecidableEq

structure InFlight where
  msgId : ℕ
  packetBytes : Bytes
  peerAddr : Addr
  attempt : ℕ
  nextRetryAt : ℚ
  deriving DecidableEq

abbrev maxRetries : ℕ := 3
abbrev maxReassemblyBufs : ℕ := 64

/-- `RETRY_BACKOFFS`, in seconds. -/
def retryBackoffs : List ℚ := [1 / 2, 1, 2]

structure MeshTransport where
  identity : DeviceIdentity
  senderId : Fixed 32
  sessions : OrderedDict String SessionInfo
  sessionsByAddr : OrderedDict Addr String
  pending : OrderedDict Addr ℕ
  handshakes : List PendingHandshake
  inFlight : OrderedDict ℕ InFlight
  fragBufs : OrderedDict (String × ℕ) (OrderedDict ℕ Bytes)
  msgIdCounter : ℕ
  udpTransport : Bool
  messageCbs : List Callback
  connectedCbs : List Callback
  sendFailedCbs : List Callback
  ackCbs : List Callback
  rawPacketCbs : OrderedDict PacketType Callback
  deriving DecidableEq

/-- What one step draws from the operating system: the two clocks, and fresh
randomness for nonces, the KEY_ACK filler and the KEM encapsulation. -/
structure Env where
  time : ℚ
  monotonic : ℚ
  nonce : ℕ → Nonce
  filler : Fixed 8
  seed : Fixed 32

inductive Effect where
  | sendto (packet : Bytes) (addr : Addr)
  | message (cb : Callback) (peerId : String) (plaintext : Bytes)
  | connected (cb : Callback) (peerId : String)
  | sendFailed (cb : Callback) (msgId : ℕ) (addr : Addr)
  | ackReceived (cb : Callback) (msgId : ℕ)
  | rawPacket (cb : Callback) (payload : Bytes) (addr : Addr) (senderId : Bytes)
  deriving DecidableEq

structure Outcome where
  state : MeshTransport
  effects : List Effect
  raised : Option PyError
  deriving DecidableEq

namespace Outcome

def done (t : MeshTransport) : Outcome := ⟨t, [], none⟩

def raise (t : MeshTransport) (e : PyError) : Outcome := ⟨t, [], some e⟩

/-- Continue with the value of a fallible call, or raise its exception in state `t`. -/
def attempt {α : Type} (t : MeshTransport) (x : Except PyError α) (k : α → Outcome) : Outcome :=
  match x with
  | .error e => raise t e
  | .ok a => k a

end Outcome

namespace MeshTransport

def init (identity : DeviceIdentity) : Except PyError MeshTransport := do
  let senderId ← senderIdBytes identity.deviceId
  return {
    identity := identity
    senderId := senderId
    sessions := .empty
    sessionsByAddr := .empty
    pending := .empty
    handshakes := []
    inFlight := .empty
    fragBufs := .empty
    msgIdCounter := 1
    udpTransport := false
    messageCbs := []
    connectedCbs := []
    sendFailedCbs := []
    ackCbs := []
    rawPacketCbs := .empty }

/-- `_send_raw`: a no-op when the socket is not open. -/
def sendRaw (t : MeshTransport) (packet : Bytes) (addr : Addr) : List Effect :=
  if t.udpTransport then [.sendto packet addr] else []

/-- The object the pending table holds for an address. -/
def slot (t : MeshTransport) (addr : Addr) : Option PendingHandshake :=
  (t.pending.get? addr).bind (fun ref => t.handshakes[ref]?)

def modifyHandshake (t : MeshTransport) (ref : ℕ) (f : PendingHandshake → PendingHandshake) :
    MeshTransport :=
  { t with handshakes := t.handshakes.modify ref f }

/-- Allocate a handshake object and store it under the address. -/
def openSlot (t : MeshTransport) (addr : Addr) (handshake : PendingHandshake) : MeshTransport :=
  { t with
    handshakes := t.handshakes ++ [handshake]
    pending := t.pending.set addr t.handshakes.length }

def closeSlot (t : MeshTransport) (addr : Addr) : MeshTransport :=
  { t with pending := t.pending.erase addr }

/-- `self._pending.get(addr)` or a fresh handshake object, with its peer_bundle set. -/
def notePeerBundle (t : MeshTransport) (addr : Addr) (bundle : PublicBundle) : MeshTransport :=
  match t.pending.get? addr with
  | some ref => t.modifyHandshake ref (fun h => { h with peerBundle := some bundle })
  | none => t.openSlot addr
      { peerAddr := addr
        peerBundle := some bundle
        ourSessionKey := none
        respEvent := false
        ackEvent := false }

/-- Both handlers that complete a handshake register the session the same way. -/
def installSession (t : MeshTransport) (now : ℚ) (addr : Addr) (key : SessionKey)
    (bundle : PublicBundle) : MeshTransport :=
  { t with
    sessions := t.sessions.set bundle.deviceId {
      peerId := bundle.deviceId
      peerAddr := addr
      sessionKey := key
      peerBundle := bundle
      establishedAt := now
      lastActive := now
      bytesSent := 0
      bytesRecv := 0 }
    sessionsByAddr := t.sessionsByAddr.set addr bundle.deviceId }

end MeshTransport

open MeshTransport Outcome

variable (C : Suite)

/-- Unpack a received bundle and check its signature. -/
def receiveBundle (payload : Bytes) : Except PyError PublicBundle := do
  let bundle ← unpackBundle payload
  verifyPublicBundle C bundle
  return bundle

def handleHandshake (t : MeshTransport) (payload : Bytes) (addr : Addr) : Outcome :=
  if payload.length ≠ bundleWireLen then done t
  else attempt t (receiveBundle C payload) fun initiatorBundle =>
    let t := t.notePeerBundle addr initiatorBundle
    attempt t (packBundle (getPublicBundle C t.identity)) fun wire =>
      attempt t (buildPacket C .handshakeResp t.senderId wire none) fun pkt =>
        ⟨t, t.sendRaw pkt addr, none⟩

def handleHandshakeResp (t : MeshTransport) (payload : Bytes) (addr : Addr) : Outcome :=
  match t.pending.get? addr with
  | none => done t
  | some ref =>
    if payload.length ≠ bundleWireLen then done t
    else attempt t (receiveBundle C payload) fun respBundle =>
      done (t.modifyHandshake ref
        (fun h => { h with peerBundle := some respBundle, respEvent := true }))

def handleKeyInit (env : Env) (t : MeshTransport) (payload : Bytes) (addr : Addr) : Outcome :=
  match (t.slot addr).bind PendingHandshake.peerBundle with
  | none => done t
  | some initiatorBundle =>
    if hlen : payload.length = mlkemCtLen then
      attempt t (C.kemDecapsulate ⟨payload, hlen⟩ initiatorBundle.encryptPub
          t.identity.encryptKeypair.privateKey t.identity.kemKeypair.secretKey) fun sessionKey =>
        let (nonce, ct) := C.encryptMessage (env.nonce 0) (keyAckMagic ++ env.filler.toList)
          sessionKey []
        attempt t (buildPacket C .keyAck t.senderId (nonce ++ ct) none) fun ackPkt =>
          ⟨(t.installSession env.time addr sessionKey initiatorBundle).closeSlot addr,
            t.sendRaw ackPkt addr ++
              t.connectedCbs.map (fun cb => .connected cb initiatorBundle.deviceId), none⟩
    else done t

def handleKeyAck (env : Env) (t : MeshTransport) (payload : Bytes) (addr : Addr) : Outcome :=
  match t.pending.get? addr, (t.slot addr).bind PendingHandshake.ourSessionKey with
  | some ref, some ourSessionKey =>
    if payload.length < nonceSize + keyAckMagic.length + tagSize then done t
    else match C.decryptMessage (payload.take nonceSize) (payload.drop nonceSize)
        ourSessionKey [] with
      | .error .invalidTag => done t
      | .error e => raise t e
      | .ok pt =>
        if ¬ keyAckMagic <+: pt then done t
        else match (t.slot addr).bind PendingHandshake.peerBundle with
          | none => done t
          | some peerBundle =>
            ⟨(t.installSession env.time addr ourSessionKey peerBundle).modifyHandshake ref
                (fun h => { h with ackEvent := true }),
              t.connectedCbs.map (fun cb => .connected cb peerBundle.deviceId), none⟩
  | _, _ => done t

/-- `b"".join(buf[i] for i in range(total))`: KeyError at the first index missing. -/
def joinFragments (buf : OrderedDict ℕ Bytes) : ℕ → Except PyError Bytes
  | 0 => .ok []
  | total + 1 =>
    match joinFragments buf total, buf.get? total with
    | .ok assembled, some fragment => .ok (assembled ++ fragment)
    | _, _ => .error .keyError

/-- The reassembled bytes are signature and plaintext; ACK and deliver when it verifies. -/
def deliverAssembled (env : Env) (t : MeshTransport) (session : SessionInfo) (peerId : String)
    (addr : Addr) (msgId : ℕ) (assembled : Bytes) : Outcome :=
  if assembled.length < sigSize then done t
  else
    let plaintext := assembled.drop sigSize
    match C.verifySignature plaintext (assembled.take sigSize) session.peerBundle.verifyKey with
    | .error .invalidSignature => done t
    | .error e => raise t e
    | .ok () =>
      attempt t (buildPacket C .ack t.senderId (packBE 4 msgId) (some session.sessionKey))
        fun ackPkt =>
          ⟨{ t with sessions := t.sessions.set peerId { session with
                bytesRecv := session.bytesRecv + plaintext.length
                lastActive := env.time } },
            t.sendRaw ackPkt addr ++ t.messageCbs.map (fun cb => .message cb peerId plaintext),
            none⟩

/-- The buffer a fragment goes into: the message's own, or a new one while the
table has room. -/
def openBuffer (t : MeshTransport) (bufKey : String × ℕ) : Option (OrderedDict ℕ Bytes) :=
  match t.fragBufs.get? bufKey with
  | some buf => some buf
  | none => if t.fragBufs.size ≥ maxReassemblyBufs then none else some .empty

/-- Store a decrypted fragment; join and deliver once as many indices as the
packet's frag_total are present. -/
def storeFragment (env : Env) (t : MeshTransport) (session : SessionInfo) (peerId : String)
    (addr : Addr) (msgId fragIdx fragTotal : ℕ) (fragment : Bytes) : Outcome :=
  match openBuffer t (peerId, msgId) with
  | none => done t
  | some buf =>
    let buf := buf.set fragIdx fragment
    let stored := { t with fragBufs := t.fragBufs.set (peerId, msgId) buf }
    if buf.size < fragTotal then done stored
    else attempt stored (joinFragments buf fragTotal) fun assembled =>
      deliverAssembled C env { stored with fragBufs := stored.fragBufs.erase (peerId, msgId) }
        session peerId addr msgId assembled

structure FragHeader where
  msgId : ℕ
  fragIdx : ℕ
  fragTotal : ℕ
  deriving DecidableEq

/-- `struct.unpack_from("!IBB", payload, 0)`. -/
def unpackFragHeader (payload : Bytes) : FragHeader :=
  ⟨unpackBE (slice payload 0 4), unpackBE (slice payload 4 1), unpackBE (slice payload 5 1)⟩

def handleMessage (env : Env) (t : MeshTransport) (payload : Bytes) (addr : Addr)
    (fullPacket : Bytes) : Outcome :=
  match t.sessionsByAddr.get? addr with
  | none => done t
  | some peerId =>
    match t.sessions.get? peerId with
    | none => done t
    | some session =>
      if payload.length < fragHeaderSize + nonceSize + tagSize then done t
      else
        let frag := unpackFragHeader payload
        if frag.fragTotal = 0 ∨ frag.fragIdx ≥ frag.fragTotal then done t
        else
          match C.decryptMessage (slice payload fragHeaderSize nonceSize)
              (payload.drop (fragHeaderSize + nonceSize)) session.sessionKey
              (fullPacket.take headerSize) with
          | .error .invalidTag => done t
          | .error e => raise t e
          | .ok fragmentWithSig =>
            storeFragment C env t session peerId addr frag.msgId frag.fragIdx frag.fragTotal
              fragmentWithSig

def handleAck (t : MeshTransport) (payload : Bytes) : Outcome :=
  if payload.length < 4 then done t
  else
    let msgId := unpackBE (slice payload 0 4)
    ⟨{ t with inFlight := t.inFlight.erase msgId },
      t.ackCbs.map (fun cb => .ackReceived cb msgId), none⟩

/-- The session object found under `peerId` answers the PING. -/
def handlePing (env : Env) (t : MeshTransport) (addr : Addr) (peerId : String)
    (session : SessionInfo) : Outcome :=
  attempt t (buildPacket C .pong t.senderId [] (some session.sessionKey)) fun pkt =>
    ⟨{ t with sessions := t.sessions.set peerId { session with lastActive := env.time } },
      t.sendRaw pkt addr, none⟩

/-- The MAC check ahead of the handlers. An address with no peer id, or with the
empty one (falsy in Python), is not checked. -/
def macGate (t : MeshTransport) (ptype : PacketType) (data : Bytes) (addr : Addr) : Bool :=
  match t.sessionsByAddr.get? addr with
  | none => true
  | some peerId =>
    if peerId = "" ∨ ptype.isHandshake then true
    else match t.sessions.get? peerId with
      | none => false
      | some session => verifyMac C session.sessionKey data = .ok ()

def handle (env : Env) (t : MeshTransport) (packet : ParsedPacket) (data : Bytes) (addr : Addr) :
    Outcome :=
  match packet.ptype with
  | .handshake => handleHandshake C t packet.payload addr
  | .handshakeResp => handleHandshakeResp C t packet.payload addr
  | .keyInit => handleKeyInit C env t packet.payload addr
  | .keyAck => handleKeyAck C env t packet.payload addr
  | .message => handleMessage C env t packet.payload addr data
  | .ack => handleAck t packet.payload
  | .ping =>
    let peerId := (t.sessionsByAddr.get? addr).getD ""
    match t.sessions.get? peerId with
    | none => done t
    | some session => handlePing C env t addr peerId session
  | .pong => done t
  | .storeForward | .originator =>
    match t.rawPacketCbs.get? packet.ptype with
    | none => done t
    | some cb => ⟨t, [.rawPacket cb packet.payload addr packet.senderId], none⟩

/-- The exceptions `_dispatch` swallows around a handler. -/
def swallowed : PyError → Bool
  | .invalidSignature => true
  | .invalidTag => true
  | e => e.isValueError

def dispatch (env : Env) (t : MeshTransport) (data : Bytes) (addr : Addr) : Outcome :=
  match parsePacket data with
  | .error _ => done t
  | .ok packet =>
    if macGate C t packet.ptype data addr then
      let out := handle C env t packet data addr
      { out with raised := out.raised.filter (fun e => ¬ swallowed e) }
    else done t

end Mesim.Transport
