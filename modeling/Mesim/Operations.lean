import Mesim.Transport

/-!
The operations a node starts itself: send(), one sweep of the retry loop, and
connect(). connect() is a coroutine with two suspension points, so it is cut
into the sections that run between them; a `ConnectCall` is what the suspended
call remembers. `Node.step` collects every event a running node can process.
-/
namespace Mesim.Operations

open Octets TextCodec Crypto Identity Packet Transport
open MeshTransport Outcome

variable (C : Suite)

/-- The chunks of `size` bytes in order, the last one possibly shorter. -/
def chunks (size : ℕ) : ℕ → Bytes → List Bytes
  | 0, _ => []
  | fuel + 1, b => if b.isEmpty then [] else b.take size :: chunks size fuel (b.drop size)

/-- `plaintext_with_sig` cut at the multiples of MAX_FRAG_PT; each chunk takes at
least one byte, so its length bounds their number. -/
def splitFragments (plaintextWithSig : Bytes) : List Bytes :=
  chunks maxFragPt plaintextWithSig.length plaintextWithSig

/-- One packet of a message: the header doubles as associated data. -/
def fragmentPacket (senderId : Fixed 32) (key : SessionKey) (nonce : Nonce)
    (msgId fragIdx fragTotal : ℕ) (chunk : Bytes) : Except PyError Bytes := do
  if msgId < 256 ^ 4 ∧ fragIdx < 256 ∧ fragTotal < 256 then
    let fragHeader := packBE 4 msgId ++ packBE 1 fragIdx ++ packBE 1 fragTotal
    let payloadLen := fragHeaderSize + nonceSize + chunk.length + tagSize
    let pktHeader ← packHeader .message senderId payloadLen
    let (nonce, ct) := C.encryptMessage nonce chunk key pktHeader
    let payload := fragHeader ++ nonce ++ ct
    return pktHeader ++ payload ++ computeMac C key pktHeader payload
  else .error .structError

/-- The loop of send(): each packet overwrites the in-flight entry of its msg_id. -/
def sendFragments (env : Env) (session : SessionInfo) (msgId fragTotal : ℕ) :
    MeshTransport → ℕ → List Bytes → Outcome
  | t, _, [] => done t
  | t, fragIdx, chunk :: rest =>
    attempt t (fragmentPacket C t.senderId session.sessionKey (env.nonce fragIdx) msgId fragIdx
        fragTotal chunk) fun pkt =>
      let t := { t with inFlight := t.inFlight.set msgId {
        msgId := msgId
        packetBytes := pkt
        peerAddr := session.peerAddr
        attempt := 1
        nextRetryAt := env.monotonic + retryBackoffs.getD 0 0 } }
      let out := sendFragments env session msgId fragTotal t (fragIdx + 1) rest
      { out with effects := t.sendRaw pkt session.peerAddr ++ out.effects }

/-- The outcome of send(); the msg_id it returns is the counter's value before the call. -/
def send (env : Env) (t : MeshTransport) (peerId : String) (message : Bytes) : Outcome :=
  match t.sessions.get? peerId with
  | none => raise t .keyError
  | some session =>
    let msgId := t.msgIdCounter
    let t := { t with msgIdCounter := t.msgIdCounter + 1 }
    let sig := C.signMessage message t.identity.signingKeypair.signingKey
    let fragments := splitFragments (sig.toList ++ message)
    let out := sendFragments C env session msgId fragments.length t 0 fragments
    match out.raised with
    | some _ => out
    | none =>
      { out with state := { out.state with
          sessions := out.state.sessions.set peerId { session with
            bytesSent := session.bytesSent + message.length
            lastActive := env.time } } }

/-- The retry loop's treatment of one due entry. -/
def retryEntry (now : ℚ) (t : MeshTransport) (inf : InFlight) : MeshTransport × List Effect :=
  if inf.attempt ≥ maxRetries then
    ({ t with inFlight := t.inFlight.erase inf.msgId },
      t.sendFailedCbs.map (fun cb => .sendFailed cb inf.msgId inf.peerAddr))
  else
    ({ t with inFlight := t.inFlight.set inf.msgId { inf with
        nextRetryAt := now + retryBackoffs.getD inf.attempt 0
        attempt := inf.attempt + 1 } },
      t.sendRaw inf.packetBytes inf.peerAddr)

def retryEntries (now : ℚ) : MeshTransport → List InFlight → MeshTransport × List Effect
  | t, [] => (t, [])
  | t, inf :: rest =>
    let (t, effects) := retryEntry now t inf
    let (t, more) := retryEntries now t rest
    (t, effects ++ more)

/-- One pass of `_retry_loop`: the due entries are collected before any is handled. -/
def retrySweep (env : Env) (t : MeshTransport) : Outcome :=
  let expired := t.inFlight.values.filter (fun inf => env.monotonic ≥ inf.nextRetryAt)
  let (t, effects) := retryEntries env.monotonic t expired
  ⟨t, effects, none⟩

inductive ConnectPhase where
  | awaitResp
  | awaitAck (key : SessionKey)
  | returned (ok : Bool)
  | failed (e : PyError)
  deriving DecidableEq

/-- A call of connect(): its arguments, its handshake object and where it stands. -/
structure ConnectCall where
  peerAddr : Addr
  peerBundle : PublicBundle
  handshake : ℕ
  phase : ConnectPhase
  deriving DecidableEq

/-- connect() up to its first wait: check the bundle, claim the slot, send HANDSHAKE. -/
def connectBegin (t : MeshTransport) (peerAddr : Addr) (peerBundle : PublicBundle) : Outcome :=
  attempt t (verifyPublicBundle C peerBundle) fun _ =>
    let t := t.openSlot peerAddr
      { peerAddr := peerAddr
        peerBundle := some peerBundle
        ourSessionKey := none
        respEvent := false
        ackEvent := false }
    attempt t (packBundle (getPublicBundle C t.identity)) fun payload =>
      attempt t (buildPacket C .handshake t.senderId payload none) fun pkt =>
        ⟨t, t.sendRaw pkt peerAddr, none⟩

/-- connect() from the first wait to the second: encapsulate to the given bundle. -/
def connectEncapsulate (env : Env) (t : MeshTransport) (call : ConnectCall) :
    MeshTransport × List Effect × ConnectPhase :=
  match C.kemEncapsulate env.seed call.peerBundle.encryptPub call.peerBundle.kemPub
      t.identity.encryptKeypair.privateKey with
  | .error e => (t, [], .failed e)
  | .ok (encapResult, sessionKey) =>
    let t := t.modifyHandshake call.handshake
      (fun h => { h with ourSessionKey := some sessionKey })
    match buildPacket C .keyInit t.senderId encapResult.ciphertext.toList none with
    | .error e => (t, [], .failed e)
    | .ok pkt => (t, t.sendRaw pkt call.peerAddr, .awaitAck sessionKey)

structure Node where
  transport : MeshTransport
  calls : List ConnectCall
  deriving DecidableEq

/-- What can happen at a running node. A wait may time out until the call resumes. -/
inductive Event where
  | datagram (data : Bytes) (addr : Addr)
  | connect (peerAddr : Addr) (peerBundle : PublicBundle)
  | resume (call : ℕ)
  | timeout (call : ℕ)
  | send (peerId : String) (message : Bytes)
  | retry

namespace Node

def setPhase (n : Node) (i : ℕ) (phase : ConnectPhase) : Node :=
  { n with calls := n.calls.modify i (fun call => { call with phase := phase }) }

/-- Resume a call whose event is set; a call that is not waiting, or waits for an
event that is not set, stays as it is. -/
def resume (env : Env) (n : Node) (i : ℕ) : Node × List Effect :=
  match n.calls[i]? with
  | none => (n, [])
  | some call =>
    match call.phase, n.transport.handshakes[call.handshake]? with
    | .awaitResp, some h =>
      if h.respEvent then
        let (t, effects, phase) := connectEncapsulate C env n.transport call
        ({ n with transport := t }.setPhase i phase, effects)
      else (n, [])
    | .awaitAck _, some h =>
      if h.ackEvent then
        ({ n with transport := n.transport.closeSlot call.peerAddr }.setPhase i (.returned true),
          [])
      else (n, [])
    | _, _ => (n, [])

def timeout (n : Node) (i : ℕ) : Node :=
  match n.calls[i]? with
  | none => n
  | some call =>
    match call.phase with
    | .awaitResp | .awaitAck _ =>
      { n with transport := n.transport.closeSlot call.peerAddr }.setPhase i (.returned false)
    | _ => n

def connect (n : Node) (peerAddr : Addr) (peerBundle : PublicBundle) : Node × List Effect :=
  let ref := n.transport.handshakes.length
  let out := connectBegin C n.transport peerAddr peerBundle
  let phase := match out.raised with
    | none => .awaitResp
    | some e => .failed e
  ({ transport := out.state, calls := n.calls ++ [⟨peerAddr, peerBundle, ref, phase⟩] },
    out.effects)

def step (env : Env) (n : Node) : Event → Node × List Effect
  | .datagram data addr =>
    let out := dispatch C env n.transport data addr
    ({ n with transport := out.state }, out.effects)
  | .connect peerAddr peerBundle => n.connect C peerAddr peerBundle
  | .resume i => n.resume C env i
  | .timeout i => (n.timeout i, [])
  | .send peerId message =>
    let out := Operations.send C env n.transport peerId message
    ({ n with transport := out.state }, out.effects)
  | .retry =>
    let out := retrySweep env n.transport
    ({ n with transport := out.state }, out.effects)

end Node

end Mesim.Operations
