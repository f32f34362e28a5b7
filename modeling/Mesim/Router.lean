import Mesim.Transport

/-!
The multi-hop router of one node.
A router announces itself with ORIGINATOR packets, learns routes from those of
others and forwards them one hop further. It reads its transport's sender id and
sessions and sends through it; what it raises stays with the state it had
reached. Clocks are exact, timestamps are the eight bytes of a float64.
-/
namespace Mesim.Router

open Octets TextCodec Crypto Identity Packet Transport

abbrev defaultMaxHops : ℕ := 7
abbrev staleRouteSeconds : ℚ := 60
abbrev originatorSize : ℕ := 46
abbrev originatorWireLen : ℕ := originatorSize + sigSize

/-- A float64 as packed by `!d`. -/
structure Timestamp where
  raw : Fixed 8
  deriving DecidableEq

inductive FloatValue where
  | finite (value : ℚ)
  | infinite (negative : Bool)
  | notANumber
  deriving DecidableEq

/-- The value of an IEEE 754 binary64 bit pattern. -/
def Timestamp.value (t : Timestamp) : FloatValue :=
  let bits : ℕ := unpackBE t.raw.toList
  let negative := decide (bits / 2 ^ 63 % 2 = 1)
  let exponent : ℕ := bits / 2 ^ 52 % 2 ^ 11
  let fraction : ℕ := bits % 2 ^ 52
  if exponent = 2047 then
    if fraction = 0 then .infinite negative else .notANumber
  else
    let magnitude : ℚ :=
      if exponent = 0 then (fraction : ℚ) / 2 ^ 1074
      else ((2 ^ 52 + fraction : ℕ) : ℚ) * 2 ^ exponent / 2 ^ 1075
    .finite (if negative then -magnitude else magnitude)

/-- `t < bound` as floats compare. -/
def Timestamp.before (t : Timestamp) (bound : ℚ) : Bool :=
  match t.value with
  | .finite value => value < bound
  | .infinite negative => negative
  | .notANumber => false

structure RouteEntry where
  originatorId : String
  nextHopId : String
  nextHopAddr : Addr
  hopCount : ℕ
  lastSeen : Timestamp
  seqNum : ℕ
  deriving DecidableEq

/-- The fields of an ORIGINATOR payload. -/
structure Originator where
  oidBytes : Fixed 32
  seqNum : ℕ
  hopCount : ℕ
  maxHops : ℕ
  timestamp : Timestamp
  sig : Bytes
  deriving DecidableEq

/-- `struct.pack("!32sId", ...) + bytes([max_hops])`. -/
def originatorSignedBytes (oidBytes : Fixed 32) (seqNum maxHops : ℕ) (timestamp : Timestamp) :
    Except PyError Bytes :=
  if seqNum < 256 ^ 4 then
    if maxHops < 256 then
      .ok (oidBytes.toList ++ packBE 4 seqNum ++ timestamp.raw.toList ++ packBE 1 maxHops)
    else .error (.valueError "bytes must be in range(0, 256)")
  else .error .structError

/-- `struct.pack(_ORIGINATOR_FMT, ...)`. -/
def originatorHeader (oidBytes : Fixed 32) (seqNum hopCount maxHops : ℕ) (timestamp : Timestamp) :
    Except PyError Bytes :=
  if seqNum < 256 ^ 4 ∧ hopCount < 256 ∧ maxHops < 256 then
    .ok (oidBytes.toList ++ packBE 4 seqNum ++ packBE 1 hopCount ++ packBE 1 maxHops ++
      timestamp.raw.toList)
  else .error .structError

variable (C : Suite)

def packOriginator (originatorId : String) (seqNum hopCount maxHops : ℕ) (timestamp : Timestamp)
    (signingKey : Ed25519SigningKey) : Except PyError Bytes := do
  let oidBytes ← senderIdBytes originatorId
  let header ← originatorHeader oidBytes seqNum hopCount maxHops timestamp
  let signed ← originatorSignedBytes oidBytes seqNum maxHops timestamp
  return header ++ (C.signMessage signed signingKey).toList

def unpackOriginator (data : Bytes) : Except PyError Originator :=
  if h : data.length = originatorWireLen then
    .ok {
      oidBytes := bundleField data 0 32 (by rw [h]; decide)
      seqNum := unpackBE (slice data 32 4)
      hopCount := unpackBE (slice data 36 1)
      maxHops := unpackBE (slice data 37 1)
      timestamp := ⟨bundleField data 38 8 (by rw [h]; decide)⟩
      sig := data.drop originatorSize }
  else .error (.valueError ("ORIGINATOR must be 110 bytes, got " ++ toString data.length))

/-- Forwarding keeps the original signature, which does not cover hop_count. -/
def repackOriginator (oidBytes : Fixed 32) (seqNum hopCount maxHops : ℕ) (timestamp : Timestamp)
    (originalSig : Bytes) : Except PyError Bytes := do
  let header ← originatorHeader oidBytes seqNum hopCount maxHops timestamp
  return header ++ originalSig

structure MeshRouter where
  identity : DeviceIdentity
  maxHops : ℕ
  seqNum : ℕ
  routes : OrderedDict String RouteEntry
  seenSeq : OrderedDict String ℕ
  knownBundles : OrderedDict String PublicBundle
  deriving DecidableEq

structure RouterOutcome where
  state : MeshRouter
  effects : List Effect
  raised : Option PyError
  deriving DecidableEq

namespace RouterOutcome

def done (r : MeshRouter) : RouterOutcome := ⟨r, [], none⟩

def attempt {α : Type} (r : MeshRouter) (x : Except PyError α) (k : α → RouterOutcome) :
    RouterOutcome :=
  match x with
  | .error e => ⟨r, [], some e⟩
  | .ok a => k a

end RouterOutcome

namespace MeshRouter

def init (identity : DeviceIdentity) (maxHops : ℕ) : MeshRouter where
  identity := identity
  maxHops := maxHops
  seqNum := 0
  routes := .empty
  seenSeq := .empty
  knownBundles := .empty

/-- The route to a peer unless it is stale: `time.time() - last_seen > 60`. -/
def routeTo (r : MeshRouter) (now : ℚ) (peerId : String) : Option RouteEntry :=
  match r.routes.get? peerId with
  | none => none
  | some entry => if entry.lastSeen.before (now - staleRouteSeconds) then none else some entry

/-- A newer announcement wins; an equally new one wins with fewer hops. -/
def updateRoute (r : MeshRouter) (originatorId nextHopId : String) (nextHopAddr : Addr)
    (hopCount seqNum : ℕ) (timestamp : Timestamp) : MeshRouter :=
  let accepted := { r with routes := r.routes.set originatorId {
    originatorId := originatorId
    nextHopId := nextHopId
    nextHopAddr := nextHopAddr
    hopCount := hopCount
    lastSeen := timestamp
    seqNum := seqNum } }
  match r.routes.get? originatorId with
  | none => accepted
  | some existing =>
    if seqNum < existing.seqNum then r
    else if seqNum = existing.seqNum ∧ hopCount ≥ existing.hopCount then r
    else accepted

/-- Removes the stale entries; the count it returns is not modelled. -/
def purgeStale (r : MeshRouter) (now : ℚ) : MeshRouter :=
  let stale := r.routes.entries.filter (fun e => e.2.lastSeen.before (now - staleRouteSeconds))
  { r with routes := stale.foldl (fun routes e => routes.erase e.1) r.routes }

def registerBundle (r : MeshRouter) (peerId : String) (bundle : PublicBundle) : MeshRouter :=
  { r with knownBundles := r.knownBundles.set peerId bundle }

end MeshRouter

open RouterOutcome

/-- The packet a router builds around its data: not through build_packet, and with ZERO_MAC. -/
def originatorPacket (t : MeshTransport) (data : Bytes) : Except PyError Bytes := do
  let header ← packHeader .originator t.senderId data.length
  return header ++ data ++ zeroMac

def broadcastOriginator (r : MeshRouter) (t : MeshTransport) (timestamp : Timestamp) :
    RouterOutcome :=
  let r := { r with seqNum := r.seqNum + 1 }
  attempt r (packOriginator C r.identity.deviceId r.seqNum 0 r.maxHops timestamp
      r.identity.signingKeypair.signingKey) fun data =>
    attempt r (originatorPacket t data) fun pkt =>
      ⟨r, t.sessions.values.flatMap (fun session => t.sendRaw pkt session.peerAddr), none⟩

/-- Whether the originator is unknown or its signature verifies. -/
def signatureAccepted (r : MeshRouter) (o : Originator) : Except PyError Unit :=
  match r.knownBundles.get? (decodeAsciiReplace o.oidBytes.toList) with
  | none => .ok ()
  | some bundle => do
    let signed ← originatorSignedBytes o.oidBytes o.seqNum o.maxHops o.timestamp
    C.verifySignature signed o.sig bundle.verifyKey

/-- The data to forward: signed anew for an unknown originator, repacked otherwise. -/
def forwardData (r : MeshRouter) (o : Originator) : Except PyError Bytes :=
  match r.knownBundles.get? (decodeAsciiReplace o.oidBytes.toList) with
  | none => packOriginator C (decodeAsciiReplace o.oidBytes.toList) o.seqNum (o.hopCount + 1)
      o.maxHops o.timestamp r.identity.signingKeypair.signingKey
  | some _ => repackOriginator o.oidBytes o.seqNum (o.hopCount + 1) o.maxHops o.timestamp o.sig

/-- The end of `_handle_originator`: forward within the hop budget, not back to the sender. -/
def forwardOriginator (r : MeshRouter) (t : MeshTransport) (o : Originator) (fromAddr : Addr) :
    RouterOutcome :=
  if o.hopCount ≥ o.maxHops then done r
  else attempt r (forwardData C r o) fun data =>
    attempt r (originatorPacket t data) fun pkt =>
      ⟨r, t.sessions.values.flatMap (fun session =>
        if session.peerAddr ≠ fromAddr then t.sendRaw pkt session.peerAddr else []), none⟩

def handleOriginator (r : MeshRouter) (t : MeshTransport) (payload : Bytes) (fromAddr : Addr)
    (senderId : Bytes) : RouterOutcome :=
  match unpackOriginator payload with
  | .error _ => done r
  | .ok o =>
    if o.oidBytes = t.senderId then done r
    else
      let oid := decodeAsciiReplace o.oidBytes.toList
      match signatureAccepted C r o with
      | .error .invalidSignature => done r
      | .error e => ⟨r, [], some e⟩
      | .ok () =>
        if (r.seenSeq.get? oid).any (fun seen => o.seqNum ≤ seen) then done r
        else
          let r := { r with seenSeq := r.seenSeq.set oid o.seqNum }
          attempt r (deviceIdFromBytes senderId) fun nextHopId =>
            let r := r.updateRoute oid nextHopId fromAddr (o.hopCount + 1) o.seqNum o.timestamp
            forwardOriginator C r t o fromAddr

end Mesim.Router
