import Mesim.Nodes

/-!
Honest parties and their packets.
An honest identity's bundle survives the wire and verifies, so the packets it
sends are accepted. The last result is the sequence every responder runs
through: a HANDSHAKE followed by a KEY_INIT registers a session.
-/
namespace Mesim.Honest

open Octets TextCodec Crypto Identity Packet Transport Dispatch Nodes
open MeshTransport Outcome

variable (C : Suite)

/-- What honest identities satisfy: text fields that fit the wire format, and a
matching pair of signing keys. -/
structure HonestIdentity (identity : DeviceIdentity) : Prop where
  publishable : Publishable (getPublicBundle C identity)
  sign : C.SignCorrect identity.signingKeypair

/-- A session as a handshake leaves it: the address is bound to the bundle's device. -/
structure Established (t : MeshTransport) (addr : Addr) (key : SessionKey) (bundle : PublicBundle) :
    Prop where
  byAddr : t.sessionsByAddr.get? addr = some bundle.deviceId
  session : bound t bundle.deviceId = some (addr, key, bundle)

/-- Agreement on everything but handshakes and sessions. -/
structure SameTraffic (t t' : MeshTransport) : Prop where
  identity : t'.identity = t.identity
  senderId : t'.senderId = t.senderId
  inFlight : t'.inFlight = t.inFlight
  fragBufs : t'.fragBufs = t.fragBufs
  msgIdCounter : t'.msgIdCounter = t.msgIdCounter
  udpTransport : t'.udpTransport = t.udpTransport
  messageCbs : t'.messageCbs = t.messageCbs
  sendFailedCbs : t'.sendFailedCbs = t.sendFailedCbs
  ackCbs : t'.ackCbs = t.ackCbs
  rawPacketCbs : t'.rawPacketCbs = t.rawPacketCbs

theorem SameTraffic.setHandshakes {t t' : MeshTransport} (h : SameTraffic t t')
    (sessions : OrderedDict String SessionInfo) (sessionsByAddr : OrderedDict Addr String)
    (pending : OrderedDict Addr ℕ) (handshakes : List PendingHandshake) :
    SameTraffic t { t' with
      sessions := sessions
      sessionsByAddr := sessionsByAddr
      pending := pending
      handshakes := handshakes } :=
  ⟨h.1, h.2, h.3, h.4, h.5, h.6, h.7, h.8, h.9, h.10⟩

theorem established_installSession (t : MeshTransport) (now : ℚ) (addr : Addr) (key : SessionKey)
    (bundle : PublicBundle) : Established (t.installSession now addr key bundle) addr key bundle :=
  ⟨OrderedDict.get?_set_self _ _ _,
    (bound_installSession t now addr key bundle _).trans (if_pos rfl)⟩

/-- The wire form of an honest identity's bundle is accepted and announces that bundle. -/
theorem announced_wire (identity : DeviceIdentity) (h : HonestIdentity C identity) :
    ∃ wire, packBundle (getPublicBundle C identity) = .ok wire ∧ wire.length = bundleWireLen ∧
      announced C wire = some (getPublicBundle C identity) := by
  obtain ⟨wire, hpack, hlen, hunpack⟩ := unpackBundle_packBundle _ h.publishable
  refine ⟨wire, hpack, hlen, (announced_eq_some_iff C wire _).mpr ⟨hlen, ?_⟩⟩
  have hverify := verify_getPublicBundle C identity h.sign
  simp only [receiveBundle, hunpack, hverify, bind, Except.bind, pure, Except.pure]

theorem take_ljust_length (b : Bytes) (n : ℕ) (x : UInt8) : ((ljust b n x).take n).length = n := by
  simp only [ljust, List.length_take, List.length_append, List.length_replicate]
  omega

/-- Whatever its text fields, an identity's bundle is packed to one length. -/
theorem packBundle_own_length (identity : DeviceIdentity) (wire : Bytes)
    (h : packBundle (getPublicBundle C identity) = .ok wire) : wire.length = bundleWireLen := by
  unfold packBundle at h
  split at h
  · contradiction
  · rw [← Except.ok.inj h]
    simp only [List.length_append, take_ljust_length, List.Vector.toList_length, List.length_cons,
      List.length_nil, getPublicBundle]

theorem packBundle_fits (identity : DeviceIdentity) (wire : Bytes)
    (h : packBundle (getPublicBundle C identity) = .ok wire) : wire.length < 65536 := by
  rw [packBundle_own_length C identity wire h]
  decide

theorem parsePacket_unkeyed (ptype : PacketType) (senderId : Fixed 32) (payload : Bytes)
    (h : payload.length < 65536) :
    parsePacket (frame ptype senderId payload zeroMac) =
      .ok ⟨ptype, senderId.toList, payload⟩ :=
  parsePacket_frame ptype senderId payload zeroMac h List.length_replicate

theorem peerBundle_notePeerBundle (t : MeshTransport) (addr : Addr) (bundle : PublicBundle)
    (hvalid : ∀ a ref, t.pending.get? a = some ref → ref < t.handshakes.length) :
    ((t.notePeerBundle addr bundle).slot addr).bind PendingHandshake.peerBundle =
      some bundle := by
  unfold notePeerBundle
  split
  · rename_i ref href
    have hlt := hvalid addr ref href
    simp [MeshTransport.slot, modifyHandshake, href, List.getElem?_modify,
      List.getElem?_eq_getElem hlt]
  · simp [MeshTransport.slot, openSlot]

theorem sameTraffic_notePeerBundle (t : MeshTransport) (addr : Addr) (bundle : PublicBundle) :
    SameTraffic t (t.notePeerBundle addr bundle) := by
  unfold notePeerBundle
  split <;> exact ⟨rfl, rfl, rfl, rfl, rfl, rfl, rfl, rfl, rfl, rfl⟩

theorem SameTraffic.refl (t : MeshTransport) : SameTraffic t t :=
  ⟨rfl, rfl, rfl, rfl, rfl, rfl, rfl, rfl, rfl, rfl⟩

/-- Only MESSAGE and ACK packets touch anything but handshakes and sessions. -/
theorem sameTraffic_handle (env : Env) (t : MeshTransport) (packet : ParsedPacket) (data : Bytes)
    (addr : Addr) (hmessage : packet.ptype ≠ .message) (hack : packet.ptype ≠ .ack) :
    SameTraffic t (handle C env t packet data addr).state := by
  obtain ⟨ptype, sid, payload⟩ := packet
  cases ptype with
  | message => exact absurd rfl hmessage
  | ack => exact absurd rfl hack
  | handshake =>
    simp only [handle, handleHandshake, attempt]
    repeat' split
    all_goals first
      | exact .refl t
      | exact sameTraffic_notePeerBundle t addr _
  | handshakeResp =>
    simp only [handle, handleHandshakeResp, attempt]
    repeat' split
    all_goals exact (SameTraffic.refl t).setHandshakes _ _ _ _
  | keyInit =>
    simp only [handle, handleKeyInit, attempt]
    repeat' split
    all_goals exact (SameTraffic.refl t).setHandshakes _ _ _ _
  | keyAck =>
    simp only [handle, handleKeyAck]
    repeat' split
    all_goals exact (SameTraffic.refl t).setHandshakes _ _ _ _
  | ping =>
    simp only [handle, handlePing, attempt]
    repeat' split
    all_goals exact (SameTraffic.refl t).setHandshakes _ _ _ _
  | pong => exact .refl t
  | storeForward | originator =>
    simp only [handle]
    split <;> exact .refl t

/-- A HANDSHAKE that announces a bundle, followed by any KEY_INIT ciphertext from
the same address, registers a session under the name in the bundle. Nothing asks
for the keys that belong to the bundle. -/
theorem announce_then_keyInit (env env' : Env) (t : MeshTransport) (addr : Addr)
    (sid : Fixed 32) (wire : Bytes) (bundle : PublicBundle) (ciphertext : Fixed mlkemCtLen)
    (key : SessionKey)
    (hvalid : ∀ a ref, t.pending.get? a = some ref → ref < t.handshakes.length)
    (hwire : announced C wire = some bundle)
    (hdecap : C.kemDecapsulate ciphertext bundle.encryptPub
      t.identity.encryptKeypair.privateKey t.identity.kemKeypair.secretKey = .ok key) :
    let t' := (dispatch C env' (dispatch C env t (frame .handshake sid wire zeroMac) addr).state
      (frame .keyInit sid ciphertext.toList zeroMac) addr).state
    Established t' addr key bundle ∧ SameTraffic t t' := by
  have hlen := ((announced_eq_some_iff C wire bundle).mp hwire).1
  have hnoted := dispatch_handshake C env t _ sid.toList wire addr bundle
    (parsePacket_unkeyed .handshake sid wire (by rw [hlen]; decide)) hwire
  have hct : ciphertext.toList.length < 65536 := by
    rw [List.Vector.toList_length]
    decide
  have hsame := sameTraffic_notePeerBundle t addr bundle
  have hinstall : keyInitInstalls C (t.notePeerBundle addr bundle) ciphertext.toList addr =
      some (key, bundle) := by
    simp only [keyInitInstalls, peerBundle_notePeerBundle t addr bundle hvalid,
      List.Vector.toList_length, dite_true, hsame.identity]
    have hself : (⟨ciphertext.toList, ciphertext.toList_length⟩ : Fixed mlkemCtLen) =
        ciphertext := rfl
    rw [hself, hdecap]
  rw [hnoted, dispatch_keyInit C env' _ _ _ _ addr key bundle
    (parsePacket_unkeyed .keyInit sid _ hct) hinstall]
  obtain ⟨hbyAddr, hsession⟩ := established_installSession (t.notePeerBundle addr bundle) env'.time
    addr key bundle
  exact ⟨⟨hbyAddr, hsession⟩, hsame.1, hsame.2, hsame.3, hsame.4, hsame.5, hsame.6, hsame.7,
    hsame.8, hsame.9, hsame.10⟩

/-- The same, as two events of a well-formed node. -/
theorem node_announce_then_keyInit (env env' : Env) (n : Operations.Node) (addr : Addr)
    (sid : Fixed 32) (wire : Bytes) (bundle : PublicBundle) (ciphertext : Fixed mlkemCtLen)
    (key : SessionKey) (hn : Nodes.WellFormed n) (hwire : announced C wire = some bundle)
    (hdecap : C.kemDecapsulate ciphertext bundle.encryptPub
      n.transport.identity.encryptKeypair.privateKey
      n.transport.identity.kemKeypair.secretKey = .ok key) :
    let n' := Runs.run (Nodes.nodeStep C) n
      [(env, .datagram (frame .handshake sid wire zeroMac) addr),
        (env', .datagram (frame .keyInit sid ciphertext.toList zeroMac) addr)]
    Established n'.transport addr key bundle ∧ SameTraffic n.transport n'.transport :=
  announce_then_keyInit C env env' n.transport addr sid wire bundle ciphertext key hn.pending hwire
    hdecap

section Steps

open Operations

theorem keyAck_length (key : SessionKey) (nonce : Nonce) (filler : Fixed 8) :
    ((C.encryptMessage nonce (keyAckMagic ++ filler.toList) key []).1 ++
      (C.encryptMessage nonce (keyAckMagic ++ filler.toList) key []).2).length = 45 := by
  simp only [Suite.encryptMessage, List.length_append, C.chacha_length, List.Vector.toList_length,
    keyAckMagic, List.length_cons, List.length_nil]

/-- A KEY_ACK made with a key opens under that key. -/
theorem ackOpens_encrypt (haead : C.AeadCorrect) (key : SessionKey) (nonce : Nonce)
    (filler : Fixed 8) :
    ackOpens C key ((C.encryptMessage nonce (keyAckMagic ++ filler.toList) key []).1 ++
      (C.encryptMessage nonce (keyAckMagic ++ filler.toList) key []).2) = true := by
  have hlen := keyAck_length C key nonce filler
  have hnonce : (C.encryptMessage nonce (keyAckMagic ++ filler.toList) key []).1.length =
      nonceSize := nonce.toList_length
  have hopen := C.decrypt_encrypt haead nonce (keyAckMagic ++ filler.toList) key []
  rw [ackOpens_eq C key _ (by rw [hlen]; decide) (keyAckMagic ++ filler.toList)]
  · exact decide_eq_true (List.prefix_append _ _)
  · rw [List.take_left' hnonce, List.drop_left' hnonce]
    exact hopen

/-- connect() to a bundle that verifies claims the slot and sends the node's own bundle. -/
theorem connectBegin_packed (t : MeshTransport) (addr : Addr) (bundle : PublicBundle) (wire : Bytes)
    (hverify : verifyPublicBundle C bundle = .ok ())
    (hwire : packBundle (getPublicBundle C t.identity) = .ok wire) :
    connectBegin C t addr bundle =
      ⟨t.openSlot addr ⟨addr, some bundle, none, false, false⟩,
        t.sendRaw (frame .handshake t.senderId wire zeroMac) addr, none⟩ := by
  have hwire' : packBundle (getPublicBundle C (t.openSlot addr
      ⟨addr, some bundle, none, false, false⟩).identity) = .ok wire := hwire
  have hpkt : buildPacket C .handshake (t.openSlot addr
      ⟨addr, some bundle, none, false, false⟩).senderId wire none =
        .ok (frame .handshake t.senderId wire zeroMac) :=
    buildPacket_unkeyed C .handshake t.senderId wire (packBundle_fits C t.identity wire hwire)
  simp only [connectBegin, hverify, attempt, hwire', hpkt]
  rfl

/-- connect() of an honest node claims the slot and sends its HANDSHAKE. -/
theorem step_connect (env : Env) (n : Node) (addr : Addr) (bundle : PublicBundle)
    (hown : HonestIdentity C n.transport.identity)
    (hverify : verifyPublicBundle C bundle = .ok ()) :
    ∃ wire, packBundle (getPublicBundle C n.transport.identity) = .ok wire ∧
      n.step C env (.connect addr bundle) =
        (⟨n.transport.openSlot addr ⟨addr, some bundle, none, false, false⟩,
          n.calls ++ [⟨addr, bundle, n.transport.handshakes.length, .awaitResp⟩]⟩,
        n.transport.sendRaw (frame .handshake n.transport.senderId wire zeroMac) addr) := by
  obtain ⟨wire, hpack, _⟩ := announced_wire C n.transport.identity hown
  refine ⟨wire, hpack, ?_⟩
  simp only [Node.step, Node.connect,
    connectBegin_packed C n.transport addr bundle wire hverify hpack]

/-- A HANDSHAKE that announces a bundle is answered with the node's own. -/
theorem dispatch_answered (env : Env) (t : MeshTransport) (data sid payload own : Bytes)
    (addr : Addr) (bundle : PublicBundle)
    (hparse : parsePacket data = .ok ⟨.handshake, sid, payload⟩)
    (hbundle : announced C payload = some bundle)
    (hown : packBundle (getPublicBundle C t.identity) = .ok own) :
    dispatch C env t data addr = ⟨t.notePeerBundle addr bundle,
      t.sendRaw (frame .handshakeResp t.senderId own zeroMac) addr, none⟩ := by
  obtain ⟨hlen, hreceive⟩ := (announced_eq_some_iff C payload bundle).mp hbundle
  have hself := sameTraffic_notePeerBundle t addr bundle
  have hown' : packBundle (getPublicBundle C (t.notePeerBundle addr bundle).identity) =
      .ok own := by rw [hself.identity, hown]
  have hfits := packBundle_fits C t.identity own hown
  simp only [dispatch, hparse, macGate_handshake C t .handshake _ addr rfl, if_true, handle,
    handleHandshake, hlen, ne_eq, not_true, if_false, hreceive, attempt, hown', hself.senderId,
    buildPacket_unkeyed C .handshakeResp t.senderId own hfits, sendRaw, hself.udpTransport,
    Option.filter_none]

theorem step_handshake (env : Env) (n : Node) (addr : Addr) (sid : Fixed 32) (wire own : Bytes)
    (bundle : PublicBundle) (hwire : announced C wire = some bundle)
    (hown : packBundle (getPublicBundle C n.transport.identity) = .ok own) :
    n.step C env (.datagram (frame .handshake sid wire zeroMac) addr) =
      ({ n with transport := n.transport.notePeerBundle addr bundle },
        n.transport.sendRaw (frame .handshakeResp n.transport.senderId own zeroMac) addr) := by
  have hwireLen := ((announced_eq_some_iff C wire bundle).mp hwire).1
  have hparse := parsePacket_unkeyed .handshake sid wire (by rw [hwireLen]; decide)
  simp only [Node.step,
    dispatch_answered C env n.transport _ sid.toList wire own addr bundle hparse hwire hown]

theorem step_handshakeResp (env : Env) (n : Node) (addr : Addr) (sid : Fixed 32) (wire : Bytes)
    (bundle : PublicBundle) (ref : ℕ) (hwire : announced C wire = some bundle)
    (href : n.transport.pending.get? addr = some ref) :
    n.step C env (.datagram (frame .handshakeResp sid wire zeroMac) addr) =
      ({ n with
          transport := n.transport.modifyHandshake ref
            (fun h => { h with peerBundle := some bundle, respEvent := true }) }, []) := by
  have hlen := ((announced_eq_some_iff C wire bundle).mp hwire).1
  have hparse := parsePacket_unkeyed .handshakeResp sid wire (by rw [hlen]; decide)
  simp only [Node.step,
    dispatch_handshakeResp C env n.transport _ sid.toList wire addr bundle ref hparse hwire href]

/-- The first wait ends: the call encapsulates to the bundle it was given. -/
theorem step_encapsulate (env : Env) (n : Node) (i : ℕ) (call : ConnectCall)
    (h : PendingHandshake) (result : KEMEncapResult) (key : SessionKey)
    (hcall : n.calls[i]? = some call) (hphase : call.phase = .awaitResp)
    (hget : n.transport.handshakes[call.handshake]? = some h) (hresp : h.respEvent = true)
    (hkem : C.kemEncapsulate env.seed call.peerBundle.encryptPub call.peerBundle.kemPub
      n.transport.identity.encryptKeypair.privateKey = .ok (result, key)) :
    n.step C env (.resume i) =
      (Node.setPhase
          { n with
            transport := n.transport.modifyHandshake call.handshake
              (fun h => { h with ourSessionKey := some key }) }
          i (.awaitAck key),
        n.transport.sendRaw (frame .keyInit n.transport.senderId result.ciphertext.toList zeroMac)
          call.peerAddr) := by
  simp only [Node.step, Node.resume, hcall, hphase, hget, hresp, if_true, connectEncapsulate_eq,
    hkem]

/-- A KEY_INIT that decapsulates registers the session and is acknowledged. -/
theorem step_keyInit (env : Env) (n : Node) (addr : Addr) (sid : Fixed 32)
    (ciphertext : Fixed mlkemCtLen) (bundle : PublicBundle) (key : SessionKey)
    (hslot : (n.transport.slot addr).bind PendingHandshake.peerBundle = some bundle)
    (hdecap : C.kemDecapsulate ciphertext bundle.encryptPub
      n.transport.identity.encryptKeypair.privateKey
      n.transport.identity.kemKeypair.secretKey = .ok key) :
    n.step C env (.datagram (frame .keyInit sid ciphertext.toList zeroMac) addr) =
      ({ n with
          transport := (n.transport.installSession env.time addr key bundle).closeSlot addr },
        n.transport.sendRaw (frame .keyAck n.transport.senderId
          ((C.encryptMessage (env.nonce 0) (keyAckMagic ++ env.filler.toList) key []).1 ++
            (C.encryptMessage (env.nonce 0) (keyAckMagic ++ env.filler.toList) key []).2)
            zeroMac) addr ++
          n.transport.connectedCbs.map (fun cb => .connected cb bundle.deviceId)) := by
  have hct : ciphertext.toList.length < 65536 := by
    rw [List.Vector.toList_length]
    decide
  have hparse := parsePacket_unkeyed .keyInit sid ciphertext.toList hct
  have hinstall : keyInitInstalls C n.transport ciphertext.toList addr = some (key, bundle) := by
    simp only [keyInitInstalls, hslot, List.Vector.toList_length, dite_true]
    have hsame : (⟨ciphertext.toList, ciphertext.toList_length⟩ : Fixed mlkemCtLen) =
        ciphertext := rfl
    rw [hsame, hdecap]
  simp only [Node.step,
    dispatch_keyInit C env n.transport _ sid.toList _ addr key bundle hparse hinstall]

/-- Without a slot for its address a KEY_ACK is dropped. -/
theorem step_keyAck_dropped (env : Env) (n : Node) (addr : Addr) (sid : Fixed 32)
    (payload : Bytes) (hlen : payload.length < 65536)
    (hnone : n.transport.pending.get? addr = none) :
    n.step C env (.datagram (frame .keyAck sid payload zeroMac) addr) = (n, []) := by
  have hparse := parsePacket_unkeyed .keyAck sid payload hlen
  simp only [Node.step, dispatch, hparse, macGate_handshake C n.transport .keyAck _ addr rfl,
    if_true, handle, handleKeyAck, hnone, done]

/-- The KEY_ACK that carries the slot's key completes the handshake. -/
theorem step_keyAck (haead : C.AeadCorrect) (env : Env) (n : Node) (addr : Addr) (sid : Fixed 32)
    (nonce : Nonce) (filler : Fixed 8) (key : SessionKey) (bundle : PublicBundle) (ref : ℕ)
    (h : PendingHandshake) (href : n.transport.pending.get? addr = some ref)
    (hget : n.transport.handshakes[ref]? = some h) (hkey : h.ourSessionKey = some key)
    (hbundle : h.peerBundle = some bundle) :
    n.step C env (.datagram (frame .keyAck sid
      ((C.encryptMessage nonce (keyAckMagic ++ filler.toList) key []).1 ++
        (C.encryptMessage nonce (keyAckMagic ++ filler.toList) key []).2) zeroMac) addr) =
      ({ n with
          transport := (n.transport.installSession env.time addr key bundle).modifyHandshake ref
            (fun h => { h with ackEvent := true }) },
        n.transport.connectedCbs.map (fun cb => .connected cb bundle.deviceId)) := by
  have hslot : n.transport.slot addr = some h := by
    simp only [MeshTransport.slot, href, Option.bind_some, hget]
  have hparse := parsePacket_unkeyed .keyAck sid _
    (Nat.lt_of_le_of_lt (Nat.le_of_eq (keyAck_length C key nonce filler)) (by decide))
  have hinstall : keyAckInstalls C n.transport
      ((C.encryptMessage nonce (keyAckMagic ++ filler.toList) key []).1 ++
        (C.encryptMessage nonce (keyAckMagic ++ filler.toList) key []).2) addr =
      some (key, bundle) := by
    simp only [keyAckInstalls, slotKey, hslot, Option.bind_some, hkey,
      ackOpens_encrypt C haead key nonce filler, if_true, hbundle, Option.map_some]
  simp only [Node.step,
    dispatch_keyAck C env n.transport _ sid.toList _ addr key bundle ref hparse hinstall href]

theorem getElem?_modifyHandshake (t : MeshTransport) (ref : ℕ) (h : PendingHandshake)
    (f : PendingHandshake → PendingHandshake) (hget : t.handshakes[ref]? = some h) :
    (t.modifyHandshake ref f).handshakes[ref]? = some (f h) := by
  show (t.handshakes.modify ref f)[ref]? = some (f h)
  rw [List.getElem?_modify, hget]
  simp

/-- A whole handshake from the caller's side: whoever's bundle the response
announces, the session is registered under that bundle, with the key that was
encapsulated to the bundle given to connect(). -/
theorem exchange_run (haead : C.AeadCorrect) (env₀ env₁ env₂ env₃ : Env) (n : Node) (addr : Addr)
    (bundle announcedBundle : PublicBundle) (sid sid' : Fixed 32) (wire : Bytes)
    (result : KEMEncapResult) (key : SessionKey) (nonce : Nonce) (filler : Fixed 8)
    (hown : HonestIdentity C n.transport.identity)
    (hverify : verifyPublicBundle C bundle = .ok ())
    (hwire : announced C wire = some announcedBundle)
    (hkem : C.kemEncapsulate env₂.seed bundle.encryptPub bundle.kemPub
      n.transport.identity.encryptKeypair.privateKey = .ok (result, key)) :
    ∃ n' h, Runs.run (nodeStep C) (nodeStep C n (env₀, .connect addr bundle))
        [(env₁, .datagram (frame .handshakeResp sid wire zeroMac) addr),
          (env₂, .resume n.calls.length),
          (env₃, .datagram (frame .keyAck sid'
            ((C.encryptMessage nonce (keyAckMagic ++ filler.toList) key []).1 ++
              (C.encryptMessage nonce (keyAckMagic ++ filler.toList) key []).2) zeroMac) addr)] =
        n' ∧
      n'.calls[n.calls.length]? =
        some ⟨addr, bundle, n.transport.handshakes.length, .awaitAck key⟩ ∧
      n'.transport.handshakes[n.transport.handshakes.length]? = some h ∧ h.ackEvent = true ∧
      Established n'.transport addr key announcedBundle ∧ SameTraffic n.transport n'.transport ∧
      ∀ peerId, bound n'.transport peerId =
        if announcedBundle.deviceId = peerId then some (addr, key, announcedBundle)
        else bound n.transport peerId := by
  obtain ⟨_, _, hconnect⟩ := step_connect C env₀ n addr bundle hown hverify
  let n₁ : Node := ⟨n.transport.openSlot addr ⟨addr, some bundle, none, false, false⟩,
    n.calls ++ [⟨addr, bundle, n.transport.handshakes.length, .awaitResp⟩]⟩
  have h₁ : nodeStep C n (env₀, .connect addr bundle) = n₁ := congrArg Prod.fst hconnect
  have href : n₁.transport.pending.get? addr = some n.transport.handshakes.length :=
    OrderedDict.get?_set_self _ _ _
  have hget₁ : n₁.transport.handshakes[n.transport.handshakes.length]? =
      some ⟨addr, some bundle, none, false, false⟩ := List.getElem?_concat_length
  let n₂ : Node := { n₁ with
    transport := n₁.transport.modifyHandshake n.transport.handshakes.length
      (fun h => { h with peerBundle := some announcedBundle, respEvent := true }) }
  have h₂ : nodeStep C n₁ (env₁, .datagram (frame .handshakeResp sid wire zeroMac) addr) = n₂ :=
    congrArg Prod.fst (step_handshakeResp C env₁ n₁ addr sid wire announcedBundle _ hwire href)
  have hget₂ := getElem?_modifyHandshake n₁.transport _ _
    (fun h => { h with peerBundle := some announcedBundle, respEvent := true }) hget₁
  let n₃ : Node := Node.setPhase
    { n₂ with
      transport := n₂.transport.modifyHandshake n.transport.handshakes.length
        (fun h => { h with ourSessionKey := some key }) }
    n.calls.length (.awaitAck key)
  have h₃ : nodeStep C n₂ (env₂, .resume n.calls.length) = n₃ :=
    congrArg Prod.fst (step_encapsulate C env₂ n₂ n.calls.length
      ⟨addr, bundle, n.transport.handshakes.length, .awaitResp⟩ _ result key
      List.getElem?_concat_length rfl hget₂ rfl hkem)
  have hget₃ := getElem?_modifyHandshake n₂.transport _ _
    (fun h => { h with ourSessionKey := some key }) hget₂
  let n₄ : Node := { n₃ with
    transport := (n₃.transport.installSession env₃.time addr key announcedBundle).modifyHandshake
      n.transport.handshakes.length (fun h => { h with ackEvent := true }) }
  have h₄ : nodeStep C n₃ (env₃, .datagram (frame .keyAck sid'
      ((C.encryptMessage nonce (keyAckMagic ++ filler.toList) key []).1 ++
        (C.encryptMessage nonce (keyAckMagic ++ filler.toList) key []).2) zeroMac) addr) = n₄ :=
    congrArg Prod.fst (step_keyAck C haead env₃ n₃ addr sid' nonce filler key announcedBundle _ _
      href hget₃ rfl rfl)
  obtain ⟨hbyAddr, hsession⟩ := established_installSession n₃.transport env₃.time addr key
    announcedBundle
  refine ⟨n₄, _, ?_, ?_, getElem?_modifyHandshake (n₃.transport.installSession env₃.time addr key
    announcedBundle) _ _ (fun h => { h with ackEvent := true }) hget₃, rfl, ⟨hbyAddr, hsession⟩,
    ⟨rfl, rfl, rfl, rfl, rfl, rfl, rfl, rfl, rfl, rfl⟩, ?_⟩
  · rw [h₁, Runs.run_cons, h₂, Runs.run_cons, h₃, Runs.run_cons, h₄, Runs.run_nil]
  · show (List.modify _ _ _)[n.calls.length]? = _
    rw [List.getElem?_modify]
    show Option.map _ (n.calls ++ _)[n.calls.length]? = _
    rw [List.getElem?_concat_length]
    simp
  · exact bound_installSession n₃.transport env₃.time addr key announcedBundle

end Steps

section Stub

/-- An identity for the stub suite, whose key pairs repeat one string. -/
def stubIdentity (deviceId callsign : String) (key : Fixed 32) : DeviceIdentity where
  deviceId := deviceId
  callsign := callsign
  rank := .squad
  signingKeypair := ⟨⟨key⟩, ⟨key⟩⟩
  encryptKeypair := ⟨⟨key⟩, ⟨key⟩⟩
  kemKeypair := ⟨⟨List.Vector.replicate 2400 0⟩, ⟨List.Vector.replicate 1184 0⟩⟩

theorem honest_stubIdentity (deviceId callsign : String) (key : Fixed 32)
    (hid : (encodeUtf8 deviceId).length ≤ 36) (hidEnd : (encodeUtf8 deviceId).getLast? ≠ some 0)
    (hcallsign : ∃ b, encodeAscii callsign = some b ∧ b.length ≤ 32 ∧ b.getLast? ≠ some 0) :
    HonestIdentity stub (stubIdentity deviceId callsign key) :=
  ⟨⟨hid, hidEnd, hcallsign, List.Vector.toList_length _⟩, stub_signCorrect key⟩

/-- Three identities and an environment to run the stub suite with. -/
def alpha : DeviceIdentity := stubIdentity "alpha" "A" (List.Vector.replicate 32 1)

def bravo : DeviceIdentity := stubIdentity "bravo" "B" (List.Vector.replicate 32 2)

def charlie : DeviceIdentity := stubIdentity "charlie" "C" (List.Vector.replicate 32 3)

theorem honest_alpha : HonestIdentity stub alpha :=
  honest_stubIdentity "alpha" "A" _ (by decide) (by decide) ⟨[65], by decide, by decide, by decide⟩

theorem honest_bravo : HonestIdentity stub bravo :=
  honest_stubIdentity "bravo" "B" _ (by decide) (by decide) ⟨[66], by decide, by decide, by decide⟩

theorem honest_charlie : HonestIdentity stub charlie :=
  honest_stubIdentity "charlie" "C" _ (by decide) (by decide)
    ⟨[67], by decide, by decide, by decide⟩

def stillEnv : Env where
  time := 0
  monotonic := 0
  nonce := fun _ => List.Vector.replicate 12 0
  filler := List.Vector.replicate 8 0
  seed := List.Vector.replicate 32 0

/-- A node of the stub suite when it starts, without callbacks. -/
theorem exists_started_of (identity : DeviceIdentity)
    (h : (senderIdBytes identity.deviceId).isOk = true) :
    ∃ n, Started identity n ∧ n.transport.connectedCbs = [] := by
  obtain ⟨t, ht⟩ := init_ok identity h
  exact ⟨⟨startWith t [] [] [] [] .empty, []⟩,
    ⟨fresh_startWith identity t ht [] [] [] [] .empty, rfl⟩, rfl⟩

theorem exists_started : ∃ n, Started bravo n ∧ n.transport.identity = bravo := by
  obtain ⟨n, hn, _⟩ := exists_started_of bravo (by decide)
  exact ⟨n, hn, hn.1.identity⟩

def sid : Fixed 32 := List.Vector.replicate 32 48

def repeated (x : UInt8) : Fixed mlkemCtLen := List.Vector.replicate mlkemCtLen x

def firstKey : SessionKey := ⟨stub.mlkemDecap bravo.kemKeypair.secretKey (repeated 0)⟩

/-- Bravo's node after alpha has registered a session from its own address. -/
theorem exists_registered : ∃ n session, Reachable stub bravo n ∧
    n.transport.sessions.get? "alpha" = some session ∧ session.sessionKey = firstKey ∧
    session.peerBundle = getPublicBundle stub alpha := by
  obtain ⟨wire, _, _, hwire⟩ := announced_wire stub alpha honest_alpha
  obtain ⟨start, hstart, _⟩ := exists_started
  obtain ⟨hestablished, _⟩ := node_announce_then_keyInit stub stillEnv stillEnv start
    ("10.0.0.1", 7000) sid wire _ (repeated 0) firstKey (started_wellFormed bravo start hstart) hwire
    (stub_kemDecapsulate (repeated 0) _ _ _)
  obtain ⟨session, hsession, heq⟩ := Option.map_eq_some_iff.mp hestablished.session
  simp only [Prod.mk.injEq] at heq
  exact ⟨_, session, ⟨start, _, hstart, rfl⟩, hsession, heq.2.1, heq.2.2⟩

def alphaAddr : Addr := ("10.0.0.1", 7000)

def bravoAddr : Addr := ("10.0.0.2", 7000)

def sharedKey : SessionKey := ⟨stillEnv.seed⟩

/-- A node that has just been started apart from its sessions, with these callbacks. -/
def OnlySessions (owner : DeviceIdentity) (messageCbs : List Callback)
    (rawPacketCbs : OrderedDict PacketType Callback) (t : MeshTransport) : Prop :=
  ∃ t₀, Fresh owner t₀ ∧ t₀.messageCbs = messageCbs ∧ t₀.rawPacketCbs = rawPacketCbs ∧
    SameTraffic t₀ t

/-- Bravo finds the key that was encapsulated to him. -/
theorem bravo_decapsulates (owner : DeviceIdentity) (howner : owner = bravo) :
    stub.kemDecapsulate (stub.mlkemEncap (getPublicBundle stub bravo).kemPub stillEnv.seed).1
      (getPublicBundle stub alpha).encryptPub owner.encryptKeypair.privateKey
      owner.kemKeypair.secretKey = .ok sharedKey := by
  have hsecret := stub_kemCorrect bravo.kemKeypair stillEnv.seed
  rw [stub_kemDecapsulate, howner]
  exact congrArg (fun secret => Except.ok (SessionKey.mk secret)) hsecret

/-- Alpha's and bravo's nodes after alpha has connected to bravo. -/
theorem exists_established_with (messageCbs sendFailedCbs ackCbs : List Callback)
    (rawPacketCbs : OrderedDict PacketType Callback) : ∃ a b : Operations.Node,
    Reachable stub alpha a ∧ Reachable stub bravo b ∧
    Established a.transport bravoAddr sharedKey (getPublicBundle stub bravo) ∧
    Established b.transport alphaAddr sharedKey (getPublicBundle stub alpha) ∧
    OnlySessions alpha messageCbs rawPacketCbs a.transport ∧
    OnlySessions bravo messageCbs rawPacketCbs b.transport ∧
    a.transport.sendFailedCbs = sendFailedCbs ∧ a.transport.ackCbs = ackCbs := by
  obtain ⟨ta, hta⟩ := init_ok alpha (by decide)
  obtain ⟨tb, htb⟩ := init_ok bravo (by decide)
  obtain ⟨wireA, _, _, hwireA⟩ := announced_wire stub alpha honest_alpha
  obtain ⟨wireB, _, _, hwireB⟩ := announced_wire stub bravo honest_bravo
  have hfreshA := fresh_startWith alpha ta hta messageCbs [] sendFailedCbs ackCbs rawPacketCbs
  have hfreshB := fresh_startWith bravo tb htb messageCbs [] sendFailedCbs ackCbs rawPacketCbs
  let a₀ : Operations.Node := ⟨startWith ta messageCbs [] sendFailedCbs ackCbs rawPacketCbs, []⟩
  let b₀ : Operations.Node := ⟨startWith tb messageCbs [] sendFailedCbs ackCbs rawPacketCbs, []⟩
  obtain ⟨a, _, hrun, _, _, _, hestA, hsameA, _⟩ := exchange_run stub stub_aeadCorrect stillEnv
    stillEnv stillEnv stillEnv a₀ bravoAddr (getPublicBundle stub bravo) (getPublicBundle stub bravo)
    sid sid wireB _ sharedKey (stillEnv.nonce 0) stillEnv.filler
    (by rw [hfreshA.identity]; exact honest_alpha)
    (verify_getPublicBundle stub bravo honest_bravo.sign) hwireB (stub_kemEncapsulate _ _ _ _)
  have hdecap := bravo_decapsulates b₀.transport.identity hfreshB.identity
  obtain ⟨hestB, hsameB⟩ := node_announce_then_keyInit stub stillEnv stillEnv b₀ alphaAddr sid wireA
    _ _ sharedKey (started_wellFormed bravo b₀ ⟨hfreshB, rfl⟩) hwireA hdecap
  have hreachA : Reachable stub alpha a₀ := Runs.Reachable.of_initial ⟨hfreshA, rfl⟩
  have hreachB : Reachable stub bravo b₀ := Runs.Reachable.of_initial ⟨hfreshB, rfl⟩
  have hreachA' : Reachable stub alpha a := by
    rw [← hrun]
    exact (hreachA.next _).run _
  exact ⟨a, _, hreachA', hreachB.run _, hestA, hestB, ⟨_, hfreshA, rfl, rfl, hsameA⟩,
    ⟨_, hfreshB, rfl, rfl, hsameB⟩, hsameA.sendFailedCbs, hsameA.ackCbs⟩

theorem exists_established (messageCbs : List Callback)
    (rawPacketCbs : OrderedDict PacketType Callback) : ∃ a b : Operations.Node,
    Reachable stub alpha a ∧ Reachable stub bravo b ∧
    Established a.transport bravoAddr sharedKey (getPublicBundle stub bravo) ∧
    Established b.transport alphaAddr sharedKey (getPublicBundle stub alpha) ∧
    OnlySessions alpha messageCbs rawPacketCbs a.transport ∧
    OnlySessions bravo messageCbs rawPacketCbs b.transport := by
  obtain ⟨a, b, hreachA, hreachB, hestA, hestB, honlyA, honlyB, _⟩ :=
    exists_established_with messageCbs [] [] rawPacketCbs
  exact ⟨a, b, hreachA, hreachB, hestA, hestB, honlyA, honlyB⟩

end Stub

end Mesim.Honest
