import Mesim.Operations

/-!
What one datagram can do to a node's handshakes and sessions.
Every packet type is covered by one of five cases: nothing about handshakes and
session keys changes, a bundle is announced, a HANDSHAKE is answered, or a
session is installed by KEY_INIT or by KEY_ACK. Later modules argue from these
cases and do not unfold the handlers again.
-/
namespace Mesim.Dispatch

open Octets TextCodec Crypto Identity Packet Transport
open MeshTransport Outcome

/-- The part of a session that a handshake fixes. -/
def bound (t : MeshTransport) (peerId : String) : Option (Addr × SessionKey × PublicBundle) :=
  (t.sessions.get? peerId).map (fun s => (s.peerAddr, s.sessionKey, s.peerBundle))

/-- The key the node's own connect() has put in the slot of an address. -/
def slotKey (t : MeshTransport) (addr : Addr) : Option SessionKey :=
  (t.slot addr).bind PendingHandshake.ourSessionKey

/-- Agreement on everything but message traffic. -/
structure SameHandshakes (t t' : MeshTransport) : Prop where
  pending : t'.pending = t.pending
  handshakes : t'.handshakes = t.handshakes
  sessionsByAddr : t'.sessionsByAddr = t.sessionsByAddr
  bound : ∀ peerId, bound t' peerId = bound t peerId
  identity : t'.identity = t.identity
  senderId : t'.senderId = t.senderId
  udpTransport : t'.udpTransport = t.udpTransport
  messageCbs : t'.messageCbs = t.messageCbs

theorem SameHandshakes.refl (t : MeshTransport) : SameHandshakes t t :=
  ⟨rfl, rfl, rfl, fun _ => rfl, rfl, rfl, rfl, rfl⟩

theorem SameHandshakes.trans {t t' t'' : MeshTransport} (h : SameHandshakes t t')
    (h' : SameHandshakes t' t'') : SameHandshakes t t'' where
  pending := h'.pending.trans h.pending
  handshakes := h'.handshakes.trans h.handshakes
  sessionsByAddr := h'.sessionsByAddr.trans h.sessionsByAddr
  bound peerId := (h'.bound peerId).trans (h.bound peerId)
  identity := h'.identity.trans h.identity
  senderId := h'.senderId.trans h.senderId
  udpTransport := h'.udpTransport.trans h.udpTransport
  messageCbs := h'.messageCbs.trans h.messageCbs

theorem SameHandshakes.slot {t t' : MeshTransport} (h : SameHandshakes t t') (addr : Addr) :
    t'.slot addr = t.slot addr := by
  simp only [MeshTransport.slot, h.pending, h.handshakes]

/-- Counters and clocks of an existing session may change without touching its binding. -/
theorem sameHandshakes_setSession (t : MeshTransport) (peerId : String)
    (session session' : SessionInfo) (h : t.sessions.get? peerId = some session)
    (haddr : session'.peerAddr = session.peerAddr)
    (hkey : session'.sessionKey = session.sessionKey)
    (hbundle : session'.peerBundle = session.peerBundle) :
    SameHandshakes t { t with sessions := t.sessions.set peerId session' } where
  pending := rfl
  handshakes := rfl
  sessionsByAddr := rfl
  bound p := by
    simp only [Dispatch.bound, OrderedDict.get?_set]
    by_cases hp : peerId = p
    · subst p
      simp [h, haddr, hkey, hbundle]
    · simp [hp]
  identity := rfl
  senderId := rfl
  udpTransport := rfl
  messageCbs := rfl

structure Arrival where
  env : Env
  data : Bytes
  addr : Addr

variable (C : Suite)

/-- A datagram arrives and is dispatched. -/
def receive (t : MeshTransport) (a : Arrival) : MeshTransport :=
  (dispatch C a.env t a.data a.addr).state

/-- The bundle a HANDSHAKE or HANDSHAKE_RESP payload announces, when it is accepted. -/
def announced (payload : Bytes) : Option PublicBundle :=
  if payload.length = bundleWireLen then (receiveBundle C payload).toOption else none

/-- The session a KEY_INIT payload would install at this address. -/
def keyInitInstalls (t : MeshTransport) (payload : Bytes) (addr : Addr) :
    Option (SessionKey × PublicBundle) :=
  match (t.slot addr).bind PendingHandshake.peerBundle with
  | none => none
  | some bundle =>
    if hlen : payload.length = mlkemCtLen then
      match C.kemDecapsulate ⟨payload, hlen⟩ bundle.encryptPub
          t.identity.encryptKeypair.privateKey t.identity.kemKeypair.secretKey with
      | .error _ => none
      | .ok key => some (key, bundle)
    else none

/-- Whether a KEY_ACK payload proves knowledge of the key. -/
def ackOpens (key : SessionKey) (payload : Bytes) : Bool :=
  if payload.length < nonceSize + keyAckMagic.length + tagSize then false
  else match C.decryptMessage (payload.take nonceSize) (payload.drop nonceSize) key [] with
    | .ok pt => decide (keyAckMagic <+: pt)
    | .error _ => false

/-- The session a KEY_ACK payload would install at this address. -/
def keyAckInstalls (t : MeshTransport) (payload : Bytes) (addr : Addr) :
    Option (SessionKey × PublicBundle) :=
  match slotKey t addr with
  | none => none
  | some key =>
    if ackOpens C key payload then
      ((t.slot addr).bind PendingHandshake.peerBundle).map (fun bundle => (key, bundle))
    else none

/-- The session a datagram would install, whichever handler does it. -/
def installs (t : MeshTransport) (data : Bytes) (addr : Addr) :
    Option (SessionKey × PublicBundle) :=
  match parsePacket data with
  | .ok ⟨.keyInit, _, payload⟩ => keyInitInstalls C t payload addr
  | .ok ⟨.keyAck, _, payload⟩ => keyAckInstalls C t payload addr
  | _ => none

/-- Packets of these types never carry a handshake step. -/
def IsTraffic (packet : Bytes) : Prop :=
  ∀ p, parsePacket packet = .ok p → p.ptype.isHandshake = false

/-- The packet completes no handshake step in this state. -/
def Idle (t : MeshTransport) (packet : ParsedPacket) (addr : Addr) : Prop :=
  match packet.ptype with
  | .handshake => announced C packet.payload = none
  | .handshakeResp => announced C packet.payload = none ∨ t.pending.get? addr = none
  | .keyInit => keyInitInstalls C t packet.payload addr = none
  | .keyAck => keyAckInstalls C t packet.payload addr = none
  | _ => True

/-- The five things a datagram can do. -/
inductive Case (env : Env) (t : MeshTransport) (data : Bytes) (addr : Addr) : Outcome → Prop
  | other (out : Outcome) (hsame : SameHandshakes t out.state)
      (hidle : ∀ packet, parsePacket data = .ok packet → Idle C t packet addr)
      (htraffic : ∀ pkt a, .sendto pkt a ∈ out.effects → IsTraffic pkt) :
      Case env t data addr out
  | handshake (sid payload : Bytes) (bundle : PublicBundle) (out : Outcome)
      (hparse : parsePacket data = .ok ⟨.handshake, sid, payload⟩)
      (hbundle : announced C payload = some bundle)
      (hstate : out.state = t.notePeerBundle addr bundle)
      (heffects : out.effects = [] ∨ ∃ wire, packBundle (getPublicBundle C t.identity) = .ok wire ∧
        out.effects = t.sendRaw (frame .handshakeResp t.senderId wire zeroMac) addr) :
      Case env t data addr out
  | handshakeResp (sid payload : Bytes) (bundle : PublicBundle) (ref : ℕ)
      (hparse : parsePacket data = .ok ⟨.handshakeResp, sid, payload⟩)
      (hbundle : announced C payload = some bundle)
      (href : t.pending.get? addr = some ref) :
      Case env t data addr ⟨t.modifyHandshake ref
        (fun h => { h with peerBundle := some bundle, respEvent := true }), [], none⟩
  | keyInit (sid payload : Bytes) (key : SessionKey) (bundle : PublicBundle)
      (hparse : parsePacket data = .ok ⟨.keyInit, sid, payload⟩)
      (hinstall : keyInitInstalls C t payload addr = some (key, bundle)) :
      Case env t data addr
        ⟨(t.installSession env.time addr key bundle).closeSlot addr,
          t.sendRaw (frame .keyAck t.senderId ((C.encryptMessage (env.nonce 0)
              (keyAckMagic ++ env.filler.toList) key []).1 ++
            (C.encryptMessage (env.nonce 0) (keyAckMagic ++ env.filler.toList) key []).2)
              zeroMac) addr ++
            t.connectedCbs.map (fun cb => .connected cb bundle.deviceId), none⟩
  | keyAck (sid payload : Bytes) (key : SessionKey) (bundle : PublicBundle) (ref : ℕ)
      (hparse : parsePacket data = .ok ⟨.keyAck, sid, payload⟩)
      (hinstall : keyAckInstalls C t payload addr = some (key, bundle))
      (href : t.pending.get? addr = some ref) :
      Case env t data addr
        ⟨(t.installSession env.time addr key bundle).modifyHandshake ref
            (fun h => { h with ackEvent := true }),
          t.connectedCbs.map (fun cb => .connected cb bundle.deviceId), none⟩

theorem mem_sendRaw (t : MeshTransport) (packet : Bytes) (addr : Addr) (e : Effect)
    (h : e ∈ t.sendRaw packet addr) : e = .sendto packet addr := by
  unfold sendRaw at h
  split at h
  · simpa using h
  · simp at h

theorem announced_eq_some_iff (payload : Bytes) (bundle : PublicBundle) :
    announced C payload = some bundle ↔
      payload.length = bundleWireLen ∧ receiveBundle C payload = .ok bundle := by
  unfold announced
  split
  · rename_i hlen
    cases h : receiveBundle C payload <;> simp [hlen, Except.toOption]
  · rename_i hlen
    simp [hlen]

theorem announced_eq_none_of_error (payload : Bytes) (e : PyError)
    (h : receiveBundle C payload = .error e) : announced C payload = none := by
  unfold announced
  split <;> simp [h, Except.toOption]

theorem isTraffic_buildPacket (ptype : PacketType) (senderId : Fixed 32) (payload : Bytes)
    (sessionKey : Option SessionKey) (pkt : Bytes) (hptype : ptype.isHandshake = false)
    (h : buildPacket C ptype senderId payload sessionKey = .ok pkt) : IsTraffic pkt := by
  obtain ⟨hlen, mac, hmac, rfl, _⟩ := buildPacket_eq_frame C ptype senderId payload sessionKey pkt h
  intro p hp
  rw [parsePacket_frame ptype senderId payload mac hlen hmac] at hp
  rw [← Except.ok.inj hp]
  exact hptype

/-- A handler outcome that touches no handshake state and emits only traffic. -/
structure TrafficOnly (t : MeshTransport) (out : Outcome) : Prop where
  same : SameHandshakes t out.state
  traffic : ∀ pkt a, .sendto pkt a ∈ out.effects → IsTraffic pkt

theorem trafficOnly_done (t : MeshTransport) : TrafficOnly t (done t) :=
  ⟨.refl t, by simp [done]⟩

theorem trafficOnly_raise (t t' : MeshTransport) (e : PyError) (h : SameHandshakes t t') :
    TrafficOnly t (raise t' e) :=
  ⟨h, by simp [raise]⟩

theorem sameHandshakes_setFragBufs (t : MeshTransport)
    (bufs : OrderedDict (String × ℕ) (OrderedDict ℕ Bytes)) :
    SameHandshakes t { t with fragBufs := bufs } :=
  ⟨rfl, rfl, rfl, fun _ => rfl, rfl, rfl, rfl, rfl⟩

theorem sameHandshakes_setInFlight (t : MeshTransport) (inFlight : OrderedDict ℕ InFlight) :
    SameHandshakes t { t with inFlight := inFlight } :=
  ⟨rfl, rfl, rfl, fun _ => rfl, rfl, rfl, rfl, rfl⟩

theorem deliverAssembled_trafficOnly (env : Env) (t : MeshTransport) (session : SessionInfo)
    (peerId : String) (addr : Addr) (msgId : ℕ) (assembled : Bytes)
    (hsession : t.sessions.get? peerId = some session) :
    TrafficOnly t (deliverAssembled C env t session peerId addr msgId assembled) := by
  unfold deliverAssembled
  split
  · exact trafficOnly_done t
  · dsimp only
    split
    · exact trafficOnly_done t
    · exact trafficOnly_raise t t _ (.refl t)
    · unfold attempt
      split
      · exact trafficOnly_raise t t _ (.refl t)
      · rename_i ackPkt hack
        refine ⟨sameHandshakes_setSession t peerId session _ hsession rfl rfl rfl, ?_⟩
        intro pkt a hmem
        rcases List.mem_append.mp hmem with hraw | hcb
        · have heq := mem_sendRaw t ackPkt addr _ hraw
          cases heq
          exact isTraffic_buildPacket C .ack _ _ _ _ rfl hack
        · simp at hcb

theorem storeFragment_trafficOnly (env : Env) (t : MeshTransport) (session : SessionInfo)
    (peerId : String) (addr : Addr) (msgId fragIdx fragTotal : ℕ) (fragment : Bytes)
    (hsession : t.sessions.get? peerId = some session) :
    TrafficOnly t
      (storeFragment C env t session peerId addr msgId fragIdx fragTotal fragment) := by
  unfold storeFragment
  split
  · exact trafficOnly_done t
  · rename_i buf _
    dsimp only
    split
    · exact ⟨sameHandshakes_setFragBufs t _, by simp [done]⟩
    · unfold attempt
      split
      · exact trafficOnly_raise t _ _ (sameHandshakes_setFragBufs t _)
      · rename_i assembled _
        let bufs := t.fragBufs.set (peerId, msgId) (buf.set fragIdx fragment)
        have hdeliver := deliverAssembled_trafficOnly C env
          { t with fragBufs := bufs.erase (peerId, msgId) } session peerId addr msgId assembled
          hsession
        exact ⟨(sameHandshakes_setFragBufs t _).trans hdeliver.same, hdeliver.traffic⟩

theorem handleMessage_trafficOnly (env : Env) (t : MeshTransport) (payload : Bytes) (addr : Addr)
    (fullPacket : Bytes) : TrafficOnly t (handleMessage C env t payload addr fullPacket) := by
  unfold handleMessage
  split
  · exact trafficOnly_done t
  · split
    · exact trafficOnly_done t
    · rename_i session hsession
      split
      · exact trafficOnly_done t
      · dsimp only
        split
        · exact trafficOnly_done t
        · split
          · exact trafficOnly_done t
          · exact trafficOnly_raise t t _ (.refl t)
          · exact storeFragment_trafficOnly C env t session _ addr _ _ _ _ hsession

theorem handleAck_trafficOnly (t : MeshTransport) (payload : Bytes) :
    TrafficOnly t (handleAck t payload) := by
  unfold handleAck
  split
  · exact trafficOnly_done t
  · exact ⟨sameHandshakes_setInFlight t _, by simp⟩

theorem handlePing_trafficOnly (env : Env) (t : MeshTransport) (addr : Addr) (peerId : String)
    (session : SessionInfo) (hsession : t.sessions.get? peerId = some session) :
    TrafficOnly t (handlePing C env t addr peerId session) := by
  unfold handlePing attempt
  split
  · exact trafficOnly_raise t t _ (.refl t)
  · rename_i pong hpong
    refine ⟨sameHandshakes_setSession t peerId session _ hsession rfl rfl rfl, ?_⟩
    intro pkt a hmem
    have heq := mem_sendRaw t pong addr _ hmem
    cases heq
    exact isTraffic_buildPacket C .pong _ _ _ _ rfl hpong

theorem macGate_handshake (t : MeshTransport) (ptype : PacketType) (data : Bytes) (addr : Addr)
    (h : ptype.isHandshake = true) : macGate C t ptype data addr = true := by
  unfold macGate
  split
  · rfl
  · rw [if_pos (Or.inr h)]

theorem ackOpens_eq (key : SessionKey) (payload : Bytes)
    (h : ¬ payload.length < nonceSize + keyAckMagic.length + tagSize) (pt : Bytes)
    (hpt : C.decryptMessage (payload.take nonceSize) (payload.drop nonceSize) key [] = .ok pt) :
    ackOpens C key payload = decide (keyAckMagic <+: pt) := by
  simp only [ackOpens, if_neg h, hpt]

/-- An outcome of traffic only is the idle case of any packet that takes no handshake step. -/
theorem case_of_trafficOnly (env : Env) (t : MeshTransport) (data : Bytes) (addr : Addr)
    (out : Outcome) (h : TrafficOnly t out)
    (hidle : ∀ packet, parsePacket data = .ok packet → Idle C t packet addr) (e : Option PyError) :
    Case C env t data addr { out with raised := e } :=
  .other _ h.same hidle h.traffic

theorem handleHandshake_case (env : Env) (t : MeshTransport) (data sid payload : Bytes) (addr : Addr)
    (hparse : parsePacket data = .ok ⟨.handshake, sid, payload⟩) (e : Option PyError) :
    Case C env t data addr { handleHandshake C t payload addr with raised := e } := by
  have hidle : announced C payload = none → ∀ packet, parsePacket data = .ok packet →
      Idle C t packet addr := by
    intro hnone packet hpacket
    rw [hparse] at hpacket
    rw [← Except.ok.inj hpacket]
    exact hnone
  unfold handleHandshake
  split
  · rename_i hlen
    exact case_of_trafficOnly C env t data addr _ (trafficOnly_done t)
      (hidle (by simp [announced, hlen])) e
  · rename_i hlen
    simp only [ne_eq, not_not] at hlen
    cases hreceive : receiveBundle C payload with
    | error err =>
      exact case_of_trafficOnly C env t data addr _ (trafficOnly_raise t t err (.refl t))
        (hidle (announced_eq_none_of_error C payload err hreceive)) e
    | ok bundle =>
      have hbundle := (announced_eq_some_iff C payload bundle).mpr ⟨hlen, hreceive⟩
      refine .handshake sid payload bundle _ hparse hbundle ?_ ?_
      · dsimp only [attempt]
        split
        · rfl
        · split <;> rfl
      · dsimp only [attempt]
        split
        · exact Or.inl rfl
        · rename_i wire hwire
          split
          · exact Or.inl rfl
          · rename_i pkt hpkt
            obtain ⟨_, mac, _, rfl, hmac⟩ := buildPacket_eq_frame C _ _ _ _ _ hpkt
            have hsend : (t.notePeerBundle addr bundle).sendRaw
                (frame .handshakeResp (t.notePeerBundle addr bundle).senderId wire mac) addr =
                t.sendRaw (frame .handshakeResp t.senderId wire zeroMac) addr := by
              rw [hmac rfl]
              unfold notePeerBundle
              split <;> rfl
            refine Or.inr ⟨wire, ?_, hsend⟩
            rw [← hwire]
            unfold notePeerBundle
            split <;> rfl

theorem handleHandshakeResp_case (env : Env) (t : MeshTransport) (data sid payload : Bytes)
    (addr : Addr) (hparse : parsePacket data = .ok ⟨.handshakeResp, sid, payload⟩) :
    Case C env t data addr { handleHandshakeResp C t payload addr with
      raised := (handleHandshakeResp C t payload addr).raised.filter (fun e => ¬ swallowed e) } := by
  have hidle : announced C payload = none ∨ t.pending.get? addr = none →
      ∀ packet, parsePacket data = .ok packet → Idle C t packet addr := by
    intro hnone packet hpacket
    rw [hparse] at hpacket
    rw [← Except.ok.inj hpacket]
    exact hnone
  unfold handleHandshakeResp
  split
  · rename_i hnone
    exact case_of_trafficOnly C env t data addr _ (trafficOnly_done t) (hidle (Or.inr hnone)) _
  · rename_i ref href
    split
    · rename_i hlen
      exact case_of_trafficOnly C env t data addr _ (trafficOnly_done t)
        (hidle (Or.inl (by simp [announced, hlen]))) _
    · rename_i hlen
      simp only [ne_eq, not_not] at hlen
      cases hreceive : receiveBundle C payload with
      | error err =>
        exact case_of_trafficOnly C env t data addr _ (trafficOnly_raise t t err (.refl t))
          (hidle (Or.inl (announced_eq_none_of_error C payload err hreceive))) _
      | ok bundle =>
        have hbundle := (announced_eq_some_iff C payload bundle).mpr ⟨hlen, hreceive⟩
        exact .handshakeResp sid payload bundle ref hparse hbundle href

theorem handleKeyInit_case (env : Env) (t : MeshTransport) (data sid payload : Bytes)
    (addr : Addr) (hparse : parsePacket data = .ok ⟨.keyInit, sid, payload⟩) :
    Case C env t data addr { handleKeyInit C env t payload addr with
      raised := (handleKeyInit C env t payload addr).raised.filter (fun e => ¬ swallowed e) } := by
  have hidle : keyInitInstalls C t payload addr = none →
      ∀ packet, parsePacket data = .ok packet → Idle C t packet addr := by
    intro hnone packet hpacket
    rw [hparse] at hpacket
    rw [← Except.ok.inj hpacket]
    exact hnone
  unfold handleKeyInit
  cases hslot : (t.slot addr).bind PendingHandshake.peerBundle with
  | none =>
    exact case_of_trafficOnly C env t data addr _ (trafficOnly_done t)
      (hidle (by simp only [keyInitInstalls, hslot])) _
  | some bundle =>
    by_cases hlen : payload.length = mlkemCtLen
    · simp only [hlen, dite_true]
      cases hdec : C.kemDecapsulate ⟨payload, hlen⟩ bundle.encryptPub
          t.identity.encryptKeypair.privateKey t.identity.kemKeypair.secretKey with
      | error err =>
        exact case_of_trafficOnly C env t data addr _ (trafficOnly_raise t t err (.refl t))
          (hidle (by simp only [keyInitInstalls, hslot, hlen, dite_true, hdec])) _
      | ok key =>
        have hinstall : keyInitInstalls C t payload addr = some (key, bundle) := by
          simp only [keyInitInstalls, hslot, hlen, dite_true, hdec]
        have hctLen : ((C.encryptMessage (env.nonce 0) (keyAckMagic ++ env.filler.toList) key []).1
            ++ (C.encryptMessage (env.nonce 0) (keyAckMagic ++ env.filler.toList) key []).2).length
            < 65536 := by
          simp only [Suite.encryptMessage, List.length_append, C.chacha_length,
            List.Vector.toList_length]
          decide
        simp only [attempt, buildPacket_unkeyed C .keyAck t.senderId _ hctLen]
        exact .keyInit sid payload key bundle hparse hinstall
    · simp only [hlen, dite_false]
      exact case_of_trafficOnly C env t data addr _ (trafficOnly_done t)
        (hidle (by simp only [keyInitInstalls, hslot, hlen, dite_false])) _

theorem handleKeyAck_case (env : Env) (t : MeshTransport) (data sid payload : Bytes)
    (addr : Addr) (hparse : parsePacket data = .ok ⟨.keyAck, sid, payload⟩) :
    Case C env t data addr { handleKeyAck C env t payload addr with
      raised := (handleKeyAck C env t payload addr).raised.filter (fun e => ¬ swallowed e) } := by
  have hidle : keyAckInstalls C t payload addr = none →
      ∀ packet, parsePacket data = .ok packet → Idle C t packet addr := by
    intro hnone packet hpacket
    rw [hparse] at hpacket
    rw [← Except.ok.inj hpacket]
    exact hnone
  have hdone : keyAckInstalls C t payload addr = none → ∀ e, Case C env t data addr
      { done t with raised := e } := fun hnone e =>
    case_of_trafficOnly C env t data addr _ (trafficOnly_done t) (hidle hnone) e
  unfold handleKeyAck
  cases href : t.pending.get? addr with
  | none =>
    have hslot : t.slot addr = none := by simp [MeshTransport.slot, href]
    exact hdone (by simp [keyAckInstalls, slotKey, hslot]) _
  | some ref =>
    cases hkey : (t.slot addr).bind PendingHandshake.ourSessionKey with
    | none => exact hdone (by simp only [keyAckInstalls, slotKey, hkey]) _
    | some key =>
      dsimp only
      split
      · rename_i hlen
        exact hdone (by simp [keyAckInstalls, slotKey, hkey, ackOpens, hlen]) _
      · rename_i hlen
        cases hdec : C.decryptMessage (payload.take nonceSize) (payload.drop nonceSize) key [] with
        | error err =>
          have hnone : keyAckInstalls C t payload addr = none := by
            simp [keyAckInstalls, slotKey, hkey, ackOpens, hlen, hdec]
          have hnonce : (payload.take nonceSize).length = 12 := by
            rw [List.length_take]
            simp only [nonceSize] at hlen ⊢
            omega
          rw [C.decryptMessage_error _ _ key [] err hnonce hdec]
          exact hdone hnone _
        | ok pt =>
          have hopens := ackOpens_eq C key payload hlen pt hdec
          by_cases hmagic : keyAckMagic <+: pt
          · simp only [hmagic, not_true, if_false]
            cases hbundle : (t.slot addr).bind PendingHandshake.peerBundle with
            | none =>
              exact hdone (by simp [keyAckInstalls, slotKey, hkey, hopens, hmagic, hbundle]) _
            | some bundle =>
              have hinstall : keyAckInstalls C t payload addr = some (key, bundle) := by
                simp [keyAckInstalls, slotKey, hkey, hopens, hmagic, hbundle]
              exact .keyAck sid payload key bundle ref hparse hinstall href
          · simp only [hmagic, not_false_eq_true, if_true]
            exact hdone (by simp [keyAckInstalls, slotKey, hkey, hopens, hmagic]) _

/-- Every datagram falls under one of the five cases. -/
theorem dispatch_case (env : Env) (t : MeshTransport) (data : Bytes) (addr : Addr) :
    Case C env t data addr (dispatch C env t data addr) := by
  unfold dispatch
  cases hparse : parsePacket data with
  | error e =>
    exact .other _ (.refl t) (fun packet h => by simp [hparse] at h) (by simp [done])
  | ok packet =>
    obtain ⟨ptype, sid, payload⟩ := packet
    have hnotHandshake : ptype.isHandshake = false → ∀ packet, parsePacket data = .ok packet →
        Idle C t packet addr := by
      intro htype packet hpacket
      rw [hparse] at hpacket
      rw [← Except.ok.inj hpacket]
      cases ptype <;> first | exact trivial | cases htype
    by_cases hgate : macGate C t ptype data addr = true
    · simp only [hgate, if_true]
      cases ptype with
      | handshake => exact handleHandshake_case C env t data sid payload addr hparse _
      | handshakeResp => exact handleHandshakeResp_case C env t data sid payload addr hparse
      | keyInit => exact handleKeyInit_case C env t data sid payload addr hparse
      | keyAck => exact handleKeyAck_case C env t data sid payload addr hparse
      | message =>
        exact case_of_trafficOnly C env t data addr _
          (handleMessage_trafficOnly C env t payload addr data) (hnotHandshake rfl) _
      | ack =>
        exact case_of_trafficOnly C env t data addr _ (handleAck_trafficOnly t payload)
          (hnotHandshake rfl) _
      | ping =>
        refine case_of_trafficOnly C env t data addr _ ?_ (hnotHandshake rfl) _
        unfold handle
        dsimp only
        split
        · exact trafficOnly_done t
        · rename_i session hsession
          exact handlePing_trafficOnly C env t addr _ session hsession
      | pong =>
        exact case_of_trafficOnly C env t data addr _ (trafficOnly_done t) (hnotHandshake rfl) _
      | storeForward | originator =>
        refine case_of_trafficOnly C env t data addr _ ?_ (hnotHandshake rfl) _
        unfold handle
        dsimp only
        split
        · exact trafficOnly_done t
        · exact ⟨.refl t, by simp⟩
    · have htype : ptype.isHandshake = false := by
        by_contra htrue
        exact hgate (macGate_handshake C t ptype data addr (by simpa using htrue))
      simp only [hgate]
      exact .other _ (.refl t) (hnotHandshake htype) (by simp [done])

theorem bound_installSession (t : MeshTransport) (now : ℚ) (addr : Addr) (key : SessionKey)
    (bundle : PublicBundle) (peerId : String) :
    bound (t.installSession now addr key bundle) peerId =
      if bundle.deviceId = peerId then some (addr, key, bundle) else bound t peerId := by
  simp only [bound, installSession, OrderedDict.get?_set]
  split <;> rfl

theorem sessions_notePeerBundle (t : MeshTransport) (addr : Addr) (bundle : PublicBundle) :
    (t.notePeerBundle addr bundle).sessions = t.sessions := by
  unfold notePeerBundle
  split <;> rfl

theorem installs_eq_none (t : MeshTransport) (data : Bytes) (addr : Addr)
    (h : ∀ packet, parsePacket data = .ok packet → Idle C t packet addr) :
    installs C t data addr = none := by
  unfold installs
  split
  · rename_i sid payload hparse
    exact h _ hparse
  · rename_i sid payload hparse
    exact h _ hparse
  · rfl

/-- A datagram changes the binding of a peer exactly when it installs a session
under the peer's name. -/
theorem bound_dispatch (env : Env) (t : MeshTransport) (data : Bytes) (addr : Addr)
    (peerId : String) :
    bound (dispatch C env t data addr).state peerId =
      match installs C t data addr with
      | some (key, bundle) =>
        if bundle.deviceId = peerId then some (addr, key, bundle) else bound t peerId
      | none => bound t peerId := by
  have hcase := dispatch_case C env t data addr
  generalize dispatch C env t data addr = out at hcase
  cases hcase with
  | other out hsame hidle _ =>
    rw [installs_eq_none C t data addr hidle]
    exact hsame.bound peerId
  | handshake sid payload bundle out hparse _ hstate _ =>
    simp only [installs, hparse, hstate, bound, sessions_notePeerBundle]
  | handshakeResp sid payload bundle ref hparse _ _ =>
    simp only [installs, hparse]
    rfl
  | keyInit sid payload key bundle hparse hinstall =>
    simp only [installs, hparse, hinstall]
    exact bound_installSession t env.time addr key bundle peerId
  | keyAck sid payload key bundle ref hparse hinstall _ =>
    simp only [installs, hparse, hinstall]
    exact bound_installSession t env.time addr key bundle peerId

/-- An accepted HANDSHAKE leaves its bundle in the slot of its address. -/
theorem dispatch_handshake (env : Env) (t : MeshTransport) (data sid payload : Bytes) (addr : Addr)
    (bundle : PublicBundle) (hparse : parsePacket data = .ok ⟨.handshake, sid, payload⟩)
    (hbundle : announced C payload = some bundle) :
    (dispatch C env t data addr).state = t.notePeerBundle addr bundle := by
  have hcase := dispatch_case C env t data addr
  generalize dispatch C env t data addr = out at hcase
  cases hcase with
  | other out _ hidle _ =>
    have hnone : announced C payload = none := hidle _ hparse
    rw [hnone] at hbundle
    contradiction
  | handshake sid' payload' bundle' out hparse' hbundle' hstate _ =>
    rw [hparse] at hparse'
    cases hparse'
    rw [hbundle] at hbundle'
    cases hbundle'
    exact hstate
  | handshakeResp _ _ _ _ hparse' _ _ | keyInit _ _ _ _ hparse' _ | keyAck _ _ _ _ _ hparse' _ _ =>
    rw [hparse] at hparse'
    cases hparse'

theorem dispatch_handshakeResp (env : Env) (t : MeshTransport) (data sid payload : Bytes)
    (addr : Addr) (bundle : PublicBundle) (ref : ℕ)
    (hparse : parsePacket data = .ok ⟨.handshakeResp, sid, payload⟩)
    (hbundle : announced C payload = some bundle) (href : t.pending.get? addr = some ref) :
    dispatch C env t data addr = ⟨t.modifyHandshake ref
      (fun h => { h with peerBundle := some bundle, respEvent := true }), [], none⟩ := by
  have hcase := dispatch_case C env t data addr
  generalize dispatch C env t data addr = out at hcase
  cases hcase with
  | other out _ hidle _ =>
    have hnone : announced C payload = none ∨ t.pending.get? addr = none := hidle _ hparse
    rw [hbundle, href] at hnone
    simp at hnone
  | handshakeResp sid' payload' bundle' ref' hparse' hbundle' href' =>
    rw [hparse] at hparse'
    cases hparse'
    rw [hbundle] at hbundle'
    cases hbundle'
    rw [href] at href'
    cases href'
    rfl
  | handshake _ _ _ _ hparse' _ _ _ | keyInit _ _ _ _ hparse' _ | keyAck _ _ _ _ _ hparse' _ _ =>
    rw [hparse] at hparse'
    cases hparse'

theorem dispatch_keyInit (env : Env) (t : MeshTransport) (data sid payload : Bytes) (addr : Addr)
    (key : SessionKey) (bundle : PublicBundle)
    (hparse : parsePacket data = .ok ⟨.keyInit, sid, payload⟩)
    (hinstall : keyInitInstalls C t payload addr = some (key, bundle)) :
    dispatch C env t data addr =
      ⟨(t.installSession env.time addr key bundle).closeSlot addr,
        t.sendRaw (frame .keyAck t.senderId ((C.encryptMessage (env.nonce 0)
            (keyAckMagic ++ env.filler.toList) key []).1 ++
          (C.encryptMessage (env.nonce 0) (keyAckMagic ++ env.filler.toList) key []).2)
            zeroMac) addr ++
          t.connectedCbs.map (fun cb => .connected cb bundle.deviceId), none⟩ := by
  have hcase := dispatch_case C env t data addr
  generalize dispatch C env t data addr = out at hcase
  cases hcase with
  | other out _ hidle _ =>
    have hnone : keyInitInstalls C t payload addr = none := hidle _ hparse
    rw [hnone] at hinstall
    contradiction
  | keyInit sid' payload' key' bundle' hparse' hinstall' =>
    rw [hparse] at hparse'
    cases hparse'
    rw [hinstall] at hinstall'
    cases hinstall'
    rfl
  | handshake _ _ _ _ hparse' _ _ _ | handshakeResp _ _ _ _ hparse' _ _
    | keyAck _ _ _ _ _ hparse' _ _ =>
    rw [hparse] at hparse'
    cases hparse'

theorem dispatch_keyAck (env : Env) (t : MeshTransport) (data sid payload : Bytes) (addr : Addr)
    (key : SessionKey) (bundle : PublicBundle) (ref : ℕ)
    (hparse : parsePacket data = .ok ⟨.keyAck, sid, payload⟩)
    (hinstall : keyAckInstalls C t payload addr = some (key, bundle))
    (href : t.pending.get? addr = some ref) :
    dispatch C env t data addr =
      ⟨(t.installSession env.time addr key bundle).modifyHandshake ref
          (fun h => { h with ackEvent := true }),
        t.connectedCbs.map (fun cb => .connected cb bundle.deviceId), none⟩ := by
  have hcase := dispatch_case C env t data addr
  generalize dispatch C env t data addr = out at hcase
  cases hcase with
  | other out _ hidle _ =>
    have hnone : keyAckInstalls C t payload addr = none := hidle _ hparse
    rw [hnone] at hinstall
    contradiction
  | keyAck sid' payload' key' bundle' ref' hparse' hinstall' href' =>
    rw [hparse] at hparse'
    cases hparse'
    rw [hinstall] at hinstall'
    cases hinstall'
    rw [href] at href'
    cases href'
    rfl
  | handshake _ _ _ _ hparse' _ _ _ | handshakeResp _ _ _ _ hparse' _ _
    | keyInit _ _ _ _ hparse' _ =>
    rw [hparse] at hparse'
    cases hparse'

end Mesim.Dispatch
