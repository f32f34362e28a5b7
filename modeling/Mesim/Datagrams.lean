import Mesim.RouteSources
import Mesim.InFlightTable

/-!
The size of the datagrams a node sends.
The length constants leave room for a fragment's header, nonce, tag and signature,
so every MESSAGE packet fits the MTU, and so does whatever answers a datagram or
carries an announcement. A bundle alone is longer than MAX_PAYLOAD, and the two
packets that carry one are not fragmented.
-/
namespace Mesim.Datagrams

open Octets TextCodec Crypto Identity Packet Transport Operations Dispatch Nodes Fragments Honest
open Router RouterPackets Reassembly RouteSources SignedDelivery InFlightTable MeshTransport Outcome

variable (C : Suite)

/-- Everything a step passes to the socket or to a callback. -/
def routedEffects (s : RoutedNode) : RoutedEvent → List Effect
  | .node env event => (s.node.step C env event).2
  | .handle =>
    match s.tasks with
    | [] => []
    | (payload, addr, senderId) :: _ =>
      (handleOriginator C s.router s.node.transport payload addr senderId).effects
  | .broadcast timestamp => (broadcastOriginator C s.router s.node.transport timestamp).effects
  | .purge _ | .register _ _ => []

/-- Every datagram that the step passes to the socket fits the MTU. -/
def FitsMtu (s : RoutedNode) (e : RoutedEvent) : Prop :=
  ∀ packet dest, .sendto packet dest ∈ routedEffects C s e → packet.length ≤ mtu

/-- The node's own bundle can be packed: its callsign is ASCII. -/
def Packs (t : MeshTransport) : Prop := ∃ wire, packBundle (getPublicBundle C t.identity) = .ok wire

/-- The step is to send the node's own bundle: connect() to a bundle that verifies, or a
HANDSHAKE with one. -/
def SendsBundle (s : RoutedNode) : RoutedEvent → Prop
  | .node _ (.connect _ peerBundle) =>
    verifyPublicBundle C peerBundle = .ok () ∧ Packs C s.node.transport
  | .node _ (.datagram data _) => ∃ sid payload bundle,
    parsePacket data = .ok ⟨.handshake, sid, payload⟩ ∧ announced C payload = some bundle ∧
      Packs C s.node.transport
  | _ => False

section Sizes

theorem buildPacket_length (ptype : PacketType) (senderId : Fixed 32) (payload : Bytes)
    (key : Option SessionKey) (packet : Bytes)
    (h : buildPacket C ptype senderId payload key = .ok packet) :
    packet.length = payload.length + overhead := by
  obtain ⟨_, mac, hmac, rfl, _⟩ := buildPacket_eq_frame C ptype senderId payload key packet h
  exact frame_length ptype senderId payload mac hmac

theorem unkeyed_length (ptype : PacketType) (senderId : Fixed 32) (payload : Bytes) :
    (frame ptype senderId payload zeroMac).length = payload.length + overhead :=
  frame_length ptype senderId payload zeroMac List.length_replicate

/-- A packet with the node's bundle is 33 bytes too long. -/
theorem bundle_oversize (ptype : PacketType) (t : MeshTransport) (wire : Bytes)
    (hwire : packBundle (getPublicBundle C t.identity) = .ok wire) :
    ¬ (frame ptype t.senderId wire zeroMac).length ≤ mtu := by
  rw [unkeyed_length, packBundle_own_length C t.identity wire hwire]
  decide

/-- Every fragment of every message fits. -/
theorem fragment_fits (senderId : Fixed 32) (key : SessionKey) (nonce : Nonce)
    (msgId fragIdx fragTotal : ℕ) (plaintextWithSig chunk packet : Bytes)
    (hchunk : chunk ∈ splitFragments plaintextWithSig)
    (h : fragmentPacket C senderId key nonce msgId fragIdx fragTotal chunk = .ok packet) :
    packet.length ≤ mtu := by
  have hsize : chunk.length ≤ maxFragPt := chunk_length_le _ _ _ chunk hchunk
  rw [fragmentPacket_eq] at h
  split at h
  · cases h
    rw [messagePacket, frame_length _ _ _ _ (computeMac_length C _ _ _), messagePayload_length]
    simp only [maxFragPt, maxPayload, mtu, overhead, headerSize, macSize, fragHeaderSize, nonceSize,
      tagSize, sigSize] at hsize ⊢
    omega
  · contradiction

end Sizes

section Replies

theorem message_fits (env : Env) (t : MeshTransport) (data sid payload : Bytes) (addr : Addr)
    (hparse : parsePacket data = .ok ⟨.message, sid, payload⟩) (packet : Bytes) (dest : Addr)
    (h : .sendto packet dest ∈ (dispatch C env t data addr).effects) : packet.length ≤ mtu := by
  rcases effects_message C env t data sid payload addr hparse with
    hnone | ⟨peerId, session, message, _, _, heffects⟩
  · rw [hnone] at h
    contradiction
  · rw [heffects] at h
    rcases List.mem_append.mp h with hack | hcb
    · cases mem_sendRaw _ _ _ _ hack
      rw [ackPacket, frame_length _ _ _ _ (computeMac_length C _ _ _), packBE_length]
      decide
    · obtain ⟨cb, _, heq⟩ := List.mem_map.mp hcb
      contradiction

theorem keyInit_fits (env : Env) (t : MeshTransport) (payload : Bytes) (addr : Addr)
    (packet : Bytes) (dest : Addr)
    (h : .sendto packet dest ∈ (handleKeyInit C env t payload addr).effects) :
    packet.length ≤ mtu := by
  rcases keyInit_effects C env t payload addr _ h with ⟨key, heq⟩ | ⟨cb, peerId, heq⟩
  · cases heq
    rw [unkeyed_length, keyAck_length]
    decide
  · contradiction

theorem ping_fits (env : Env) (t : MeshTransport) (addr : Addr) (peerId : String)
    (session : SessionInfo) (packet : Bytes) (dest : Addr)
    (h : .sendto packet dest ∈ (handlePing C env t addr peerId session).effects) :
    packet.length ≤ mtu := by
  obtain ⟨pong, hbuild, heq⟩ := ping_effects C env t addr peerId session _ h
  cases heq
  rw [buildPacket_length C .pong _ _ _ _ hbuild]
  decide

/-- Whatever else answers a datagram fits. -/
theorem dispatch_fits (env : Env) (t : MeshTransport) (data : Bytes) (addr : Addr)
    (packet : Bytes) (dest : Addr)
    (h : .sendto packet dest ∈ (dispatch C env t data addr).effects) :
    packet.length ≤ mtu ∨ ∃ sid payload bundle,
      parsePacket data = .ok ⟨.handshake, sid, payload⟩ ∧ announced C payload = some bundle ∧
        Packs C t := by
  cases hparse : parsePacket data with
  | error err =>
    simp only [dispatch, hparse] at h
    contradiction
  | ok parsed =>
    obtain ⟨ptype, sid, payload⟩ := parsed
    by_cases hmessage : ptype = .message
    · subst hmessage
      exact Or.inl (message_fits C env t data sid payload addr hparse packet dest h)
    · simp only [dispatch, hparse] at h
      split at h
      · cases ptype with
        | message => exact absurd rfl hmessage
        | handshake =>
          obtain ⟨⟨bundle, hbundle⟩, wire, hwire, _⟩ := handshake_effects C t payload addr _ h
          exact Or.inr ⟨sid, payload, bundle, rfl, hbundle, wire, hwire⟩
        | handshakeResp =>
          simp only [handle, handshakeResp_effects] at h
          contradiction
        | keyInit => exact Or.inl (keyInit_fits C env t payload addr packet dest h)
        | keyAck =>
          obtain ⟨cb, peerId, heq⟩ := keyAck_effects C env t payload addr _ h
          contradiction
        | ack =>
          simp only [handle, handleAck] at h
          split at h
          · contradiction
          · obtain ⟨cb, _, heq⟩ := List.mem_map.mp h
            contradiction
        | ping =>
          simp only [handle] at h
          split at h
          · contradiction
          · exact Or.inl (ping_fits C env t addr _ _ packet dest h)
        | pong => contradiction
        | storeForward | originator =>
          simp only [handle] at h
          split at h
          · contradiction
          · cases List.mem_singleton.mp h
      · contradiction

end Replies

section Operations

/-- connect() sends nothing but the node's bundle. -/
theorem connect_packs (t : MeshTransport) (addr : Addr) (bundle : PublicBundle) (e : Effect)
    (h : e ∈ (connectBegin C t addr bundle).effects) :
    verifyPublicBundle C bundle = .ok () ∧ Packs C t := by
  have hbegun := connectBegin_begun C t addr bundle
  generalize connectBegin C t addr bundle = out at hbegun h
  cases hbegun with
  | rejected | unsent => contradiction
  | sent wire hverify hwire => exact ⟨hverify, wire, hwire⟩

theorem resume_fits (env : Env) (n : Node) (i : ℕ) (packet : Bytes) (dest : Addr)
    (h : .sendto packet dest ∈ (n.resume C env i).2) : packet.length ≤ mtu := by
  have hresumed := resume_resumed C env n i
  generalize n.resume C env i = out at hresumed h
  cases hresumed with
  | idle | failed | returned => contradiction
  | encapsulated =>
    cases mem_sendRaw _ _ _ _ h
    rw [unkeyed_length, List.Vector.toList_length]
    decide

theorem emission_fits (r : MeshRouter) (t : MeshTransport) (emission : Emission) (packet : Bytes)
    (dest : Addr) (h : .sendto packet dest ∈ (emission.run C r t).effects) :
    packet.length ≤ mtu := by
  obtain ⟨data, hlen, rfl⟩ := emission_framed C r t emission packet dest h
  rw [unkeyed_length, hlen]
  decide

end Operations

section Runs

/-- The socket is open and every packet waiting for an acknowledgement fits. -/
structure Steady (t : MeshTransport) : Prop where
  udpTransport : t.udpTransport = true
  inFlight : InFlightAll (fun packet => packet.length ≤ mtu) t

theorem steady_of_started (owner : DeviceIdentity) (n : Node) (h : Started owner n) :
    Steady n.transport where
  udpTransport := h.1.udpTransport
  inFlight msgId inf hinf := by
    rw [h.1.inFlight] at hinf
    exact absurd hinf.symm (Option.some_ne_none inf)

/-- What send() does: the fragments fit, in the table and on the wire. -/
theorem send_fits (env : Env) (t : MeshTransport) (peerId : String) (message : Bytes)
    (ht : Steady t) :
    InFlightAll (fun packet => packet.length ≤ mtu) (send C env t peerId message).state ∧
      ∀ packet dest, .sendto packet dest ∈ (send C env t peerId message).effects →
        packet.length ≤ mtu :=
  send_all C env t peerId message (fun chunk hchunk senderId key nonce msgId fragIdx fragTotal
    packet hpacket => fragment_fits C senderId key nonce msgId fragIdx fragTotal _ chunk packet
      hchunk hpacket) ht.inFlight

theorem inFlightAll_node (n : Node) (env : Env) (event : Event) (hn : Steady n.transport) :
    InFlightAll (fun packet => packet.length ≤ mtu) (n.step C env event).1.transport := by
  have hkept : (nodeStep C n (env, event)).transport.inFlight = n.transport.inFlight →
      InFlightAll (fun packet => packet.length ≤ mtu) (n.step C env event).1.transport := by
    intro hsame msgId inf hinf
    refine hn.inFlight msgId inf ?_
    rw [← hsame]
    exact hinf
  cases event with
  | connect addr bundle =>
    exact hkept (inFlight_connecting C n env (.connect addr bundle) trivial).1
  | resume i => exact hkept (inFlight_connecting C n env (.resume i) trivial).1
  | timeout i => exact hkept (inFlight_connecting C n env (.timeout i) trivial).1
  | datagram data addr => exact dispatch_all C env n.transport data addr hn.inFlight
  | send peerId message => exact (send_fits C env n.transport peerId message hn).1
  | retry => exact (retrySweep_all env n.transport hn.inFlight).1

theorem steady_step (s : RoutedNode) (e : RoutedEvent) (hs : Steady s.node.transport) :
    Steady (routedStep C s e).node.transport := by
  cases e with
  | node env event =>
    exact ⟨(nodeStep_sameDevice C s.node (env, event)).udpTransport.trans hs.udpTransport,
      inFlightAll_node C s.node env event hs⟩
  | handle =>
    cases htasks : s.tasks with
    | nil =>
      simp only [routedStep, htasks]
      exact hs
    | cons task rest =>
      obtain ⟨payload, addr, senderId⟩ := task
      simp only [routedStep, htasks]
      exact hs
  | broadcast | purge | register => exact hs

/-- A step that sends the bundle sends a datagram that does not fit. -/
theorem not_fitsMtu_of_sendsBundle (s : RoutedNode) (e : RoutedEvent)
    (hs : Steady s.node.transport) (h : SendsBundle C s e) : ¬ FitsMtu C s e := by
  intro hfits
  cases e with
  | node env event =>
    cases event with
    | connect addr bundle =>
      obtain ⟨hverify, wire, hwire⟩ := h
      refine bundle_oversize C .handshake s.node.transport wire hwire (hfits _ addr ?_)
      simp only [routedEffects, Node.step, Node.connect,
        connectBegin_packed C s.node.transport addr bundle wire hverify hwire, sendRaw,
        hs.udpTransport, if_true, List.mem_singleton]
    | datagram data addr =>
      obtain ⟨sid, payload, bundle, hparse, hbundle, wire, hwire⟩ := h
      refine bundle_oversize C .handshakeResp s.node.transport wire hwire (hfits _ addr ?_)
      simp only [routedEffects, Node.step, dispatch_answered C env s.node.transport data sid payload
        wire addr bundle hparse hbundle hwire, sendRaw, hs.udpTransport, if_true,
        List.mem_singleton]
    | resume | timeout | send | retry => exact h.elim
  | handle | broadcast | purge | register => exact h.elim

/-- Every other step sends datagrams that fit. -/
theorem fitsMtu_of_not_sendsBundle (s : RoutedNode) (e : RoutedEvent)
    (hs : Steady s.node.transport) (h : ¬ SendsBundle C s e) : FitsMtu C s e := by
  intro packet dest hsent
  cases e with
  | node env event =>
    cases event with
    | connect addr bundle =>
      exact absurd (connect_packs C s.node.transport addr bundle _ hsent) h
    | datagram data addr =>
      rcases dispatch_fits C env s.node.transport data addr packet dest hsent with hfits | hbundle
      · exact hfits
      · exact absurd hbundle h
    | resume i => exact resume_fits C env s.node i packet dest hsent
    | timeout i => contradiction
    | send peerId message =>
      exact (send_fits C env s.node.transport peerId message hs).2 packet dest hsent
    | retry => exact (retrySweep_all env s.node.transport hs.inFlight).2 packet dest hsent
  | handle =>
    cases htasks : s.tasks with
    | nil =>
      simp only [routedEffects, htasks] at hsent
      contradiction
    | cons task rest =>
      obtain ⟨payload, addr, senderId⟩ := task
      simp only [routedEffects, htasks] at hsent
      exact emission_fits C s.router s.node.transport (.forward payload addr senderId) packet dest
        hsent
  | broadcast timestamp =>
    exact emission_fits C s.router s.node.transport (.broadcast timestamp) packet dest hsent
  | purge | register => contradiction

/-- In a node's run every datagram passed to the socket fits the MTU exactly when no step of
the run sends the node's own bundle. -/
theorem datagrams_fit_iff (owner : DeviceIdentity) (maxHops : ℕ) (s₀ : RoutedNode)
    (hs₀ : StartedRouter owner maxHops s₀) (events : List RoutedEvent) :
    Runs.Always (routedStep C) (FitsMtu C) s₀ events ↔
      Runs.Always (routedStep C) (fun s e => ¬ SendsBundle C s e) s₀ events := by
  refine Runs.always_congr (I := fun s => Steady s.node.transport) ?_ ?_ s₀ events
    (steady_of_started owner s₀.node hs₀.1)
  · intro s e hs
    constructor
    · intro hfits hsends
      exact not_fitsMtu_of_sendsBundle C s e hs hsends hfits
    · exact fitsMtu_of_not_sendsBundle C s e hs
  · intro s e hs _
    exact steady_step C s e hs

end Runs

section Stub

/-- Bravo calls connect() with alpha's bundle, and later announces itself. -/
def callEvents : List RoutedEvent :=
  [.node stillEnv (.connect alphaAddr (getPublicBundle stub alpha)), .broadcast epoch]

theorem datagrams_fit_iff_call : ∃ s, StartedRouter bravo defaultMaxHops s ∧
    (Runs.Always (routedStep stub) (FitsMtu stub) s callEvents ↔
      Runs.Always (routedStep stub) (fun s e => ¬ SendsBundle stub s e) s callEvents) := by
  obtain ⟨s, hs⟩ := exists_startedRouter_of bravo (by decide)
  exact ⟨s, hs, datagrams_fit_iff stub bravo defaultMaxHops s hs callEvents⟩

/-- The first datagram of a connect() is longer than the MTU. -/
theorem handshake_exceeds_mtu : ¬ ∀ (owner : DeviceIdentity) (maxHops : ℕ) (s₀ : RoutedNode),
    StartedRouter owner maxHops s₀ → ∀ events : List RoutedEvent,
      Runs.Always (routedStep stub) (FitsMtu stub) s₀ events := by
  intro hclaim
  obtain ⟨s, hs⟩ := exists_startedRouter_of bravo (by decide)
  have hfits := (hclaim bravo defaultMaxHops s hs callEvents).1
  refine not_fitsMtu_of_sendsBundle stub s _ (steady_of_started bravo s.node hs.1) ?_ hfits
  refine ⟨verify_getPublicBundle stub alpha honest_alpha.sign, ?_⟩
  obtain ⟨wire, hwire, _⟩ := announced_wire stub bravo honest_bravo
  rw [← hs.1.1.identity] at hwire
  exact ⟨wire, hwire⟩

end Stub

end Mesim.Datagrams
