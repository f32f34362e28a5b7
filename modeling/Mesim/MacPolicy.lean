import Mesim.Honest

/-!
Unauthenticated traffic.
A data packet is unauthenticated when it comes from an address with no session,
or when its MAC fails under that address's session key. The check in front of
the handlers stops such a packet only when the address is bound to a non-empty
peer id; what reaches the handlers otherwise has an effect exactly in the cases
listed here.
-/
namespace Mesim.MacPolicy

open Octets TextCodec Crypto Identity Packet Transport Nodes Honest
open MeshTransport Outcome

/-- The types the MAC policy is about. -/
def IsDataType : PacketType → Bool
  | .message | .ack | .ping | .pong | .storeForward => true
  | _ => false

/-- Packets sent, and message and ACK callbacks fired. -/
def IsReaction : Effect → Bool
  | .sendto .. | .message .. | .ackReceived .. => true
  | _ => false

structure NoEffect (t : MeshTransport) (out : Outcome) : Prop where
  sessions : out.state.sessions = t.sessions
  sessionsByAddr : out.state.sessionsByAddr = t.sessionsByAddr
  inFlight : out.state.inFlight = t.inFlight
  fragBufs : out.state.fragBufs = t.fragBufs
  silent : ∀ e ∈ out.effects, IsReaction e = false

variable (C : Suite)

/-- No session for the address, or a MAC that fails under its session key. -/
def Unauthenticated (t : MeshTransport) (data : Bytes) (addr : Addr) : Prop :=
  ∀ peerId session, t.sessionsByAddr.get? addr = some peerId →
    t.sessions.get? peerId = some session → verifyMac C session.sessionKey data ≠ .ok ()

/-- The fragment adds nothing to the buffers and completes nothing valid. -/
def FragmentInert (t : MeshTransport) (session : SessionInfo) (peerId : String) (frag : FragHeader)
    (fragment : Bytes) : Prop :=
  ∀ buf, openBuffer t (peerId, frag.msgId) = some buf →
    if (buf.set frag.fragIdx fragment).size < frag.fragTotal then
      t.fragBufs.get? (peerId, frag.msgId) = some (buf.set frag.fragIdx fragment)
    else match joinFragments (buf.set frag.fragIdx fragment) frag.fragTotal with
      | .error _ => t.fragBufs.get? (peerId, frag.msgId) = some (buf.set frag.fragIdx fragment)
      | .ok assembled => t.fragBufs.get? (peerId, frag.msgId) = none ∧
        (assembled.length < sigSize ∨
          C.verifySignature (assembled.drop sigSize) (assembled.take sigSize)
            session.peerBundle.verifyKey ≠ .ok ())

/-- The MESSAGE is malformed, or does not decrypt, or brings an inert fragment. -/
def MessageInert (t : MeshTransport) (session : SessionInfo) (peerId : String)
    (payload data : Bytes) : Prop :=
  payload.length < fragHeaderSize + nonceSize + tagSize ∨
  (unpackFragHeader payload).fragTotal = 0 ∨
  (unpackFragHeader payload).fragIdx ≥ (unpackFragHeader payload).fragTotal ∨
  ∀ fragment, C.decryptMessage (slice payload fragHeaderSize nonceSize)
      (payload.drop (fragHeaderSize + nonceSize)) session.sessionKey (data.take headerSize) =
        .ok fragment →
    FragmentInert C t session peerId (unpackFragHeader payload) fragment

/-- When unauthenticated data traffic is harmless. The address is bound to a
non-empty peer id, or: an ACK is too short or there is neither a callback nor an
in-flight entry for it, a PING finds no session under the empty id, and a MESSAGE
comes from an address without a peer or is inert for the session under the empty id. -/
def Harmless (t : MeshTransport) (packet : ParsedPacket) (data : Bytes) (addr : Addr) : Prop :=
  (∃ peerId, t.sessionsByAddr.get? addr = some peerId ∧ peerId ≠ "") ∨
  match packet.ptype with
  | .ack => packet.payload.length < 4 ∨
      (t.ackCbs = [] ∧ t.inFlight.get? (unpackBE (slice packet.payload 0 4)) = none)
  | .ping => t.sessions.get? "" = none
  | .message => t.sessionsByAddr.get? addr = none ∨
      ∀ session, t.sessions.get? "" = some session →
        MessageInert C t session "" packet.payload data
  | _ => True

theorem noEffect_done (t : MeshTransport) : NoEffect t (done t) :=
  ⟨rfl, rfl, rfl, rfl, by simp [done]⟩

theorem noEffect_raise (t : MeshTransport) (e : PyError) : NoEffect t (raise t e) :=
  ⟨rfl, rfl, rfl, rfl, by simp [raise]⟩

theorem noEffect_filter (t : MeshTransport) (out : Outcome) (e : Option PyError) :
    NoEffect t { out with raised := e } ↔ NoEffect t out :=
  ⟨fun h => ⟨h.1, h.2, h.3, h.4, h.5⟩, fun h => ⟨h.1, h.2, h.3, h.4, h.5⟩⟩

theorem noEffect_stored_iff (t : MeshTransport) (bufKey : String × ℕ) (buf : OrderedDict ℕ Bytes)
    (e : Option PyError) :
    NoEffect t ⟨{ t with fragBufs := t.fragBufs.set bufKey buf }, [], e⟩ ↔
      t.fragBufs.get? bufKey = some buf := by
  constructor
  · intro h
    exact OrderedDict.eq_of_set_eq_self _ _ _ h.fragBufs
  · intro h
    exact ⟨rfl, rfl, rfl, OrderedDict.set_eq_self _ _ _ h, by simp⟩

theorem set_erase_eq_iff (t : MeshTransport) (bufKey : String × ℕ) (buf : OrderedDict ℕ Bytes) :
    (t.fragBufs.set bufKey buf).erase bufKey = t.fragBufs ↔ t.fragBufs.get? bufKey = none := by
  constructor
  · intro h
    rw [← h, OrderedDict.get?_erase_self]
  · exact OrderedDict.erase_set_of_none _ _ _

/-- Delivering reacts exactly when the signature verifies. -/
theorem noEffect_deliver_iff (env : Env) (t : MeshTransport) (hudp : t.udpTransport = true)
    (session : SessionInfo) (peerId : String) (addr : Addr) (bufKey : String × ℕ)
    (buf : OrderedDict ℕ Bytes) (assembled : Bytes) (msgId : ℕ) :
    NoEffect t (deliverAssembled C env
        { t with fragBufs := (t.fragBufs.set bufKey buf).erase bufKey } session peerId addr msgId
        assembled) ↔
      t.fragBufs.get? bufKey = none ∧ (assembled.length < sigSize ∨
        C.verifySignature (assembled.drop sigSize) (assembled.take sigSize)
          session.peerBundle.verifyKey ≠ .ok ()) := by
  have hsilent : ∀ e : Option PyError, NoEffect t
      ⟨{ t with fragBufs := (t.fragBufs.set bufKey buf).erase bufKey }, [], e⟩ ↔
        t.fragBufs.get? bufKey = none := by
    intro e
    rw [← set_erase_eq_iff t bufKey buf]
    exact ⟨fun h => h.fragBufs, fun h => ⟨rfl, rfl, rfl, h, by simp⟩⟩
  unfold deliverAssembled
  by_cases hshort : assembled.length < sigSize
  · rw [if_pos hshort]
    simp only [hshort, true_or, and_true]
    exact hsilent none
  · rw [if_neg hshort]
    simp only [hshort, false_or]
    cases hverify : C.verifySignature (assembled.drop sigSize) (assembled.take sigSize)
        session.peerBundle.verifyKey with
    | error e =>
      simp only [ne_eq, reduceCtorEq, not_false_eq_true, and_true]
      cases e <;> exact hsilent _
    | ok =>
      simp only [ne_eq, not_true, and_false, iff_false]
      intro h
      have hlen : (packBE 4 msgId).length < 65536 := by
        rw [packBE_length]
        decide
      simp only [buildPacket_keyed C .ack t.senderId (packBE 4 msgId) session.sessionKey rfl hlen,
        attempt, sendRaw, hudp, if_true] at h
      have hreacts := h.silent _ (List.mem_append_left _ (List.mem_singleton_self _))
      contradiction

theorem noEffect_storeFragment_iff (env : Env) (t : MeshTransport) (hudp : t.udpTransport = true)
    (session : SessionInfo) (peerId : String) (addr : Addr) (frag : FragHeader)
    (fragment : Bytes) :
    NoEffect t (storeFragment C env t session peerId addr frag.msgId frag.fragIdx frag.fragTotal
        fragment) ↔ FragmentInert C t session peerId frag fragment := by
  unfold storeFragment FragmentInert
  cases hopen : openBuffer t (peerId, frag.msgId) with
  | none => simp [noEffect_done t]
  | some buf =>
    simp only [Option.some.injEq, forall_eq']
    by_cases hsize : (buf.set frag.fragIdx fragment).size < frag.fragTotal
    · rw [if_pos hsize, if_pos hsize]
      exact noEffect_stored_iff t _ _ none
    · rw [if_neg hsize, if_neg hsize]
      cases hjoin : joinFragments (buf.set frag.fragIdx fragment) frag.fragTotal with
      | error e => exact noEffect_stored_iff t _ _ (some e)
      | ok assembled => exact noEffect_deliver_iff C env t hudp session peerId addr _ _ assembled _

theorem noEffect_message_iff (env : Env) (t : MeshTransport) (hudp : t.udpTransport = true)
    (payload : Bytes) (addr : Addr) (data : Bytes) (peerId : String) (session : SessionInfo)
    (haddr : t.sessionsByAddr.get? addr = some peerId)
    (hsession : t.sessions.get? peerId = some session) :
    NoEffect t (handleMessage C env t payload addr data) ↔
      MessageInert C t session peerId payload data := by
  unfold handleMessage MessageInert
  simp only [haddr, hsession]
  by_cases hshort : payload.length < fragHeaderSize + nonceSize + tagSize
  · simp only [hshort, if_true, true_or, noEffect_done t]
  · rw [if_neg hshort]
    by_cases hfrag : (unpackFragHeader payload).fragTotal = 0 ∨
        (unpackFragHeader payload).fragIdx ≥ (unpackFragHeader payload).fragTotal
    · rw [if_pos hfrag]
      exact iff_of_true (noEffect_done t) (Or.inr (by rcases hfrag with h | h <;> simp [h]))
    · rw [if_neg hfrag]
      rw [not_or] at hfrag
      simp only [hshort, hfrag.1, hfrag.2, false_or]
      cases hdec : C.decryptMessage (slice payload fragHeaderSize nonceSize)
          (payload.drop (fragHeaderSize + nonceSize)) session.sessionKey
          (data.take headerSize) with
      | error e =>
        simp only [reduceCtorEq, false_implies, implies_true, iff_true]
        cases e <;> first | exact noEffect_done t | exact noEffect_raise t _
      | ok fragment =>
        simp only [Except.ok.injEq, forall_eq']
        exact noEffect_storeFragment_iff C env t hudp session peerId addr _ fragment

theorem noEffect_ack_iff (t : MeshTransport) (payload : Bytes) :
    NoEffect t (handleAck t payload) ↔ payload.length < 4 ∨
      (t.ackCbs = [] ∧ t.inFlight.get? (unpackBE (slice payload 0 4)) = none) := by
  unfold handleAck
  by_cases hshort : payload.length < 4
  · simp only [hshort, if_true, true_or, noEffect_done t]
  · rw [if_neg hshort]
    simp only [hshort, false_or]
    constructor
    · intro h
      refine ⟨?_, ?_⟩
      · cases hcbs : t.ackCbs with
        | nil => rfl
        | cons cb rest =>
          have hreacts := h.silent (.ackReceived cb (unpackBE (slice payload 0 4)))
            (by simp [hcbs])
          contradiction
      · rw [← h.inFlight, OrderedDict.get?_erase_self]
    · rintro ⟨hcbs, hnone⟩
      exact ⟨rfl, rfl, OrderedDict.erase_eq_self _ _ hnone, rfl, by simp [hcbs]⟩

theorem noEffect_ping_iff (env : Env) (t : MeshTransport) (hudp : t.udpTransport = true)
    (addr : Addr) (peerId : String) :
    NoEffect t (match t.sessions.get? peerId with
      | none => done t
      | some session => handlePing C env t addr peerId session) ↔
      t.sessions.get? peerId = none := by
  cases hsession : t.sessions.get? peerId with
  | none => simp [noEffect_done t]
  | some session =>
    simp only [reduceCtorEq, iff_false]
    intro h
    simp only [handlePing, buildPacket_keyed C .pong t.senderId [] session.sessionKey rfl (by decide),
      attempt, sendRaw, hudp, if_true] at h
    have hreacts := h.silent _ (List.mem_singleton_self _)
    contradiction

/-- The check stops unauthenticated data traffic at a bound, non-empty peer id. -/
theorem macGate_unauthenticated (t : MeshTransport) (ptype : PacketType) (data : Bytes)
    (addr : Addr) (htype : IsDataType ptype = true) (h : Unauthenticated C t data addr) :
    macGate C t ptype data addr = true ↔
      ¬ ∃ peerId, t.sessionsByAddr.get? addr = some peerId ∧ peerId ≠ "" := by
  have hhandshake : ptype.isHandshake = false := by
    cases ptype <;> first | rfl | cases htype
  unfold macGate
  cases haddr : t.sessionsByAddr.get? addr with
  | none => simp
  | some peerId =>
    by_cases hempty : peerId = ""
    · simp [hempty]
    · simp only [hempty, hhandshake, Bool.false_eq_true, or_self, if_false, Option.some.injEq,
        exists_eq_left', ne_eq, not_false_eq_true, not_true, iff_false]
      cases hsession : t.sessions.get? peerId with
      | none => simp
      | some session => simp [h peerId session haddr hsession]

/-- In every reachable state, an unauthenticated data packet has no effect exactly
when it is harmless. -/
theorem unauthenticated_noEffect_iff (owner : DeviceIdentity) (n : Operations.Node)
    (hn : Reachable C owner n) (env : Env) (data : Bytes) (addr : Addr) (packet : ParsedPacket)
    (hparse : parsePacket data = .ok packet) (htype : IsDataType packet.ptype = true)
    (hunauth : Unauthenticated C n.transport data addr) :
    NoEffect n.transport (dispatch C env n.transport data addr) ↔
      Harmless C n.transport packet data addr := by
  have hudp := (reachable_device C owner n hn).2
  generalize n.transport = t at hudp hunauth ⊢
  have hgate := macGate_unauthenticated C t packet.ptype data addr htype hunauth
  unfold dispatch Harmless
  simp only [hparse]
  by_cases hbound : ∃ peerId, t.sessionsByAddr.get? addr = some peerId ∧ peerId ≠ ""
  · have hclosed : ¬ macGate C t packet.ptype data addr = true := fun h => hgate.mp h hbound
    rw [if_neg hclosed]
    exact iff_of_true (noEffect_done t) (Or.inl hbound)
  · rw [if_pos (hgate.mpr hbound), noEffect_filter]
    simp only [hbound, false_or]
    have hpeer : t.sessionsByAddr.get? addr = none ∨ t.sessionsByAddr.get? addr = some "" := by
      cases haddr : t.sessionsByAddr.get? addr with
      | none => exact Or.inl rfl
      | some peerId =>
        by_cases hempty : peerId = ""
        · exact Or.inr (by rw [hempty])
        · exact absurd ⟨peerId, haddr, hempty⟩ hbound
    obtain ⟨ptype, sid, payload⟩ := packet
    cases ptype with
    | handshake | handshakeResp | keyInit | keyAck | originator => cases htype
    | message =>
      show NoEffect t (handleMessage C env t payload addr data) ↔ _
      rcases hpeer with haddr | haddr
      · simp only [handleMessage, haddr, true_or, iff_true]
        exact noEffect_done t
      · simp only [haddr, reduceCtorEq, false_or]
        cases hsession : t.sessions.get? "" with
        | none =>
          simp only [handleMessage, haddr, hsession, reduceCtorEq, false_implies, implies_true,
            iff_true]
          exact noEffect_done t
        | some session =>
          rw [noEffect_message_iff C env t hudp payload addr data "" session haddr hsession]
          simp
    | ack => exact noEffect_ack_iff t payload
    | ping =>
      have hempty : (t.sessionsByAddr.get? addr).getD "" = "" := by
        rcases hpeer with haddr | haddr <;> rw [haddr] <;> rfl
      simp only [handle, hempty]
      exact noEffect_ping_iff C env t hudp addr ""
    | pong => exact iff_of_true (noEffect_done t) trivial
    | storeForward =>
      refine iff_of_true ?_ trivial
      simp only [handle]
      split
      · exact noEffect_done t
      · exact ⟨rfl, rfl, rfl, rfl, by simp [IsReaction]⟩

section Stray

/-- An ACK for the first message id, from nobody in particular. -/
def strayAck : Bytes := frame .ack sid (packBE 4 1) zeroMac

def stranger : Addr := ("10.0.0.9", 7000)

theorem parse_strayAck : parsePacket strayAck = .ok ⟨.ack, sid.toList, packBE 4 1⟩ :=
  parsePacket_unkeyed .ack sid (packBE 4 1) (by decide)

theorem unauthenticated_started (n : Operations.Node) (hn : Started bravo n) :
    Unauthenticated stub n.transport strayAck stranger := by
  intro peerId session haddr _
  rw [hn.1.sessionsByAddr] at haddr
  contradiction

theorem unauthenticated_noEffect_iff_strayAck : ∃ n, Reachable stub bravo n ∧
    (NoEffect n.transport (dispatch stub stillEnv n.transport strayAck stranger) ↔
      Harmless stub n.transport ⟨.ack, sid.toList, packBE 4 1⟩ strayAck stranger) := by
  obtain ⟨n, hn, _⟩ := exists_started
  exact ⟨n, ⟨n, [], hn, rfl⟩, unauthenticated_noEffect_iff stub bravo n ⟨n, [], hn, rfl⟩ stillEnv
    strayAck stranger _ parse_strayAck rfl (unauthenticated_started n hn)⟩

/-- A stranger's ACK fires the ACK callback of a node without any session. -/
theorem stray_ack_reacts : ¬ ∀ (owner : DeviceIdentity) (n : Operations.Node) (env : Env)
    (data : Bytes) (addr : Addr) (packet : ParsedPacket), Reachable stub owner n →
    parsePacket data = .ok packet → IsDataType packet.ptype = true →
    Unauthenticated stub n.transport data addr →
    NoEffect n.transport (dispatch stub env n.transport data addr) := by
  intro hclaim
  obtain ⟨t, ht⟩ := init_ok bravo (by decide)
  let n : Operations.Node := ⟨startWith t [] [] [] [0] .empty, []⟩
  have hn : Started bravo n := ⟨fresh_startWith bravo t ht [] [] [] [0] .empty, rfl⟩
  have hquiet := hclaim bravo n stillEnv strayAck stranger _ ⟨n, [], hn, rfl⟩ parse_strayAck rfl
    (unauthenticated_started n hn)
  have hreacts : .ackReceived 0 1 ∈ (dispatch stub stillEnv n.transport strayAck stranger).effects := by
    simp only [dispatch, parse_strayAck, macGate, hn.1.sessionsByAddr, OrderedDict.get?_empty,
      if_true, handle, handleAck]
    rw [if_neg (by decide)]
    have hid : unpackBE (slice (packBE 4 1) 0 4) = 1 := by decide
    exact List.mem_map.mpr ⟨0, List.mem_singleton_self 0, by rw [hid]⟩
  have hsilent := hquiet.silent _ hreacts
  contradiction

end Stray

end Mesim.MacPolicy
