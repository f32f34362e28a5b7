import Mesim.FragmentDelivery

/-!
What reaches the message callbacks.
A datagram causes replies of other types than MESSAGE, callbacks of other kinds,
and the delivery of a message that has just verified under the verify key of the
session it came through. So whatever the buffers hold, and whichever packets
their fragments came in, only whole messages that the peer signed are delivered.
-/
namespace Mesim.SignedDelivery

open Octets TextCodec Crypto Identity Packet Transport Operations Dispatch Nodes Fragments
open Honest Reassembly FragmentDelivery MeshTransport Outcome

variable (C : Suite)

/-- What a datagram can cause. -/
inductive Consequence (t : MeshTransport) (addr : Addr) : Effect → Prop
  | reply (ptype : PacketType) (payload : Bytes) (key : Option SessionKey) (packet : Bytes)
      (dest : Addr) (hne : ptype ≠ .message)
      (hbuild : buildPacket C ptype t.senderId payload key = .ok packet) :
      Consequence t addr (.sendto packet dest)
  | message (cb : Callback) (peerId : String) (session : SessionInfo) (message : Bytes)
      (hholds : Holds t addr peerId session) (hverified : Verified C session message) :
      Consequence t addr (.message cb peerId message)
  | connected (cb : Callback) (peerId : String) : Consequence t addr (.connected cb peerId)
  | ackReceived (cb : Callback) (msgId : ℕ) : Consequence t addr (.ackReceived cb msgId)
  | rawPacket (cb : Callback) (payload senderId : Bytes) :
      Consequence t addr (.rawPacket cb payload addr senderId)

section Handlers

theorem reply_sendRaw (t : MeshTransport) (addr : Addr) (ptype : PacketType) (payload : Bytes)
    (key : Option SessionKey) (packet : Bytes) (hne : ptype ≠ .message)
    (hbuild : buildPacket C ptype t.senderId payload key = .ok packet) (u : MeshTransport)
    (dest : Addr) (e : Effect) (he : e ∈ u.sendRaw packet dest) : Consequence C t addr e := by
  rw [mem_sendRaw u packet dest e he]
  exact .reply ptype payload key packet dest hne hbuild

theorem message_consequence (env : Env) (t : MeshTransport) (data sid payload : Bytes)
    (addr : Addr) (hparse : parsePacket data = .ok ⟨.message, sid, payload⟩) :
    ∀ e ∈ (dispatch C env t data addr).effects, Consequence C t addr e := by
  intro e he
  rcases effects_message C env t data sid payload addr hparse with
    hnone | ⟨peerId, session, message, hholds, hverified, heffects⟩
  · rw [hnone] at he
    contradiction
  · rw [heffects] at he
    rcases List.mem_append.mp he with hack | hcb
    · exact reply_sendRaw C t addr .ack _ (some session.sessionKey) _ (by decide)
        (buildPacket_keyed C .ack t.senderId _ session.sessionKey rfl
          (by rw [packBE_length]; decide)) t addr e hack
    · obtain ⟨cb, _, rfl⟩ := List.mem_map.mp hcb
      exact .message cb peerId session message hholds hverified

/-- A HANDSHAKE is answered only with the node's own bundle, and only when it announces one. -/
theorem handshake_effects (t : MeshTransport) (payload : Bytes) (addr : Addr) (e : Effect)
    (he : e ∈ (handleHandshake C t payload addr).effects) :
    (∃ bundle, announced C payload = some bundle) ∧
      ∃ wire, packBundle (getPublicBundle C t.identity) = .ok wire ∧
        e = .sendto (frame .handshakeResp t.senderId wire zeroMac) addr := by
  unfold handleHandshake attempt at he
  dsimp only at he
  split at he
  · contradiction
  · rename_i hlen
    split at he
    · contradiction
    · rename_i bundle hreceive
      have hself := sameTraffic_notePeerBundle t addr bundle
      split at he
      · contradiction
      · rename_i wire hwire
        rw [hself.identity] at hwire
        rw [hself.senderId, buildPacket_unkeyed C .handshakeResp t.senderId wire
          (packBundle_fits C t.identity wire hwire)] at he
        exact ⟨⟨bundle, (announced_eq_some_iff C payload bundle).mpr
          ⟨not_not.mp hlen, hreceive⟩⟩, wire, hwire, mem_sendRaw _ _ _ e he⟩

theorem handshakeResp_effects (t : MeshTransport) (payload : Bytes) (addr : Addr) :
    (handleHandshakeResp C t payload addr).effects = [] := by
  unfold handleHandshakeResp attempt
  repeat' split
  all_goals rfl

theorem keyInit_effects (env : Env) (t : MeshTransport) (payload : Bytes) (addr : Addr)
    (e : Effect) (he : e ∈ (handleKeyInit C env t payload addr).effects) :
    (∃ key, e = .sendto (frame .keyAck t.senderId ((C.encryptMessage (env.nonce 0)
        (keyAckMagic ++ env.filler.toList) key []).1 ++ (C.encryptMessage (env.nonce 0)
          (keyAckMagic ++ env.filler.toList) key []).2) zeroMac) addr) ∨
      ∃ cb peerId, e = .connected cb peerId := by
  unfold handleKeyInit attempt at he
  dsimp only at he
  split at he
  · contradiction
  · split at he
    · split at he
      · contradiction
      · rename_i key _
        rw [buildPacket_unkeyed C .keyAck t.senderId _ (by rw [keyAck_length]; decide)] at he
        rcases List.mem_append.mp he with hsent | hcb
        · exact Or.inl ⟨key, mem_sendRaw _ _ _ e hsent⟩
        · obtain ⟨cb, _, rfl⟩ := List.mem_map.mp hcb
          exact Or.inr ⟨cb, _, rfl⟩
    · contradiction

theorem keyAck_effects (env : Env) (t : MeshTransport) (payload : Bytes) (addr : Addr)
    (e : Effect) (he : e ∈ (handleKeyAck C env t payload addr).effects) :
    ∃ cb peerId, e = .connected cb peerId := by
  unfold handleKeyAck at he
  repeat' split at he
  all_goals first
    | contradiction
    | obtain ⟨cb, _, rfl⟩ := List.mem_map.mp he
      exact ⟨cb, _, rfl⟩

theorem ping_effects (env : Env) (t : MeshTransport) (addr : Addr) (peerId : String)
    (session : SessionInfo) (e : Effect)
    (he : e ∈ (handlePing C env t addr peerId session).effects) :
    ∃ packet, buildPacket C .pong t.senderId [] (some session.sessionKey) = .ok packet ∧
      e = .sendto packet addr := by
  unfold handlePing attempt at he
  split at he
  · contradiction
  · rename_i packet hbuild
    exact ⟨packet, hbuild, mem_sendRaw _ _ _ e he⟩

theorem handshake_consequence (t : MeshTransport) (payload : Bytes) (addr : Addr) :
    ∀ e ∈ (handleHandshake C t payload addr).effects, Consequence C t addr e := by
  intro e he
  obtain ⟨_, wire, hwire, rfl⟩ := handshake_effects C t payload addr e he
  exact .reply .handshakeResp wire none _ addr (by decide)
    (buildPacket_unkeyed C .handshakeResp t.senderId wire (packBundle_fits C t.identity wire hwire))

theorem keyInit_consequence (env : Env) (t : MeshTransport) (payload : Bytes) (addr : Addr) :
    ∀ e ∈ (handleKeyInit C env t payload addr).effects, Consequence C t addr e := by
  intro e he
  rcases keyInit_effects C env t payload addr e he with ⟨key, rfl⟩ | ⟨cb, peerId, rfl⟩
  · exact .reply .keyAck _ none _ addr (by decide)
      (buildPacket_unkeyed C .keyAck t.senderId _ (by rw [keyAck_length]; decide))
  · exact .connected cb peerId

theorem keyAck_consequence (env : Env) (t : MeshTransport) (payload : Bytes) (addr : Addr) :
    ∀ e ∈ (handleKeyAck C env t payload addr).effects, Consequence C t addr e := by
  intro e he
  obtain ⟨cb, peerId, rfl⟩ := keyAck_effects C env t payload addr e he
  exact .connected cb peerId

theorem ping_consequence (env : Env) (t : MeshTransport) (addr : Addr) (peerId : String)
    (session : SessionInfo) :
    ∀ e ∈ (handlePing C env t addr peerId session).effects, Consequence C t addr e := by
  intro e he
  obtain ⟨packet, hbuild, rfl⟩ := ping_effects C env t addr peerId session e he
  exact .reply .pong [] (some session.sessionKey) packet addr (by decide) hbuild

end Handlers

/-- All that a datagram can cause, whatever it is and wherever it comes from. -/
theorem dispatch_consequence (env : Env) (t : MeshTransport) (data : Bytes) (addr : Addr) :
    ∀ e ∈ (dispatch C env t data addr).effects, Consequence C t addr e := by
  intro e he
  cases hparse : parsePacket data with
  | error err =>
    simp only [dispatch, hparse] at he
    contradiction
  | ok packet =>
    obtain ⟨ptype, sid, payload⟩ := packet
    by_cases hmessage : ptype = .message
    · subst hmessage
      exact message_consequence C env t data sid payload addr hparse e he
    · simp only [dispatch, hparse] at he
      split at he
      · cases ptype with
        | message => exact absurd rfl hmessage
        | handshake => exact handshake_consequence C t payload addr e he
        | handshakeResp =>
          simp only [handle, handshakeResp_effects] at he
          contradiction
        | keyInit => exact keyInit_consequence C env t payload addr e he
        | keyAck => exact keyAck_consequence C env t payload addr e he
        | ack =>
          simp only [handle, handleAck] at he
          split at he
          · contradiction
          · obtain ⟨cb, _, rfl⟩ := List.mem_map.mp he
            exact .ackReceived cb _
        | ping =>
          simp only [handle] at he
          split at he
          · contradiction
          · exact ping_consequence C env t addr _ _ e he
        | pong => contradiction
        | storeForward | originator =>
          simp only [handle] at he
          split at he
          · contradiction
          · rw [List.mem_singleton.mp he]
            exact .rawPacket _ _ _
      · contradiction

section Runs

theorem sendFragments_sendto (env : Env) (session : SessionInfo) (msgId fragTotal : ℕ)
    (t : MeshTransport) (fragIdx : ℕ) (chunks : List Bytes) :
    ∀ e ∈ (sendFragments C env session msgId fragTotal t fragIdx chunks).effects,
      ∃ packet, e = .sendto packet session.peerAddr := by
  induction chunks generalizing t fragIdx with
  | nil => simp [sendFragments, done]
  | cons chunk rest ih =>
    unfold sendFragments attempt
    split
    · simp [raise]
    · intro e he
      rcases List.mem_append.mp he with hsent | hrest
      · exact ⟨_, mem_sendRaw _ _ _ e hsent⟩
      · exact ih _ _ e hrest

theorem send_sendto (env : Env) (t : MeshTransport) (peerId : String) (message : Bytes) :
    ∀ e ∈ (send C env t peerId message).effects, ∃ packet dest, e = .sendto packet dest := by
  intro e he
  unfold send at he
  split at he
  · contradiction
  · rename_i session _
    have hloop : e ∈ (sendFragments C env session t.msgIdCounter
        (sending C env t session.sessionKey message).total
        { t with msgIdCounter := t.msgIdCounter + 1 } 0
        (sending C env t session.sessionKey message).chunks).effects := by
      dsimp only at he
      split at he <;> exact he
    obtain ⟨packet, heq⟩ := sendFragments_sendto C env session _ _ _ 0 _ e hloop
    exact ⟨packet, session.peerAddr, heq⟩

theorem retryEntries_not_message (now : ℚ) (t : MeshTransport) (entries : List InFlight)
    (cb : Callback) (peerId : String) (message : Bytes) :
    .message cb peerId message ∉ (retryEntries now t entries).2 := by
  induction entries generalizing t with
  | nil => exact List.not_mem_nil
  | cons inf rest ih =>
    intro he
    rcases List.mem_append.mp he with hfirst | hrest
    · have hentry : .message cb peerId message ∈ (retryEntry now t inf).2 := hfirst
      unfold retryEntry at hentry
      split at hentry
      · simp at hentry
      · cases mem_sendRaw _ _ _ _ hentry
    · exact ih _ hrest

/-- Only a datagram delivers, and what it delivers has verified. -/
theorem verified_of_step (n : Node) (e : Env × Event) (cb : Callback) (peerId : String)
    (message : Bytes) (h : .message cb peerId message ∈ (n.step C e.1 e.2).2) :
    ∃ session, n.transport.sessions.get? peerId = some session ∧ Verified C session message := by
  obtain ⟨env, event⟩ := e
  cases event with
  | datagram data addr =>
    cases dispatch_consequence C env n.transport data addr _ h with
    | message cb peerId session message hholds hverified =>
      exact ⟨session, hholds.session, hverified⟩
  | connect addr bundle =>
    have hmem : .message cb peerId message ∈ (connectBegin C n.transport addr bundle).effects := h
    have hbegun := connectBegin_begun C n.transport addr bundle
    generalize connectBegin C n.transport addr bundle = out at hbegun hmem
    cases hbegun with
    | rejected | unsent => contradiction
    | sent => cases mem_sendRaw _ _ _ _ hmem
  | resume i =>
    have hmem : .message cb peerId message ∈ (n.resume C env i).2 := h
    have hresumed := resume_resumed C env n i
    generalize n.resume C env i = out at hresumed hmem
    cases hresumed with
    | idle | failed | returned => contradiction
    | encapsulated => cases mem_sendRaw _ _ _ _ hmem
  | timeout i => contradiction
  | send peer text =>
    obtain ⟨_, _, heq⟩ := send_sendto C env n.transport peer text _ h
    contradiction
  | retry => exact absurd h (retryEntries_not_message env.monotonic n.transport _ cb peerId message)

end Runs

/-- Assume that only strings the holder of a key has signed verify under it. Then in
every run, each message handed to a callback was signed, as it is, by the holder of
the verify key in the session of its peer at that moment. -/
theorem delivered_signed (Signed : Ed25519VerifyKey → Bytes → Prop)
    (hsigned : ∀ message sig key, C.verifySignature message sig key = .ok () → Signed key message)
    (n : Node) (done : List (Env × Event)) (e : Env × Event) (cb : Callback) (peerId : String)
    (message : Bytes)
    (hmessage : .message cb peerId message ∈ ((Runs.run (nodeStep C) n done).step C e.1 e.2).2) :
    ∃ session, (Runs.run (nodeStep C) n done).transport.sessions.get? peerId = some session ∧
      Signed session.peerBundle.verifyKey message := by
  obtain ⟨session, hsession, sig, hverify⟩ := verified_of_step C _ e cb peerId message hmessage
  exact ⟨session, hsession, hsigned message sig _ hverify⟩

section Stub

/-- With the stub suite, a string is signed when some holder's signature over it verifies. -/
def StubSigned (key : Ed25519VerifyKey) (message : Bytes) : Prop :=
  ∃ holder, stub.verifySignature message (stub.signMessage message holder).toList key = .ok ()

theorem stubSigned_of_verify (message sig : Bytes) (key : Ed25519VerifyKey)
    (_ : stub.verifySignature message sig key = .ok ()) : StubSigned key message :=
  ⟨⟨key.raw⟩, stub.verify_sign ⟨⟨key.raw⟩, key⟩ (stub_signCorrect key.raw) message⟩

/-- Alpha's short message arrives at bravo. -/
theorem delivered_signed_short : ∃ (b : Node) (data : Bytes) (session : SessionInfo),
    Reachable stub bravo b ∧
    .message 0 "alpha" shortMessage ∈ (b.step stub stillEnv (.datagram data alphaAddr)).2 ∧
    b.transport.sessions.get? "alpha" = some session ∧
    StubSigned session.peerBundle.verifyKey shortMessage := by
  obtain ⟨a, b, sa, sb, _, hreachB, _, _, _, hreception, _, _, ⟨tb, htb, hcbs, _, hsameB⟩⟩ :=
    exists_reception [0] shortMessage (by decide)
  obtain ⟨whole, hchunks⟩ := chunks_shortMessage stillEnv a.transport sa.sessionKey
  have hbufs : b.transport.fragBufs = .empty := hsameB.fragBufs.trans htb.fragBufs
  obtain ⟨_, _, hcaused⟩ := copy_single stub stub_aeadCorrect hreception hchunks (.refl b.transport)
    (by rw [hbufs]; rfl) (by rw [hbufs]; decide) stillEnv
  have hmessage : .message 0 "alpha" shortMessage ∈ caused stub b.transport ⟨stillEnv,
      (sending stub stillEnv a.transport sa.sessionKey shortMessage).packet stub 0 whole,
      alphaAddr⟩ := by
    rw [hcaused, delivery, hsameB.messageCbs.trans hcbs]
    simp
  obtain ⟨session, hsession, hsigned⟩ := delivered_signed stub StubSigned stubSigned_of_verify b []
    (stillEnv, .datagram _ alphaAddr) 0 "alpha" shortMessage hmessage
  exact ⟨b, _, session, hreachB, hmessage, hsession, hsigned⟩

end Stub

end Mesim.SignedDelivery
