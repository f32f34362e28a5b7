import Mesim.SignedDelivery

/-!
What GET /peers reports.
The list has one entry for each session. Its figures are an account of the run since
the handshake that opened the session: the bytes that were sent to the peer and that
were delivered from it, the time of the handshake, and the time of some later step.
-/
namespace Mesim.Ledger

open Octets TextCodec Crypto Identity Packet Transport Operations Dispatch Nodes Fragments
open SignedDelivery Reassembly MeshTransport Outcome

section Model

/-- One object of the list. -/
structure PeerEntry where
  peerId : String
  callsign : String
  rank : Rank
  addrHost : String
  addrPort : ℕ
  establishedAt : ℚ
  lastActive : ℚ
  bytesSent : ℕ
  bytesRecv : ℕ
  deriving DecidableEq

def entry (session : SessionInfo) : PeerEntry where
  peerId := session.peerId
  callsign := session.peerBundle.callsign
  rank := session.peerBundle.rank
  addrHost := session.peerAddr.1
  addrPort := session.peerAddr.2
  establishedAt := session.establishedAt
  lastActive := session.lastActive
  bytesSent := session.bytesSent
  bytesRecv := session.bytesRecv

/-- `list_peers`. -/
def listPeers (t : MeshTransport) : List PeerEntry := t.sessions.values.map entry

variable (C : Suite)

/-- A step of a run, with the node that takes it. -/
abbrev Visit := Node × (Env × Event)

/-- The step registers a session under the peer's name. -/
def Opens (peerId : String) (visit : Visit) (addr : Addr) (key : SessionKey)
    (bundle : PublicBundle) : Prop :=
  ∃ data, visit.2.2 = .datagram data addr ∧
    installs C visit.1.transport data addr = some (key, bundle) ∧ bundle.deviceId = peerId

/-- The bytes of the messages from the peer that are handed to the callback. -/
def handed (cb : Callback) (peerId : String) (effects : List Effect) : ℕ :=
  (effects.map fun e => match e with
    | .message cb' peerId' message => if cb' = cb ∧ peerId' = peerId then message.length else 0
    | _ => 0).sum

def received (cb : Callback) (peerId : String) (visit : Visit) : ℕ :=
  handed cb peerId (visit.1.step C visit.2.1 visit.2.2).2

/-- The bytes of the message to the peer that send() takes without an exception. -/
def spent (peerId : String) (visit : Visit) : ℕ :=
  match visit.2.2 with
  | .send peerId' message =>
    if peerId' = peerId ∧
      (Operations.send C visit.2.1 visit.1.transport peerId' message).raised = none
    then message.length else 0
  | _ => 0

end Model

section Handlers

variable (C : Suite)

/-- No message is handed to a callback. -/
def Quiet (effects : List Effect) : Prop :=
  ∀ cb peerId message, .message cb peerId message ∉ effects

/-- What a packet other than the two that complete a handshake does to the sessions. -/
inductive Update (sessions : OrderedDict String SessionInfo) (cbs : List Callback) (now : ℚ) :
    OrderedDict String SessionInfo → List Effect → Prop
  | same (effects : List Effect) (hquiet : Quiet effects) : Update sessions cbs now sessions effects
  | seen (peerId : String) (session : SessionInfo) (effects : List Effect)
      (hsession : sessions.get? peerId = some session) (hquiet : Quiet effects) :
      Update sessions cbs now (sessions.set peerId { session with lastActive := now }) effects
  | delivered (peerId : String) (session : SessionInfo) (message : Bytes) (ack : List Effect)
      (hsession : sessions.get? peerId = some session) (hquiet : Quiet ack) :
      Update sessions cbs now (sessions.set peerId { session with
          bytesRecv := session.bytesRecv + message.length
          lastActive := now })
        (ack ++ cbs.map fun cb => .message cb peerId message)

theorem quiet_nil : Quiet [] := fun _ _ _ h => absurd h List.not_mem_nil

theorem quiet_sendRaw (t : MeshTransport) (packet : Bytes) (addr : Addr) :
    Quiet (t.sendRaw packet addr) := by
  intro cb peerId message hmem
  cases mem_sendRaw t packet addr _ hmem

theorem update_deliverAssembled (env : Env) (t : MeshTransport) (session : SessionInfo)
    (peerId : String) (addr : Addr) (msgId : ℕ) (assembled : Bytes)
    (hsession : t.sessions.get? peerId = some session) :
    let out := deliverAssembled C env t session peerId addr msgId assembled
    Update t.sessions t.messageCbs env.time out.state.sessions out.effects := by
  unfold deliverAssembled attempt
  dsimp only
  split
  · exact .same [] quiet_nil
  · split
    · exact .same [] quiet_nil
    · exact .same [] quiet_nil
    · split
      · exact .same [] quiet_nil
      · exact .delivered peerId session _ _ hsession (quiet_sendRaw t _ addr)

theorem update_storeFragment (env : Env) (t : MeshTransport) (session : SessionInfo)
    (peerId : String) (addr : Addr) (msgId fragIdx fragTotal : ℕ) (fragment : Bytes)
    (hsession : t.sessions.get? peerId = some session) :
    let out := storeFragment C env t session peerId addr msgId fragIdx fragTotal fragment
    Update t.sessions t.messageCbs env.time out.state.sessions out.effects := by
  unfold storeFragment attempt
  dsimp only
  split
  · exact .same [] quiet_nil
  · rename_i buf _
    split
    · exact .same [] quiet_nil
    · split
      · exact .same [] quiet_nil
      · rename_i assembled _
        let fragBufs := (t.fragBufs.set (peerId, msgId) (buf.set fragIdx fragment)).erase
          (peerId, msgId)
        exact update_deliverAssembled C env { t with fragBufs := fragBufs } session peerId addr
          msgId assembled hsession

theorem update_handleMessage (env : Env) (t : MeshTransport) (payload : Bytes) (addr : Addr)
    (fullPacket : Bytes) :
    let out := handleMessage C env t payload addr fullPacket
    Update t.sessions t.messageCbs env.time out.state.sessions out.effects := by
  unfold handleMessage
  dsimp only
  split
  · exact .same [] quiet_nil
  · split
    · exact .same [] quiet_nil
    · rename_i session hsession
      split
      · exact .same [] quiet_nil
      · split
        · exact .same [] quiet_nil
        · split
          · exact .same [] quiet_nil
          · exact .same [] quiet_nil
          · exact update_storeFragment C env t session _ addr _ _ _ _ hsession

theorem sessions_handleHandshake (t : MeshTransport) (payload : Bytes) (addr : Addr) :
    (handleHandshake C t payload addr).state.sessions = t.sessions := by
  unfold handleHandshake attempt
  dsimp only
  repeat' split
  all_goals first
    | rfl
    | exact sessions_notePeerBundle t addr _

theorem sessions_handleHandshakeResp (t : MeshTransport) (payload : Bytes) (addr : Addr) :
    (handleHandshakeResp C t payload addr).state.sessions = t.sessions := by
  unfold handleHandshakeResp attempt
  repeat' split
  all_goals rfl

theorem sessions_handleKeyInit (env : Env) (t : MeshTransport) (payload : Bytes) (addr : Addr)
    (h : keyInitInstalls C t payload addr = none) :
    (handleKeyInit C env t payload addr).state.sessions = t.sessions := by
  unfold handleKeyInit attempt
  split
  · rfl
  · rename_i bundle hbundle
    split
    · rename_i hlen
      split
      · rfl
      · rename_i key hkey
        simp only [keyInitInstalls, hbundle, hlen, dite_true, hkey] at h
        contradiction
    · rfl

theorem sessions_handleKeyAck (env : Env) (t : MeshTransport) (payload : Bytes) (addr : Addr)
    (h : keyAckInstalls C t payload addr = none) :
    (handleKeyAck C env t payload addr).state.sessions = t.sessions := by
  unfold handleKeyAck
  split
  · rename_i ref key href hkey
    split
    · rfl
    · rename_i hlen
      split
      · rfl
      · rfl
      · rename_i pt hpt
        split
        · rfl
        · rename_i hprefix
          split
          · rfl
          · rename_i bundle hbundle
            have hopens := ackOpens_eq C key payload hlen pt hpt
            simp only [keyAckInstalls, slotKey, hkey, hopens, decide_eq_true (not_not.mp hprefix),
              if_true, hbundle] at h
            contradiction
  · rfl

theorem quiet_map (cbs : List Callback) (notify : Callback → Effect)
    (h : ∀ cb' cb peerId message, notify cb' ≠ .message cb peerId message) :
    Quiet (cbs.map notify) := by
  intro cb peerId message hmem
  obtain ⟨cb', _, heq⟩ := List.mem_map.mp hmem
  exact h cb' cb peerId message heq

/-- Only MESSAGE packets reach the message callbacks. -/
theorem quiet_handle (env : Env) (t : MeshTransport) (packet : ParsedPacket) (data : Bytes)
    (addr : Addr) (h : packet.ptype ≠ .message) :
    Quiet (handle C env t packet data addr).effects := by
  obtain ⟨ptype, sid, payload⟩ := packet
  cases ptype with
  | message => exact absurd rfl h
  | handshake =>
    intro cb peerId message hmem
    obtain ⟨_, wire, _, heq⟩ := handshake_effects C t payload addr _ hmem
    contradiction
  | handshakeResp =>
    simp only [handle, handshakeResp_effects]
    exact quiet_nil
  | keyInit =>
    intro cb peerId message hmem
    rcases keyInit_effects C env t payload addr _ hmem with ⟨_, heq⟩ | ⟨_, _, heq⟩ <;> contradiction
  | keyAck =>
    intro cb peerId message hmem
    obtain ⟨_, _, heq⟩ := keyAck_effects C env t payload addr _ hmem
    contradiction
  | ack =>
    simp only [handle, handleAck]
    split
    · exact quiet_nil
    · exact quiet_map _ _ fun _ _ _ _ => by simp
  | ping =>
    simp only [handle]
    split
    · exact quiet_nil
    · unfold handlePing attempt
      split
      · exact quiet_nil
      · exact quiet_sendRaw t _ addr
  | pong => exact quiet_nil
  | storeForward | originator =>
    simp only [handle]
    split
    · exact quiet_nil
    · intro cb peerId message hmem
      cases List.mem_singleton.mp hmem

/-- What a datagram that completes no handshake does to the sessions. -/
theorem update_dispatch (env : Env) (t : MeshTransport) (data : Bytes) (addr : Addr)
    (hnone : installs C t data addr = none) :
    let out := dispatch C env t data addr
    Update t.sessions t.messageCbs env.time out.state.sessions out.effects := by
  dsimp only
  cases hparse : parsePacket data with
  | error e =>
    simp only [dispatch, hparse]
    exact .same [] quiet_nil
  | ok packet =>
    have hquiet := quiet_handle C env t packet data addr
    obtain ⟨ptype, sid, payload⟩ := packet
    simp only [dispatch, hparse]
    split
    · cases ptype with
      | message => exact update_handleMessage C env t payload addr data
      | handshake =>
        simp only [handle, sessions_handleHandshake]
        exact .same _ (hquiet (by simp))
      | handshakeResp =>
        simp only [handle, sessions_handleHandshakeResp]
        exact .same _ (hquiet (by simp))
      | keyInit =>
        rw [installs, hparse] at hnone
        simp only [handle, sessions_handleKeyInit C env t payload addr hnone]
        exact .same _ (hquiet (by simp))
      | keyAck =>
        rw [installs, hparse] at hnone
        simp only [handle, sessions_handleKeyAck C env t payload addr hnone]
        exact .same _ (hquiet (by simp))
      | ack =>
        have hsessions : (handleAck t payload).state.sessions = t.sessions := by
          unfold handleAck
          split <;> rfl
        simp only [handle, hsessions]
        exact .same _ (hquiet (by simp))
      | ping =>
        simp only [handle]
        split
        · exact .same [] quiet_nil
        · rename_i session hsession
          unfold handlePing attempt
          split
          · exact .same [] quiet_nil
          · exact .seen _ session _ hsession (quiet_sendRaw t _ addr)
      | pong => exact .same [] quiet_nil
      | storeForward | originator =>
        simp only [handle]
        split
        · exact .same [] quiet_nil
        · refine .same _ fun cb peerId message hmem => ?_
          cases List.mem_singleton.mp hmem
    · exact .same [] quiet_nil

/-- What a datagram that completes one does. -/
theorem opened_dispatch (env : Env) (t : MeshTransport) (data : Bytes) (addr : Addr)
    (key : SessionKey) (bundle : PublicBundle)
    (hinstall : installs C t data addr = some (key, bundle)) :
    (dispatch C env t data addr).state.sessions =
        (t.installSession env.time addr key bundle).sessions ∧
      Quiet (dispatch C env t data addr).effects := by
  have hcase := dispatch_case C env t data addr
  generalize dispatch C env t data addr = out at hcase
  cases hcase with
  | other out hsame hidle _ =>
    rw [installs_eq_none C t data addr hidle] at hinstall
    contradiction
  | handshake sid payload bundle' out hparse _ _ _ =>
    simp only [installs, hparse] at hinstall
    contradiction
  | handshakeResp sid payload bundle' ref hparse _ _ =>
    simp only [installs, hparse] at hinstall
    contradiction
  | keyInit sid payload key' bundle' hparse hinstall' =>
    simp only [installs, hparse, hinstall'] at hinstall
    cases hinstall
    refine ⟨rfl, fun cb peerId message hmem => ?_⟩
    rcases List.mem_append.mp hmem with hsent | hconnected
    · exact quiet_sendRaw _ _ _ cb peerId message hsent
    · exact quiet_map _ _ (fun _ _ _ _ => by simp) cb peerId message hconnected
  | keyAck sid payload key' bundle' ref hparse hinstall' _ =>
    simp only [installs, hparse, hinstall'] at hinstall
    cases hinstall
    exact ⟨rfl, quiet_map _ _ fun _ _ _ _ => by simp⟩

end Handlers

section Accounts

variable (C : Suite) {cb : Callback} {peerId : String}

theorem handed_quiet {effects : List Effect} (h : Quiet effects) :
    handed cb peerId effects = 0 := by
  refine List.sum_eq_zero fun n hn => ?_
  obtain ⟨e, he, rfl⟩ := List.mem_map.mp hn
  cases e with
  | message cb' peerId' message => exact absurd he (h cb' peerId' message)
  | sendto | connected | sendFailed | ackReceived | rawPacket => rfl

theorem handed_callbacks (cbs : List Callback) (peerId' : String) (message : Bytes) :
    handed cb peerId (cbs.map fun cb' => .message cb' peerId' message) =
      if peerId' = peerId then cbs.count cb * message.length else 0 := by
  induction cbs with
  | nil => simp [handed]
  | cons first rest ih =>
    have hcons : handed cb peerId ((first :: rest).map fun cb' => .message cb' peerId' message) =
        (if first = cb ∧ peerId' = peerId then message.length else 0) +
          handed cb peerId (rest.map fun cb' => .message cb' peerId' message) := rfl
    rw [hcons, ih, List.count_cons]
    by_cases hpeer : peerId' = peerId
    · by_cases hcb : first = cb
      · simp only [hpeer, hcb, and_self, if_true, beq_self_eq_true]
        ring
      · simp [hpeer, hcb]
    · simp [hpeer]

theorem handed_append (effects effects' : List Effect) :
    handed cb peerId (effects ++ effects') =
      handed cb peerId effects + handed cb peerId effects' := by
  simp only [handed, List.map_append, List.sum_append]

/-- A session before and after a step that delivers this much from its peer. -/
structure Kept (now : ℚ) (sent delivered : ℕ) (s s' : SessionInfo) : Prop where
  eq : s' = { s with
    bytesSent := s.bytesSent + sent
    bytesRecv := s.bytesRecv + delivered
    lastActive := s'.lastActive }
  lastActive : s'.lastActive = s.lastActive ∨ s'.lastActive = now

theorem kept_refl (now : ℚ) (s : SessionInfo) : Kept now 0 0 s s := ⟨rfl, Or.inl rfl⟩

theorem kept_of_update {sessions sessions' : OrderedDict String SessionInfo} {cbs : List Callback}
    {now : ℚ} {effects : List Effect} (h : Update sessions cbs now sessions' effects)
    (hcount : cbs.count cb = 1) {s' : SessionInfo} (hs' : sessions'.get? peerId = some s') :
    ∃ s, sessions.get? peerId = some s ∧ Kept now 0 (handed cb peerId effects) s s' := by
  cases h with
  | same _ hquiet =>
    rw [handed_quiet hquiet]
    exact ⟨s', hs', kept_refl now s'⟩
  | seen peerId' session _ hsession hquiet =>
    rw [handed_quiet hquiet]
    rw [OrderedDict.get?_set] at hs'
    split at hs'
    · rename_i hpeer
      subst hpeer
      cases hs'
      exact ⟨session, hsession, rfl, Or.inr rfl⟩
    · exact ⟨s', hs', kept_refl now s'⟩
  | delivered peerId' session message ack hsession hquiet =>
    rw [handed_append, handed_quiet hquiet, handed_callbacks, hcount, zero_add, one_mul]
    rw [OrderedDict.get?_set] at hs'
    split at hs'
    · rename_i hpeer
      subst hpeer
      cases hs'
      rw [if_pos rfl]
      exact ⟨session, hsession, rfl, Or.inr rfl⟩
    · rename_i hpeer
      rw [if_neg hpeer]
      exact ⟨s', hs', kept_refl now s'⟩

/-- The session as the handshake of this step leaves it. -/
def Opened (peerId : String) (visit : Visit) (s : SessionInfo) : Prop :=
  ∃ addr key bundle, Opens C peerId visit addr key bundle ∧
    s = ⟨peerId, addr, key, bundle, visit.2.1.time, visit.2.1.time, 0, 0⟩

/-- A step of the session's lifetime. -/
def Carried (cb : Callback) (peerId : String) (visit : Visit) (s s' : SessionInfo) : Prop :=
  (∀ addr key bundle, ¬ Opens C peerId visit addr key bundle) ∧
    Kept visit.2.1.time (spent C peerId visit) (received C cb peerId visit) s s'

theorem sessions_retryEntries (now : ℚ) (t : MeshTransport) (entries : List InFlight) :
    (retryEntries now t entries).1.sessions = t.sessions := by
  induction entries generalizing t with
  | nil => rfl
  | cons inf rest ih =>
    have hentry : (retryEntry now t inf).1.sessions = t.sessions := by
      unfold retryEntry
      split <;> rfl
    exact (ih _).trans hentry

/-- Steps without a datagram or a message leave the sessions alone. -/
theorem idle_step (n : Node) (env : Env) (event : Event)
    (hdatagram : ∀ data addr, event ≠ .datagram data addr)
    (hsend : ∀ peerId message, event ≠ .send peerId message) :
    (n.step C env event).1.transport.sessions = n.transport.sessions ∧
      Quiet (n.step C env event).2 := by
  cases event with
  | datagram data addr => exact absurd rfl (hdatagram data addr)
  | send peer message => exact absurd rfl (hsend peer message)
  | connect addr bundle =>
    show (connectBegin C n.transport addr bundle).state.sessions = _ ∧
      Quiet (connectBegin C n.transport addr bundle).effects
    have hbegun := connectBegin_begun C n.transport addr bundle
    generalize connectBegin C n.transport addr bundle = out at hbegun
    cases hbegun with
    | rejected | unsent => exact ⟨rfl, quiet_nil⟩
    | sent => exact ⟨rfl, quiet_sendRaw _ _ _⟩
  | resume i =>
    show (n.resume C env i).1.transport.sessions = _ ∧ Quiet (n.resume C env i).2
    have hresumed := resume_resumed C env n i
    generalize n.resume C env i = out at hresumed
    cases hresumed with
    | idle | failed | returned => exact ⟨rfl, quiet_nil⟩
    | encapsulated => exact ⟨rfl, quiet_sendRaw _ _ _⟩
  | timeout i =>
    refine ⟨?_, quiet_nil⟩
    show (n.timeout i).transport.sessions = _
    rcases timeout_eq n i with heq | ⟨call, _, _, heq⟩
    · rw [heq]
    · rw [heq]
      rfl
  | retry =>
    exact ⟨sessions_retryEntries _ _ _,
      fun cb peerId message =>
        retryEntries_not_message env.monotonic n.transport _ cb peerId message⟩

/-- Only datagrams reach the message callbacks. -/
theorem quiet_own (n : Node) (env : Env) (event : Event)
    (hdatagram : ∀ data addr, event ≠ .datagram data addr) : Quiet (n.step C env event).2 := by
  by_cases hsend : ∃ peer message, event = .send peer message
  · obtain ⟨peer, message, rfl⟩ := hsend
    intro cb peerId message' hmem
    obtain ⟨_, _, heq⟩ := send_sendto C env n.transport peer message _ hmem
    contradiction
  · exact (idle_step C n env event hdatagram fun peer message heq => hsend ⟨peer, message, heq⟩).2

/-- send() books the message when it raises nothing. -/
theorem sessions_send (env : Env) (t : MeshTransport) (peer : String) (message : Bytes) :
    let out := Operations.send C env t peer message
    (out.raised ≠ none ∧ out.state.sessions = t.sessions) ∨
      (out.raised = none ∧ ∃ session, t.sessions.get? peer = some session ∧
        out.state.sessions = t.sessions.set peer { session with
          bytesSent := session.bytesSent + message.length
          lastActive := env.time }) := by
  unfold Operations.send
  dsimp only
  split
  · exact Or.inl ⟨by simp [raise], rfl⟩
  · rename_i session hsession
    have hsame := (sendFragments_same C env session t.msgIdCounter
      (splitFragments ((C.signMessage message t.identity.signingKeypair.signingKey).toList
        ++ message)).length { t with msgIdCounter := t.msgIdCounter + 1 } 0
      (splitFragments ((C.signMessage message t.identity.signingKeypair.signingKey).toList
        ++ message))).2
    split
    · rename_i e hraised
      exact Or.inl ⟨by rw [hraised]; exact Option.some_ne_none e, hsame⟩
    · rename_i hraised
      exact Or.inr ⟨hraised, session, hsession, by rw [hsame]⟩

theorem kept_send (env : Env) (t : MeshTransport) (peer : String) (message : Bytes)
    {s' : SessionInfo}
    (hs' : (Operations.send C env t peer message).state.sessions.get? peerId = some s') :
    ∃ s, t.sessions.get? peerId = some s ∧ Kept env.time
      (if peer = peerId ∧ (Operations.send C env t peer message).raised = none
        then message.length else 0) 0 s s' := by
  rcases sessions_send C env t peer message with
    ⟨hraised, hsame⟩ | ⟨hraised, session, hsession, hset⟩
  · rw [hsame] at hs'
    rw [if_neg fun h => hraised h.2]
    exact ⟨s', hs', kept_refl env.time s'⟩
  · rw [hset, OrderedDict.get?_set] at hs'
    split at hs'
    · rename_i hpeer
      subst hpeer
      cases hs'
      rw [if_pos ⟨rfl, hraised⟩]
      exact ⟨session, hsession, rfl, Or.inr rfl⟩
    · rename_i hpeer
      rw [if_neg fun h => hpeer h.1]
      exact ⟨s', hs', kept_refl env.time s'⟩

theorem session_step (n : Node) (e : Env × Event) (s' : SessionInfo)
    (hcount : n.transport.messageCbs.count cb = 1)
    (hs' : (nodeStep C n e).transport.sessions.get? peerId = some s') :
    Opened C peerId (n, e) s' ∨ ∃ s, n.transport.sessions.get? peerId = some s ∧
      Carried C cb peerId (n, e) s s' := by
  obtain ⟨env, event⟩ := e
  by_cases hdatagram : ∃ data addr, event = .datagram data addr
  · obtain ⟨data, addr, rfl⟩ := hdatagram
    cases hinstall : installs C n.transport data addr with
    | none =>
      have hupdate := update_dispatch C env n.transport data addr hinstall
      obtain ⟨s, hs, hkept⟩ := kept_of_update hupdate hcount hs'
      refine Or.inr ⟨s, hs, ?_, hkept⟩
      rintro addr' key bundle ⟨data', hevent, hsome, _⟩
      cases hevent
      rw [hinstall] at hsome
      contradiction
    | some installed =>
      obtain ⟨key, bundle⟩ := installed
      obtain ⟨hsessions, hquiet⟩ := opened_dispatch C env n.transport data addr key bundle hinstall
      have hget : ((n.transport.installSession env.time addr key bundle).sessions).get? peerId =
        some s' := hsessions ▸ hs'
      rw [installSession, OrderedDict.get?_set] at hget
      split at hget
      · rename_i hpeer
        cases hget
        exact Or.inl ⟨addr, key, bundle, ⟨data, rfl, hinstall, hpeer⟩, by rw [hpeer]⟩
      · rename_i hpeer
        refine Or.inr ⟨s', hget, ?_, ?_⟩
        · rintro addr' key' bundle' ⟨data', hevent, hsome, hname⟩
          cases hevent
          rw [hinstall] at hsome
          cases hsome
          exact hpeer hname
        · have hreceived : received C cb peerId (n, env, .datagram data addr) = 0 :=
            handed_quiet hquiet
          rw [hreceived]
          exact kept_refl env.time s'
  · have hnot : ∀ addr key bundle, ¬ Opens C peerId (n, env, event) addr key bundle := by
      rintro addr key bundle ⟨data, hevent, _⟩
      exact hdatagram ⟨data, addr, hevent⟩
    by_cases hsend : ∃ peer message, event = .send peer message
    · obtain ⟨peer, message, rfl⟩ := hsend
      obtain ⟨s, hs, hkept⟩ := kept_send C env n.transport peer message hs'
      refine Or.inr ⟨s, hs, hnot, ?_⟩
      have hreceived : received C cb peerId (n, env, .send peer message) = 0 :=
        handed_quiet (quiet_own C n env _ fun _ _ heq => by contradiction)
      rw [hreceived]
      exact hkept
    · obtain ⟨hsame, hquiet⟩ := idle_step C n env event
        (fun data addr heq => hdatagram ⟨data, addr, heq⟩)
        (fun peer message heq => hsend ⟨peer, message, heq⟩)
      have hspent : spent C peerId (n, env, event) = 0 := by
        cases event with
        | send peer message => exact absurd ⟨peer, message, rfl⟩ hsend
        | datagram | connect | resume | timeout | retry => rfl
      have hreceived : received C cb peerId (n, env, event) = 0 := handed_quiet hquiet
      refine Or.inr ⟨s', ?_, hnot, ?_⟩
      · rw [← hsame]
        exact hs'
      · rw [hspent, hreceived]
        exact kept_refl env.time s'

end Accounts

section Runs

variable (C : Suite)

/-- Over the later steps of its lifetime a session keeps what it was opened with and adds up
what is sent and delivered. -/
theorem handed_carried {cb : Callback} {peerId : String} {visits : List Visit} {s s' : SessionInfo}
    (h : Runs.Handed (Carried C cb peerId) visits s s') :
    s' = { s with
        bytesSent := s.bytesSent + (visits.map (spent C peerId)).sum
        bytesRecv := s.bytesRecv + (visits.map (received C cb peerId)).sum
        lastActive := s'.lastActive } ∧
      (∀ visit ∈ visits, ∀ addr key bundle, ¬ Opens C peerId visit addr key bundle) ∧
      (s'.lastActive = s.lastActive ∨ ∃ visit ∈ visits, s'.lastActive = visit.2.1.time) := by
  induction visits generalizing s with
  | nil =>
    cases h
    exact ⟨rfl, fun _ hmem => absurd hmem List.not_mem_nil, Or.inl rfl⟩
  | cons visit rest ih =>
    obtain ⟨z, ⟨hnot, heq, hactive⟩, hrest⟩ := h
    obtain ⟨heq', hnot', hactive'⟩ := ih hrest
    refine ⟨?_, ?_, ?_⟩
    · rw [heq', heq]
      simp only [List.map_cons, List.sum_cons, Nat.add_assoc]
    · intro v hv
      rcases List.mem_cons.mp hv with rfl | hv
      · exact hnot
      · exact hnot' v hv
    · rcases hactive' with hsame | ⟨v, hv, htime⟩
      · rcases hactive with hbefore | hnow
        · exact Or.inl (hsame.trans hbefore)
        · exact Or.inr ⟨visit, List.mem_cons_self, hsame.trans hnow⟩
      · exact Or.inr ⟨v, List.mem_cons_of_mem visit hv, htime⟩

/-- The steps of the run from `n` that follow the first `done`. -/
def later (n : Node) (done after : List (Env × Event)) : List Visit :=
  Runs.visits (nodeStep C) (Runs.run (nodeStep C) n done) after

/-- Every session of a run from a started node was opened in it, and is what the steps since then
have made of it. -/
theorem session_epoch {owner : DeviceIdentity} {n : Node} (hn : Started owner n) {cb : Callback}
    (hcb : n.transport.messageCbs.count cb = 1) (events : List (Env × Event)) (peerId : String)
    (s : SessionInfo)
    (hs : (Runs.run (nodeStep C) n events).transport.sessions.get? peerId = some s) :
    ∃ before e after s₀, events = before ++ e :: after ∧
      Opened C peerId (Runs.run (nodeStep C) n before, e) s₀ ∧
      Runs.Handed (Carried C cb peerId) (later C n (before ++ [e]) after) s₀ s := by
  refine Runs.exists_epoch (I := fun n : Node => n.transport.messageCbs.count cb = 1)
    (fun n : Node => n.transport.sessions.get? peerId) (fun n e hcount => ?_)
    (fun n e x hcount hx => session_step C n e x hcount hx) n hcb ?_ events s hs
  · rw [(nodeStep_sameDevice C n e).messageCbs]
    exact hcount
  · simp [hn.1.sessions]

/-- The list has each session once, under the name it is registered by. -/
theorem mem_listPeers {owner : DeviceIdentity} {n : Node} (hn : Started owner n) {cb : Callback}
    (hcb : n.transport.messageCbs.count cb = 1) (events : List (Env × Event)) (report : PeerEntry)
    (h : report ∈ listPeers (Runs.run (nodeStep C) n events).transport) :
    ∃ s, (Runs.run (nodeStep C) n events).transport.sessions.get? report.peerId = some s ∧
      report = entry s := by
  obtain ⟨s, hmem, rfl⟩ := List.mem_map.mp h
  obtain ⟨peerId, hs⟩ := (OrderedDict.mem_values_iff _ _).mp hmem
  obtain ⟨before, e, after, s₀, _, ⟨addr, key, bundle, _, hopened⟩, hhanded⟩ :=
    session_epoch C hn hcb events peerId s hs
  have hname : s.peerId = peerId := by rw [(handed_carried C hhanded).1, hopened]
  exact ⟨s, by rw [entry, hname]; exact hs, rfl⟩

/-- What GET /peers reports in any run of a node with one message callback: of each session the
address, names and time of the handshake that opened it, how many bytes send() has taken for the
peer and the callback was handed from it since then, and when the handshake or a later step was;
no later handshake was in its name. -/
theorem peers_account (owner : DeviceIdentity) (n : Node) (hn : Started owner n) (cb : Callback)
    (hcb : n.transport.messageCbs.count cb = 1) (events : List (Env × Event)) (report : PeerEntry)
    (h : report ∈ listPeers (Runs.run (nodeStep C) n events).transport) :
    ∃ before e after addr key bundle, events = before ++ e :: after ∧
      Opens C report.peerId (Runs.run (nodeStep C) n before, e) addr key bundle ∧
      (∀ visit ∈ later C n (before ++ [e]) after, ∀ addr' key' bundle',
        ¬ Opens C report.peerId visit addr' key' bundle') ∧
      report.callsign = bundle.callsign ∧ report.rank = bundle.rank ∧
      (report.addrHost, report.addrPort) = addr ∧ report.establishedAt = e.1.time ∧
      report.bytesSent =
        ((later C n (before ++ [e]) after).map (spent C report.peerId)).sum ∧
      report.bytesRecv =
        ((later C n (before ++ [e]) after).map (received C cb report.peerId)).sum ∧
      (∃ e' ∈ e :: after, report.lastActive = e'.1.time) := by
  obtain ⟨s, hs, hreport⟩ := mem_listPeers C hn hcb events report h
  obtain ⟨before, e, after, s₀, hevents, ⟨addr, key, bundle, hopens, hs₀⟩, hhanded⟩ :=
    session_epoch C hn hcb events report.peerId s hs
  obtain ⟨hsum, hlater, hactive⟩ := handed_carried C hhanded
  refine ⟨before, e, after, addr, key, bundle, hevents, hopens, hlater, ?_⟩
  have hentry : report = entry s := hreport
  generalize hid : report.peerId = peerId at *
  rw [hentry]
  subst hs₀
  refine ⟨by rw [hsum]; rfl, by rw [hsum]; rfl, by rw [hsum]; rfl, by rw [hsum]; rfl, ?_, ?_, ?_⟩
  · rw [hsum]
    exact Nat.zero_add _
  · rw [hsum]
    exact Nat.zero_add _
  · rcases hactive with hsame | ⟨visit, hvisit, htime⟩
    · exact ⟨e, List.mem_cons_self, hsame⟩
    · exact ⟨visit.2, List.mem_cons_of_mem e (Runs.label_mem_of_mem_visits _ hvisit), htime⟩

theorem messageCbs_run (n : Node) (events : List (Env × Event)) :
    (Runs.run (nodeStep C) n events).transport.messageCbs = n.transport.messageCbs :=
  Runs.invariant_of_step (I := fun m : Node => m.transport.messageCbs = n.transport.messageCbs)
    (fun m e h => (nodeStep_sameDevice C m e).messageCbs.trans h) n events rfl

end Runs

section Stub

open Honest FragmentDelivery

/-- Alpha's session at bravo's node after a message to alpha and a message from him. -/
theorem exists_conversed : ∃ (n : Node) (events : List (Env × Event)) (session : SessionInfo),
    Started bravo n ∧ n.transport.messageCbs = [0] ∧
    (Runs.run (nodeStep stub) n events).transport.sessions.get? "alpha" = some session ∧
    0 < session.bytesSent ∧ 0 < session.bytesRecv := by
  obtain ⟨a, b, sa, sb, _, ⟨n, events, hn, hrun⟩, _, _, _, hreception, _, _, honly⟩ :=
    exists_reception [0] shortMessage (by decide)
  obtain ⟨t₀, ht₀, hcbs, _, hsame⟩ := honly
  have hcbsB : b.transport.messageCbs = [0] := hsame.messageCbs.trans hcbs
  have hcount : b.transport.messageCbs.count 0 = 1 := by rw [hcbsB]; rfl
  -- the message to alpha
  let b₁ := nodeStep stub b (stillEnv, .send "alpha" shortMessage)
  have hraised : (Operations.send stub stillEnv b.transport "alpha" shortMessage).raised = none :=
    (send_raised_iff stub stillEnv b.transport "alpha" shortMessage sb
      hreception.holds.session).mpr (sendable_first stub stillEnv sb.sessionKey
        (hsame.msgIdCounter.trans ht₀.msgIdCounter) (by decide))
  have hspent : spent stub "alpha" (b, stillEnv, .send "alpha" shortMessage) = 2 :=
    if_pos ⟨rfl, hraised⟩
  have hkept₁ : SameHandshakes b.transport b₁.transport :=
    send_same stub stillEnv b.transport "alpha" shortMessage
  obtain ⟨s₁, hholds₁, _⟩ := holds_of_same hreception.holds hkept₁
  have hsent : s₁.bytesSent ≥ 2 := by
    rcases session_step stub b (stillEnv, .send "alpha" shortMessage) s₁ hcount hholds₁.session with
      ⟨_, _, _, ⟨_, hevent, _⟩, _⟩ | ⟨s, _, _, hkept⟩
    · cases hevent
    · rw [hkept.eq, hspent]
      exact Nat.le_add_left 2 _
  -- the message from alpha
  obtain ⟨whole, hchunks⟩ := chunks_shortMessage stillEnv a.transport sa.sessionKey
  let x := sending stub stillEnv a.transport sa.sessionKey shortMessage
  let e : Env × Event := (stillEnv, .datagram (x.packet stub 0 whole) alphaAddr)
  have hbufs : b₁.transport.fragBufs = .empty := by
    have hown : b₁.transport.fragBufs = b.transport.fragBufs :=
      fragBufs_own stub b stillEnv _ fun _ _ heq => by cases heq
    rw [hown, hsame.fragBufs, ht₀.fragBufs]
  obtain ⟨hkept₂, _, hcaused⟩ := copy_single stub stub_aeadCorrect hreception hchunks hkept₁
    (by rw [hbufs]; rfl) (by rw [hbufs]; decide) stillEnv
  have hreceived : received stub 0 "alpha" (b₁, e) = 2 := by
    show handed 0 "alpha" (caused stub b₁.transport ⟨stillEnv, x.packet stub 0 whole, alphaAddr⟩) = 2
    rw [hcaused, delivery, handed_append, handed_quiet (quiet_sendRaw _ _ _), handed_callbacks, hcount]
    rfl
  obtain ⟨s₂, hholds₂, _⟩ := holds_of_same hreception.holds hkept₂
  refine ⟨n, events ++ [(stillEnv, .send "alpha" shortMessage), e], s₂, hn, ?_, ?_, ?_⟩
  · rw [← messageCbs_run stub n events, hrun, hcbsB]
  · rw [Runs.run_append, hrun]
    exact hholds₂.session
  · have hcount₁ : b₁.transport.messageCbs.count 0 = 1 := by
      rw [(nodeStep_sameDevice stub b _).messageCbs, hcount]
    rcases session_step stub b₁ e s₂ hcount₁ hholds₂.session with
      ⟨_, _, _, ⟨_, hevent, hinstalls, _⟩, _⟩ | ⟨s, hs, _, hkept⟩
    · cases hevent
      have hparse : parsePacket (x.packet stub 0 whole) = _ :=
        Sending.parse_packet stub hreception.genuine.sendable (by rw [hchunks]; rfl)
      simp only [installs, hparse] at hinstalls
      contradiction
    · cases hs.symm.trans hholds₁.session
      have hbooked := congrArg SessionInfo.bytesSent hkept.eq
      have hgained := congrArg SessionInfo.bytesRecv hkept.eq
      dsimp only at hbooked hgained
      omega

/-- The account of a run with a message each way. -/
theorem peers_account_bravo : ∃ (n : Node) (before after : List (Env × Event)) (e : Env × Event)
    (report : PeerEntry),
    report ∈ listPeers (Runs.run (nodeStep stub) n (before ++ e :: after)).transport ∧
    0 < report.bytesSent ∧ 0 < report.bytesRecv ∧
    report.bytesSent =
      ((later stub n (before ++ [e]) after).map (spent stub report.peerId)).sum ∧
    report.bytesRecv =
      ((later stub n (before ++ [e]) after).map (received stub 0 report.peerId)).sum := by
  obtain ⟨n, events, session, hn, hcbs, hsession, hsent, hrecv⟩ := exists_conversed
  have hmem : entry session ∈ listPeers (Runs.run (nodeStep stub) n events).transport :=
    List.mem_map.mpr ⟨session, OrderedDict.mem_values_of_get? _ _ _ hsession, rfl⟩
  have hcount : n.transport.messageCbs.count 0 = 1 := by rw [hcbs]; rfl
  obtain ⟨before, e, after, _, _, _, hevents, _, _, _, _, _, _, hspent, hreceived, _⟩ :=
    peers_account stub bravo n hn 0 hcount events _ hmem
  rw [hevents] at hmem
  exact ⟨n, before, after, e, entry session, hmem, hsent, hrecv, hspent, hreceived⟩

end Stub

end Mesim.Ledger
