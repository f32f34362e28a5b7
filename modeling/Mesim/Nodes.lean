import Mesim.Dispatch
import Mesim.Runs

/-!
Reachable nodes.
A node starts with empty tables and an open socket and then processes events
one at a time. The handshake objects, the references in the pending table and
the suspended connect() calls stay consistent along every run.
-/
namespace Mesim.Nodes

open Octets TextCodec Crypto Identity Packet Transport Operations Dispatch
open MeshTransport Outcome

/-- A transport after __init__, registration of callbacks and start(). -/
structure Fresh (owner : DeviceIdentity) (t : MeshTransport) : Prop where
  identity : t.identity = owner
  senderId : senderIdBytes owner.deviceId = .ok t.senderId
  sessions : t.sessions = .empty
  sessionsByAddr : t.sessionsByAddr = .empty
  pending : t.pending = .empty
  handshakes : t.handshakes = []
  inFlight : t.inFlight = .empty
  fragBufs : t.fragBufs = .empty
  msgIdCounter : t.msgIdCounter = 1
  udpTransport : t.udpTransport = true

/-- A fresh transport with no call of connect() in progress. -/
def Started (identity : DeviceIdentity) (n : Node) : Prop :=
  Fresh identity n.transport ∧ n.calls = []

/-- start() opens the socket; callbacks are registered one at a time before or after. -/
def startWith (t : MeshTransport) (messageCbs connectedCbs sendFailedCbs ackCbs : List Callback)
    (rawPacketCbs : OrderedDict PacketType Callback) : MeshTransport :=
  { t with
    udpTransport := true
    messageCbs := messageCbs
    connectedCbs := connectedCbs
    sendFailedCbs := sendFailedCbs
    ackCbs := ackCbs
    rawPacketCbs := rawPacketCbs }

theorem init_ok (identity : DeviceIdentity)
    (h : (senderIdBytes identity.deviceId).isOk = true) :
    ∃ t, MeshTransport.init identity = .ok t := by
  cases hsender : senderIdBytes identity.deviceId with
  | error e =>
    rw [hsender] at h
    cases h
  | ok senderId =>
    cases hinit : MeshTransport.init identity with
    | error e =>
      simp only [MeshTransport.init, hsender, bind, Except.bind, pure, Except.pure] at hinit
      cases hinit
    | ok t => exact ⟨t, rfl⟩

theorem fresh_startWith (identity : DeviceIdentity) (t : MeshTransport)
    (h : MeshTransport.init identity = .ok t) (messageCbs connectedCbs sendFailedCbs ackCbs :
      List Callback) (rawPacketCbs : OrderedDict PacketType Callback) :
    Fresh identity
      (startWith t messageCbs connectedCbs sendFailedCbs ackCbs rawPacketCbs) := by
  cases hsender : senderIdBytes identity.deviceId with
  | error e =>
    simp only [MeshTransport.init, hsender, bind, Except.bind] at h
    cases h
  | ok senderId =>
    simp only [MeshTransport.init, hsender, bind, Except.bind, pure, Except.pure,
      Except.ok.injEq] at h
    subst t
    exact ⟨rfl, hsender, rfl, rfl, rfl, rfl, rfl, rfl, rfl, rfl⟩

variable (C : Suite)

/-- One event of a node, with what it draws from the operating system. -/
def nodeStep (n : Node) (e : Env × Event) : Node := (n.step C e.1 e.2).1

def Reachable (identity : DeviceIdentity) (n : Node) : Prop :=
  Runs.Reachable (nodeStep C) (Started identity) n

section Traffic

/-- The loop of send() touches the in-flight table only. -/
theorem sendFragments_same (env : Env) (session : SessionInfo) (msgId fragTotal : ℕ)
    (t : MeshTransport) (fragIdx : ℕ) (chunks : List Bytes) :
    SameHandshakes t (sendFragments C env session msgId fragTotal t fragIdx chunks).state ∧
    (sendFragments C env session msgId fragTotal t fragIdx chunks).state.sessions = t.sessions := by
  induction chunks generalizing t fragIdx with
  | nil => exact ⟨.refl t, rfl⟩
  | cons chunk rest ih =>
    unfold sendFragments attempt
    split
    · exact ⟨.refl t, rfl⟩
    · rename_i pkt _
      obtain ⟨hsame, hsessions⟩ := ih { t with inFlight := t.inFlight.set msgId {
        msgId := msgId
        packetBytes := pkt
        peerAddr := session.peerAddr
        attempt := 1
        nextRetryAt := env.monotonic + retryBackoffs.getD 0 0 } } (fragIdx + 1)
      exact ⟨(sameHandshakes_setInFlight t _).trans hsame, hsessions⟩

theorem sameHandshakes_msgIdCounter (t : MeshTransport) (next : ℕ) :
    SameHandshakes t { t with msgIdCounter := next } :=
  ⟨rfl, rfl, rfl, fun _ => rfl, rfl, rfl, rfl, rfl⟩

theorem send_same (env : Env) (t : MeshTransport) (peerId : String) (message : Bytes) :
    SameHandshakes t (send C env t peerId message).state := by
  unfold send
  split
  · exact .refl t
  · rename_i session hsession
    obtain ⟨hsame, hsessions⟩ := sendFragments_same C env session t.msgIdCounter
      (splitFragments ((C.signMessage message t.identity.signingKeypair.signingKey).toList
        ++ message)).length { t with msgIdCounter := t.msgIdCounter + 1 } 0
      (splitFragments ((C.signMessage message t.identity.signingKeypair.signingKey).toList
        ++ message))
    have hloop := (sameHandshakes_msgIdCounter t (t.msgIdCounter + 1)).trans hsame
    dsimp only
    split
    · exact hloop
    · refine hloop.trans (sameHandshakes_setSession _ peerId session _ ?_ rfl rfl rfl)
      rw [hsessions]
      exact hsession

theorem retryEntries_same (now : ℚ) (t : MeshTransport) (entries : List InFlight) :
    SameHandshakes t (retryEntries now t entries).1 := by
  induction entries generalizing t with
  | nil => exact .refl t
  | cons inf rest ih =>
    have hentry : SameHandshakes t (retryEntry now t inf).1 := by
      unfold retryEntry
      split <;> exact sameHandshakes_setInFlight t _
    exact hentry.trans (ih _)

theorem retrySweep_same (env : Env) (t : MeshTransport) :
    SameHandshakes t (retrySweep env t).state :=
  retryEntries_same env.monotonic t _

end Traffic

section Handshakes

/-- The datagram is a KEY_ACK accepted through the handshake object `ref`. -/
def Acks (t : MeshTransport) (data : Bytes) (addr : Addr) (ref : ℕ) : Prop :=
  t.pending.get? addr = some ref ∧ ∃ sid payload, parsePacket data = .ok ⟨.keyAck, sid, payload⟩ ∧
    (keyAckInstalls C t payload addr).isSome

/-- Two objects of a handshake that agree on what connect() has put there. -/
def SameKey (h h' : PendingHandshake) : Prop :=
  h'.ourSessionKey = h.ourSessionKey ∧ h'.ackEvent = h.ackEvent

theorem modify_sameKey (handshakes : List PendingHandshake) (ref i : ℕ) (h : PendingHandshake)
    (f : PendingHandshake → PendingHandshake) (hf : ∀ x, SameKey x (f x))
    (hget : handshakes[i]? = some h) :
    ∃ h', (handshakes.modify ref f)[i]? = some h' ∧ SameKey h h' := by
  rw [List.getElem?_modify, hget]
  by_cases heq : ref = i
  · exact ⟨f h, by simp [heq], hf h⟩
  · exact ⟨h, by simp [heq], rfl, rfl⟩

theorem notePeerBundle_sameKey (t : MeshTransport) (addr : Addr) (bundle : PublicBundle) (i : ℕ)
    (h : PendingHandshake) (hget : t.handshakes[i]? = some h) :
    ∃ h', (t.notePeerBundle addr bundle).handshakes[i]? = some h' ∧ SameKey h h' := by
  unfold notePeerBundle
  split
  · exact modify_sameKey t.handshakes _ i h _ (fun _ => ⟨rfl, rfl⟩) hget
  · have hlt : i < t.handshakes.length := (List.getElem?_eq_some_iff.mp hget).1
    refine ⟨h, ?_, rfl, rfl⟩
    show (t.handshakes ++ _)[i]? = some h
    rw [List.getElem?_append_left hlt, hget]

/-- A datagram keeps every object's key, and sets the ack event of an object
exactly when it acknowledges through it. -/
theorem dispatch_handshake_get (env : Env) (t : MeshTransport) (data : Bytes) (addr : Addr)
    (i : ℕ) (h : PendingHandshake) (hget : t.handshakes[i]? = some h) :
    ∃ h', (dispatch C env t data addr).state.handshakes[i]? = some h' ∧
      h'.ourSessionKey = h.ourSessionKey ∧
      (h'.ackEvent = true ↔ h.ackEvent = true ∨ Acks C t data addr i) := by
  have hkeep : (¬ Acks C t data addr i) → ∀ handshakes : List PendingHandshake,
      (∃ h', handshakes[i]? = some h' ∧ SameKey h h') →
      ∃ h', handshakes[i]? = some h' ∧ h'.ourSessionKey = h.ourSessionKey ∧
        (h'.ackEvent = true ↔ h.ackEvent = true ∨ Acks C t data addr i) := by
    rintro hacks handshakes ⟨h', hget', hkey, hack⟩
    exact ⟨h', hget', hkey, by simp [hack, hacks]⟩
  have hcase := dispatch_case C env t data addr
  generalize dispatch C env t data addr = out at hcase
  cases hcase with
  | other out hsame hidle _ =>
    refine hkeep ?_ _ ⟨h, by rw [hsame.handshakes, hget], rfl, rfl⟩
    rintro ⟨_, sid, payload, hparse, hinstall⟩
    have hnone : keyAckInstalls C t payload addr = none := hidle _ hparse
    rw [hnone] at hinstall
    cases hinstall
  | handshake sid payload bundle out hparse _ hstate _ =>
    rw [hstate]
    refine hkeep ?_ _ (notePeerBundle_sameKey t addr bundle i h hget)
    rintro ⟨_, sid', payload', hparse', _⟩
    rw [hparse] at hparse'
    cases hparse'
  | handshakeResp sid payload bundle ref hparse _ _ =>
    refine hkeep ?_ _ (modify_sameKey t.handshakes ref i h _ (fun _ => ⟨rfl, rfl⟩) hget)
    rintro ⟨_, sid', payload', hparse', _⟩
    rw [hparse] at hparse'
    cases hparse'
  | keyInit sid payload key bundle hparse _ =>
    refine hkeep ?_ _ ⟨h, hget, rfl, rfl⟩
    rintro ⟨_, sid', payload', hparse', _⟩
    rw [hparse] at hparse'
    cases hparse'
  | keyAck sid payload key bundle ref hparse hinstall href =>
    by_cases heq : ref = i
    · have hacks : Acks C t data addr i :=
        ⟨heq ▸ href, sid, payload, hparse, by rw [hinstall]; rfl⟩
      refine ⟨{ h with ackEvent := true }, ?_, rfl, by simp [hacks]⟩
      show (t.handshakes.modify ref _)[i]? = _
      rw [List.getElem?_modify, hget]
      simp [heq]
    · refine hkeep ?_ _ ⟨h, ?_, rfl, rfl⟩
      · rintro ⟨href', _⟩
        rw [href] at href'
        exact heq (Option.some.inj href')
      · show (t.handshakes.modify ref _)[i]? = _
        rw [List.getElem?_modify, hget]
        simp [heq]

/-- A datagram never shortens the store, and every reference it leaves is valid. -/
theorem dispatch_pending (env : Env) (t : MeshTransport) (data : Bytes) (addr : Addr)
    (hvalid : ∀ a ref, t.pending.get? a = some ref → ref < t.handshakes.length) :
    t.handshakes.length ≤ (dispatch C env t data addr).state.handshakes.length ∧
    ∀ a ref, (dispatch C env t data addr).state.pending.get? a = some ref →
      ref < (dispatch C env t data addr).state.handshakes.length := by
  have hcase := dispatch_case C env t data addr
  generalize dispatch C env t data addr = out at hcase
  cases hcase with
  | other out hsame _ _ =>
    rw [hsame.handshakes, hsame.pending]
    exact ⟨le_rfl, hvalid⟩
  | handshake sid payload bundle out _ _ hstate _ =>
    rw [hstate]
    unfold notePeerBundle
    split
    · simp only [modifyHandshake, List.length_modify]
      exact ⟨le_rfl, hvalid⟩
    · simp only [openSlot, List.length_append, List.length_cons, List.length_nil]
      refine ⟨by omega, ?_⟩
      intro a ref href
      rw [OrderedDict.get?_set] at href
      split at href
      · cases href
        omega
      · have := hvalid a ref href
        omega
  | handshakeResp _ _ _ _ _ _ _ =>
    simp only [modifyHandshake, List.length_modify]
    exact ⟨le_rfl, hvalid⟩
  | keyInit _ _ _ _ _ _ =>
    refine ⟨le_rfl, ?_⟩
    intro a ref href
    simp only [closeSlot, installSession, OrderedDict.get?_erase] at href
    split at href
    · cases href
    · exact hvalid a ref href
  | keyAck _ _ _ _ _ _ _ _ =>
    simp only [modifyHandshake, List.length_modify]
    exact ⟨le_rfl, hvalid⟩

end Handshakes

section WellFormed

/-- A call that is still waiting. -/
def Waiting (call : ConnectCall) : Prop :=
  call.phase = .awaitResp ∨ ∃ key, call.phase = .awaitAck key

/-- The ack event of the call's handshake object is set. -/
def Acked (n : Node) (call : ConnectCall) : Prop :=
  ∃ h, n.transport.handshakes[call.handshake]? = some h ∧ h.ackEvent = true

/-- A waiting call's handshake object holds the key the call has encapsulated, if any. -/
def CallKey (handshakes : List PendingHandshake) (call : ConnectCall) : Prop :=
  match call.phase with
  | .awaitResp => ∃ h, handshakes[call.handshake]? = some h ∧ h.ourSessionKey = none
  | .awaitAck key => ∃ h, handshakes[call.handshake]? = some h ∧ h.ourSessionKey = some key
  | _ => True

structure WellFormed (n : Node) : Prop where
  pending : ∀ addr ref, n.transport.pending.get? addr = some ref →
    ref < n.transport.handshakes.length
  callKey : ∀ (i : ℕ) call, n.calls[i]? = some call → CallKey n.transport.handshakes call
  distinct : ∀ (i j : ℕ) c d, n.calls[i]? = some c → n.calls[j]? = some d → Waiting c → Waiting d →
    c.handshake = d.handshake → i = j

theorem CallKey.lt {handshakes : List PendingHandshake} {call : ConnectCall}
    (h : CallKey handshakes call) (hwaiting : Waiting call) :
    call.handshake < handshakes.length := by
  unfold CallKey at h
  rcases hwaiting with hphase | ⟨key, hphase⟩
  · rw [hphase] at h
    obtain ⟨x, hx, _⟩ := h
    exact (List.getElem?_eq_some_iff.mp hx).1
  · rw [hphase] at h
    obtain ⟨x, hx, _⟩ := h
    exact (List.getElem?_eq_some_iff.mp hx).1

theorem CallKey.of_sameKeys {handshakes handshakes' : List PendingHandshake} {call : ConnectCall}
    (h : CallKey handshakes call)
    (hsame : ∀ (i : ℕ) x, handshakes[i]? = some x →
      ∃ x', handshakes'[i]? = some x' ∧ x'.ourSessionKey = x.ourSessionKey) :
    CallKey handshakes' call := by
  unfold CallKey at h ⊢
  split at h
  · obtain ⟨x, hx, hkey⟩ := h
    obtain ⟨x', hx', hkey'⟩ := hsame _ x hx
    exact ⟨x', hx', hkey'.trans hkey⟩
  · obtain ⟨x, hx, hkey⟩ := h
    obtain ⟨x', hx', hkey'⟩ := hsame _ x hx
    exact ⟨x', hx', hkey'.trans hkey⟩
  · exact trivial

/-- Steps that keep the calls and every object's key keep the node well-formed. -/
theorem WellFormed.of_sameKeys {n : Node} (h : WellFormed n) (t : MeshTransport)
    (hpending : ∀ addr ref, t.pending.get? addr = some ref → ref < t.handshakes.length)
    (hsame : ∀ (i : ℕ) x, n.transport.handshakes[i]? = some x →
      ∃ x', t.handshakes[i]? = some x' ∧ x'.ourSessionKey = x.ourSessionKey) :
    WellFormed { n with transport := t } where
  pending := hpending
  callKey i call hcall := (h.callKey i call hcall).of_sameKeys hsame
  distinct := h.distinct

theorem WellFormed.of_sameHandshakes {n : Node} (h : WellFormed n) (t : MeshTransport)
    (hsame : SameHandshakes n.transport t) : WellFormed { n with transport := t } :=
  h.of_sameKeys t (by rw [hsame.pending, hsame.handshakes]; exact h.pending)
    (fun i x hx => ⟨x, by rw [hsame.handshakes, hx], rfl⟩)

theorem callKey_of_not_waiting (handshakes : List PendingHandshake) (call : ConnectCall)
    (h : ¬ Waiting call) : CallKey handshakes call := by
  unfold CallKey
  split
  · rename_i hphase
    exact absurd (Or.inl hphase) h
  · rename_i key hphase
    exact absurd (Or.inr ⟨key, hphase⟩) h
  · exact trivial

theorem calls_setPhase (n : Node) (i j : ℕ) (phase : ConnectPhase) (call : ConnectCall)
    (hcall : (n.setPhase i phase).calls[j]? = some call) :
    ∃ old, n.calls[j]? = some old ∧
      call = if i = j then { old with phase := phase } else old := by
  simp only [Node.setPhase, List.getElem?_modify] at hcall
  cases hold : n.calls[j]? with
  | none => simp [hold] at hcall
  | some old =>
    refine ⟨old, rfl, ?_⟩
    rw [hold] at hcall
    exact (Option.some.inj hcall).symm

/-- A waiting call moves on: only its own handshake object may change its key. -/
theorem WellFormed.advance {n : Node} (h : WellFormed n) (i : ℕ) (call : ConnectCall)
    (hcall : n.calls[i]? = some call) (hwaiting : Waiting call) (t : MeshTransport)
    (hpending : ∀ addr ref, t.pending.get? addr = some ref → ref < t.handshakes.length)
    (hsame : ∀ (j : ℕ) x, j ≠ call.handshake → n.transport.handshakes[j]? = some x →
      ∃ x', t.handshakes[j]? = some x' ∧ x'.ourSessionKey = x.ourSessionKey)
    (phase : ConnectPhase) (hkey : CallKey t.handshakes { call with phase := phase }) :
    WellFormed (Node.setPhase { n with transport := t } i phase) := by
  refine ⟨hpending, ?_, ?_⟩
  · intro j c hc
    obtain ⟨old, hold, rfl⟩ := calls_setPhase _ i j phase c hc
    show CallKey t.handshakes _
    by_cases hij : i = j
    · subst hij
      rw [hcall] at hold
      cases hold
      simpa using hkey
    · simp only [hij, if_false]
      by_cases hw : Waiting old
      · -- another waiting call has another handshake object
        have hne : old.handshake ≠ call.handshake := fun heq =>
          hij (h.distinct i j call old hcall hold hwaiting hw heq.symm)
        have hold' := h.callKey j old hold
        unfold CallKey at hold' ⊢
        split at hold'
        · obtain ⟨x, hx, hxkey⟩ := hold'
          obtain ⟨x', hx', hxkey'⟩ := hsame _ x hne hx
          exact ⟨x', hx', hxkey'.trans hxkey⟩
        · obtain ⟨x, hx, hxkey⟩ := hold'
          obtain ⟨x', hx', hxkey'⟩ := hsame _ x hne hx
          exact ⟨x', hx', hxkey'.trans hxkey⟩
        · exact trivial
      · exact callKey_of_not_waiting _ old hw
  · intro j k c d hc hd hwc hwd heq
    obtain ⟨c₀, hc₀, rfl⟩ := calls_setPhase _ i j phase c hc
    obtain ⟨d₀, hd₀, rfl⟩ := calls_setPhase _ i k phase d hd
    have hwait : ∀ (m : ℕ) old, n.calls[m]? = some old →
        Waiting (if i = m then { old with phase := phase } else old) → Waiting old := by
      intro m old hold hw
      by_cases him : i = m
      · subst him
        rw [hcall] at hold
        cases hold
        exact hwaiting
      · simpa [him] using hw
    apply h.distinct j k c₀ d₀ hc₀ hd₀ (hwait j c₀ hc₀ hwc) (hwait k d₀ hd₀ hwd)
    have hhandshake : ∀ (m : ℕ) (old : ConnectCall),
        (if i = m then { old with phase := phase } else old).handshake = old.handshake := by
      intro m old
      split <;> rfl
    rwa [hhandshake, hhandshake] at heq

/-- connect() adds a call; when it claims the slot, with a new handshake object. -/
theorem WellFormed.addCall {n : Node} (h : WellFormed n) (t : MeshTransport) (call : ConnectCall)
    (hpending : ∀ addr ref, t.pending.get? addr = some ref → ref < t.handshakes.length)
    (hsame : ∀ (j : ℕ) x, n.transport.handshakes[j]? = some x → t.handshakes[j]? = some x)
    (hkey : CallKey t.handshakes call)
    (hnew : Waiting call → call.handshake = n.transport.handshakes.length) :
    WellFormed { transport := t, calls := n.calls ++ [call] } := by
  have hget : ∀ (j : ℕ) c, (n.calls ++ [call])[j]? = some c →
      n.calls[j]? = some c ∨ (j = n.calls.length ∧ c = call) := by
    intro j c hc
    rw [List.getElem?_append] at hc
    split at hc
    · exact Or.inl hc
    · rename_i hge
      have hj : j - n.calls.length = 0 := by
        by_contra hne
        rw [List.getElem?_eq_none (by simp; omega)] at hc
        contradiction
      rw [hj] at hc
      exact Or.inr ⟨by omega, (Option.some.inj hc).symm⟩
  have hfresh : ∀ (j : ℕ) c, n.calls[j]? = some c → Waiting c → Waiting call →
      c.handshake ≠ call.handshake := by
    intro j c hc hwc hw heq
    have hlt := (h.callKey j c hc).lt hwc
    rw [heq, hnew hw] at hlt
    omega
  refine ⟨hpending, ?_, ?_⟩
  · intro j c hc
    rcases hget j c hc with hold | ⟨_, rfl⟩
    · exact (h.callKey j c hold).of_sameKeys (fun i x hx => ⟨x, hsame i x hx, rfl⟩)
    · exact hkey
  · intro j k c d hc hd hwc hwd heq
    rcases hget j c hc with hc' | ⟨rfl, rfl⟩
    · rcases hget k d hd with hd' | ⟨rfl, rfl⟩
      · exact h.distinct j k c d hc' hd' hwc hwd heq
      · exact absurd heq (hfresh j c hc' hwc hwd)
    · rcases hget k d hd with hd' | ⟨rfl, rfl⟩
      · exact absurd heq.symm (hfresh k d hd' hwd hwc)
      · rfl

end WellFormed

section Calls

/-- What connect() does before its first wait. -/
inductive Begun (t : MeshTransport) (addr : Addr) (bundle : PublicBundle) : Outcome → Prop
  | rejected (e : PyError) (hverify : verifyPublicBundle C bundle = .error e) :
      Begun t addr bundle (raise t e)
  | unsent (e : PyError) (hverify : verifyPublicBundle C bundle = .ok ()) :
      Begun t addr bundle (raise (t.openSlot addr ⟨addr, some bundle, none, false, false⟩) e)
  | sent (wire : Bytes) (hverify : verifyPublicBundle C bundle = .ok ())
      (hwire : packBundle (getPublicBundle C t.identity) = .ok wire) :
      Begun t addr bundle ⟨t.openSlot addr ⟨addr, some bundle, none, false, false⟩,
        t.sendRaw (frame .handshake t.senderId wire zeroMac) addr, none⟩

theorem connectBegin_begun (t : MeshTransport) (addr : Addr) (bundle : PublicBundle) :
    Begun C t addr bundle (connectBegin C t addr bundle) := by
  unfold connectBegin
  cases hverify : verifyPublicBundle C bundle with
  | error e => exact .rejected e hverify
  | ok =>
    dsimp only [attempt]
    cases hwire : packBundle (getPublicBundle C t.identity) with
    | error e =>
      have hwire' : packBundle (getPublicBundle C (t.openSlot addr
          ⟨addr, some bundle, none, false, false⟩).identity) = .error e := hwire
      simp only [hwire']
      exact .unsent e hverify
    | ok wire =>
      have hwire' : packBundle (getPublicBundle C (t.openSlot addr
          ⟨addr, some bundle, none, false, false⟩).identity) = .ok wire := hwire
      simp only [hwire']
      cases hpkt : buildPacket C .handshake (t.openSlot addr
          ⟨addr, some bundle, none, false, false⟩).senderId wire none with
      | error e => exact .unsent e hverify
      | ok pkt =>
        obtain ⟨_, mac, _, hpkt', hmac⟩ := buildPacket_eq_frame C _ _ _ _ _ hpkt
        rw [hmac rfl] at hpkt'
        rw [hpkt']
        exact .sent wire hverify hwire

/-- What resuming a call does. -/
inductive Resumed (env : Env) (n : Node) (i : ℕ) : Node × List Effect → Prop
  | idle : Resumed env n i (n, [])
  | failed (call : ConnectCall) (e : PyError) (hcall : n.calls[i]? = some call)
      (hphase : call.phase = .awaitResp) : Resumed env n i (n.setPhase i (.failed e), [])
  | encapsulated (call : ConnectCall) (h : PendingHandshake) (result : KEMEncapResult)
      (key : SessionKey) (hcall : n.calls[i]? = some call) (hphase : call.phase = .awaitResp)
      (hget : n.transport.handshakes[call.handshake]? = some h) (hresp : h.respEvent = true)
      (hkem : C.kemEncapsulate env.seed call.peerBundle.encryptPub call.peerBundle.kemPub
        n.transport.identity.encryptKeypair.privateKey = .ok (result, key)) :
      Resumed env n i
        (Node.setPhase
            { n with
              transport := n.transport.modifyHandshake call.handshake
                (fun h => { h with ourSessionKey := some key }) }
            i (.awaitAck key),
          n.transport.sendRaw (frame .keyInit n.transport.senderId result.ciphertext.toList
            zeroMac) call.peerAddr)
  | returned (call : ConnectCall) (h : PendingHandshake) (key : SessionKey)
      (hcall : n.calls[i]? = some call) (hphase : call.phase = .awaitAck key)
      (hget : n.transport.handshakes[call.handshake]? = some h) (hack : h.ackEvent = true) :
      Resumed env n i
        (Node.setPhase { n with transport := n.transport.closeSlot call.peerAddr } i
          (.returned true), [])

theorem connectEncapsulate_eq (env : Env) (t : MeshTransport) (call : ConnectCall) :
    connectEncapsulate C env t call =
      match C.kemEncapsulate env.seed call.peerBundle.encryptPub call.peerBundle.kemPub
        t.identity.encryptKeypair.privateKey with
      | .error e => (t, [], .failed e)
      | .ok (result, key) => (t.modifyHandshake call.handshake
          (fun h => { h with ourSessionKey := some key }),
        t.sendRaw (frame .keyInit t.senderId result.ciphertext.toList zeroMac) call.peerAddr,
        .awaitAck key) := by
  unfold connectEncapsulate
  cases C.kemEncapsulate env.seed call.peerBundle.encryptPub call.peerBundle.kemPub
      t.identity.encryptKeypair.privateKey with
  | error e => rfl
  | ok encapsulated =>
    have hlen : encapsulated.1.ciphertext.toList.length < 65536 := by
      rw [List.Vector.toList_length]
      decide
    simp only [buildPacket_unkeyed C .keyInit _ _ hlen]
    rfl

theorem resume_resumed (env : Env) (n : Node) (i : ℕ) :
    Resumed C env n i (n.resume C env i) := by
  unfold Node.resume
  split
  · exact .idle
  · rename_i call hcall
    split
    · rename_i h hphase hget
      split
      · rename_i hresp
        rw [connectEncapsulate_eq]
        cases hkem : C.kemEncapsulate env.seed call.peerBundle.encryptPub call.peerBundle.kemPub
            n.transport.identity.encryptKeypair.privateKey with
        | error e => exact .failed call e hcall hphase
        | ok result => exact .encapsulated call h result.1 result.2 hcall hphase hget hresp hkem
      · exact .idle
    · rename_i key h hphase hget
      split
      · rename_i hack
        exact .returned call h key hcall hphase hget hack
      · exact .idle
    · exact .idle

/-- A timeout ends a waiting call and frees the slot of its address. -/
theorem timeout_eq (n : Node) (i : ℕ) : n.timeout i = n ∨
    ∃ call, n.calls[i]? = some call ∧ Waiting call ∧ n.timeout i =
      Node.setPhase { n with transport := n.transport.closeSlot call.peerAddr } i
        (.returned false) := by
  unfold Node.timeout
  split
  · exact Or.inl rfl
  · rename_i call hcall
    split
    · rename_i hphase
      exact Or.inr ⟨call, hcall, Or.inl hphase, rfl⟩
    · rename_i key hphase
      exact Or.inr ⟨call, hcall, Or.inr ⟨key, hphase⟩, rfl⟩
    · exact Or.inl rfl

theorem pending_openSlot (t : MeshTransport) (addr : Addr) (h : PendingHandshake)
    (hvalid : ∀ a ref, t.pending.get? a = some ref → ref < t.handshakes.length) (a : Addr)
    (ref : ℕ) (href : (t.openSlot addr h).pending.get? a = some ref) :
    ref < (t.openSlot addr h).handshakes.length := by
  simp only [openSlot, OrderedDict.get?_set, List.length_append, List.length_cons,
    List.length_nil] at href ⊢
  split at href
  · cases href
    omega
  · have := hvalid a ref href
    omega

theorem pending_closeSlot (t : MeshTransport) (addr : Addr)
    (hvalid : ∀ a ref, t.pending.get? a = some ref → ref < t.handshakes.length) (a : Addr)
    (ref : ℕ) (href : (t.closeSlot addr).pending.get? a = some ref) :
    ref < (t.closeSlot addr).handshakes.length := by
  simp only [closeSlot, OrderedDict.get?_erase] at href ⊢
  split at href
  · cases href
  · exact hvalid a ref href

theorem connect_wellFormed (n : Node) (addr : Addr) (bundle : PublicBundle) (h : WellFormed n) :
    WellFormed (n.connect C addr bundle).1 := by
  unfold Node.connect
  have hbegun := connectBegin_begun C n.transport addr bundle
  generalize connectBegin C n.transport addr bundle = out at hbegun
  have hold : ∀ (hs : PendingHandshake) (j : ℕ) x, n.transport.handshakes[j]? = some x →
      (n.transport.openSlot addr hs).handshakes[j]? = some x := by
    intro hs j x hx
    show (n.transport.handshakes ++ _)[j]? = some x
    rw [List.getElem?_append_left (List.getElem?_eq_some_iff.mp hx).1, hx]
  cases hbegun with
  | rejected e _ =>
    exact h.addCall _ _ h.pending (fun _ _ hx => hx) trivial (fun _ => rfl)
  | unsent e _ =>
    exact h.addCall _ _ (pending_openSlot _ addr _ h.pending) (hold _) trivial (fun _ => rfl)
  | sent wire _ _ =>
    refine h.addCall _ _ (pending_openSlot _ addr _ h.pending) (hold _) ?_ (fun _ => rfl)
    exact ⟨_, List.getElem?_concat_length, rfl⟩

theorem resume_wellFormed (env : Env) (n : Node) (i : ℕ) (h : WellFormed n) :
    WellFormed (n.resume C env i).1 := by
  have hresumed := resume_resumed C env n i
  generalize n.resume C env i = out at hresumed
  cases hresumed with
  | idle => exact h
  | failed call e hcall hphase =>
    exact h.advance i call hcall (Or.inl hphase) n.transport h.pending
      (fun _ x _ hx => ⟨x, hx, rfl⟩) _ trivial
  | encapsulated call hs result key hcall hphase hget _ _ =>
    refine h.advance i call hcall (Or.inl hphase) _ ?_ ?_ _ ?_
    · simpa only [modifyHandshake, List.length_modify] using h.pending
    · intro j x hne hx
      refine ⟨x, ?_, rfl⟩
      show (n.transport.handshakes.modify _ _)[j]? = some x
      rw [List.getElem?_modify, hx]
      simp [Ne.symm hne]
    · refine ⟨{ hs with ourSessionKey := some key }, ?_, rfl⟩
      show (n.transport.handshakes.modify _ _)[_]? = _
      rw [List.getElem?_modify, hget]
      simp
  | returned call hs key hcall hphase _ _ =>
    exact h.advance i call hcall (Or.inr ⟨key, hphase⟩) _
      (pending_closeSlot _ _ h.pending) (fun _ x _ hx => ⟨x, hx, rfl⟩) _ trivial

theorem timeout_wellFormed (n : Node) (i : ℕ) (h : WellFormed n) :
    WellFormed (n.timeout i) := by
  rcases timeout_eq n i with heq | ⟨call, hcall, hwaiting, heq⟩
  · rw [heq]
    exact h
  · rw [heq]
    exact h.advance i call hcall hwaiting _ (pending_closeSlot _ _ h.pending)
      (fun _ x _ hx => ⟨x, hx, rfl⟩) _ trivial

theorem nodeStep_wellFormed (n : Node) (e : Env × Event) (h : WellFormed n) :
    WellFormed (nodeStep C n e) := by
  obtain ⟨env, event⟩ := e
  cases event with
  | datagram data addr =>
    apply h.of_sameKeys _ (dispatch_pending C env n.transport data addr h.pending).2
    intro i x hx
    obtain ⟨x', hx', hkey, _⟩ := dispatch_handshake_get C env n.transport data addr i x hx
    exact ⟨x', hx', hkey⟩
  | connect addr bundle => exact connect_wellFormed C n addr bundle h
  | resume i => exact resume_wellFormed C env n i h
  | timeout i => exact timeout_wellFormed n i h
  | send peerId message => exact h.of_sameHandshakes _ (send_same C env n.transport peerId message)
  | retry => exact h.of_sameHandshakes _ (retrySweep_same env n.transport)

theorem started_wellFormed (identity : DeviceIdentity) (n : Node) (h : Started identity n) :
    WellFormed n := by
  obtain ⟨hfresh, hcalls⟩ := h
  refine ⟨?_, ?_, ?_⟩
  · intro addr ref href
    rw [hfresh.pending] at href
    simp at href
  · intro i call hcall
    simp [hcalls] at hcall
  · intro i j c d hc
    simp [hcalls] at hc

/-- In every reachable node the slots and the waiting calls are consistent. -/
theorem reachable_wellFormed (identity : DeviceIdentity) (n : Node)
    (h : Reachable C identity n) : WellFormed n :=
  Runs.reachable_invariant (started_wellFormed identity) (nodeStep_wellFormed C) h

/-- Two transports of the same device, open or closed alike, with the same message callbacks. -/
structure SameDevice (t t' : MeshTransport) : Prop where
  identity : t'.identity = t.identity
  senderId : t'.senderId = t.senderId
  udpTransport : t'.udpTransport = t.udpTransport
  messageCbs : t'.messageCbs = t.messageCbs

theorem dispatch_sameDevice (env : Env) (t : MeshTransport) (data : Bytes) (addr : Addr) :
    SameDevice t (dispatch C env t data addr).state := by
  have hcase := dispatch_case C env t data addr
  generalize dispatch C env t data addr = out at hcase
  cases hcase with
  | other out hsame _ _ => exact ⟨hsame.identity, hsame.senderId, hsame.udpTransport, hsame.messageCbs⟩
  | handshake sid payload bundle out _ _ hstate _ =>
    rw [hstate]
    unfold notePeerBundle
    split <;> exact ⟨rfl, rfl, rfl, rfl⟩
  | handshakeResp _ _ _ _ _ _ _ => exact ⟨rfl, rfl, rfl, rfl⟩
  | keyInit _ _ _ _ _ _ => exact ⟨rfl, rfl, rfl, rfl⟩
  | keyAck _ _ _ _ _ _ _ _ => exact ⟨rfl, rfl, rfl, rfl⟩

theorem nodeStep_sameDevice (n : Node) (e : Env × Event) :
    SameDevice n.transport (nodeStep C n e).transport := by
  obtain ⟨env, event⟩ := e
  cases event with
  | datagram data addr => exact dispatch_sameDevice C env n.transport data addr
  | connect addr bundle =>
    show SameDevice n.transport (connectBegin C n.transport addr bundle).state
    have hbegun := connectBegin_begun C n.transport addr bundle
    generalize connectBegin C n.transport addr bundle = out at hbegun
    cases hbegun <;> exact ⟨rfl, rfl, rfl, rfl⟩
  | resume i =>
    show SameDevice n.transport (n.resume C env i).1.transport
    have hresumed := resume_resumed C env n i
    generalize n.resume C env i = out at hresumed
    cases hresumed <;> exact ⟨rfl, rfl, rfl, rfl⟩
  | timeout i =>
    show SameDevice n.transport (n.timeout i).transport
    rcases timeout_eq n i with heq | ⟨call, _, _, heq⟩ <;> rw [heq] <;> exact ⟨rfl, rfl, rfl, rfl⟩
  | send peerId message =>
    have hsame := send_same C env n.transport peerId message
    exact ⟨hsame.identity, hsame.senderId, hsame.udpTransport, hsame.messageCbs⟩
  | retry =>
    have hsame := retrySweep_same env n.transport
    exact ⟨hsame.identity, hsame.senderId, hsame.udpTransport, hsame.messageCbs⟩

/-- A reachable node is its owner's, with an open socket. -/
theorem reachable_device (owner : DeviceIdentity) (n : Node) (h : Reachable C owner n) :
    n.transport.identity = owner ∧ n.transport.udpTransport = true := by
  refine Runs.reachable_invariant
    (I := fun n : Node => n.transport.identity = owner ∧ n.transport.udpTransport = true)
    (fun n hn => ⟨hn.1.identity, hn.1.udpTransport⟩) (fun n e hn => ?_) h
  have hsame := nodeStep_sameDevice C n e
  exact ⟨hsame.identity.trans hn.1, hsame.udpTransport.trans hn.2⟩

end Calls

end Mesim.Nodes
