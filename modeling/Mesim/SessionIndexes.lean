import Mesim.Honest

/-!
The two indexes of a node's sessions.
Sessions are found by peer id and by address. Both handlers that install a
session write to both tables and remove nothing, so the tables keep agreeing
exactly as long as every handshake completes where nothing has to be removed:
at an address of no other peer, for a peer with no session elsewhere.
-/
namespace Mesim.SessionIndexes

open Octets TextCodec Crypto Identity Packet Transport Operations Dispatch Nodes Honest
open MeshTransport Outcome

/-- An address is bound to a peer exactly when the peer has its session there. -/
def Agree (t : MeshTransport) : Prop :=
  ∀ addr peerId, t.sessionsByAddr.get? addr = some peerId ↔
    ∃ session, t.sessions.get? peerId = some session ∧ session.peerAddr = addr

/-- The peer has no session at another address, and the address no other peer. -/
def Free (t : MeshTransport) (addr : Addr) (peerId : String) : Prop :=
  (∀ session, t.sessions.get? peerId = some session → session.peerAddr = addr) ∧
  ∀ other, t.sessionsByAddr.get? addr = some other → other = peerId

variable (C : Suite)

/-- If the datagram completes a handshake, its peer and its address are free. -/
def Undisplaced (n : Node) : Env × Event → Prop
  | (_, .datagram data addr) => ∀ key bundle,
      installs C n.transport data addr = some (key, bundle) →
        Free n.transport addr bundle.deviceId
  | _ => True

section Install

theorem bound_addr_iff (t : MeshTransport) (peerId : String) (addr : Addr) :
    (∃ session, t.sessions.get? peerId = some session ∧ session.peerAddr = addr) ↔
      ∃ b, bound t peerId = some b ∧ b.1 = addr := by
  unfold bound
  constructor
  · rintro ⟨session, hsession, rfl⟩
    exact ⟨_, by rw [hsession]; rfl, rfl⟩
  · rintro ⟨b, hb, rfl⟩
    obtain ⟨session, hsession, rfl⟩ := Option.map_eq_some_iff.mp hb
    exact ⟨session, hsession, rfl⟩

theorem agree_iff_bound (t : MeshTransport) :
    Agree t ↔ ∀ addr peerId, t.sessionsByAddr.get? addr = some peerId ↔
      ∃ b, bound t peerId = some b ∧ b.1 = addr := by
  unfold Agree
  simp only [bound_addr_iff]

theorem free_iff_bound (t : MeshTransport) (addr : Addr) (peerId : String) :
    Free t addr peerId ↔ (∀ b, bound t peerId = some b → b.1 = addr) ∧
      ∀ other, t.sessionsByAddr.get? addr = some other → other = peerId := by
  unfold Free
  refine and_congr_left fun _ => ?_
  constructor
  · intro h b hb
    obtain ⟨session, hsession, rfl⟩ := Option.map_eq_some_iff.mp hb
    exact h session hsession
  · intro h session hsession
    exact h _ (by rw [bound, hsession]; rfl)

/-- After a session is written to both tables they agree exactly when it displaced nothing. -/
theorem agree_installed_iff {t t' : MeshTransport} (h : Agree t) (addr : Addr) (peerId : String)
    (key : SessionKey) (bundle : PublicBundle)
    (hbound : ∀ p, bound t' p = if peerId = p then some (addr, key, bundle) else bound t p)
    (hbyAddr : ∀ a, t'.sessionsByAddr.get? a =
      if addr = a then some peerId else t.sessionsByAddr.get? a) :
    Agree t' ↔ Free t addr peerId := by
  rw [agree_iff_bound] at h ⊢
  rw [free_iff_bound]
  constructor
  · intro h'
    constructor
    · intro b hb
      by_contra hne
      have hold : t.sessionsByAddr.get? b.1 = some peerId := (h b.1 peerId).mpr ⟨b, hb, rfl⟩
      have hnew : t'.sessionsByAddr.get? b.1 = some peerId := by
        rw [hbyAddr, if_neg (Ne.symm hne)]
        exact hold
      obtain ⟨b', hb', haddr⟩ := (h' b.1 peerId).mp hnew
      rw [hbound, if_pos rfl] at hb'
      cases hb'
      exact hne haddr.symm
    · intro other hother
      by_contra hne
      obtain ⟨b, hb, haddr⟩ := (h addr other).mp hother
      have hnew : bound t' other = some b := by
        rw [hbound, if_neg (Ne.symm hne)]
        exact hb
      have hby := (h' addr other).mpr ⟨b, hnew, haddr⟩
      rw [hbyAddr, if_pos rfl] at hby
      exact hne (Option.some.inj hby).symm
  · rintro ⟨hpeer, haddr⟩ a p
    rw [hbyAddr, hbound]
    by_cases ha : addr = a
    · subst ha
      by_cases hp : peerId = p
      · subst hp
        simp
      · rw [if_pos rfl, if_neg hp]
        refine iff_of_false (fun heq => hp (Option.some.inj heq)) ?_
        intro hold
        exact hp (haddr p ((h addr p).mpr hold)).symm
    · rw [if_neg ha]
      by_cases hp : peerId = p
      · subst hp
        rw [if_pos rfl]
        refine iff_of_false (fun hold => ?_) (by simp [ha])
        obtain ⟨b, hb, hb'⟩ := (h a peerId).mp hold
        exact ha ((hpeer b hb).symm.trans hb')
      · rw [if_neg hp]
        exact h a p

end Install

section Steps

theorem sessionsByAddr_dispatch (env : Env) (t : MeshTransport) (data : Bytes) (addr a : Addr) :
    (dispatch C env t data addr).state.sessionsByAddr.get? a =
      match installs C t data addr with
      | some (_, bundle) =>
        if addr = a then some bundle.deviceId else t.sessionsByAddr.get? a
      | none => t.sessionsByAddr.get? a := by
  have hcase := dispatch_case C env t data addr
  generalize dispatch C env t data addr = out at hcase
  cases hcase with
  | other out hsame hidle _ =>
    rw [installs_eq_none C t data addr hidle]
    exact congrArg (OrderedDict.get? · a) hsame.sessionsByAddr
  | handshake sid payload bundle out hparse _ hstate _ =>
    simp only [installs, hparse, hstate]
    unfold notePeerBundle
    split <;> rfl
  | handshakeResp sid payload bundle ref hparse _ _ =>
    simp only [installs, hparse]
    rfl
  | keyInit sid payload key bundle hparse hinstall =>
    simp only [installs, hparse, hinstall]
    exact OrderedDict.get?_set _ _ _ _
  | keyAck sid payload key bundle ref hparse hinstall _ =>
    simp only [installs, hparse, hinstall]
    exact OrderedDict.get?_set _ _ _ _

/-- A datagram binds no address but its own. -/
theorem sessionsByAddr_datagram (env : Env) (n : Node) (data : Bytes) {addr a : Addr}
    (h : addr ≠ a) :
    (nodeStep C n (env, .datagram data addr)).transport.sessionsByAddr.get? a =
      n.transport.sessionsByAddr.get? a := by
  apply (sessionsByAddr_dispatch C env n.transport data addr a).trans
  split
  · rw [if_neg h]
  · rfl

theorem agree_of_same {t t' : MeshTransport} (hbound : ∀ p, bound t' p = bound t p)
    (hbyAddr : ∀ a, t'.sessionsByAddr.get? a = t.sessionsByAddr.get? a) :
    Agree t' ↔ Agree t := by
  simp only [agree_iff_bound, hbound, hbyAddr]

theorem agree_dispatch_iff (env : Env) (t : MeshTransport) (data : Bytes) (addr : Addr)
    (h : Agree t) :
    Agree (dispatch C env t data addr).state ↔ ∀ key bundle,
      installs C t data addr = some (key, bundle) → Free t addr bundle.deviceId := by
  have hbound := bound_dispatch C env t data addr
  have hbyAddr := sessionsByAddr_dispatch C env t data addr
  cases hinstall : installs C t data addr with
  | none =>
    simp only [hinstall] at hbound hbyAddr
    rw [agree_of_same hbound hbyAddr]
    exact iff_of_true h (by simp)
  | some installed =>
    obtain ⟨key, bundle⟩ := installed
    simp only [hinstall] at hbound hbyAddr
    rw [agree_installed_iff h addr bundle.deviceId key bundle hbound hbyAddr]
    constructor
    · rintro hfree _ _ heq
      cases heq
      exact hfree
    · intro hall
      exact hall key bundle rfl

/-- Only datagrams change the sessions' bindings. -/
theorem same_of_not_datagram (n : Node) (env : Env) (e : Event)
    (h : ∀ data addr, e ≠ .datagram data addr) :
    (∀ p, bound (nodeStep C n (env, e)).transport p = bound n.transport p) ∧
      (nodeStep C n (env, e)).transport.sessionsByAddr = n.transport.sessionsByAddr := by
  cases e with
  | datagram data addr => exact absurd rfl (h data addr)
  | connect addr bundle =>
    show (∀ p, bound (connectBegin C n.transport addr bundle).state p = _) ∧
      (connectBegin C n.transport addr bundle).state.sessionsByAddr = _
    have hbegun := connectBegin_begun C n.transport addr bundle
    generalize connectBegin C n.transport addr bundle = out at hbegun
    cases hbegun <;> exact ⟨fun _ => rfl, rfl⟩
  | resume i =>
    show (∀ p, bound (n.resume C env i).1.transport p = _) ∧
      (n.resume C env i).1.transport.sessionsByAddr = _
    have hresumed := resume_resumed C env n i
    generalize n.resume C env i = out at hresumed
    cases hresumed <;> exact ⟨fun _ => rfl, rfl⟩
  | timeout i =>
    show (∀ p, bound (n.timeout i).transport p = _) ∧
      (n.timeout i).transport.sessionsByAddr = _
    rcases timeout_eq n i with heq | ⟨call, _, _, heq⟩ <;> rw [heq] <;>
      exact ⟨fun _ => rfl, rfl⟩
  | send peerId message =>
    have hsame := send_same C env n.transport peerId message
    exact ⟨hsame.bound, hsame.sessionsByAddr⟩
  | retry =>
    have hsame := retrySweep_same env n.transport
    exact ⟨hsame.bound, hsame.sessionsByAddr⟩

theorem agree_step_iff (n : Node) (e : Env × Event) (h : Agree n.transport) :
    Agree (nodeStep C n e).transport ↔ Undisplaced C n e := by
  obtain ⟨env, event⟩ := e
  by_cases hdatagram : ∃ data addr, event = .datagram data addr
  · obtain ⟨data, addr, rfl⟩ := hdatagram
    exact agree_dispatch_iff C env n.transport data addr h
  · obtain ⟨hbound, hbyAddr⟩ := same_of_not_datagram C n env event
      (fun data addr heq => hdatagram ⟨data, addr, heq⟩)
    have hguard : Undisplaced C n (env, event) := by
      cases event with
      | datagram data addr => exact absurd ⟨data, addr, rfl⟩ hdatagram
      | connect _ _ | resume _ | timeout _ | send _ _ | retry => exact trivial
    rw [agree_of_same hbound (fun a => by rw [hbyAddr])]
    exact iff_of_true h hguard

theorem agree_started {owner : DeviceIdentity} {n : Node} (h : Started owner n) :
    Agree n.transport := by
  intro addr peerId
  rw [h.1.sessions, h.1.sessionsByAddr]
  simp

end Steps

/-- From the start on, the indexes agree in every state of a run exactly when no
handshake of the run completes at an address, or for a peer, that is taken. -/
theorem indexes_agree_iff (owner : DeviceIdentity) (n : Node) (hn : Started owner n)
    (events : List (Env × Event)) :
    (∀ done, done <+: events → Agree (Runs.run (nodeStep C) n done).transport) ↔
      Runs.Always (nodeStep C) (Undisplaced C) n events :=
  Runs.invariant_prefixes_iff (I := fun n => Agree n.transport)
    (fun n e h => agree_step_iff C n e h) n events (agree_started hn)

section Stub

/-- A HANDSHAKE and a KEY_INIT from one address. -/
def rekeying (wire : Bytes) (ciphertext : Fixed mlkemCtLen) (addr : Addr) : List (Env × Event) :=
  [(stillEnv, .datagram (frame .handshake sid wire zeroMac) addr),
    (stillEnv, .datagram (frame .keyInit sid ciphertext.toList zeroMac) addr)]

/-- Alpha registers with a new node, and both indexes have it. -/
theorem indexes_agree_iff_alpha : ∃ n wire, Started bravo n ∧
    packBundle (getPublicBundle stub alpha) = .ok wire ∧
    (Runs.run (nodeStep stub) n (rekeying wire (repeated 0) alphaAddr)).transport.sessionsByAddr.get?
      alphaAddr = some "alpha" ∧
    ∀ done, done <+: rekeying wire (repeated 0) alphaAddr →
      Agree (Runs.run (nodeStep stub) n done).transport := by
  obtain ⟨n, hn, _⟩ := exists_started
  obtain ⟨wire, hpack, hlen, hwire⟩ := announced_wire stub alpha honest_alpha
  obtain ⟨hest, _⟩ := node_announce_then_keyInit stub stillEnv stillEnv n alphaAddr sid wire _
    (repeated 0) _ (started_wellFormed bravo n hn) hwire (stub_kemDecapsulate (repeated 0) _ _ _)
  have hparse := parsePacket_unkeyed .handshake sid wire (by rw [hlen]; decide)
  have hnone : installs stub n.transport (frame .handshake sid wire zeroMac) alphaAddr = none := by
    simp only [installs, hparse]
  refine ⟨n, wire, hn, hpack, hest.byAddr, ?_⟩
  refine (indexes_agree_iff stub bravo n hn _).mpr ⟨?_, ?_, trivial⟩
  · intro key bundle hinstalls
    rw [hnone] at hinstalls
    contradiction
  -- the HANDSHAKE has left both tables empty
  · intro key bundle _
    have hbound := bound_dispatch stub stillEnv n.transport (frame .handshake sid wire zeroMac)
      alphaAddr bundle.deviceId
    have hbyAddr := sessionsByAddr_dispatch stub stillEnv n.transport
      (frame .handshake sid wire zeroMac) alphaAddr alphaAddr
    have hempty : bound n.transport bundle.deviceId = none := by
      rw [bound, hn.1.sessions]
      rfl
    rw [hnone] at hbound hbyAddr
    refine (free_iff_bound _ _ _).mpr ⟨fun b hb => ?_, fun other hother => ?_⟩
    · cases (hbound.trans hempty).symm.trans hb
    · rw [hn.1.sessionsByAddr] at hbyAddr
      cases hbyAddr.symm.trans hother

/-- A peer that connects again from another address leaves its old address behind. -/
theorem moved_peer_disagrees : ¬ ∀ (owner : DeviceIdentity) (n : Node),
    Reachable stub owner n → Agree n.transport := by
  intro hclaim
  obtain ⟨wire, _, _, hwire⟩ := announced_wire stub alpha honest_alpha
  obtain ⟨_, b, _, hreach, _, hest, _⟩ := exists_established [] .empty
  let moved : Addr := ("10.0.0.9", 7000)
  obtain ⟨hest', _⟩ := node_announce_then_keyInit stub stillEnv stillEnv b moved sid wire _
    (repeated 1) _ (reachable_wellFormed stub bravo b hreach) hwire
    (stub_kemDecapsulate (repeated 1) _ _ _)
  have hne : moved ≠ alphaAddr := by decide
  have hold : (Runs.run (nodeStep stub) b
      (rekeying wire (repeated 1) moved)).transport.sessionsByAddr.get? alphaAddr = some "alpha" := by
    rw [rekeying, Runs.run_cons, Runs.run_cons, Runs.run_nil,
      sessionsByAddr_datagram stub _ _ _ hne, sessionsByAddr_datagram stub _ _ _ hne]
    exact hest.byAddr
  have hagree := hclaim bravo _ (hreach.run (rekeying wire (repeated 1) moved))
  obtain ⟨session, hsession, haddr⟩ := (hagree alphaAddr "alpha").mp hold
  obtain ⟨session', hsession', heq⟩ := Option.map_eq_some_iff.mp hest'.session
  have hmoved : session'.peerAddr = moved := congrArg Prod.fst heq
  cases Option.some.inj (hsession.symm.trans hsession')
  exact hne (hmoved.symm.trans haddr)

end Stub

end Mesim.SessionIndexes
