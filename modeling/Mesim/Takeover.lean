import Mesim.Honest

/-!
What keeps a session in place while datagrams arrive.
A session's key and verify key survive a sequence of datagrams exactly when none
of them completes a handshake under the peer's name with other keys. A HANDSHAKE
that repeats the peer's public bundle and a KEY_INIT with any ciphertext do
complete one, so the sequence needs no private key.
-/
namespace Mesim.Takeover

open Octets TextCodec Crypto Identity Packet Transport Dispatch Nodes Honest
open MeshTransport Outcome

variable (C : Suite)

/-- The peer's session still has the key and the verify key of the given one. -/
def Keeps (peerId : String) (session : SessionInfo) (t : MeshTransport) : Prop :=
  ∃ s, t.sessions.get? peerId = some s ∧ s.sessionKey = session.sessionKey ∧
    s.peerBundle.verifyKey = session.peerBundle.verifyKey

/-- The datagram completes a handshake under the peer's name with other keys: its
KEY_INIT or KEY_ACK is accepted at an address whose slot holds a bundle that names
the peer, and the key, or the verify key in that bundle, is not the session's. -/
def TakesOver (peerId : String) (session : SessionInfo) (t : MeshTransport) (a : Arrival) : Prop :=
  ∃ key bundle, installs C t a.data a.addr = some (key, bundle) ∧ bundle.deviceId = peerId ∧
    (key ≠ session.sessionKey ∨ bundle.verifyKey ≠ session.peerBundle.verifyKey)

theorem keeps_iff_bound (peerId : String) (session : SessionInfo) (t : MeshTransport) :
    Keeps peerId session t ↔ ∃ addr bundle,
      bound t peerId = some (addr, session.sessionKey, bundle) ∧
        bundle.verifyKey = session.peerBundle.verifyKey := by
  unfold Keeps bound
  constructor
  · rintro ⟨s, hs, hkey, hverify⟩
    exact ⟨s.peerAddr, s.peerBundle, by rw [hs, ← hkey]; rfl, hverify⟩
  · rintro ⟨addr, bundle, hbound, hverify⟩
    obtain ⟨s, hs, heq⟩ := Option.map_eq_some_iff.mp hbound
    simp only [Prod.mk.injEq] at heq
    exact ⟨s, hs, heq.2.1, by rw [heq.2.2, hverify]⟩

theorem keeps_receive_iff (peerId : String) (session : SessionInfo) (t : MeshTransport)
    (a : Arrival) (h : Keeps peerId session t) :
    Keeps peerId session (receive C t a) ↔ ¬ TakesOver C peerId session t a := by
  rw [keeps_iff_bound] at h ⊢
  have hbound := bound_dispatch C a.env t a.data a.addr peerId
  show (∃ addr bundle, bound (dispatch C a.env t a.data a.addr).state peerId = _ ∧ _) ↔ _
  rw [hbound]
  cases hinstall : installs C t a.data a.addr with
  | none =>
    have hnot : ¬ TakesOver C peerId session t a := by
      rintro ⟨key, bundle, h', _⟩
      rw [hinstall] at h'
      contradiction
    exact iff_of_true h hnot
  | some installed =>
    obtain ⟨key, bundle⟩ := installed
    by_cases hname : bundle.deviceId = peerId
    · simp only [hname, if_true]
      constructor
      · rintro ⟨addr, bundle', heq, hverify⟩ ⟨key', bundle'', h', _, hdiff⟩
        rw [hinstall] at h'
        cases h'
        cases heq
        rcases hdiff with hkey | hkey
        · exact hkey rfl
        · exact hkey hverify
      · intro hnot
        have hsame : key = session.sessionKey ∧
            bundle.verifyKey = session.peerBundle.verifyKey := by
          by_contra hdiff
          exact hnot ⟨key, bundle, hinstall, hname, not_and_or.mp hdiff⟩
        exact ⟨a.addr, bundle, by rw [hsame.1], hsame.2⟩
    · simp only [hname, if_false]
      have hnot : ¬ TakesOver C peerId session t a := by
        rintro ⟨key', bundle', h', hname', _⟩
        rw [hinstall] at h'
        cases h'
        exact hname hname'
      exact iff_of_true h hnot

def strayAddr : Addr := ("10.0.0.9", 7000)

/-- A HANDSHAKE from another address, and a KEY_INIT after it. -/
def rekeying (wire : Bytes) (ciphertext : Fixed mlkemCtLen) : List Arrival :=
  [⟨stillEnv, frame .handshake sid wire zeroMac, strayAddr⟩,
    ⟨stillEnv, frame .keyInit sid ciphertext.toList zeroMac, strayAddr⟩]

/-- After a HANDSHAKE with alpha's bundle the ciphertext alone decides the key of alpha's session. -/
theorem bound_rekeying {n : Operations.Node} (hreach : Reachable stub bravo n) {wire : Bytes}
    (hwire : announced stub wire = some (getPublicBundle stub alpha))
    (ciphertext : Fixed mlkemCtLen) :
    bound (Runs.run (receive stub) n.transport (rekeying wire ciphertext)) "alpha" =
      some (strayAddr, ⟨stub.mlkemDecap bravo.kemKeypair.secretKey ciphertext⟩,
        getPublicBundle stub alpha) := by
  obtain ⟨hestablished, _⟩ := announce_then_keyInit stub stillEnv stillEnv n.transport strayAddr sid
    wire _ ciphertext _ (reachable_wellFormed stub bravo n hreach).pending hwire
    (stub_kemDecapsulate ciphertext _ _ _)
  rw [(reachable_device stub bravo n hreach).1] at hestablished
  exact hestablished.session

/-- Whatever arrives, in whatever order: the session is kept throughout exactly
when no datagram takes it over. -/
theorem session_kept_iff (peerId : String) (session : SessionInfo) (t : MeshTransport)
    (hsession : t.sessions.get? peerId = some session) (arrivals : List Arrival) :
    (∀ done, done <+: arrivals → Keeps peerId session (Runs.run (receive C) t done)) ↔
      Runs.Always (receive C) (fun t a => ¬ TakesOver C peerId session t a) t arrivals :=
  Runs.invariant_prefixes_iff (fun t a h => keeps_receive_iff C peerId session t a h) t arrivals
    ⟨session, hsession, rfl, rfl⟩

/-- Alpha's HANDSHAKE and the same KEY_INIT once more, from another address, keep the session. -/
theorem session_kept_iff_repeated : ∃ n session wire, Reachable stub bravo n ∧
    n.transport.sessions.get? "alpha" = some session ∧
    packBundle (getPublicBundle stub alpha) = .ok wire ∧
    Runs.Always (receive stub) (fun t a => ¬ TakesOver stub "alpha" session t a) n.transport
      (rekeying wire (repeated 0)) := by
  obtain ⟨wire, hpack, hlen, hwire⟩ := announced_wire stub alpha honest_alpha
  obtain ⟨n, session, hreach, hsession, hkey, hpeer⟩ := exists_registered
  refine ⟨n, session, wire, hreach, hsession, hpack, ?_⟩
  refine (session_kept_iff stub "alpha" session n.transport hsession _).mp fun done hdone => ?_
  rw [rekeying, List.prefix_cons_iff] at hdone
  obtain rfl | ⟨rest, rfl, hrest⟩ := hdone
  · exact ⟨session, hsession, rfl, rfl⟩
  rw [List.prefix_cons_iff] at hrest
  obtain rfl | ⟨last, rfl, hlast⟩ := hrest
  -- the HANDSHAKE leaves the sessions alone
  · have hnoted := dispatch_handshake stub stillEnv n.transport _ sid.toList wire strayAddr _
      (parsePacket_unkeyed .handshake sid wire (by rw [hlen]; decide)) hwire
    refine ⟨session, ?_, rfl, rfl⟩
    rw [Runs.run_cons, Runs.run_nil, receive, hnoted, sessions_notePeerBundle, hsession]
  -- the KEY_INIT installs the key that the session has
  cases List.prefix_nil.mp hlast
  have hbound := bound_rekeying hreach hwire (repeated 0)
  exact (keeps_iff_bound _ _ _).mpr ⟨strayAddr, _, by rw [hkey]; exact hbound, by rw [hpeer]⟩

/-- What can be sent without the private keys behind a public bundle: the bundle
itself, a bundle signed under another key, and any KEY_INIT ciphertext. -/
inductive Forgeable (bundle : PublicBundle) : Bytes → Prop
  | replayed (ptype : PacketType) (sid : Fixed 32) (wire : Bytes)
      (hwire : packBundle bundle = .ok wire) : Forgeable bundle (frame ptype sid wire zeroMac)
  | selfSigned (ptype : PacketType) (sid : Fixed 32) (identity : DeviceIdentity) (wire : Bytes)
      (hkey : identity.signingKeypair.verifyKey ≠ bundle.verifyKey)
      (hwire : packBundle (getPublicBundle C identity) = .ok wire) :
      Forgeable bundle (frame ptype sid wire zeroMac)
  | keyInit (sid : Fixed 32) (ciphertext : Fixed mlkemCtLen) :
      Forgeable bundle (frame .keyInit sid ciphertext.toList zeroMac)

theorem stub_keys_differ (secret : MLKEMSecretKey) :
    stub.mlkemDecap secret (repeated 0) ≠ stub.mlkemDecap secret (repeated 1) := by
  intro h
  have hlist := congrArg List.Vector.toList h
  change slice (repeated 0).toList 0 32 = slice (repeated 1).toList 0 32 at hlist
  revert hlist
  decide

/-- The peer's HANDSHAKE repeated from another address, with another KEY_INIT
ciphertext, replaces the session's key. -/
theorem replayed_bundle_takes_over : ¬ ∀ (owner : DeviceIdentity) (n : Operations.Node)
    (peerId : String) (session : SessionInfo) (arrivals : List Arrival),
    Reachable stub owner n → n.transport.sessions.get? peerId = some session →
    (∀ a ∈ arrivals, Forgeable stub session.peerBundle a.data) →
    Keeps peerId session (Runs.run (receive stub) n.transport arrivals) := by
  intro hclaim
  obtain ⟨wire, hpack, _, hwire⟩ := announced_wire stub alpha honest_alpha
  obtain ⟨n, session, hreach, hsession, hkey, hpeer⟩ := exists_registered
  have hkept := hclaim bravo n "alpha" session (rekeying wire (repeated 1)) hreach hsession (by
      intro a ha
      simp only [rekeying, List.mem_cons, List.not_mem_nil, or_false] at ha
      rcases ha with rfl | rfl
      · exact .replayed .handshake sid wire (by rw [hpeer, hpack])
      · exact .keyInit sid _)
  obtain ⟨addr, bundle, hbound', _⟩ := (keeps_iff_bound _ _ _).mp hkept
  have hsame := (bound_rekeying hreach hwire (repeated 1)).symm.trans hbound'
  simp only [Option.some.injEq, Prod.mk.injEq] at hsame
  have hkeys := hsame.2.1.trans hkey
  exact stub_keys_differ bravo.kemKeypair.secretKey (congrArg SessionKey.raw hkeys).symm

end Mesim.Takeover
