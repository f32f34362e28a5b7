import Mesim.FragmentDelivery
import Mesim.OriginatorSignatures

/-!
The strings a device signs.
Bundles and announcements are signed in fixed layouts of different lengths, so
neither is ever the other. send() signs the message as it is, without a prefix,
so a message can be laid out like a bundle or an announcement, and then it is one.
-/
namespace Mesim.SigningContexts

open Octets TextCodec Crypto Identity Packet Transport Operations Router RouterPackets Honest
open OriginatorSignatures Reassembly FragmentDelivery Nodes MeshTransport

section Layouts

/-- A text field of a bundle: UTF-8, zero-padded and cut to its width. -/
def textField (s : String) (width : ℕ) : Bytes := (ljust (encodeUtf8 s) width 0).take width

/-- The string is signed for some bundle. -/
def BundleString (x : Bytes) : Prop :=
  ∃ deviceId callsign rank verifyKey encryptPub kemPub,
    canonicalBundleBytes deviceId callsign rank verifyKey encryptPub kemPub = x

/-- The string is signed for some announcement. -/
def OriginatorString (x : Bytes) : Prop :=
  ∃ oidBytes seqNum maxHops timestamp, originatorSignedBytes oidBytes seqNum maxHops timestamp = .ok x

/-- Two text fields, the number of a rank, and 1248 bytes for the keys. -/
structure BundleShaped (x : Bytes) : Prop where
  length : x.length = 1317
  deviceId : ∃ s, textField s 36 = slice x 0 36
  callsign : ∃ s, textField s 32 = slice x 36 32
  rank : ∃ rank : Rank, [rank.toByte] = slice x 68 1

theorem textField_length (s : String) (width : ℕ) : (textField s width).length = width :=
  take_ljust_length (encodeUtf8 s) width 0

theorem slice_append_slice (b : Bytes) (start m n : ℕ) :
    slice b start m ++ slice b (start + m) n = slice b start (m + n) := by
  rw [slice, slice, slice, ← List.drop_drop, List.take_add]

theorem bundleString_iff (x : Bytes) : BundleString x ↔ BundleShaped x := by
  constructor
  · rintro ⟨deviceId, callsign, rank, verifyKey, encryptPub, kemPub, rfl⟩
    have hdevice := textField_length deviceId 36
    have hcallsign := textField_length callsign 32
    have hlayout : canonicalBundleBytes deviceId callsign rank verifyKey encryptPub kemPub =
        textField deviceId 36 ++ (textField callsign 32 ++ ([rank.toByte] ++
          (verifyKey.raw.toList ++ (encryptPub.raw.toList ++ kemPub.raw.toList)))) := by
      simp only [canonicalBundleBytes, textField, List.append_assoc]
    rw [hlayout]
    refine ⟨?_, ⟨deviceId, ?_⟩, ⟨callsign, ?_⟩, rank, ?_⟩
    · simp only [List.length_append, List.Vector.toList_length, List.length_singleton, hdevice,
        hcallsign]
    · exact (slice_append_left _ _ _ hdevice).symm
    · exact (slice_piece _ _ _ _ _ hdevice hcallsign).symm
    · rw [← List.append_assoc]
      refine (slice_piece _ _ _ _ _ ?_ rfl).symm
      rw [List.length_append, hdevice, hcallsign]
  · rintro ⟨hlen, ⟨deviceId, hdevice⟩, ⟨callsign, hcallsign⟩, rank, hrank⟩
    have hfield : ∀ start width, start + width ≤ 1317 → (slice x start width).length = width :=
      fun start width hle => slice_length x start width (by omega)
    refine ⟨deviceId, callsign, rank, ⟨⟨slice x 69 32, hfield 69 32 (by decide)⟩⟩,
      ⟨⟨slice x 101 32, hfield 101 32 (by decide)⟩⟩,
      ⟨⟨slice x 133 1184, hfield 133 1184 (by decide)⟩⟩, ?_⟩
    have hall : slice x 0 1317 = x := slice_self x 1317 (Nat.le_of_eq hlen)
    calc canonicalBundleBytes deviceId callsign rank _ _ _
        = slice x 0 36 ++ slice x 36 32 ++ slice x 68 1 ++ slice x 69 32 ++ slice x 101 32 ++
            slice x 133 1184 := by
          rw [← hdevice, ← hcallsign, ← hrank]
          rfl
      _ = slice x 0 1317 := by
          rw [slice_append_slice x 0 36 32, slice_append_slice x 0 68 1, slice_append_slice x 0 69 32,
            slice_append_slice x 0 101 32, slice_append_slice x 0 133 1184]
      _ = x := hall

/-- Every string of the right length is signed for some announcement. -/
theorem originatorString_iff (x : Bytes) : OriginatorString x ↔ x.length = 45 := by
  constructor
  · rintro ⟨oidBytes, seqNum, maxHops, timestamp, hsigned⟩
    unfold originatorSignedBytes at hsigned
    split at hsigned
    · split at hsigned
      · cases hsigned
        simp only [List.length_append, List.Vector.toList_length, packBE_length]
      · cases hsigned
    · cases hsigned
  · intro hlen
    have hfield : ∀ start width, start + width ≤ 45 → (slice x start width).length = width :=
      fun start width hle => slice_length x start width (by omega)
    have hseq : unpackBE (slice x 32 4) < 256 ^ 4 := by
      have hlt := unpackBE_lt (slice x 32 4)
      rwa [hfield 32 4 (by decide)] at hlt
    have hmax : unpackBE (slice x 44 1) < 256 := by
      have hlt := unpackBE_lt (slice x 44 1)
      rwa [hfield 44 1 (by decide)] at hlt
    have hrepack : ∀ start width, start + width ≤ 45 →
        packBE width (unpackBE (slice x start width)) = slice x start width := by
      intro start width hle
      have hpack := packBE_unpackBE (slice x start width)
      rwa [hfield start width hle] at hpack
    refine ⟨⟨slice x 0 32, hfield 0 32 (by decide)⟩, unpackBE (slice x 32 4),
      unpackBE (slice x 44 1), ⟨⟨slice x 36 8, hfield 36 8 (by decide)⟩⟩, ?_⟩
    unfold originatorSignedBytes
    rw [if_pos hseq, if_pos hmax]
    apply congrArg Except.ok
    rw [hrepack 32 4 (by decide), hrepack 44 1 (by decide)]
    calc slice x 0 32 ++ slice x 32 4 ++ slice x 36 8 ++ slice x 44 1
        = slice x 0 45 := by
          rw [slice_append_slice x 0 32 4, slice_append_slice x 0 36 8, slice_append_slice x 0 44 1]
      _ = x := slice_self x 45 (Nat.le_of_eq hlen)

/-- No string is signed both for a bundle and for an announcement. -/
theorem bundle_ne_originator (b o : Bytes) (hb : BundleString b) (ho : OriginatorString o) :
    b ≠ o := by
  rintro rfl
  have hbundle := ((bundleString_iff b).mp hb).length
  have horiginator := (originatorString_iff b).mp ho
  omega

end Layouts

section Contexts

variable (C : Suite)

/-- The signature that send() puts in front of a message. -/
def messageSig (t : MeshTransport) (message : Bytes) : Bytes :=
  (C.signMessage message t.identity.signingKeypair.signingKey).toList

/-- How a message that send() accepts relates to the device's bundle and announcements. -/
structure Separated (env : Env) (t : MeshTransport) (peerId : String) (message : Bytes) : Prop where
  sent : ∃ (x : Sending) (addr : Addr), x.chunks = splitFragments (messageSig C t message ++ message) ∧
    (send C env t peerId message).effects = (x.packets C).flatMap fun pkt => t.sendRaw pkt addr
  layouts : ∀ b o, BundleString b → OriginatorString o → b ≠ o
  bundles : BundleString message ↔ BundleShaped message
  originators : OriginatorString message ↔ message.length = 45
  bundleSig : ∀ bundle : PublicBundle, bundle.verifyKey = t.identity.signingKeypair.verifyKey →
    bundle.bundleSig = messageSig C t message →
      (verifyPublicBundle C bundle = .ok () ↔ canonicalBundleBytes bundle.deviceId bundle.callsign
        bundle.rank bundle.verifyKey bundle.encryptPub bundle.kemPub = message)
  originatorSig : ∀ payload o, unpackOriginator payload = .ok o → o.sig = messageSig C t message →
    (C.verifySignature (signedBytes o) o.sig t.identity.signingKeypair.verifyKey = .ok () ↔
      signedBytes o = message)

/-- A bundle's string and an announcement's are never the same, and a message that send()
accepts is one of them exactly when it is laid out like it. If the signature over the message
verifies over it and over no other string of the two kinds, then it verifies as the device's
bundle signature, or as its signature of an announcement, for that string alone. -/
theorem signing_contexts (env : Env) (t : MeshTransport) (peerId : String) (message : Bytes)
    (haccepted : (send C env t peerId message).raised = none)
    (hsign : C.SignCorrect t.identity.signingKeypair)
    (hbinds : ∀ x, BundleString x ∨ OriginatorString x →
      C.verifySignature x (messageSig C t message) t.identity.signingKeypair.verifyKey = .ok () →
        x = message) :
    Separated C env t peerId message := by
  have hown : C.verifySignature message (messageSig C t message)
      t.identity.signingKeypair.verifyKey = .ok () :=
    C.verify_sign t.identity.signingKeypair hsign message
  have hverifies : ∀ x, BundleString x ∨ OriginatorString x →
      (C.verifySignature x (messageSig C t message) t.identity.signingKeypair.verifyKey = .ok () ↔
        x = message) := by
    intro x hx
    refine ⟨hbinds x hx, ?_⟩
    rintro rfl
    exact hown
  refine ⟨?_, bundle_ne_originator, bundleString_iff message, originatorString_iff message, ?_, ?_⟩
  · cases hsession : t.sessions.get? peerId with
    | none =>
      simp only [send, hsession, Outcome.raise] at haccepted
      cases haccepted
    | some session =>
      exact ⟨sending C env t session.sessionKey message, session.peerAddr, rfl,
        (send_ok C env t peerId message session hsession haccepted).2⟩
  · intro bundle hkey hsig
    rw [verifyPublicBundle, hsig, hkey]
    exact hverifies _ (Or.inl ⟨_, _, _, _, _, _, rfl⟩)
  · intro payload o hunpack hsig
    rw [hsig]
    exact hverifies _ (Or.inr ⟨_, _, _, _, originatorSignedBytes_unpacked payload o hunpack⟩)

end Contexts

section Stub

/-- A signature that tells whether it was made over one chosen message. -/
def mark (marked : Bytes) (key : Fixed 32) (message : Bytes) : Fixed 64 :=
  key ++ List.Vector.replicate 32 (if message = marked then (1 : UInt8) else 0)

def marking (marked : Bytes) : Suite :=
  { stub with
    ed25519Sign := fun key message => mark marked key.raw message
    ed25519Verify := fun key message signature => signature = (mark marked key.raw message).toList }

theorem marking_signCorrect (marked : Bytes) (key : Fixed 32) :
    (marking marked).SignCorrect ⟨⟨key⟩, ⟨key⟩⟩ := by
  intro message
  exact decide_eq_true rfl

theorem marking_binds (marked : Bytes) (key : Fixed 32) (x : Bytes)
    (h : (marking marked).verifySignature x ((marking marked).signMessage marked ⟨key⟩).toList ⟨key⟩ =
      .ok ()) : x = marked := by
  have hverify := ((marking marked).verifySignature_ok_iff _ _ _).mp h
  simp only [marking, Suite.signMessage, decide_eq_true_eq] at hverify
  by_contra hne
  simp only [mark, List.Vector.toList_append, if_true, if_neg hne, List.append_cancel_left_eq] at hverify
  revert hverify
  decide

/-- A node with a session accepts every message of one or two fragments. -/
theorem send_accepted (C : Suite) (env : Env) (t : MeshTransport) (peerId : String) (message : Bytes)
    (session : SessionInfo) (hsession : t.sessions.get? peerId = some session)
    (hid : t.msgIdCounter < 256 ^ 4) (hlen : sigSize + message.length ≤ 2 * maxFragPt) :
    (send C env t peerId message).raised = none := by
  rw [send_raised_iff C env t peerId message session hsession, sendable_iff]
  have htotal := chunks_le_two C env t session.sessionKey message hlen
  exact ⟨hid, by omega⟩

/-- Alpha's bundle as it is signed: 1317 bytes. -/
def bundleMessage : Bytes :=
  canonicalBundleBytes alpha.deviceId alpha.callsign alpha.rank alpha.signingKeypair.verifyKey
    alpha.encryptKeypair.publicKey alpha.kemKeypair.publicKey

theorem bundleString_bundleMessage : BundleString bundleMessage := ⟨_, _, _, _, _, _, rfl⟩

theorem exists_session : ∃ (n : Node) (session : SessionInfo), Reachable stub alpha n ∧
    n.transport.identity = alpha ∧ n.transport.sessions.get? "bravo" = some session ∧
    n.transport.msgIdCounter = 1 := by
  obtain ⟨a, _, hreach, _, hest, _, ⟨t, ht, _, _, hsame⟩, _⟩ := exists_established [] .empty
  obtain ⟨session, hholds, _⟩ := holds_of_established hest
  exact ⟨a, session, hreach, hsame.identity.trans ht.identity, hholds.session,
    hsame.msgIdCounter.trans ht.msgIdCounter⟩

theorem signing_contexts_marked :
    ∃ n : Node, Separated (marking [1]) stillEnv n.transport "bravo" [1] := by
  obtain ⟨n, session, _, hidentity, hsession, hcounter⟩ := exists_session
  refine ⟨n, signing_contexts (marking [1]) stillEnv n.transport "bravo" [1] ?_ ?_ ?_⟩
  · exact send_accepted (marking [1]) stillEnv n.transport "bravo" [1] session hsession
      (by rw [hcounter]; decide) (by decide)
  · rw [hidentity]
    exact marking_signCorrect [1] _
  · intro x _ hverify
    rw [messageSig, hidentity] at hverify
    exact marking_binds [1] _ x hverify

/-- Signed and sent as a message, the bundle's string carries the bundle's signature. -/
theorem message_is_bundle_string : ¬ ∀ (env : Env) (t : MeshTransport) (peerId : String)
    (message : Bytes), (send stub env t peerId message).raised = none →
    ∀ b o, BundleString b → OriginatorString o → message ≠ b ∧ message ≠ o ∧ b ≠ o := by
  intro hclaim
  obtain ⟨n, session, _, _, hsession, hcounter⟩ := exists_session
  have hlen := ((bundleString_iff bundleMessage).mp bundleString_bundleMessage).length
  have haccepted := send_accepted stub stillEnv n.transport "bravo" bundleMessage session hsession
    (by rw [hcounter]; decide) (by rw [hlen]; decide)
  have horiginator := (originatorString_iff (List.replicate 45 0)).mpr List.length_replicate
  exact (hclaim stillEnv n.transport "bravo" bundleMessage haccepted bundleMessage _
    bundleString_bundleMessage horiginator).1 rfl

end Stub

end Mesim.SigningContexts
