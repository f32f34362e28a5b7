import Mesim.BundleCodec

/-!
What the signature of a bundle says of its fields.
The keys and the rank have their full width in the signed string, but the two texts
are padded with zero bytes and cut to theirs. So a signature fixes a text only up to
what lies past its width and up to trailing NUL characters; texts that the wire
format carries have neither, and the signature determines them.
-/
namespace Mesim.BundleCoverage

open Octets TextCodec Crypto Identity BundleCodec

section Texts

/-- What a field of this width keeps of a text. -/
def covered (width : ℕ) (s : String) : Bytes := rstrip ((encodeUtf8 s).take width) 0

/-- Two texts that look the same in a field of this width. -/
def Confusable (width : ℕ) (s s' : String) : Prop := s ≠ s' ∧ covered width s = covered width s'

instance (width : ℕ) (s s' : String) : Decidable (Confusable width s s') :=
  inferInstanceAs (Decidable (_ ∧ _))

theorem padded_length (b : Bytes) (width : ℕ) : ((ljust b width 0).take width).length = width := by
  rw [List.length_take, ljust, List.length_append, List.length_replicate]
  omega

theorem rstrip_padded (b : Bytes) (width : ℕ) :
    rstrip ((ljust b width 0).take width) 0 = rstrip (b.take width) 0 := by
  rcases Nat.le_total b.length width with hfits | hlong
  · rw [List.take_of_length_le (ljust_length b width 0 hfits).le, List.take_of_length_le hfits,
      ljust, rstrip_append_replicate]
  · rw [ljust_eq_self b width 0 hlong]

/-- Padding and cutting loses exactly the tail and the trailing zero bytes. -/
theorem padded_eq_iff (b b' : Bytes) (width : ℕ) :
    (ljust b width 0).take width = (ljust b' width 0).take width ↔
      rstrip (b.take width) 0 = rstrip (b'.take width) 0 := by
  have hback : ∀ c : Bytes,
      ljust (rstrip (c.take width) 0) width 0 = (ljust c width 0).take width := by
    intro c
    have hpad := ljust_rstrip ((ljust c width 0).take width) 0
    rwa [padded_length, rstrip_padded] at hpad
  constructor
  · intro h
    rw [← rstrip_padded b, ← rstrip_padded b', h]
  · intro h
    rw [← hback b, ← hback b', h]

/-- A text that fits its field and does not end in NUL is kept whole. -/
theorem covered_whole {width : ℕ} {s : String} (hfits : (encodeUtf8 s).length ≤ width)
    (hend : s.toList.getLast? ≠ some '\x00') : covered width s = encodeUtf8 s := by
  rw [covered, List.take_of_length_le hfits]
  exact rstrip_eq_self _ _ fun hlast => hend ((getLast?_encodeUtf8 s).mp hlast)

theorem not_confusable {width : ℕ} {s s' : String} (hs : covered width s = encodeUtf8 s)
    (hs' : covered width s' = encodeUtf8 s') : ¬ Confusable width s s' := by
  rintro ⟨hne, hsame⟩
  rw [hs, hs'] at hsame
  exact hne (encodeUtf8_injective hsame)

theorem eq_iff_not_confusable {width : ℕ} {s s' : String}
    (h : covered width s = covered width s') : s = s' ↔ ¬ Confusable width s s' := by
  constructor
  · rintro heq ⟨hne, _⟩
    exact hne heq
  · intro hnot
    by_contra hne
    exact hnot ⟨hne, h⟩

end Texts

section Canonical

/-- The fields that the signature is said to cover. -/
def SameFields (bundle other : PublicBundle) : Prop :=
  bundle.deviceId = other.deviceId ∧ bundle.callsign = other.callsign ∧ bundle.rank = other.rank ∧
    bundle.encryptPub = other.encryptPub ∧ bundle.kemPub = other.kemPub

def signedBytes (bundle : PublicBundle) : Bytes :=
  canonicalBundleBytes bundle.deviceId bundle.callsign bundle.rank bundle.verifyKey
    bundle.encryptPub bundle.kemPub

theorem toByte_injective : Function.Injective Rank.toByte := by
  intro r r' h
  have hsame := congrArg Rank.ofByte? h
  rw [Rank.ofByte_toByte, Rank.ofByte_toByte] at hsame
  exact Except.ok.inj hsame

theorem signedBytes_eq_iff (bundle other : PublicBundle) :
    signedBytes bundle = signedBytes other ↔
      covered 36 bundle.deviceId = covered 36 other.deviceId ∧
      covered 32 bundle.callsign = covered 32 other.callsign ∧ bundle.rank = other.rank ∧
      bundle.verifyKey = other.verifyKey ∧ bundle.encryptPub = other.encryptPub ∧
      bundle.kemPub = other.kemPub := by
  constructor
  · intro h
    simp only [signedBytes, canonicalBundleBytes, List.append_assoc] at h
    have hwidth : ∀ (b b' : Bytes) (width : ℕ),
        ((ljust b width 0).take width).length = ((ljust b' width 0).take width).length := by
      intro b b' width
      rw [padded_length, padded_length]
    have hkeys : ∀ {n : ℕ} (key key' : Fixed n), key.toList.length = key'.toList.length := by
      intro n key key'
      rw [key.toList_length, key'.toList_length]
    obtain ⟨hid, h⟩ := List.append_inj h (hwidth _ _ 36)
    obtain ⟨hcallsign, h⟩ := List.append_inj h (hwidth _ _ 32)
    obtain ⟨hrank, h⟩ := List.append_inj h rfl
    obtain ⟨hverify, h⟩ := List.append_inj h (hkeys _ _)
    obtain ⟨hencrypt, hkem⟩ := List.append_inj h (hkeys _ _)
    exact ⟨(padded_eq_iff _ _ 36).mp hid, (padded_eq_iff _ _ 32).mp hcallsign,
      toByte_injective (List.singleton_injective hrank),
      congrArg Ed25519VerifyKey.mk (Subtype.ext hverify),
      congrArg X25519PubKey.mk (Subtype.ext hencrypt),
      congrArg MLKEMPublicKey.mk (Subtype.ext hkem)⟩
  · rintro ⟨hid, hcallsign, hrank, hverify, hencrypt, hkem⟩
    simp only [signedBytes, canonicalBundleBytes, hrank, hverify, hencrypt, hkem,
      (padded_eq_iff _ _ 36).mpr hid, (padded_eq_iff _ _ 32).mpr hcallsign]

/-- Bundles with one signed string differ in confusable texts only. -/
theorem sameFields_iff {bundle other : PublicBundle}
    (h : signedBytes bundle = signedBytes other) :
    SameFields bundle other ↔
      ¬ Confusable 36 bundle.deviceId other.deviceId ∧
      ¬ Confusable 32 bundle.callsign other.callsign := by
  obtain ⟨hid, hcallsign, hrank, _, hencrypt, hkem⟩ := (signedBytes_eq_iff bundle other).mp h
  rw [← eq_iff_not_confusable hid, ← eq_iff_not_confusable hcallsign]
  constructor
  · rintro ⟨hid', hcallsign', _⟩
    exact ⟨hid', hcallsign'⟩
  · rintro ⟨hid', hcallsign'⟩
    exact ⟨hid', hcallsign', hrank, hencrypt, hkem⟩

theorem carriable_not_confusable {bundle other : PublicBundle} (h : Carriable bundle)
    (h' : Carriable other) :
    ¬ Confusable 36 bundle.deviceId other.deviceId ∧
      ¬ Confusable 32 bundle.callsign other.callsign := by
  have hcallsign : ∀ {b : PublicBundle}, Carriable b →
      covered 32 b.callsign = encodeUtf8 b.callsign := by
    intro b hb
    exact covered_whole ((encodeUtf8_length hb.callsign_ascii).le.trans hb.callsign_fits)
      hb.callsign_end
  exact ⟨not_confusable (covered_whole h.deviceId_fits h.deviceId_end)
      (covered_whole h'.deviceId_fits h'.deviceId_end),
    not_confusable (hcallsign h) (hcallsign h')⟩

end Canonical

section Signatures

variable (C : Suite)

/-- This signature verifies under this key for one message at most. -/
def OneMessage (key : Ed25519VerifyKey) (signature : Bytes) : Prop :=
  ∀ message message', C.ed25519Verify key message signature = true →
    C.ed25519Verify key message' signature = true → message = message'

theorem signedBytes_of_verified {bundle other : PublicBundle}
    (hkey : bundle.verifyKey = other.verifyKey) (hsig : bundle.bundleSig = other.bundleSig)
    (hone : OneMessage C bundle.verifyKey bundle.bundleSig)
    (h : verifyPublicBundle C bundle = .ok ()) (h' : verifyPublicBundle C other = .ok ()) :
    signedBytes bundle = signedBytes other := by
  have hverified := (C.verifySignature_ok_iff _ _ _).mp h
  have hverified' := (C.verifySignature_ok_iff _ _ _).mp h'
  rw [← hkey, ← hsig] at hverified'
  rw [signedBytes, signedBytes, ← hkey]
  exact hone _ _ hverified hverified'

/-- Two verified bundles under one signature agree in every field exactly when neither
their device ids nor their callsigns are confusable, and so do any two that unpack_bundle()
returns. -/
theorem signature_covers_iff (bundle other : PublicBundle)
    (hkey : bundle.verifyKey = other.verifyKey) (hsig : bundle.bundleSig = other.bundleSig)
    (hone : OneMessage C bundle.verifyKey bundle.bundleSig)
    (h : verifyPublicBundle C bundle = .ok ()) (h' : verifyPublicBundle C other = .ok ()) :
    (SameFields bundle other ↔
      ¬ Confusable 36 bundle.deviceId other.deviceId ∧
      ¬ Confusable 32 bundle.callsign other.callsign) ∧
    ((∃ data, Packet.unpackBundle data = .ok bundle) →
      (∃ data, Packet.unpackBundle data = .ok other) → SameFields bundle other) := by
  have hsame := sameFields_iff (signedBytes_of_verified C hkey hsig hone h h')
  refine ⟨hsame, ?_⟩
  rintro ⟨data, hdata⟩ ⟨data', hdata'⟩
  apply hsame.mpr
  exact carriable_not_confusable (unpacked_of_unpackBundle hdata).carriable
    (unpacked_of_unpackBundle hdata').carriable

end Signatures

section Stub

def stubBundle : PublicBundle :=
  getPublicBundle stub (Honest.stubIdentity "0f0e0d0c-0b0a-4908-8706-050403020100" "ALPHA"
    (List.Vector.replicate 32 1))

/-- The stub where the signer has signed no string but that of the bundle above. -/
def signedOnce : Suite :=
  { stub with
    ed25519Verify := fun key message signature =>
      message = signedBytes stubBundle ∧ stub.ed25519Verify key message signature }

theorem signedOnce_verifies_iff (key : Ed25519VerifyKey) (message signature : Bytes) :
    signedOnce.ed25519Verify key message signature = true ↔
      message = signedBytes stubBundle ∧ stub.ed25519Verify key message signature = true :=
  decide_eq_true_iff

theorem oneMessage_signedOnce (key : Ed25519VerifyKey) (signature : Bytes) :
    OneMessage signedOnce key signature := by
  intro message message' h h'
  have hmessage := ((signedOnce_verifies_iff _ _ _).mp h).1
  have hmessage' := ((signedOnce_verifies_iff _ _ _).mp h').1
  exact hmessage.trans hmessage'.symm

theorem verified_stubBundle : verifyPublicBundle signedOnce stubBundle = .ok () := by
  have hsigned : verifyPublicBundle stub stubBundle = .ok () :=
    verify_getPublicBundle stub _ (stub_signCorrect _)
  apply (signedOnce.verifySignature_ok_iff _ _ _).mpr
  apply (signedOnce_verifies_iff _ _ _).mpr
  exact ⟨rfl, (stub.verifySignature_ok_iff _ _ _).mp hsigned⟩

/-- A device id that goes on past its field. -/
def longBundle : PublicBundle := { stubBundle with deviceId := stubBundle.deviceId ++ "/command" }

theorem confusable_longBundle : Confusable 36 stubBundle.deviceId longBundle.deviceId := by
  decide

theorem verified_longBundle : verifyPublicBundle signedOnce longBundle = .ok () := by
  have hsame : signedBytes longBundle = signedBytes stubBundle :=
    (signedBytes_eq_iff _ _).mpr ⟨confusable_longBundle.2.symm, rfl, rfl, rfl, rfl, rfl⟩
  have hverified := verified_stubBundle
  rw [verifyPublicBundle] at hverified ⊢
  rw [signedBytes, signedBytes] at hsame
  rw [hsame]
  exact hverified

theorem signature_covers_iff_stub :
    SameFields stubBundle longBundle ↔
      ¬ Confusable 36 stubBundle.deviceId longBundle.deviceId ∧
      ¬ Confusable 32 stubBundle.callsign longBundle.callsign :=
  (signature_covers_iff signedOnce stubBundle longBundle rfl rfl (oneMessage_signedOnce _ _)
    verified_stubBundle verified_longBundle).1

/-- The longer device id passes under the signature of the shorter one. -/
theorem longer_deviceId_verifies : ¬ ∀ (C : Suite) (bundle other : PublicBundle),
    bundle.verifyKey = other.verifyKey → bundle.bundleSig = other.bundleSig →
    OneMessage C bundle.verifyKey bundle.bundleSig → verifyPublicBundle C bundle = .ok () →
    verifyPublicBundle C other = .ok () → SameFields bundle other := by
  intro h
  have hsame := h signedOnce stubBundle longBundle rfl rfl (oneMessage_signedOnce _ _)
    verified_stubBundle verified_longBundle
  exact confusable_longBundle.1 hsame.1

end Stub

end Mesim.BundleCoverage
