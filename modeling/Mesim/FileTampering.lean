import Mesim.Duress

/-!
Edited identity files.
Whoever edits a file without its passphrase can only move the sealed private keys
about: what the passphrase opens are the keys that were saved. The public keys of the
document are compared with them. Its device id, callsign and rank are not compared
with anything, so load_identity() takes them as they stand; and when the keys are
opened from the duress fields, so are the public keys.
-/
namespace Mesim.FileTampering

open Octets TextCodec Crypto Identity Base64 Json IdentityFile Duress

section Opening

/-- The names under which a document keeps a sealed string. -/
structure SealNames where
  salt : String
  nonce : String
  ciphertext : String

def realNames : SealNames := ⟨"salt", "nonce", "encrypted_private_keys"⟩

def duressNames : SealNames := ⟨"duress_salt", "duress_nonce", "duress_encrypted_keys"⟩

/-- A sealed string, with the key that the passphrase derives for it. -/
structure Sealed where
  key : Fixed 32
  nonce : Bytes
  ciphertext : Bytes

variable (C : Suite) (R : Runtime)

def Sealed.decrypt (sealed : Sealed) : Except PyError Bytes :=
  decryptKeys C sealed.key sealed.nonce sealed.ciphertext

/-- Both paths of load_identity() read the document so. -/
def sealedUnder (names : SealNames) (members : Members) (passphrase : Passphrase) :
    Except PyError Sealed := do
  let salt ← b64Field members names.salt
  let nonce ← b64Field members names.nonce
  let ciphertext ← b64Field members names.ciphertext
  let kdf ← field members "kdf"
  let params ← field members "kdf_params"
  let wrapKey ← deriveWrapKeyFromParams R (normalizePassphrase passphrase) salt kdf params
  let key ← chachaKey wrapKey
  return ⟨key, nonce, ciphertext⟩

def SupportedVersion (members : Members) : Prop :=
  (lookup "version" members).bind Value.number? = some 1

/-- The passphrase opens the sealed private keys. -/
def OpensReal (members : Members) (passphrase : Passphrase) (privateBlob : Bytes) : Prop :=
  SupportedVersion members ∧ ∃ s, sealedUnder R realNames members passphrase = .ok s ∧
    s.decrypt C = .ok privateBlob

/-- It does not, and opens what the document keeps for a duress passphrase. -/
def OpensDuress (members : Members) (passphrase : Passphrase) (decoyBlob : Bytes) : Prop :=
  SupportedVersion members ∧
    (∃ s, sealedUnder R realNames members passphrase = .ok s ∧ s.decrypt C = .error .invalidTag) ∧
    ∃ s, sealedUnder R duressNames members passphrase = .ok s ∧ s.decrypt C = .ok decoyBlob

def openReal (members : Members) (passphrase : Passphrase) (sealed : Sealed) :
    Except PyError Unlocked :=
  match sealed.decrypt C with
  | .ok privateBlob => .ok (.real members privateBlob)
  | .error .invalidTag => unlockDuress C R members passphrase
  | .error e => .error e

theorem unlock_eq (members : Members) (passphrase : Passphrase) (h : SupportedVersion members) :
    unlock C R (.obj members) passphrase =
      sealedUnder R realNames members passphrase >>= openReal C R members passphrase := by
  have hversion : ¬ (lookup "version" members).bind Value.number? ≠ some 1 := not_not.mpr h
  simp only [unlock, Value.members?, if_neg hversion, sealedUnder, bind_assoc, pure_bind]
  rfl

theorem unlockDuress_eq (members : Members) (passphrase : Passphrase)
    (h : (lookup "duress_encrypted_keys" members).isNone = false) :
    unlockDuress C R members passphrase = sealedUnder R duressNames members passphrase >>= fun s =>
      s.decrypt C >>= fun decoyBlob => .ok (.duress members decoyBlob) := by
  simp only [unlockDuress, h, sealedUnder, bind_assoc, pure_bind]
  rfl

/-- A sealed string is read from three fields that are all there. -/
theorem ciphertext_of_sealedUnder {names : SealNames} {members : Members} {passphrase : Passphrase}
    {sealed : Sealed} (h : sealedUnder R names members passphrase = .ok sealed) :
    (lookup names.ciphertext members).isNone = false := by
  cases hlookup : lookup names.ciphertext members with
  | some _ => rfl
  | none =>
    have hfield : b64Field members names.ciphertext = .error .keyError := by
      simp only [b64Field, field, subscript, hlookup, bind, Except.bind]
    rw [sealedUnder, hfield] at h
    cases hsalt : b64Field members names.salt <;> rw [hsalt] at h
    · cases h
    · cases hnonce : b64Field members names.nonce <;> rw [hnonce] at h <;> cases h

theorem unlockDuress_ok_iff (members : Members) (passphrase : Passphrase) (u : Unlocked) :
    unlockDuress C R members passphrase = .ok u ↔ ∃ s decoyBlob,
      sealedUnder R duressNames members passphrase = .ok s ∧ s.decrypt C = .ok decoyBlob ∧
      u = .duress members decoyBlob := by
  constructor
  · intro h
    cases hnone : (lookup "duress_encrypted_keys" members).isNone with
    | true =>
      rw [unlockDuress, if_pos hnone] at h
      cases h
    | false =>
      rw [unlockDuress_eq C R members passphrase hnone] at h
      obtain ⟨s, hs, h⟩ := bind_ok_iff.mp h
      obtain ⟨decoyBlob, hopen, h⟩ := bind_ok_iff.mp h
      exact ⟨s, decoyBlob, hs, hopen, (Except.ok.inj h).symm⟩
  · rintro ⟨s, decoyBlob, hs, hopen, rfl⟩
    rw [unlockDuress_eq C R members passphrase (ciphertext_of_sealedUnder R hs)]
    exact bind_ok_iff.mpr ⟨s, hs, bind_ok_iff.mpr ⟨decoyBlob, hopen, rfl⟩⟩

theorem openReal_ok_iff (members : Members) (passphrase : Passphrase) (s : Sealed) (u : Unlocked) :
    openReal C R members passphrase s = .ok u ↔
      (∃ blob, s.decrypt C = .ok blob ∧ u = .real members blob) ∨
      (s.decrypt C = .error .invalidTag ∧ unlockDuress C R members passphrase = .ok u) := by
  unfold openReal
  split
  · rename_i blob hopen
    simp only [hopen, Except.ok.injEq, exists_eq_left', reduceCtorEq, false_and, or_false]
    exact eq_comm
  · rename_i hopen
    simp only [hopen, reduceCtorEq, false_and, exists_false, false_or, true_and]
  · rename_i e htag hopen
    simp only [hopen, reduceCtorEq, false_and, exists_false, false_or, Except.error.injEq, false_iff,
      not_and]
    intro he
    exact absurd he htag

/-- What the passphrase opens of a document, in either of the two ways. -/
theorem unlock_ok_iff (members : Members) (passphrase : Passphrase) (u : Unlocked) :
    unlock C R (.obj members) passphrase = .ok u ↔
      (∃ blob, OpensReal C R members passphrase blob ∧ u = .real members blob) ∨
      ∃ blob, OpensDuress C R members passphrase blob ∧ u = .duress members blob := by
  by_cases hversion : SupportedVersion members
  · rw [unlock_eq C R members passphrase hversion]
    constructor
    · intro h
      obtain ⟨s, hs, h⟩ := bind_ok_iff.mp h
      rcases (openReal_ok_iff C R members passphrase s u).mp h with
        ⟨blob, hopen, hu⟩ | ⟨htag, hduress⟩
      · exact Or.inl ⟨blob, ⟨hversion, s, hs, hopen⟩, hu⟩
      · obtain ⟨s', blob, hs', hopen, hu⟩ := (unlockDuress_ok_iff C R members passphrase u).mp hduress
        exact Or.inr ⟨blob, ⟨hversion, ⟨s, hs, htag⟩, s', hs', hopen⟩, hu⟩
    · intro h
      apply bind_ok_iff.mpr
      rcases h with ⟨blob, ⟨_, s, hs, hopen⟩, hu⟩ | ⟨blob, ⟨_, ⟨s, hs, htag⟩, s', hs', hopen⟩, hu⟩
      · exact ⟨s, hs, (openReal_ok_iff C R members passphrase s u).mpr (Or.inl ⟨blob, hopen, hu⟩)⟩
      · exact ⟨s, hs, (openReal_ok_iff C R members passphrase s u).mpr (Or.inr ⟨htag,
          (unlockDuress_ok_iff C R members passphrase u).mpr ⟨s', blob, hs', hopen, hu⟩⟩)⟩
  · have hrefused : unlock C R (.obj members) passphrase =
        .error (unsupportedVersion R members) := by
      simp only [unlock, Value.members?]
      exact if_pos hversion
    rw [hrefused]
    constructor
    · intro h
      cases h
    · rintro (⟨_, ⟨hsupported, _⟩, _⟩ | ⟨_, ⟨hsupported, _⟩, _⟩) <;> exact absurd hsupported hversion

end Opening

section Reading

/-- The fields of an identity that are not keys. -/
structure Labels where
  deviceId : Value
  callsign : Value
  rank : Rank

def relabel (x : LoadedIdentity) (labels : Labels) : LoadedIdentity :=
  { x with deviceId := labels.deviceId, callsign := labels.callsign, rank := labels.rank }

/-- As load_identity() reads them, the device id from the field of this name. -/
def readLabels (members : Members) (idName : String) : Except PyError Labels := do
  let deviceId ← field members idName
  let callsign ← field members "callsign"
  let rank ← rankOf (← field members "rank")
  return ⟨deviceId, callsign, rank⟩

/-- The public keys that the document stores are those of the identity. -/
def StoredKeys (members : Members) (x : LoadedIdentity) : Prop :=
  storedKey members "verify_key" = .ok x.signingKeypair.verifyKey.raw.toList ∧
    storedKey members "encrypt_pub" = .ok x.encryptKeypair.publicKey.raw.toList ∧
    storedKey members "kem_pub" = .ok x.kemKeypair.publicKey.raw.toList

variable {R : Runtime} {x : LoadedIdentity}

theorem deserialize_saved (hkeys : KeysMatch R x) :
    deserializePrivateKeys R (serializePrivateKeys x) =
      .ok (x.signingKeypair, x.encryptKeypair, x.kemKeypair) := by
  rw [deserialize_serialize, ← hkeys.verifyKey, ← hkeys.encryptPub, ← hkeys.kemPub]

theorem decoyIdentity_eq (hkeys : KeysMatch R x) (members : Members) :
    decoyIdentity R members (serializePrivateKeys x) =
      readLabels members "duress_device_id" >>= fun labels => .ok (relabel x labels) := by
  simp only [decoyIdentity, deserialize_saved hkeys, readLabels, bind_assoc, pure_bind]
  rfl

theorem realIdentity_eq (hkeys : KeysMatch R x) (members : Members) (h : StoredKeys members x) :
    realIdentity R members (serializePrivateKeys x) =
      readLabels members "device_id" >>= fun labels => .ok (relabel x labels) := by
  obtain ⟨hverify, hencrypt, hkem⟩ := h
  simp only [realIdentity, deserialize_saved hkeys, hverify, hencrypt, hkem, ok_bind, ne_eq,
    not_true_eq_false, if_false, readLabels, bind_assoc, pure_bind]
  rfl

/-- The consistency checks compare all three public keys. -/
theorem storedKeys_of_realIdentity (hkeys : KeysMatch R x) (members : Members) (y : LoadedIdentity)
    (h : realIdentity R members (serializePrivateKeys x) = .ok y) : StoredKeys members x := by
  rw [realIdentity, deserialize_saved hkeys] at h
  obtain ⟨pairs, hpairs, h⟩ := bind_ok_iff.mp h
  cases hpairs
  obtain ⟨storedVerify, hverify, h⟩ := bind_ok_iff.mp h
  obtain ⟨storedEncrypt, hencrypt, h⟩ := bind_ok_iff.mp h
  obtain ⟨storedKemPub, hkem, h⟩ := bind_ok_iff.mp h
  by_cases hv : x.signingKeypair.verifyKey.raw.toList = storedVerify
  · by_cases he : x.encryptKeypair.publicKey.raw.toList = storedEncrypt
    · by_cases hk : x.kemKeypair.publicKey.raw.toList = storedKemPub
      · rw [StoredKeys, hv, he, hk]
        exact ⟨hverify, hencrypt, hkem⟩
      · simp only [hv, he, ne_eq, not_true_eq_false, if_false, if_pos hk] at h
        cases h
    · simp only [hv, ne_eq, not_true_eq_false, if_false, if_pos he] at h
      cases h
  · simp only [ne_eq, if_pos hv] at h
    cases h

end Reading

section Tampering

variable (C : Suite) (R : Runtime)

/-- What a load should do with an edited file. -/
def Detected (result : Except PyError LoadedIdentity) (x : LoadedIdentity) : Prop :=
  (∃ e, result = .error e) ∨ result = .ok x

/-- Without the passphrase nothing can be sealed: what it opens of the edited document are the
sealed private keys of the saved one. -/
def Unforged (passphrase : Passphrase) (members members' : Members) : Prop :=
  ∀ names ∈ [realNames, duressNames], ∀ s blob, sealedUnder R names members' passphrase = .ok s →
    s.decrypt C = .ok blob → sealedUnder R realNames members passphrase = .ok s

/-- The labels under these names, if they can be read, are those of the identity. -/
def LabelsKept (members : Members) (idName : String) (x : LoadedIdentity) : Prop :=
  ∀ labels, readLabels members idName = .ok labels →
    labels = ⟨x.deviceId, x.callsign, x.rank⟩

/-- The labels that a load would take are those of the identity. -/
def Kept (passphrase : Passphrase) (members : Members) (x : LoadedIdentity) : Prop :=
  ((∃ blob, OpensReal C R members passphrase blob) → StoredKeys members x →
    LabelsKept members "device_id" x) ∧
  ((∃ blob, OpensDuress C R members passphrase blob) → LabelsKept members "duress_device_id" x)

variable {C R} {x : LoadedIdentity} {passphrase : Passphrase} {members members' : Members}

theorem detected_ok (y : LoadedIdentity) : Detected (.ok y) x ↔ y = x := by
  simp only [Detected, reduceCtorEq, exists_false, false_or, Except.ok.injEq]

theorem detected_error (e : PyError) : Detected (.error e) x := Or.inl ⟨e, rfl⟩

/-- Reading the labels into the identity returns it when they are its own. -/
theorem detected_relabel (members : Members) (idName : String) :
    Detected (readLabels members idName >>= fun labels => .ok (relabel x labels)) x ↔
      LabelsKept members idName x := by
  unfold LabelsKept
  cases readLabels members idName with
  | error e =>
    constructor
    · intro _ labels h
      cases h
    · intro _
      exact detected_error e
  | ok labels =>
    rw [ok_bind, detected_ok]
    constructor
    · intro h labels' heq
      cases heq
      obtain ⟨deviceId, callsign, rank⟩ := labels
      rw [← h]
      rfl
    · intro h
      rw [h labels rfl]
      rfl

theorem detected_real (hkeys : KeysMatch R x) (members : Members) :
    Detected (realIdentity R members (serializePrivateKeys x)) x ↔
      (StoredKeys members x → LabelsKept members "device_id" x) := by
  by_cases hstored : StoredKeys members x
  · rw [realIdentity_eq hkeys members hstored, detected_relabel]
    exact ⟨fun h _ => h, fun h => h hstored⟩
  · refine ⟨fun _ h => absurd h hstored, fun _ => ?_⟩
    cases h : realIdentity R members (serializePrivateKeys x) with
    | error e => exact detected_error e
    | ok y => exact absurd (storedKeys_of_realIdentity hkeys members y h) hstored

theorem save_members {draws : SaveDraws} {duressPassphrase : Option Passphrase}
    (hsave : saveIdentity C R draws x passphrase duressPassphrase = .ok (.obj members)) :
    ∃ (key : Fixed 32) (extra : Members),
      deriveWrapKey R (normalizePassphrase passphrase) draws.salt.toList = .ok key.toList ∧
      members = savedMembers C R draws x key extra := by
  obtain ⟨wrapKey, hwrap, hsave⟩ := bind_ok_iff.mp hsave
  obtain ⟨key, hkey, hsave⟩ := bind_ok_iff.mp hsave
  have hwrapKey : wrapKey = key.toList := by
    unfold chachaKey at hkey
    split at hkey
    · rw [← Except.ok.inj hkey]
      rfl
    · cases hkey
  rw [hwrapKey] at hwrap
  cases duressPassphrase with
  | none =>
    cases hsave
    exact ⟨key, [], hwrap, rfl⟩
  | some d =>
    obtain ⟨decoy, _, hsave⟩ := bind_ok_iff.mp hsave
    obtain ⟨dWrap, _, hsave⟩ := bind_ok_iff.mp hsave
    obtain ⟨dKey, _, hsave⟩ := bind_ok_iff.mp hsave
    cases hsave
    exact ⟨key, _, hwrap, rfl⟩

/-- The sealed string of a saved document. -/
theorem sealedUnder_saved (draws : SaveDraws) (key : Fixed 32) (extra : Members)
    (hkey : deriveWrapKey R (normalizePassphrase passphrase) draws.salt.toList = .ok key.toList) :
    sealedUnder R realNames (savedMembers C R draws x key extra) passphrase =
      .ok ⟨key, draws.nonce.toList, encryptKeys C key draws.nonce (serializePrivateKeys x)⟩ := by
  have hsalt := b64Field_eq (savedMembers C R draws x key extra) "salt" draws.salt.toList rfl
  have hnonce := b64Field_eq (savedMembers C R draws x key extra) "nonce" draws.nonce.toList rfl
  have hct := b64Field_eq (savedMembers C R draws x key extra) "encrypted_private_keys" _ rfl
  have hkdf := field_eq (savedMembers C R draws x key extra) "kdf" (kdfName R) rfl
  have hparams := field_eq (savedMembers C R draws x key extra) "kdf_params" (kdfParams R) rfl
  simp only [sealedUnder, realNames, hsalt, hnonce, hct, hkdf, hparams, ok_bind,
    deriveWrapKeyFromParams_own, hkey, chachaKey_toList]
  rfl

/-- So all that can be opened of an edited document are the saved private keys. -/
theorem opened_saved (haead : C.AeadCorrect) {draws : SaveDraws} {key : Fixed 32} {extra : Members}
    (hkey : deriveWrapKey R (normalizePassphrase passphrase) draws.salt.toList = .ok key.toList)
    (hunforged : Unforged C R passphrase (savedMembers C R draws x key extra) members')
    {names : SealNames} (hnames : names ∈ [realNames, duressNames]) {s : Sealed} {blob : Bytes}
    (hs : sealedUnder R names members' passphrase = .ok s) (hopen : s.decrypt C = .ok blob) :
    blob = serializePrivateKeys x := by
  have hsaved := hunforged names hnames s blob hs hopen
  cases hsaved.symm.trans (sealedUnder_saved draws key extra hkey)
  have hnonce : draws.nonce.toList.length = 12 := draws.nonce.toList_length
  simp only [Sealed.decrypt, decryptKeys, if_pos hnonce, encryptKeys,
    haead key draws.nonce.toList [] (serializePrivateKeys x)] at hopen
  exact (Except.ok.inj hopen).symm

theorem secure_of_derives (hderives : ∀ salt : Fixed 32, ∃ key : Fixed 32,
    deriveWrapKey R (normalizePassphrase passphrase) salt.toList = .ok key.toList) :
    Secure C R [passphrase] where
  derives p hp := by
    rw [List.mem_singleton.mp hp]
    exact hderives
  distinct p hp q hq _ _ _ _ := by
    rw [List.mem_singleton.mp hp, List.mem_singleton.mp hq]
  exclusive p hp q hq salt key key' hkey hkey' hne := by
    cases List.mem_singleton.mp hp
    cases List.mem_singleton.mp hq
    exact absurd (Subtype.ext (Except.ok.inj (hkey'.symm.trans hkey))) hne

/-- The document is overwritten, and the identity that was read is returned. -/
theorem load_duress (hderives : ∀ salt : Fixed 32, ∃ key : Fixed 32,
      deriveWrapKey R (normalizePassphrase passphrase) salt.toList = .ok key.toList)
    (draws : SaveDraws) {doc : Value} {decoyBlob : Bytes}
    (h : unlock C R doc passphrase = .ok (.duress members decoyBlob)) :
    (loadIdentity C R draws doc passphrase).1 = decoyIdentity R members decoyBlob := by
  simp only [loadIdentity, h]
  cases decoyIdentity R members decoyBlob with
  | error e => rfl
  | ok decoy =>
    obtain ⟨key, _, hsaved⟩ := save_plain (C := C) (secure_of_derives hderives) draws decoy
      (List.mem_singleton_self passphrase)
    simp only [hsaved]

theorem unlock_real {blob : Bytes} (h : OpensReal C R members passphrase blob) :
    unlock C R (.obj members) passphrase = .ok (.real members blob) :=
  (unlock_ok_iff C R members passphrase _).mpr (Or.inl ⟨blob, h, rfl⟩)

theorem unlock_duress {blob : Bytes} (h : OpensDuress C R members passphrase blob) :
    unlock C R (.obj members) passphrase = .ok (.duress members blob) :=
  (unlock_ok_iff C R members passphrase _).mpr (Or.inr ⟨blob, h, rfl⟩)

/-- A document is opened in one of the two ways only. -/
theorem kept_real {blob : Bytes} (h : OpensReal C R members passphrase blob) :
    Kept C R passphrase members x ↔ (StoredKeys members x → LabelsKept members "device_id" x) := by
  constructor
  · intro hkept
    exact hkept.1 ⟨blob, h⟩
  · intro hlabels
    refine ⟨fun _ => hlabels, ?_⟩
    rintro ⟨blob', h'⟩
    cases (unlock_real h).symm.trans (unlock_duress h')

theorem kept_duress {blob : Bytes} (h : OpensDuress C R members passphrase blob) :
    Kept C R passphrase members x ↔ LabelsKept members "duress_device_id" x := by
  constructor
  · intro hkept
    exact hkept.2 ⟨blob, h⟩
  · intro hlabels
    refine ⟨?_, fun _ => hlabels⟩
    rintro ⟨blob', h'⟩
    cases (unlock_duress h).symm.trans (unlock_real h')

theorem kept_unopened {e : PyError} (h : unlock C R (.obj members) passphrase = .error e) :
    Kept C R passphrase members x := by
  constructor
  · rintro ⟨blob, hopens⟩
    cases h.symm.trans (unlock_real hopens)
  · rintro ⟨blob, hopens⟩
    cases h.symm.trans (unlock_duress hopens)

theorem detected_obj (hkeys : KeysMatch R x)
    (hderives : ∀ salt : Fixed 32, ∃ key : Fixed 32,
      deriveWrapKey R (normalizePassphrase passphrase) salt.toList = .ok key.toList)
    (draws : SaveDraws) (hblob : ∀ names ∈ [realNames, duressNames], ∀ s blob,
      sealedUnder R names members passphrase = .ok s → s.decrypt C = .ok blob →
        blob = serializePrivateKeys x) :
    Detected (loadIdentity C R draws (.obj members) passphrase).1 x ↔
      Kept C R passphrase members x := by
  cases hunlock : unlock C R (.obj members) passphrase with
  | error e =>
    have hraised : (loadIdentity C R draws (.obj members) passphrase).1 = .error e := by
      simp only [loadIdentity, hunlock]
    rw [hraised]
    exact ⟨fun _ => kept_unopened hunlock, fun _ => detected_error e⟩
  | ok u =>
    rcases (unlock_ok_iff C R members passphrase u).mp hunlock with
      ⟨blob, hopens, rfl⟩ | ⟨blob, hopens, rfl⟩
    · have hload : (loadIdentity C R draws (.obj members) passphrase).1 =
          realIdentity R members blob := by
        simp only [loadIdentity, hunlock]
      have hsaved : blob = serializePrivateKeys x := by
        obtain ⟨_, s, hs, hopen⟩ := hopens
        exact hblob realNames (by simp) s blob hs hopen
      rw [hload, kept_real hopens, hsaved]
      exact detected_real hkeys members
    · have hsaved : blob = serializePrivateKeys x := by
        obtain ⟨_, _, s, hs, hopen⟩ := hopens
        exact hblob duressNames (by simp) s blob hs hopen
      rw [load_duress hderives draws hunlock, kept_duress hopens, hsaved, decoyIdentity_eq hkeys]
      exact detected_relabel members "duress_device_id"

/-- Loading an edited file with its passphrase raises or returns the saved identity exactly
when the labels that would be taken, if they can be read, are the saved ones. -/
theorem tampering_detected_iff (C : Suite) (R : Runtime) (haead : C.AeadCorrect)
    (identity : DeviceIdentity) (hkeys : KeysMatch R (loaded identity)) (passphrase : Passphrase)
    (hderives : ∀ salt : Fixed 32, ∃ key : Fixed 32,
      deriveWrapKey R (normalizePassphrase passphrase) salt.toList = .ok key.toList)
    (duressPassphrase : Option Passphrase) (draws draws' : SaveDraws) (members : Members)
    (hsave : saveIdentity C R draws (loaded identity) passphrase duressPassphrase =
      .ok (.obj members))
    (doc : Value) (hunforged : ∀ members', doc = .obj members' →
      Unforged C R passphrase members members') :
    Detected (loadIdentity C R draws' doc passphrase).1 (loaded identity) ↔
      ∀ members', doc = .obj members' → Kept C R passphrase members' (loaded identity) := by
  obtain ⟨key, extra, hkey, rfl⟩ := save_members hsave
  cases hdoc : doc.members? with
  | none =>
    have hraised : (loadIdentity C R draws' doc passphrase).1 = .error .attributeError := by
      simp only [loadIdentity, unlock, hdoc]
    rw [hraised]
    refine ⟨fun _ members' hobj => ?_, fun _ => detected_error _⟩
    rw [hobj] at hdoc
    cases hdoc
  | some members' =>
    have hobj : doc = .obj members' := by
      cases doc <;> first | cases hdoc; rfl | cases hdoc
    subst hobj
    have hdetected := detected_obj hkeys hderives draws' fun names hnames s blob hs hopen =>
      opened_saved haead hkey (hunforged members' rfl) hnames hs hopen
    rw [hdetected]
    constructor
    · intro h m hm
      rw [← Value.obj.inj hm]
      exact h
    · intro h
      exact h members' rfl

/-- A file whose labels alone are rewritten is opened as before, and gives back the new ones. -/
theorem load_relabelled (haead : C.AeadCorrect) (hkeys : KeysMatch R x) (labels : Labels)
    (draws draws' : SaveDraws) (key : Fixed 32)
    (hkey : deriveWrapKey R (normalizePassphrase passphrase) draws.salt.toList = .ok key.toList)
    (extra : Members) :
    (loadIdentity C R draws'
      (.obj (savedMembers C R draws (relabel x labels) key extra)) passphrase).1 =
      .ok (relabel x labels) := by
  have hnonce : draws.nonce.toList.length = 12 := draws.nonce.toList_length
  have hopen : decryptKeys C key draws.nonce.toList (encryptKeys C key draws.nonce
      (serializePrivateKeys (relabel x labels))) =
      .ok (serializePrivateKeys (relabel x labels)) := by
    simp only [decryptKeys, if_pos hnonce, encryptKeys, haead key draws.nonce.toList []]
  have hunlock := (unlock_saved C R draws (relabel x labels) key key extra passphrase
    hkey).1 _ hopen
  have hkeys' : KeysMatch R (relabel x labels) :=
    ⟨hkeys.verifyKey, hkeys.encryptPub, hkeys.kemPub⟩
  simp only [loadIdentity, hunlock]
  exact realIdentity_saved C R draws (relabel x labels) key extra hkeys'

theorem unforged_relabelled (labels : Labels) (draws : SaveDraws) (key : Fixed 32)
    (hkey : deriveWrapKey R (normalizePassphrase passphrase) draws.salt.toList = .ok key.toList) :
    Unforged C R passphrase (savedMembers C R draws x key [])
      (savedMembers C R draws (relabel x labels) key []) := by
  have hsaved : ∀ y : LoadedIdentity, sealedUnder R realNames (savedMembers C R draws y key [])
      passphrase = .ok ⟨key, draws.nonce.toList, encryptKeys C key draws.nonce
        (serializePrivateKeys y)⟩ := fun y => sealedUnder_saved draws key [] hkey
  intro names hnames s blob hs _
  simp only [List.mem_cons, List.not_mem_nil, or_false] at hnames
  rcases hnames with rfl | rfl
  · rw [hsaved] at hs ⊢
    exact hs
  · have hthere := ciphertext_of_sealedUnder R hs
    cases hthere

end Tampering

section Stub

def alphaDraws : SaveDraws := stubDraws "decoy" (List.Vector.replicate 32 7)

/-- A saved file, and the same with the highest rank written into it. -/
def alphaMembers : Members :=
  savedMembers stub stubRuntime alphaDraws (loaded Honest.alpha) (stubWrapKey (encodeUtf8 "alpha")) []

def promotion : Labels := ⟨.str "alpha", .str "A", .command⟩

def promotedMembers : Members :=
  savedMembers stub stubRuntime alphaDraws (relabel (loaded Honest.alpha) promotion)
    (stubWrapKey (encodeUtf8 "alpha")) []

theorem derives_stub (passphrase : Passphrase) (salt : Fixed 32) : ∃ key : Fixed 32,
    deriveWrapKey stubRuntime (normalizePassphrase passphrase) salt.toList = .ok key.toList :=
  ⟨stubWrapKey (normalizePassphrase passphrase), rfl⟩

theorem save_alpha : saveIdentity stub stubRuntime alphaDraws (loaded Honest.alpha) (.text "alpha")
    none = .ok (.obj alphaMembers) := by
  simp only [saveIdentity]
  rfl

theorem unforged_promoted : ∀ members', Value.obj promotedMembers = .obj members' →
    Unforged stub stubRuntime (.text "alpha") alphaMembers members' := by
  intro members' hobj
  rw [← Value.obj.inj hobj]
  exact unforged_relabelled promotion alphaDraws _ rfl

theorem tampering_detected_iff_promoted :
    Detected (loadIdentity stub stubRuntime alphaDraws (.obj promotedMembers) (.text "alpha")).1
        (loaded Honest.alpha) ↔
      ∀ members', Value.obj promotedMembers = .obj members' →
        Kept stub stubRuntime (.text "alpha") members' (loaded Honest.alpha) :=
  tampering_detected_iff stub stubRuntime stub_aeadCorrect Honest.alpha keysMatch_alpha
    (.text "alpha") (derives_stub _) none alphaDraws alphaDraws alphaMembers save_alpha
    (.obj promotedMembers) unforged_promoted

/-- The edited rank is taken. -/
theorem promotion_undetected : ¬ ∀ (C : Suite) (R : Runtime) (identity : DeviceIdentity)
    (passphrase : Passphrase) (duressPassphrase : Option Passphrase) (draws draws' : SaveDraws)
    (members : Members) (doc : Value), C.AeadCorrect → KeysMatch R (loaded identity) →
    (∀ salt : Fixed 32, ∃ key : Fixed 32,
      deriveWrapKey R (normalizePassphrase passphrase) salt.toList = .ok key.toList) →
    saveIdentity C R draws (loaded identity) passphrase duressPassphrase = .ok (.obj members) →
    (∀ members', doc = .obj members' → Unforged C R passphrase members members') →
    Detected (loadIdentity C R draws' doc passphrase).1 (loaded identity) := by
  intro h
  have hdetected := h stub stubRuntime Honest.alpha (.text "alpha") none alphaDraws alphaDraws
    alphaMembers (.obj promotedMembers) stub_aeadCorrect keysMatch_alpha (derives_stub _) save_alpha
    unforged_promoted
  have hload := @load_relabelled stub stubRuntime _ (.text "alpha") stub_aeadCorrect
    keysMatch_alpha promotion alphaDraws alphaDraws (stubWrapKey (encodeUtf8 "alpha")) rfl []
  rw [promotedMembers, hload, detected_ok] at hdetected
  have hrank := congrArg LoadedIdentity.rank hdetected
  cases hrank

end Stub

end Mesim.FileTampering
