import Mesim.Honest
import Mesim.IdentityFile
import Mesim.Runs

/-!
Runs of load_identity() on one identity file.
A file saved with a duress passphrase is in one of two phases. Until it is first
loaded with that passphrase it stays as it was saved; that load writes the decoy's
own file, which no later load changes.
-/
namespace Mesim.Duress

open Octets TextCodec Crypto Identity Base64 Json IdentityFile

section Fields

theorem ascii_b64encode (b : Bytes) : IsAscii (b64encode b) := by
  have hall : ('=' :: alphabet).all (fun c => c.toNat < 128) = true := by decide
  intro c hc
  rw [b64encode, String.toList_ofList] at hc
  exact of_decide_eq_true (List.all_eq_true.mp hall c (mem_encodeChars b c hc))

theorem b64decode_encoded (b : Bytes) : b64decode (encoded b) = .ok b := by
  rw [encoded, b64decode, if_pos (ascii_b64encode b), decodeChars_b64encode]

theorem rankOf_rankNumber (r : Rank) : rankOf (.int (rankNumber r)) = .ok r := by
  cases r <;> rfl

variable (R : Runtime)

theorem deriveWrapKeyFromParams_own (passphrase salt : Bytes) :
    deriveWrapKeyFromParams R passphrase salt (kdfName R) (kdfParams R) =
      deriveWrapKey R passphrase salt := by
  cases havailable : R.argon2Available with
  | true =>
    simp only [deriveWrapKeyFromParams, deriveWrapKey, kdfName, kdfParams, havailable, if_true,
      Value.string?]
    rfl
  | false =>
    simp only [deriveWrapKeyFromParams, deriveWrapKey, kdfName, kdfParams, havailable,
      Value.string?]
    rfl

variable (C : Suite)

theorem chachaKey_toList (key : Fixed 32) : chachaKey key.toList = .ok key := by
  have h : key.toList.length = 32 := key.toList_length
  simp only [chachaKey, h, dite_true]
  rfl

theorem deserialize_serialize (x : LoadedIdentity) :
    deserializePrivateKeys R (serializePrivateKeys x) =
      .ok (⟨x.signingKeypair.signingKey, R.ed25519Public x.signingKeypair.signingKey⟩,
        ⟨x.encryptKeypair.privateKey, R.x25519Public x.encryptKeypair.privateKey⟩,
        ⟨x.kemKeypair.secretKey, embeddedKemPub x.kemKeypair.secretKey⟩) := by
  have hsign := x.signingKeypair.signingKey.raw.toList_length
  have hencrypt := x.encryptKeypair.privateKey.raw.toList_length
  have hkem := x.kemKeypair.secretKey.raw.toList_length
  have hlen : (serializePrivateKeys x).length = 32 + 32 + mlkemSkLen := by
    simp only [serializePrivateKeys, List.length_append, hsign, hencrypt, hkem]
  have hfirst : keyField (serializePrivateKeys x) 0 32 (by rw [hlen]; decide) =
      x.signingKeypair.signingKey.raw := by
    apply Subtype.ext
    simp only [keyField, serializePrivateKeys, List.append_assoc]
    exact slice_append_left _ _ _ hsign
  have hsecond : keyField (serializePrivateKeys x) 32 32 (by rw [hlen]; decide) =
      x.encryptKeypair.privateKey.raw := by
    apply Subtype.ext
    simp only [keyField, serializePrivateKeys, List.append_assoc]
    exact slice_piece _ _ _ _ _ hsign hencrypt
  have hthird : keyField (serializePrivateKeys x) 64 mlkemSkLen (by rw [hlen]) =
      x.kemKeypair.secretKey.raw := by
    apply Subtype.ext
    have hpre : (x.signingKeypair.signingKey.raw.toList ++
        x.encryptKeypair.privateKey.raw.toList).length = 64 := by
      rw [List.length_append, hsign, hencrypt]
    have hpiece := slice_piece _ x.kemKeypair.secretKey.raw.toList [] 64 mlkemSkLen hpre hkem
    rwa [List.append_nil] at hpiece
  simp only [deserializePrivateKeys, hlen, dite_true, hfirst, hsecond, hthird]

end Fields

section Sealing

variable (C : Suite) (R : Runtime)

/-- What the passphrases of a run are assumed to do: each gives a key, different ones give
different keys, and what is encrypted under one key decrypts under no other. -/
structure Secure (passphrases : List Passphrase) : Prop where
  derives : ∀ p ∈ passphrases, ∀ salt : Fixed 32, ∃ key : Fixed 32,
    deriveWrapKey R (normalizePassphrase p) salt.toList = .ok key.toList
  distinct : ∀ p ∈ passphrases, ∀ q ∈ passphrases, ∀ (salt key : Fixed 32),
    deriveWrapKey R (normalizePassphrase p) salt.toList = .ok key.toList →
    deriveWrapKey R (normalizePassphrase q) salt.toList = .ok key.toList →
      normalizePassphrase p = normalizePassphrase q
  exclusive : ∀ p ∈ passphrases, ∀ q ∈ passphrases, ∀ (salt key key' : Fixed 32),
    deriveWrapKey R (normalizePassphrase p) salt.toList = .ok key.toList →
    deriveWrapKey R (normalizePassphrase q) salt.toList = .ok key'.toList → key' ≠ key →
      ∀ (nonce : Nonce) (blob : Bytes),
        C.chachaDecrypt key' nonce.toList [] (C.chachaEncrypt key nonce.toList [] blob) = none

variable {C R}

theorem Secure.mono {passphrases fewer : List Passphrase} (h : Secure C R passphrases)
    (hsub : fewer ⊆ passphrases) : Secure C R fewer where
  derives p hp := h.derives p (hsub hp)
  distinct p hp q hq := h.distinct p (hsub hp) q (hsub hq)
  exclusive p hp q hq := h.exclusive p (hsub hp) q (hsub hq)

theorem decryptKeys_encryptKeys {passphrases : List Passphrase} (h : Secure C R passphrases)
    (haead : C.AeadCorrect) {p q : Passphrase} (hp : p ∈ passphrases) (hq : q ∈ passphrases)
    (salt key key' : Fixed 32)
    (hkey : deriveWrapKey R (normalizePassphrase p) salt.toList = .ok key.toList)
    (hkey' : deriveWrapKey R (normalizePassphrase q) salt.toList = .ok key'.toList)
    (nonce : Nonce) (blob : Bytes) :
    decryptKeys C key' nonce.toList (encryptKeys C key nonce blob) =
      if normalizePassphrase q = normalizePassphrase p then .ok blob else .error .invalidTag := by
  have hnonce : nonce.toList.length = 12 := nonce.toList_length
  unfold decryptKeys encryptKeys
  rw [if_pos hnonce]
  by_cases hsame : normalizePassphrase q = normalizePassphrase p
  · rw [hsame] at hkey'
    have heq : key' = key := Subtype.ext (Except.ok.inj (hkey'.symm.trans hkey))
    rw [if_pos hsame, heq, haead key nonce.toList [] blob]
  · have hne : key' ≠ key := by
      rintro rfl
      exact hsame (h.distinct q hq p hp salt key' hkey' hkey)
    rw [if_neg hsame, h.exclusive p hp q hq salt key key' hkey hkey' hne nonce blob]

end Sealing

section Documents

variable (C : Suite) (R : Runtime)

/-- The public keys are those of the private keys. -/
structure KeysMatch (x : LoadedIdentity) : Prop where
  verifyKey : x.signingKeypair.verifyKey = R.ed25519Public x.signingKeypair.signingKey
  encryptPub : x.encryptKeypair.publicKey = R.x25519Public x.encryptKeypair.privateKey
  kemPub : x.kemKeypair.publicKey = embeddedKemPub x.kemKeypair.secretKey

/-- The members of a saved file, the duress members being `extra`. -/
def savedMembers (draws : SaveDraws) (x : LoadedIdentity) (key : Fixed 32) (extra : Members) :
    Members :=
  identityMembers R x draws.salt draws.nonce
    (encryptKeys C key draws.nonce (serializePrivateKeys x)) ++ extra

theorem b64Field_eq (members : Members) (name : String) (b : Bytes)
    (h : lookup name members = some (encoded b)) : b64Field members name = .ok b := by
  simp only [b64Field, field, subscript, h, bind, Except.bind, b64decode_encoded]

theorem field_eq (members : Members) (name : String) (v : Value) (h : lookup name members = some v) :
    field members name = .ok v := by
  simp only [field, subscript, h]

/-- Which blob a passphrase opens, by what the first ciphertext decrypts to. -/
theorem unlock_saved (draws : SaveDraws) (x : LoadedIdentity) (key key' : Fixed 32) (extra : Members)
    (q : Passphrase)
    (hkey' : deriveWrapKey R (normalizePassphrase q) draws.salt.toList = .ok key'.toList) :
    (∀ privateBlob, decryptKeys C key' draws.nonce.toList
        (encryptKeys C key draws.nonce (serializePrivateKeys x)) = .ok privateBlob →
      unlock C R (.obj (savedMembers C R draws x key extra)) q =
        .ok (.real (savedMembers C R draws x key extra) privateBlob)) ∧
    (decryptKeys C key' draws.nonce.toList
        (encryptKeys C key draws.nonce (serializePrivateKeys x)) = .error .invalidTag →
      unlock C R (.obj (savedMembers C R draws x key extra)) q =
        unlockDuress C R (savedMembers C R draws x key extra) q) := by
  have hversion : (lookup "version" (savedMembers C R draws x key extra)).bind Value.number? =
      some 1 := rfl
  have hsalt := b64Field_eq (savedMembers C R draws x key extra) "salt" draws.salt.toList rfl
  have hnonce := b64Field_eq (savedMembers C R draws x key extra) "nonce" draws.nonce.toList rfl
  have hct := b64Field_eq (savedMembers C R draws x key extra) "encrypted_private_keys" _ rfl
  have hkdf := field_eq (savedMembers C R draws x key extra) "kdf" (kdfName R) rfl
  have hparams := field_eq (savedMembers C R draws x key extra) "kdf_params" (kdfParams R) rfl
  refine ⟨fun privateBlob hopen => ?_, fun hopen => ?_⟩
  all_goals simp only [unlock, Value.members?, hversion, ne_eq, not_true_eq_false, if_false, hsalt,
    hnonce, hct, hkdf, hparams, bind, Except.bind, deriveWrapKeyFromParams_own, hkey', chachaKey_toList,
    hopen]

/-- The real identity is read back when its public keys match. -/
theorem realIdentity_saved (draws : SaveDraws) (x : LoadedIdentity) (key : Fixed 32) (extra : Members)
    (hkeys : KeysMatch R x) :
    realIdentity R (savedMembers C R draws x key extra) (serializePrivateKeys x) = .ok x := by
  let members := savedMembers C R draws x key extra
  have hpublic := field_eq members "public_keys" (publicKeys x) rfl
  have hstored : ∀ (name : String) (b : Bytes), subscript (publicKeys x) name = .ok (encoded b) →
      storedKey members name = .ok b := by
    intro name b hname
    simp only [storedKey, hpublic, bind, Except.bind, hname, b64decode_encoded]
  have hverify := hstored "verify_key" x.signingKeypair.verifyKey.raw.toList rfl
  have hencrypt := hstored "encrypt_pub" x.encryptKeypair.publicKey.raw.toList rfl
  have hkem := hstored "kem_pub" x.kemKeypair.publicKey.raw.toList rfl
  have hdevice := field_eq members "device_id" x.deviceId rfl
  have hcallsign := field_eq members "callsign" x.callsign rfl
  have hrank := field_eq members "rank" (.int (rankNumber x.rank)) rfl
  show realIdentity R members (serializePrivateKeys x) = .ok x
  simp only [realIdentity, deserialize_serialize, bind, Except.bind, hverify, hencrypt, hkem,
    hkeys.verifyKey, hkeys.encryptPub, hkeys.kemPub, ne_eq, not_true_eq_false, if_false, hdevice,
    hcallsign, hrank, rankOf_rankNumber, pure, Except.pure]
  rw [← hkeys.verifyKey, ← hkeys.encryptPub, ← hkeys.kemPub]

end Documents

section Loads

variable {C : Suite} {R : Runtime} {passphrases : List Passphrase}

theorem save_plain (hsecure : Secure C R passphrases) (draws : SaveDraws) (x : LoadedIdentity)
    {p : Passphrase} (hp : p ∈ passphrases) : ∃ key : Fixed 32,
    deriveWrapKey R (normalizePassphrase p) draws.salt.toList = .ok key.toList ∧
    saveIdentity C R draws x p none = .ok (.obj (savedMembers C R draws x key [])) := by
  obtain ⟨key, hkey⟩ := hsecure.derives p hp draws.salt
  refine ⟨key, hkey, ?_⟩
  simp only [saveIdentity, hkey, bind, Except.bind, chachaKey_toList]
  rfl

/-- A file without duress members gives its identity to its passphrase and to no other, and
stays as it is. -/
theorem load_plain (hsecure : Secure C R passphrases) (haead : C.AeadCorrect)
    (draws draws' : SaveDraws) (x : LoadedIdentity) (hkeys : KeysMatch R x) (doc : Value)
    {p q : Passphrase} (hp : p ∈ passphrases) (hq : q ∈ passphrases)
    (hsave : saveIdentity C R draws x p none = .ok doc) :
    loadIdentity C R draws' doc q = (if normalizePassphrase q = normalizePassphrase p then .ok x
      else .error .invalidTag, doc) := by
  obtain ⟨key, hkey, hsaved⟩ := save_plain hsecure draws x hp
  cases hsave.symm.trans hsaved
  obtain ⟨key', hkey'⟩ := hsecure.derives q hq draws.salt
  obtain ⟨hreal, hother⟩ := unlock_saved C R draws x key key' [] q hkey'
  have hopen := decryptKeys_encryptKeys hsecure haead hp hq draws.salt key key' hkey hkey' draws.nonce
    (serializePrivateKeys x)
  by_cases hsame : normalizePassphrase q = normalizePassphrase p
  · rw [if_pos hsame] at hopen ⊢
    simp only [loadIdentity, hreal _ hopen, realIdentity_saved C R draws x key [] hkeys]
  · rw [if_neg hsame] at hopen ⊢
    have hnone : unlockDuress C R (savedMembers C R draws x key []) q = .error .invalidTag := rfl
    simp only [loadIdentity, hother hopen, hnone]

/-- `str.upper` on ASCII text. -/
def UpperAscii (R : Runtime) : Prop :=
  ∀ s, IsAscii s → R.upper s = String.ofList (s.toList.map Char.toUpper)

theorem upper_callsign (hupper : UpperAscii R) {s : String} (h : Callsign s) : R.upper s = s := by
  have hall : callsignChars.all (fun c => c.toNat < 128 ∧ c.toUpper = c) = true := by decide
  have hchar : ∀ c ∈ s.toList, c.toNat < 128 ∧ c.toUpper = c :=
    fun c hc => of_decide_eq_true (List.all_eq_true.mp hall c (h.2.2 c hc))
  have hmap : s.toList.map Char.toUpper = s.toList := by
    conv => rhs; rw [← List.map_id s.toList]
    exact List.map_congr_left fun c hc => (hchar c hc).2
  rw [hupper s fun c hc => (hchar c hc).1, hmap, String.ofList_toList]

/-- The decoy as create_identity() makes it. -/
def createdDecoy (R : Runtime) (draws : IdentityDraws) (callsign : String) (rank : Rank) :
    DeviceIdentity where
  deviceId := draws.uuid
  callsign := callsign
  rank := rank
  signingKeypair := ⟨draws.signingKey, R.ed25519Public draws.signingKey⟩
  encryptKeypair := ⟨draws.encryptKey, R.x25519Public draws.encryptKey⟩
  kemKeypair := draws.kemKeypair

/-- The decoy as load_identity() returns it. -/
def loadedDecoy (R : Runtime) (draws : IdentityDraws) (callsign : String) (rank : Rank) :
    LoadedIdentity where
  deviceId := .str draws.uuid
  callsign := .str callsign
  rank := rank
  signingKeypair := ⟨draws.signingKey, R.ed25519Public draws.signingKey⟩
  encryptKeypair := ⟨draws.encryptKey, R.x25519Public draws.encryptKey⟩
  kemKeypair := ⟨draws.kemKeypair.secretKey, embeddedKemPub draws.kemKeypair.secretKey⟩

theorem keysMatch_loadedDecoy (draws : IdentityDraws) (callsign : String) (rank : Rank) :
    KeysMatch R (loadedDecoy R draws callsign rank) := ⟨rfl, rfl, rfl⟩

def decoyMembers (C : Suite) (R : Runtime) (draws : SaveDraws) (identity : DeviceIdentity)
    (dKey : Fixed 32) : Members :=
  let decoy := loaded (createdDecoy R draws.decoy identity.callsign identity.rank)
  duressMembers decoy draws.duressSalt draws.duressNonce
    (encryptKeys C dKey draws.duressNonce (serializePrivateKeys decoy))

/-- The members of a file saved with a duress passphrase. -/
def armedMembers (C : Suite) (R : Runtime) (draws : SaveDraws) (identity : DeviceIdentity)
    (key dKey : Fixed 32) : Members :=
  savedMembers C R draws (loaded identity) key (decoyMembers C R draws identity dKey)

theorem save_armed (hsecure : Secure C R passphrases) (hupper : UpperAscii R) (draws : SaveDraws)
    (identity : DeviceIdentity) (hcallsign : Callsign identity.callsign) {r d : Passphrase}
    (hr : r ∈ passphrases) (hd : d ∈ passphrases) : ∃ key dKey : Fixed 32,
    deriveWrapKey R (normalizePassphrase r) draws.salt.toList = .ok key.toList ∧
    deriveWrapKey R (normalizePassphrase d) draws.duressSalt.toList = .ok dKey.toList ∧
    saveIdentity C R draws (loaded identity) r (some d) =
      .ok (.obj (armedMembers C R draws identity key dKey)) := by
  obtain ⟨key, hkey⟩ := hsecure.derives r hr draws.salt
  obtain ⟨dKey, hdKey⟩ := hsecure.derives d hd draws.duressSalt
  have hdecoy : createDecoy R draws.decoy (loaded identity) =
      .ok (createdDecoy R draws.decoy identity.callsign identity.rank) := by
    have hmatches : callsignMatches (R.upper identity.callsign) := by
      rw [upper_callsign hupper hcallsign]
      exact Or.inl hcallsign
    simp only [createDecoy, loaded, createIdentity, if_pos hmatches]
    rw [upper_callsign hupper hcallsign]
    rfl
  refine ⟨key, dKey, hkey, hdKey, ?_⟩
  simp only [saveIdentity, hkey, hdKey, bind, Except.bind, chachaKey_toList, hdecoy]
  rfl

theorem unlockDuress_armed (hsecure : Secure C R passphrases) (haead : C.AeadCorrect)
    (draws : SaveDraws) (identity : DeviceIdentity) (key dKey : Fixed 32) {d q : Passphrase}
    (hd : d ∈ passphrases) (hq : q ∈ passphrases)
    (hdKey : deriveWrapKey R (normalizePassphrase d) draws.duressSalt.toList = .ok dKey.toList) :
    unlockDuress C R (armedMembers C R draws identity key dKey) q =
      if normalizePassphrase q = normalizePassphrase d then
        .ok (.duress (armedMembers C R draws identity key dKey) (serializePrivateKeys
          (loaded (createdDecoy R draws.decoy identity.callsign identity.rank))))
      else .error .invalidTag := by
  let members := armedMembers C R draws identity key dKey
  obtain ⟨dKey', hdKey'⟩ := hsecure.derives q hq draws.duressSalt
  have hsome : (lookup "duress_encrypted_keys" members).isNone = false := rfl
  have hsalt := b64Field_eq members "duress_salt" draws.duressSalt.toList rfl
  have hnonce := b64Field_eq members "duress_nonce" draws.duressNonce.toList rfl
  have hct := b64Field_eq members "duress_encrypted_keys" _ rfl
  have hkdf := field_eq members "kdf" (kdfName R) rfl
  have hparams := field_eq members "kdf_params" (kdfParams R) rfl
  have hopen := decryptKeys_encryptKeys hsecure haead hd hq draws.duressSalt dKey dKey' hdKey hdKey'
    draws.duressNonce (serializePrivateKeys
      (loaded (createdDecoy R draws.decoy identity.callsign identity.rank)))
  show unlockDuress C R members q = _
  unfold unlockDuress
  rw [hsome, if_neg Bool.false_ne_true]
  simp only [hsalt, hnonce, hct, hkdf, hparams, bind, Except.bind, deriveWrapKeyFromParams_own, hdKey',
    chachaKey_toList, hopen]
  by_cases hsame : normalizePassphrase q = normalizePassphrase d
  · rw [if_pos hsame, if_pos hsame]
    rfl
  · rw [if_neg hsame, if_neg hsame]

/-- What a load of the file as it was saved does: the passphrase opens the identity, the duress
passphrase leaves the decoy's file, and every other leaves the file alone. -/
theorem load_armed (hsecure : Secure C R passphrases) (haead : C.AeadCorrect) (hupper : UpperAscii R)
    (draws draws' : SaveDraws) (identity : DeviceIdentity) (hcallsign : Callsign identity.callsign)
    (hkeys : KeysMatch R (loaded identity)) (doc : Value) {r d q : Passphrase}
    (hr : r ∈ passphrases) (hd : d ∈ passphrases) (hq : q ∈ passphrases)
    (hne : normalizePassphrase r ≠ normalizePassphrase d)
    (hsave : saveIdentity C R draws (loaded identity) r (some d) = .ok doc) :
    (normalizePassphrase q = normalizePassphrase r →
      loadIdentity C R draws' doc q = (.ok (loaded identity), doc)) ∧
    (normalizePassphrase q = normalizePassphrase d → ∃ wiped,
      saveIdentity C R draws' (loadedDecoy R draws.decoy identity.callsign identity.rank) q none =
        .ok wiped ∧
      loadIdentity C R draws' doc q =
        (.ok (loadedDecoy R draws.decoy identity.callsign identity.rank), wiped)) ∧
    (normalizePassphrase q ≠ normalizePassphrase r → normalizePassphrase q ≠ normalizePassphrase d →
      loadIdentity C R draws' doc q = (.error .invalidTag, doc)) := by
  obtain ⟨key, dKey, hkey, hdKey, hsaved⟩ := save_armed hsecure hupper draws identity hcallsign hr hd
  cases hsave.symm.trans hsaved
  obtain ⟨key', hkey'⟩ := hsecure.derives q hq draws.salt
  obtain ⟨hunlock, hother⟩ := unlock_saved C R draws (loaded identity) key key'
    (decoyMembers C R draws identity dKey) q hkey'
  have hopen := decryptKeys_encryptKeys hsecure haead hr hq draws.salt key key' hkey hkey' draws.nonce
    (serializePrivateKeys (loaded identity))
  have hduress := unlockDuress_armed hsecure haead draws identity key dKey hd hq hdKey
  refine ⟨fun hreal => ?_, fun hduressed => ?_, fun hnotReal hnotDuress => ?_⟩
  · rw [if_pos hreal] at hopen
    have hidentity := realIdentity_saved C R draws (loaded identity) key
      (decoyMembers C R draws identity dKey) hkeys
    simp only [armedMembers, loadIdentity, hunlock _ hopen, hidentity]
  · rw [if_neg fun hreal => hne (hreal.symm.trans hduressed)] at hopen
    rw [if_pos hduressed] at hduress
    have hdecoy : decoyIdentity R (armedMembers C R draws identity key dKey) (serializePrivateKeys
        (loaded (createdDecoy R draws.decoy identity.callsign identity.rank))) =
        .ok (loadedDecoy R draws.decoy identity.callsign identity.rank) := by
      have hdevice := field_eq (armedMembers C R draws identity key dKey) "duress_device_id"
        (.str draws.decoy.uuid) rfl
      have hcallsign' := field_eq (armedMembers C R draws identity key dKey) "callsign"
        (.str identity.callsign) rfl
      have hrank := field_eq (armedMembers C R draws identity key dKey) "rank"
        (.int (rankNumber identity.rank)) rfl
      simp only [decoyIdentity, deserialize_serialize, bind, Except.bind, hdevice, hcallsign', hrank,
        rankOf_rankNumber]
      rfl
    obtain ⟨_, _, hwiped⟩ := save_plain hsecure draws'
      (loadedDecoy R draws.decoy identity.callsign identity.rank) hq
    refine ⟨_, hwiped, ?_⟩
    have hunlock' : unlock C R (.obj (armedMembers C R draws identity key dKey)) q =
        .ok (.duress (armedMembers C R draws identity key dKey) (serializePrivateKeys
          (loaded (createdDecoy R draws.decoy identity.callsign identity.rank)))) :=
      (hother hopen).trans hduress
    simp only [loadIdentity, hunlock', hdecoy, hwiped]
  · rw [if_neg hnotReal] at hopen
    rw [if_neg hnotDuress] at hduress
    have hunlock' : unlock C R (.obj (armedMembers C R draws identity key dKey)) q =
        .error .invalidTag := (hother hopen).trans hduress
    simp only [loadIdentity, hunlock']

end Loads

section Runs

variable (C : Suite) (R : Runtime)

/-- A call of load_identity(): what it may draw, and the passphrase. -/
abbrev Attempt := SaveDraws × Passphrase

def loadStep (file : Value) (attempt : Attempt) : Value :=
  (loadIdentity C R attempt.1 file attempt.2).2

/-- Some attempt has used the duress passphrase. -/
def Duressed (d : Passphrase) (attempts : List Attempt) : Prop :=
  ∃ attempt ∈ attempts, normalizePassphrase attempt.2 = normalizePassphrase d

/-- What the next attempt with `q` does after these ones. -/
structure Answers (doc : Value) (identity : DeviceIdentity) (decoy : LoadedIdentity)
    (r d : Passphrase) (before : List Attempt) (draws : SaveDraws) (q : Passphrase) : Prop where
  intact : ¬ Duressed d before → Runs.run (loadStep C R) doc before = doc
  real : ¬ Duressed d before → normalizePassphrase q = normalizePassphrase r →
    loadIdentity C R draws (Runs.run (loadStep C R) doc before) q =
      (.ok (loaded identity), Runs.run (loadStep C R) doc before)
  duress : normalizePassphrase q = normalizePassphrase d →
    (loadIdentity C R draws (Runs.run (loadStep C R) doc before) q).1 = .ok decoy
  refused : normalizePassphrase q ≠ normalizePassphrase d →
    Duressed d before ∨ normalizePassphrase q ≠ normalizePassphrase r →
      loadIdentity C R draws (Runs.run (loadStep C R) doc before) q =
        (.error .invalidTag, Runs.run (loadStep C R) doc before)

variable {C R} {passphrases : List Passphrase}

end Runs

section Stub

def shown (passphrase : Bytes) : Fixed 16 :=
  ⟨(ljust passphrase 16 0).take 16, Honest.take_ljust_length _ _ _⟩

/-- A key that shows the first bytes of the passphrase. -/
def stubWrapKey (passphrase : Bytes) : Fixed 32 :=
  (List.Vector.replicate 16 0 : Fixed 16) ++ shown passphrase

/-- An installation whose KDF only cuts and pads, and whose public keys repeat the private ones. -/
def stubRuntime : Runtime where
  upper s := String.ofList (s.toList.map Char.toUpper)
  reprFloat
    | .finite value => toString value
    | .infinite negative => if negative then "-inf" else "inf"
    | .notANumber => "nan"
  argon2Available := true
  argon2 passphrase _ _ _ _ _ := .ok (stubWrapKey passphrase).toList
  scrypt passphrase _ _ _ _ := .ok (stubWrapKey passphrase).toList
  ed25519Public key := ⟨key.raw⟩
  x25519Public key := ⟨key.raw⟩

theorem unpackBE_append (a b : Bytes) :
    unpackBE (a ++ b) = unpackBE a * 256 ^ b.length + unpackBE b := by
  rw [unpackBE, List.foldl_append]
  exact foldl_unpack b _

/-- The stub's tag tells keys apart that differ in their last sixteen bytes. -/
theorem stub_exclusive (key key' : Fixed 32) (nonce : Nonce) (blob : Bytes)
    (h : unpackBE key'.toList % 256 ^ 16 ≠ unpackBE key.toList % 256 ^ 16) :
    stub.chachaDecrypt key' nonce.toList [] (stub.chachaEncrypt key nonce.toList [] blob) = none := by
  have hlen : (blob ++ (checksum 16 (nonce.toList ++ [] ++ blob ++ key.toList)).toList).length - 16 =
      blob.length := by
    simp only [List.length_append, List.Vector.toList_length]
    omega
  have hsum : ∀ k : Fixed 32, unpackBE (checksum 16 (nonce.toList ++ [] ++ blob ++ k.toList)).toList =
      (unpackBE (nonce.toList ++ [] ++ blob) * 256 ^ 32 + unpackBE k.toList +
        ((nonce.toList ++ [] ++ blob).length + 32)) % 256 ^ 16 := by
    intro k
    have hk : k.toList.length = 32 := k.toList_length
    have hvalue : (checksum 16 (nonce.toList ++ [] ++ blob ++ k.toList)).toList =
        packBE 16 (unpackBE (nonce.toList ++ [] ++ blob ++ k.toList) +
          (nonce.toList ++ [] ++ blob ++ k.toList).length) := rfl
    rw [hvalue, unpackBE_packBE_mod, unpackBE_append _ k.toList, List.length_append, hk]
  have hne : (checksum 16 (nonce.toList ++ [] ++ blob ++ key.toList)).toList ≠
      (checksum 16 (nonce.toList ++ [] ++ blob ++ key'.toList)).toList := by
    intro heq
    have hvalues := congrArg unpackBE heq
    rw [hsum key, hsum key'] at hvalues
    omega
  simp only [stub, hlen, List.take_left, List.drop_left, if_neg hne]

theorem stubWrapKey_value (passphrase : Bytes) :
    unpackBE (stubWrapKey passphrase).toList % 256 ^ 16 = unpackBE (shown passphrase).toList := by
  have hlen : (shown passphrase).toList.length = 16 := List.Vector.toList_length _
  have hlt := unpackBE_lt (shown passphrase).toList
  rw [hlen] at hlt
  rw [stubWrapKey, List.Vector.toList_append, unpackBE_append, hlen, Nat.mul_add_mod',
    Nat.mod_eq_of_lt hlt]

theorem secure_stub : Secure stub stubRuntime [.text "alpha", .text "bravo", .text "charlie"] := by
  have hderive : ∀ (p : Passphrase) (salt : Fixed 32),
      deriveWrapKey stubRuntime (normalizePassphrase p) salt.toList =
        .ok (stubWrapKey (normalizePassphrase p)).toList := fun _ _ => rfl
  have hkeyOf : ∀ (p : Passphrase) (salt key : Fixed 32),
      deriveWrapKey stubRuntime (normalizePassphrase p) salt.toList = .ok key.toList →
        key = stubWrapKey (normalizePassphrase p) :=
    fun p salt key hkey => Subtype.ext (Except.ok.inj (hkey.symm.trans (hderive p salt)))
  have hvalues : ∀ p ∈ [Passphrase.text "alpha", .text "bravo", .text "charlie"],
      ∀ q ∈ [Passphrase.text "alpha", .text "bravo", .text "charlie"],
        unpackBE (shown (normalizePassphrase p)).toList =
          unpackBE (shown (normalizePassphrase q)).toList → p = q := by
    intro p hp q hq
    simp only [List.mem_cons, List.not_mem_nil, or_false] at hp hq
    rcases hp with rfl | rfl | rfl <;> rcases hq with rfl | rfl | rfl <;> decide
  refine ⟨fun p _ salt => ⟨_, hderive p salt⟩, fun p hp q hq salt key hkey hkey' => ?_,
    fun p hp q hq salt key key' hkey hkey' hne nonce blob => ?_⟩
  · have heq := (hkeyOf p salt key hkey).symm.trans (hkeyOf q salt key hkey')
    have hvalue := congrArg (fun k : Fixed 32 => unpackBE k.toList % 256 ^ 16) heq
    rw [stubWrapKey_value, stubWrapKey_value] at hvalue
    rw [hvalues p hp q hq hvalue]
  · refine stub_exclusive key key' nonce blob fun hvalue => hne ?_
    rw [hkeyOf p salt key hkey, hkeyOf q salt key' hkey', stubWrapKey_value, stubWrapKey_value] at hvalue
    rw [hkeyOf p salt key hkey, hkeyOf q salt key' hkey', hvalues q hq p hp hvalue]

def stubDraws (uuid : String) (seed : Fixed 32) : SaveDraws where
  salt := seed
  nonce := List.Vector.replicate 12 0
  decoy := ⟨uuid, ⟨seed⟩, ⟨seed⟩, ⟨⟨List.Vector.replicate 2400 1⟩, ⟨List.Vector.replicate 1184 1⟩⟩⟩
  duressSalt := seed
  duressNonce := List.Vector.replicate 12 1

theorem embeddedKemPub_replicate (x : UInt8) :
    embeddedKemPub ⟨List.Vector.replicate 2400 x⟩ = ⟨List.Vector.replicate 1184 x⟩ := by
  have hslice : ∀ v : Fixed 2400, (embeddedKemPub ⟨v⟩).raw.toList =
      slice v.toList mlkemPkOffset mlkemPkLen := fun _ => rfl
  have hlist : ∀ n, (List.Vector.replicate n x).toList = List.replicate n x := fun _ => rfl
  have hraw : (embeddedKemPub ⟨List.Vector.replicate 2400 x⟩).raw = List.Vector.replicate 1184 x := by
    apply List.Vector.toList_injective
    rw [hslice, hlist, hlist, slice, List.drop_replicate, List.take_replicate]
    congr 1
  rw [← hraw]

theorem keysMatch_alpha : KeysMatch stubRuntime (loaded Honest.alpha) :=
  ⟨rfl, rfl, (embeddedKemPub_replicate 0).symm⟩

end Stub

end Mesim.Duress
