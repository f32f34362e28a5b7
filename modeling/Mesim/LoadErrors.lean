import Mesim.Exceptions
import Mesim.FileTampering

/-!
What load_identity() raises.
Its docstring has ValueError for a malformed file and InvalidTag for a wrong passphrase.
Malformed base64, an unknown rank or keys of the wrong length raise these; a field that
is missing or no text, and a file that holds no object, raise something else. So the
promise is kept exactly when each field that the reading comes to is there and is what
the next call takes, up to the first that raises one of the two.
-/
namespace Mesim.LoadErrors

open Octets TextCodec Crypto Honest Identity Json IdentityFile Duress FileTampering Exceptions

/-- The errors that load_identity() documents for a file that exists. -/
def Documented (e : PyError) : Prop := e.isValueError = true ∨ e = .invalidTag

section Fields

variable (R : Runtime) (members : Members)

def Present (key : String) : Prop := ∃ v, lookup key members = some v

def Text (key : String) : Prop := ∃ s, lookup key members = some (.str s)

/-- The text of a stored public key. -/
def KeyText (name : String) : Prop :=
  ∃ keys, lookup "public_keys" members = some (.obj keys) ∧ Text keys name

/-- A KDF that is named is installed, its parameters are there, and it takes them. -/
def KdfReady (passphrase salt : Bytes) (kdf params : Value) : Prop :=
  (kdf.string? = some "argon2id" → R.argon2Available = true ∧
    ∃ timeCost memoryCost parallelism hashLen,
      subscript params "time_cost" = .ok timeCost ∧
      subscript params "memory_cost" = .ok memoryCost ∧
      subscript params "parallelism" = .ok parallelism ∧
      subscript params "hash_len" = .ok hashLen ∧
      RaisesOnly Documented (R.argon2 passphrase salt timeCost memoryCost parallelism hashLen)) ∧
  (kdf.string? = some "scrypt" → ∃ n r p,
    subscript params "n" = .ok n ∧ subscript params "r" = .ok r ∧ subscript params "p" = .ok p ∧
    RaisesOnly Documented (R.scrypt passphrase salt n r p))

/-- What reading a sealed string needs, field by field. -/
def SealReady (names : SealNames) (passphrase : Passphrase) : Prop :=
  Text members names.salt ∧ ∀ salt, b64Field members names.salt = .ok salt →
    Text members names.nonce ∧ ∀ nonce, b64Field members names.nonce = .ok nonce →
      Text members names.ciphertext ∧
        ∀ ciphertext, b64Field members names.ciphertext = .ok ciphertext →
          Present members "kdf" ∧ ∀ kdf, lookup "kdf" members = some kdf →
            Present members "kdf_params" ∧
              ∀ params, lookup "kdf_params" members = some params →
                KdfReady R (normalizePassphrase passphrase) salt kdf params

def LabelsReady (idName : String) : Prop :=
  Present members idName ∧ Present members "callsign" ∧ Present members "rank"

/-- The public keys are read one after the other, and the labels when all three match. -/
def KeysReady (edKp : Ed25519KeyPair) (xKp : X25519KeyPair) (kemKp : MLKEMKeyPair) : Prop :=
  KeyText members "verify_key" ∧
    ∀ storedVerify, storedKey members "verify_key" = .ok storedVerify →
      KeyText members "encrypt_pub" ∧
        ∀ storedEncrypt, storedKey members "encrypt_pub" = .ok storedEncrypt →
          KeyText members "kem_pub" ∧
            ∀ storedKemPub, storedKey members "kem_pub" = .ok storedKemPub →
              edKp.verifyKey.raw.toList = storedVerify →
                xKp.publicKey.raw.toList = storedEncrypt →
                  kemKp.publicKey.raw.toList = storedKemPub → LabelsReady members "device_id"

end Fields

/-- What each part of load_identity() that the passphrase leads to needs. -/
structure Ready (C : Suite) (R : Runtime) (members : Members) (passphrase : Passphrase) : Prop where
  realSeal : SealReady R members realNames passphrase
  real : ∀ blob, OpensReal C R members passphrase blob →
    ∀ edKp xKp kemKp, deserializePrivateKeys R blob = .ok (edKp, xKp, kemKp) →
      KeysReady members edKp xKp kemKp
  duressSeal : ∀ s, sealedUnder R realNames members passphrase = .ok s →
    s.decrypt C = .error .invalidTag → Present members "duress_encrypted_keys" →
      SealReady R members duressNames passphrase
  decoy : ∀ blob, OpensDuress C R members passphrase blob →
    ∀ pairs, deserializePrivateKeys R blob = .ok pairs → LabelsReady members "duress_device_id"

section Reads

variable {C : Suite} {R : Runtime} {members : Members}

theorem documented_valueError (msg : String) : Documented (.valueError msg) := Or.inl rfl

theorem documented_invalidTag : Documented .invalidTag := Or.inr rfl

theorem not_documented {e : PyError} (hvalue : e.isValueError = false) (htag : e ≠ .invalidTag) :
    ¬ Documented e := by
  rintro (h | h)
  · rw [hvalue] at h
    cases h
  · exact htag h

/-- A subscript raises KeyError or TypeError. -/
theorem subscript_documented {value : Value} {key : String} :
    RaisesOnly Documented (subscript value key) ↔ ∃ v, subscript value key = .ok v := by
  cases hsub : subscript value key with
  | ok v => exact iff_of_true (raisesOnly_ok v) ⟨v, rfl⟩
  | error e =>
    rw [raisesOnly_error]
    refine iff_of_false (fun h => ?_) (by simp)
    unfold subscript at hsub
    split at hsub
    · split at hsub
      · cases hsub
      · cases hsub
        exact not_documented rfl (by simp) h
    · cases hsub
      exact not_documented rfl (by simp) h

theorem field_ok_iff {key : String} {v : Value} :
    field members key = .ok v ↔ lookup key members = some v := by
  simp only [field, subscript]
  cases lookup key members with
  | none => exact iff_of_false (by simp) (by simp)
  | some v' => rw [Except.ok.injEq, Option.some.injEq]

theorem field_documented {key : String} :
    RaisesOnly Documented (field members key) ↔ Present members key := by
  rw [field, subscript_documented]
  exact exists_congr fun v => field_ok_iff

/-- What is read after a field and does not depend on it. -/
theorem present_and {key : String} {p : Prop} :
    (Present members key ∧ ∀ v, lookup key members = some v → p) ↔ Present members key ∧ p := by
  constructor
  · rintro ⟨⟨v, hv⟩, h⟩
    exact ⟨⟨v, hv⟩, h v hv⟩
  · rintro ⟨hpresent, h⟩
    exact ⟨hpresent, fun _ _ => h⟩

theorem b64decode_documented {v : Value} :
    RaisesOnly Documented (b64decode v) ↔ ∃ s, v = .str s := by
  unfold b64decode
  split
  · next s =>
    refine iff_of_true ?_ ⟨s, rfl⟩
    split
    · split
      · exact raisesOnly_ok _
      · exact (raisesOnly_error _).mpr (documented_valueError _)
      · exact (raisesOnly_error _).mpr (documented_valueError _)
    · exact (raisesOnly_error _).mpr (documented_valueError _)
  · next hother =>
    rw [raisesOnly_error]
    refine iff_of_false (not_documented rfl (by simp)) ?_
    rintro ⟨s, hs⟩
    exact hother s hs

theorem b64Field_documented {key : String} :
    RaisesOnly Documented (b64Field members key) ↔ Text members key := by
  rw [b64Field, raisesOnly_bind, field_documented]
  constructor
  · rintro ⟨⟨v, hv⟩, hdecode⟩
    obtain ⟨s, rfl⟩ := b64decode_documented.mp (hdecode v (field_ok_iff.mpr hv))
    exact ⟨s, hv⟩
  · rintro ⟨s, hs⟩
    refine ⟨⟨_, hs⟩, fun v hv => b64decode_documented.mpr ⟨s, ?_⟩⟩
    exact Option.some.inj ((field_ok_iff.mp hv).symm.trans hs)

theorem subscript_ok_iff {value : Value} {key : String} {v : Value} :
    subscript value key = .ok v ↔ ∃ keys, value = .obj keys ∧ lookup key keys = some v := by
  constructor
  · intro h
    cases value with
    | obj keys => exact ⟨keys, rfl, field_ok_iff.mp h⟩
    | _ => cases h
  · rintro ⟨keys, rfl, h⟩
    exact field_ok_iff.mpr h

theorem storedKey_documented {name : String} :
    RaisesOnly Documented (storedKey members name) ↔ KeyText members name := by
  simp only [storedKey, raisesOnly_bind, field_documented, field_ok_iff, subscript_documented,
    subscript_ok_iff, b64decode_documented]
  constructor
  · rintro ⟨⟨value, hvalue⟩, hrest⟩
    obtain ⟨⟨v, keys, rfl, hv⟩, htext⟩ := hrest value hvalue
    obtain ⟨s, rfl⟩ := htext v ⟨keys, rfl, hv⟩
    exact ⟨keys, hvalue, s, hv⟩
  · rintro ⟨keys, hkeys, s, hs⟩
    refine ⟨⟨_, hkeys⟩, fun value hvalue => ?_⟩
    cases Option.some.inj (hkeys.symm.trans hvalue)
    refine ⟨⟨_, keys, rfl, hs⟩, ?_⟩
    rintro v ⟨keys', hsame, hv⟩
    cases hsame
    exact ⟨s, Option.some.inj (hv.symm.trans hs)⟩

theorem rankOf_documented (v : Value) : RaisesOnly Documented (rankOf v) := by
  unfold rankOf
  repeat' split
  all_goals simp only [raisesOnly_ok, raisesOnly_error, documented_valueError]

theorem chachaKey_documented (key : Bytes) : RaisesOnly Documented (chachaKey key) := by
  unfold chachaKey
  split
  · exact raisesOnly_ok _
  · exact (raisesOnly_error _).mpr (documented_valueError _)

theorem decryptKeys_documented (key : Fixed 32) (nonce ciphertext : Bytes) :
    RaisesOnly Documented (decryptKeys C key nonce ciphertext) := by
  unfold decryptKeys
  split
  · split
    · exact raisesOnly_ok _
    · exact (raisesOnly_error _).mpr documented_invalidTag
  · exact (raisesOnly_error _).mpr (documented_valueError _)

theorem deserialize_documented (blob : Bytes) :
    RaisesOnly Documented (deserializePrivateKeys R blob) := by
  unfold deserializePrivateKeys
  split
  · exact raisesOnly_ok _
  · exact (raisesOnly_error _).mpr (documented_valueError _)

/-- A parameter has to be there, and its value to suit the rest. -/
theorem subscript_bind_documented {α : Type} {value : Value} {key : String}
    {f : Value → Except PyError α} : RaisesOnly Documented (subscript value key >>= f) ↔
      ∃ v, subscript value key = .ok v ∧ RaisesOnly Documented (f v) := by
  rw [raisesOnly_bind, subscript_documented]
  constructor
  · rintro ⟨⟨v, hv⟩, h⟩
    exact ⟨v, hv, h v hv⟩
  · rintro ⟨v, hv, h⟩
    refine ⟨⟨v, hv⟩, fun v' hv' => ?_⟩
    cases Except.ok.inj (hv.symm.trans hv')
    exact h

theorem derive_documented {passphrase salt : Bytes} {kdf params : Value} :
    RaisesOnly Documented (deriveWrapKeyFromParams R passphrase salt kdf params) ↔
      KdfReady R passphrase salt kdf params := by
  rw [deriveWrapKeyFromParams, KdfReady]
  by_cases hargon : kdf.string? = some "argon2id"
  · have hscrypt : kdf.string? ≠ some "scrypt" := by
      rw [hargon]
      decide
    rw [if_pos hargon, and_iff_left fun h => absurd h hscrypt]
    by_cases havailable : R.argon2Available = true
    · rw [if_pos havailable]
      simp only [subscript_bind_documented, hargon, havailable, true_and, true_imp_iff,
        exists_and_left]
    · rw [if_neg havailable, raisesOnly_error]
      exact iff_of_false (not_documented rfl (by simp)) fun h => havailable (h hargon).1
  · rw [if_neg hargon, and_iff_right fun h => absurd h hargon]
    by_cases hscrypt : kdf.string? = some "scrypt"
    · rw [if_pos hscrypt]
      simp only [subscript_bind_documented, hscrypt, true_imp_iff, exists_and_left]
    · rw [if_neg hscrypt]
      exact iff_of_true ((raisesOnly_error _).mpr (documented_valueError _))
        fun h => absurd h hscrypt

/-- Each of the two paths needs its fields. -/
theorem sealedUnder_documented {names : SealNames} {passphrase : Passphrase} :
    RaisesOnly Documented (sealedUnder R names members passphrase) ↔
      SealReady R members names passphrase := by
  simp only [sealedUnder, raisesOnly_bind, b64Field_documented, field_documented, field_ok_iff,
    derive_documented, chachaKey_documented, raisesOnly_pure, and_true, implies_true, SealReady]

/-- The identity of the private keys, from the stored keys and the labels. -/
theorem realIdentity_documented {blob : Bytes} :
    RaisesOnly Documented (realIdentity R members blob) ↔
      ∀ edKp xKp kemKp, deserializePrivateKeys R blob = .ok (edKp, xKp, kemKp) →
        KeysReady members edKp xKp kemKp := by
  rw [realIdentity, (deserialize_documented blob).bind_iff, Prod.forall]
  refine forall_congr' fun edKp => ?_
  rw [Prod.forall]
  refine forall_congr' fun xKp => forall_congr' fun kemKp => imp_congr_right fun _ => ?_
  simp only [raisesOnly_bind, storedKey_documented, raisesOnly_check, documented_valueError,
    field_documented, field_ok_iff, rankOf_documented, raisesOnly_pure, implies_true, and_true,
    true_and, present_and, ne_eq, not_not, KeysReady, LabelsReady]

theorem decoyIdentity_documented {blob : Bytes} :
    RaisesOnly Documented (decoyIdentity R members blob) ↔
      ∀ pairs, deserializePrivateKeys R blob = .ok pairs →
        LabelsReady members "duress_device_id" := by
  rw [decoyIdentity, (deserialize_documented blob).bind_iff]
  simp only [raisesOnly_bind, field_documented, field_ok_iff, rankOf_documented,
    raisesOnly_pure, and_true, implies_true, present_and, LabelsReady]

end Reads

section Paths

variable {C : Suite} {R : Runtime} {members : Members} {passphrase : Passphrase}

/-- Without duress fields there is nothing to read and the tag's error stands. -/
theorem unlockDuress_documented :
    RaisesOnly Documented (unlockDuress C R members passphrase) ↔
      (Present members "duress_encrypted_keys" → SealReady R members duressNames passphrase) := by
  cases hlookup : lookup "duress_encrypted_keys" members with
  | none =>
    have hraised : unlockDuress C R members passphrase = .error .invalidTag := by
      simp only [unlockDuress, hlookup, Option.isNone_none, if_true]
    rw [hraised]
    refine iff_of_true ((raisesOnly_error _).mpr documented_invalidTag) ?_
    rintro ⟨v, hv⟩
    cases hlookup.symm.trans hv
  | some v =>
    rw [unlockDuress_eq C R members passphrase (by rw [hlookup]; rfl), raisesOnly_bind,
      sealedUnder_documented, and_iff_left fun s _ => ?_, imp_iff_right ⟨v, hlookup⟩]
    exact (decryptKeys_documented _ _ _).bind_iff.mpr fun blob _ => raisesOnly_ok _

theorem openReal_documented {s : Sealed} :
    RaisesOnly Documented (openReal C R members passphrase s) ↔
      (s.decrypt C = .error .invalidTag →
        RaisesOnly Documented (unlockDuress C R members passphrase)) := by
  have hdecrypt : RaisesOnly Documented (s.decrypt C) := decryptKeys_documented _ _ _
  unfold openReal
  cases hopen : s.decrypt C with
  | ok blob => exact iff_of_true (raisesOnly_ok _) fun h => by cases h
  | error e =>
    rw [hopen, raisesOnly_error] at hdecrypt
    cases e with
    | invalidTag => exact (imp_iff_right rfl).symm
    | _ => exact iff_of_true ((raisesOnly_error _).mpr hdecrypt) fun h => by cases h

theorem unlock_documented (hversion : SupportedVersion members) :
    RaisesOnly Documented (unlock C R (.obj members) passphrase) ↔
      SealReady R members realNames passphrase ∧
      ∀ s, sealedUnder R realNames members passphrase = .ok s → s.decrypt C = .error .invalidTag →
        Present members "duress_encrypted_keys" → SealReady R members duressNames passphrase := by
  rw [unlock_eq C R members passphrase hversion, raisesOnly_bind, sealedUnder_documented]
  simp only [openReal_documented, unlockDuress_documented]

/-- load_identity() once one of the sealed strings is open. -/
def finish (C : Suite) (R : Runtime) (draws : SaveDraws) (passphrase : Passphrase) :
    Unlocked → Except PyError LoadedIdentity
  | .real members privateBlob => realIdentity R members privateBlob
  | .duress members decoyBlob => do
    let decoy ← decoyIdentity R members decoyBlob
    let _ ← saveIdentity C R draws decoy passphrase none
    return decoy

theorem loadIdentity_fst (draws : SaveDraws) (doc : Value) :
    (loadIdentity C R draws doc passphrase).1 =
      unlock C R doc passphrase >>= finish C R draws passphrase := by
  unfold loadIdentity
  cases unlock C R doc passphrase with
  | error e => rfl
  | ok opened =>
    cases opened with
    | real members blob => rfl
    | duress members blob =>
      simp only [ok_bind, finish]
      cases decoyIdentity R members blob with
      | error e => rfl
      | ok decoy =>
        simp only [ok_bind]
        cases saveIdentity C R draws decoy passphrase none <;> rfl

/-- The file is written last, and nothing is raised after that. -/
theorem file_of_raised {draws : SaveDraws} {doc : Value} {e : PyError}
    (h : (loadIdentity C R draws doc passphrase).1 = .error e) :
    (loadIdentity C R draws doc passphrase).2 = doc := by
  unfold loadIdentity at h ⊢
  cases hunlock : unlock C R doc passphrase with
  | error e => rfl
  | ok opened =>
    cases opened with
    | real members blob => rfl
    | duress members blob =>
      simp only [hunlock] at h ⊢
      cases hdecoy : decoyIdentity R members blob with
      | error e => rfl
      | ok decoy =>
        simp only [hdecoy] at h ⊢
        cases hsave : saveIdentity C R draws decoy passphrase none with
        | error e => rfl
        | ok wiped =>
          rw [hsave] at h
          cases h

/-- The KDF that is installed derives keys, so the decoy can be saved. -/
theorem saveIdentity_documented (draws : SaveDraws) (decoy : LoadedIdentity)
    (hderives : ∀ salt : Fixed 32, ∃ key : Fixed 32,
      deriveWrapKey R (normalizePassphrase passphrase) salt.toList = .ok key.toList) :
    RaisesOnly Documented (saveIdentity C R draws decoy passphrase none) := by
  obtain ⟨key, hkey⟩ := hderives draws.salt
  rw [saveIdentity, hkey, ok_bind, chachaKey_toList, ok_bind]
  exact raisesOnly_ok _

theorem finish_documented {draws : SaveDraws}
    (hderives : ∀ salt : Fixed 32, ∃ key : Fixed 32,
      deriveWrapKey R (normalizePassphrase passphrase) salt.toList = .ok key.toList)
    (blob : Bytes) :
    RaisesOnly Documented (finish C R draws passphrase (.duress members blob)) ↔
      RaisesOnly Documented (decoyIdentity R members blob) := by
  rw [finish, raisesOnly_bind]
  refine and_iff_left fun decoy _ => ?_
  exact (saveIdentity_documented draws decoy hderives).bind_iff.mpr fun _ _ => raisesOnly_pure _

end Paths

section Results

variable {C : Suite} {R : Runtime} {members : Members} {passphrase : Passphrase}

/-- An object of another version is refused with a ValueError. -/
theorem unlock_unsupported (hversion : ¬ SupportedVersion members) :
    unlock C R (.obj members) passphrase = .error (unsupportedVersion R members) := by
  simp only [unlock, Value.members?]
  exact if_pos hversion

theorem load_obj_documented {draws : SaveDraws} (hderives : ∀ salt : Fixed 32, ∃ key : Fixed 32,
      deriveWrapKey R (normalizePassphrase passphrase) salt.toList = .ok key.toList) :
    RaisesOnly Documented (loadIdentity C R draws (.obj members) passphrase).1 ↔
      (SupportedVersion members → Ready C R members passphrase) := by
  rw [loadIdentity_fst, raisesOnly_bind]
  by_cases hversion : SupportedVersion members
  · rw [unlock_documented hversion, imp_iff_right hversion]
    constructor
    · rintro ⟨⟨hreal, hduress⟩, hfinish⟩
      refine ⟨hreal, fun blob hopen => ?_, hduress, fun blob hopen => ?_⟩
      · have hopened := (unlock_ok_iff C R members passphrase _).mpr (Or.inl ⟨blob, hopen, rfl⟩)
        exact realIdentity_documented.mp (hfinish _ hopened)
      · have hopened := (unlock_ok_iff C R members passphrase _).mpr (Or.inr ⟨blob, hopen, rfl⟩)
        exact decoyIdentity_documented.mp ((finish_documented hderives blob).mp (hfinish _ hopened))
    · intro h
      refine ⟨⟨h.realSeal, h.duressSeal⟩, fun opened hopened => ?_⟩
      rcases (unlock_ok_iff C R members passphrase opened).mp hopened with
        ⟨blob, hopen, rfl⟩ | ⟨blob, hopen, rfl⟩
      · exact realIdentity_documented.mpr (h.real blob hopen)
      · exact (finish_documented hderives blob).mpr
          (decoyIdentity_documented.mpr (h.decoy blob hopen))
  · rw [unlock_unsupported hversion]
    refine iff_of_true ⟨(raisesOnly_error _).mpr (documented_valueError _), fun opened h => ?_⟩
      fun h => absurd h hversion
    cases h

/-- load_identity() raises only what it documents, and then leaves the file, exactly when the file
holds an object and, if its version is supported, each field that the reading comes to is there and
of the right kind. -/
theorem load_raises_documented_iff (C : Suite) (R : Runtime) (draws : SaveDraws) (doc : Value)
    (passphrase : Passphrase) (hderives : ∀ salt : Fixed 32, ∃ key : Fixed 32,
      deriveWrapKey R (normalizePassphrase passphrase) salt.toList = .ok key.toList) :
    (RaisesOnly Documented (loadIdentity C R draws doc passphrase).1 ∧
        ∀ e, (loadIdentity C R draws doc passphrase).1 = .error e →
          (loadIdentity C R draws doc passphrase).2 = doc) ↔
      ∃ members, doc = .obj members ∧
        (SupportedVersion members → Ready C R members passphrase) := by
  rw [and_iff_left fun e => file_of_raised]
  cases hmembers : doc.members? with
  | some members =>
    have hdoc : doc = .obj members := by
      cases doc with
      | obj _ => exact congrArg Value.obj (Option.some.inj hmembers)
      | _ => cases hmembers
    subst hdoc
    rw [load_obj_documented hderives]
    constructor
    · intro h
      exact ⟨members, rfl, h⟩
    · rintro ⟨members', hsame, h⟩
      cases hsame
      exact h
  | none =>
    have hraised : unlock C R doc passphrase = .error .attributeError := by
      simp only [unlock, hmembers]
    rw [loadIdentity_fst, hraised]
    refine iff_of_false (fun h => ?_) ?_
    · exact not_documented rfl (by simp) (h .attributeError rfl)
    · rintro ⟨members, rfl, _⟩
      cases hmembers

end Results

section Stub

/-- A file with nothing but its version raises KeyError, and one with no object AttributeError. -/
theorem malformed_undocumented :
    ¬ ∀ (doc : Value) (passphrase : Passphrase) (draws : SaveDraws),
      RaisesOnly Documented (loadIdentity stub stubRuntime draws doc passphrase).1 := by
  intro hall
  have hraised := hall (.obj [("version", .int 1)]) (.text "alpha")
    (stubDraws "alpha" (List.Vector.replicate 32 1)) .keyError rfl
  exact not_documented rfl (by simp) hraised

theorem unlock_wrong : unlock stub stubRuntime (.obj alphaMembers) (.text "bravo") =
    .error .invalidTag := by
  obtain ⟨_, hother⟩ := unlock_saved stub stubRuntime alphaDraws (loaded Honest.alpha)
    (stubWrapKey (encodeUtf8 "alpha")) (stubWrapKey (encodeUtf8 "bravo")) [] (.text "bravo") rfl
  have hopen := decryptKeys_encryptKeys secure_stub stub_aeadCorrect (p := .text "alpha")
    (q := .text "bravo") (by simp) (by simp) alphaDraws.salt _ _ rfl rfl alphaDraws.nonce
    (serializePrivateKeys (loaded Honest.alpha))
  rw [if_neg (by decide)] at hopen
  exact hother hopen

/-- A saved file has what its reading comes to with a wrong passphrase, up to the failed tag. -/
theorem load_raises_documented_wrong : ∃ doc,
    saveIdentity stub stubRuntime alphaDraws (loaded Honest.alpha) (.text "alpha") none = .ok doc ∧
    unlock stub stubRuntime doc (.text "bravo") = .error .invalidTag ∧
    RaisesOnly Documented (loadIdentity stub stubRuntime alphaDraws doc (.text "bravo")).1 := by
  refine ⟨.obj alphaMembers, save_alpha, unlock_wrong, ?_⟩
  refine ((load_raises_documented_iff stub stubRuntime _ _ (.text "bravo")
    (derives_stub _)).mpr ⟨alphaMembers, rfl, fun _ => ⟨?_, ?_, ?_, ?_⟩⟩).1
  · refine ⟨⟨_, rfl⟩, fun salt _ => ⟨⟨_, rfl⟩, fun nonce _ => ⟨⟨_, rfl⟩, fun ciphertext _ =>
      ⟨⟨_, rfl⟩, fun kdf hkdf => ⟨⟨_, rfl⟩, fun params hparams => ?_⟩⟩⟩⟩⟩
    cases hkdf
    cases hparams
    refine ⟨fun _ => ⟨rfl, _, _, _, _, rfl, rfl, rfl, rfl, raisesOnly_ok _⟩, fun hscrypt => ?_⟩
    exact absurd hscrypt (by decide)
  · intro blob hopens
    cases unlock_wrong.symm.trans (unlock_real hopens)
  · rintro _ _ _ ⟨v, hpresent⟩
    cases hpresent
  · intro blob hopens
    cases unlock_wrong.symm.trans (unlock_duress hopens)

end Stub

end Mesim.LoadErrors
