import Mesim.Base64
import Mesim.Identity
import Mesim.Json

/-!
The identity file.
save_identity() seals the private keys under a key derived from the passphrase and,
if asked to, a decoy's keys under one derived from the duress passphrase.
load_identity() tries the first and then the second; when the second opens, it
overwrites the file with the decoy's. The file is the JSON value that its text
holds, and liboqs is present.
-/
namespace Mesim.IdentityFile

open Octets TextCodec Crypto Identity Base64 Json

abbrev identityFileVersion : ℤ := 1
abbrev argon2TimeCost : ℤ := 3
abbrev argon2MemoryCost : ℤ := 65536
abbrev argon2Parallelism : ℤ := 4
abbrev argon2HashLen : ℤ := 32
abbrev mlkemSkLen : ℕ := 2400
abbrev mlkemPkLen : ℕ := 1184
abbrev mlkemPkOffset : ℕ := 1152

/-- What one installation of the program runs on: `str.upper`, how floats are printed, the
two KDFs with the parameters as they stand in the file, and the public halves of private keys. -/
structure Runtime where
  upper : String → String
  reprFloat : FloatNumber → String
  argon2Available : Bool
  argon2 : Bytes → Bytes → (timeCost memoryCost parallelism hashLen : Value) → Except PyError Bytes
  scrypt : Bytes → Bytes → (n r p : Value) → Except PyError Bytes
  ed25519Public : Ed25519SigningKey → Ed25519VerifyKey
  x25519Public : X25519PrivKey → X25519PubKey

section Repr

variable (R : Runtime)

mutual

/-- `repr(value)`. -/
def reprValue : Value → String
  | .null => "None"
  | .bool b => if b then "True" else "False"
  | .int n => toString n
  | .float x => R.reprFloat x
  | .str s => reprText s
  | .arr elems => "[" ++ ", ".intercalate (reprElems elems) ++ "]"
  | .obj members => "\x7b" ++ ", ".intercalate (reprMembers members) ++ "\x7d"

def reprElems : List Value → List String
  | [] => []
  | value :: rest => reprValue value :: reprElems rest

def reprMembers : List (String × Value) → List String
  | [] => []
  | (key, value) :: rest => (reprText key ++ ": " ++ reprValue value) :: reprMembers rest

end

end Repr

inductive Passphrase where
  | text (s : String)
  | bytes (b : Bytes)
  deriving DecidableEq

def normalizePassphrase : Passphrase → Bytes
  | .text s => encodeUtf8 s
  | .bytes b => b

/-- A DeviceIdentity as load_identity() fills it: the text fields are whatever the
document holds under their names. -/
structure LoadedIdentity where
  deviceId : Value
  callsign : Value
  rank : Rank
  signingKeypair : Ed25519KeyPair
  encryptKeypair : X25519KeyPair
  kemKeypair : MLKEMKeyPair

def loaded (identity : DeviceIdentity) : LoadedIdentity where
  deviceId := .str identity.deviceId
  callsign := .str identity.callsign
  rank := identity.rank
  signingKeypair := identity.signingKeypair
  encryptKeypair := identity.encryptKeypair
  kemKeypair := identity.kemKeypair

/-- What create_identity() draws: `uuid4()` and three generated key pairs. -/
structure IdentityDraws where
  uuid : String
  signingKey : Ed25519SigningKey
  encryptKey : X25519PrivKey
  kemKeypair : MLKEMKeyPair

/-- What one call of save_identity() draws. -/
structure SaveDraws where
  salt : Fixed 32
  nonce : Nonce
  decoy : IdentityDraws
  duressSalt : Fixed 32
  duressNonce : Nonce

def callsignChars : List Char := "ABCDEFGHIJKLMNOPQRSTUVWXYZ0123456789_-".toList

/-- 1 to 32 characters of [A-Z0-9_-]. -/
def Callsign (s : String) : Prop :=
  1 ≤ s.toList.length ∧ s.toList.length ≤ 32 ∧ ∀ c ∈ s.toList, c ∈ callsignChars

instance (s : String) : Decidable (Callsign s) :=
  have : Decidable (∀ c ∈ s.toList, c ∈ callsignChars) := List.decidableBAll _ s.toList
  inferInstanceAs (Decidable (_ ∧ _ ∧ _))

/-- `_CALLSIGN_RE.match`: the `$` also matches before a newline at the end. -/
def callsignMatches (s : String) : Prop :=
  Callsign s ∨ (s.toList.getLast? = some '\n' ∧ Callsign (String.ofList s.toList.dropLast))

instance (s : String) : Decidable (callsignMatches s) := inferInstanceAs (Decidable (_ ∨ _ ∧ _))

section Keys

/-- The three private keys one after the other. -/
def serializePrivateKeys (identity : LoadedIdentity) : Bytes :=
  identity.signingKeypair.signingKey.raw.toList ++ identity.encryptKeypair.privateKey.raw.toList ++
    identity.kemKeypair.secretKey.raw.toList

def keyField (b : Bytes) (start width : ℕ) (h : start + width ≤ b.length) : Fixed width :=
  ⟨slice b start width, slice_length b start width h⟩

/-- FIPS 203 embeds the public key in the secret key. -/
def embeddedKemPub (secret : MLKEMSecretKey) : MLKEMPublicKey :=
  ⟨keyField secret.raw.toList mlkemPkOffset mlkemPkLen (by rw [List.Vector.toList_length]; decide)⟩

variable (R : Runtime)

/-- The public keys come from the private ones. -/
def deserializePrivateKeys (raw : Bytes) :
    Except PyError (Ed25519KeyPair × X25519KeyPair × MLKEMKeyPair) :=
  if h : raw.length = 32 + 32 + mlkemSkLen then
    let signingKey : Ed25519SigningKey := ⟨keyField raw 0 32 (by rw [h]; decide)⟩
    let privateKey : X25519PrivKey := ⟨keyField raw 32 32 (by rw [h]; decide)⟩
    let secretKey : MLKEMSecretKey := ⟨keyField raw 64 mlkemSkLen (by rw [h])⟩
    .ok (⟨signingKey, R.ed25519Public signingKey⟩, ⟨privateKey, R.x25519Public privateKey⟩,
      ⟨secretKey, embeddedKemPub secretKey⟩)
  else .error (.valueError ("Private key blob has unexpected length: " ++ toString raw.length))

def createIdentity (draws : IdentityDraws) (callsign : String) (rank : Rank) :
    Except PyError DeviceIdentity :=
  if callsignMatches (R.upper callsign) then
    .ok {
      deviceId := draws.uuid
      callsign := R.upper callsign
      rank := rank
      signingKeypair := ⟨draws.signingKey, R.ed25519Public draws.signingKey⟩
      encryptKeypair := ⟨draws.encryptKey, R.x25519Public draws.encryptKey⟩
      kemKeypair := draws.kemKeypair }
  else
    .error (.valueError ("Invalid callsign " ++ reprText (R.upper callsign) ++
      ". Must be 1–32 chars, [A-Z0-9_-] only."))

end Keys

section Wrapping

variable (C : Suite) (R : Runtime)

def kdfName : Value := .str (if R.argon2Available then "argon2id" else "scrypt")

def kdfParams : Value :=
  if R.argon2Available then
    .obj [("time_cost", .int argon2TimeCost), ("memory_cost", .int argon2MemoryCost),
      ("parallelism", .int argon2Parallelism), ("hash_len", .int argon2HashLen)]
  else .obj [("n", .int (2 ^ 17)), ("r", .int 8), ("p", .int 1)]

def deriveWrapKey (passphrase salt : Bytes) : Except PyError Bytes :=
  if R.argon2Available then
    R.argon2 passphrase salt (.int argon2TimeCost) (.int argon2MemoryCost) (.int argon2Parallelism)
      (.int argon2HashLen)
  else R.scrypt passphrase salt (.int (2 ^ 17)) (.int 8) (.int 1)

/-- `value[key]` with a text key. -/
def subscript (value : Value) (key : String) : Except PyError Value :=
  match value with
  | .obj members =>
    match lookup key members with
    | some v => .ok v
    | none => .error .keyError
  | _ => .error .typeError

def deriveWrapKeyFromParams (passphrase salt : Bytes) (kdf params : Value) : Except PyError Bytes :=
  if kdf.string? = some "argon2id" then
    if R.argon2Available then do
      let timeCost ← subscript params "time_cost"
      let memoryCost ← subscript params "memory_cost"
      let parallelism ← subscript params "parallelism"
      let hashLen ← subscript params "hash_len"
      R.argon2 passphrase salt timeCost memoryCost parallelism hashLen
    else .error .runtimeError
  else if kdf.string? = some "scrypt" then do
    let n ← subscript params "n"
    let r ← subscript params "r"
    let p ← subscript params "p"
    R.scrypt passphrase salt n r p
  else .error (.valueError ("unsupported KDF in identity file: " ++ reprValue R kdf))

/-- `ChaCha20Poly1305(key)`. -/
def chachaKey (key : Bytes) : Except PyError (Fixed 32) :=
  if h : key.length = 32 then .ok ⟨key, h⟩
  else .error (.valueError "ChaCha20Poly1305 key must be 32 bytes.")

def encryptKeys (key : Fixed 32) (nonce : Nonce) (blob : Bytes) : Bytes :=
  C.chachaEncrypt key nonce.toList [] blob

/-- `decrypt(nonce, ciphertext, None)`. -/
def decryptKeys (key : Fixed 32) (nonce ciphertext : Bytes) : Except PyError Bytes :=
  if nonce.length = 12 then
    match C.chachaDecrypt key nonce [] ciphertext with
    | some blob => .ok blob
    | none => .error .invalidTag
  else .error (.valueError "Nonce must be 12 bytes")

end Wrapping

section Saving

variable (C : Suite) (R : Runtime)

def rankNumber : Rank → ℤ
  | .command => 1
  | .officer => 2
  | .nco => 3
  | .squad => 4

def encoded (b : Bytes) : Value := .str (b64encode b)

def publicKeys (identity : LoadedIdentity) : Value :=
  .obj [("verify_key", encoded identity.signingKeypair.verifyKey.raw.toList),
    ("encrypt_pub", encoded identity.encryptKeypair.publicKey.raw.toList),
    ("kem_pub", encoded identity.kemKeypair.publicKey.raw.toList)]

/-- The members of every identity file. -/
def identityMembers (identity : LoadedIdentity) (salt : Fixed 32) (nonce : Nonce)
    (encryptedPrivate : Bytes) : Members :=
  [("version", .int identityFileVersion),
    ("device_id", identity.deviceId),
    ("callsign", identity.callsign),
    ("rank", .int (rankNumber identity.rank)),
    ("kdf", kdfName R),
    ("kdf_params", kdfParams R),
    ("salt", encoded salt.toList),
    ("nonce", encoded nonce.toList),
    ("public_keys", publicKeys identity),
    ("encrypted_private_keys", encoded encryptedPrivate)]

/-- The members that a duress passphrase adds. -/
def duressMembers (decoy : LoadedIdentity) (salt : Fixed 32) (nonce : Nonce) (sealed : Bytes) :
    Members :=
  [("duress_salt", encoded salt.toList),
    ("duress_nonce", encoded nonce.toList),
    ("duress_encrypted_keys", encoded sealed),
    ("duress_device_id", decoy.deviceId),
    ("duress_public_keys", publicKeys decoy)]

/-- `create_identity(identity.callsign, identity.rank)`. -/
def createDecoy (draws : IdentityDraws) (identity : LoadedIdentity) :
    Except PyError DeviceIdentity :=
  match identity.callsign with
  | .str callsign => createIdentity R draws callsign identity.rank
  | _ => .error .attributeError

/-- The document that save_identity() writes, if it does not raise before. -/
def saveIdentity (draws : SaveDraws) (identity : LoadedIdentity) (passphrase : Passphrase)
    (duressPassphrase : Option Passphrase) : Except PyError Value := do
  let wrapKey ← deriveWrapKey R (normalizePassphrase passphrase) draws.salt.toList
  let key ← chachaKey wrapKey
  let encryptedPrivate := encryptKeys C key draws.nonce (serializePrivateKeys identity)
  let members := identityMembers R identity draws.salt draws.nonce encryptedPrivate
  match duressPassphrase with
  | none => return .obj members
  | some duress =>
    let decoy ← createDecoy R draws.decoy identity
    let dWrap ← deriveWrapKey R (normalizePassphrase duress) draws.duressSalt.toList
    let dKey ← chachaKey dWrap
    let dCt := encryptKeys C dKey draws.duressNonce (serializePrivateKeys (loaded decoy))
    return .obj (members ++ duressMembers (loaded decoy) draws.duressSalt draws.duressNonce dCt)

end Saving

section Loading

variable (C : Suite) (R : Runtime)

def field (members : Members) (key : String) : Except PyError Value := subscript (.obj members) key

/-- `base64.b64decode`, which takes ASCII text only. -/
def b64decode : Value → Except PyError Bytes
  | .str s =>
    if IsAscii s then
      match decodeChars s.toList with
      | .ok b => .ok b
      | .error .extraCharacter => .error (.valueError "Invalid base64-encoded string")
      | .error .incorrectPadding => .error (.valueError "Incorrect padding")
    else .error (.valueError "string argument should contain only ASCII characters")
  | _ => .error .typeError

def b64Field (members : Members) (key : String) : Except PyError Bytes := do
  b64decode (← field members key)

/-- `Rank(value)`. -/
def rankOf (value : Value) : Except PyError Rank :=
  match value.number? with
  | some number =>
    if number = 1 then .ok .command
    else if number = 2 then .ok .officer
    else if number = 3 then .ok .nco
    else if number = 4 then .ok .squad
    else .error (.valueError "not a valid Rank")
  | none => .error (.valueError "not a valid Rank")

/-- Which of the two sealed blobs the passphrase has opened, and its contents. -/
inductive Unlocked where
  | real (members : Members) (privateBlob : Bytes)
  | duress (members : Members) (decoyBlob : Bytes)

/-- The duress path: both ways of failing are an InvalidTag. -/
def unlockDuress (members : Members) (passphrase : Passphrase) : Except PyError Unlocked :=
  if (lookup "duress_encrypted_keys" members).isNone then .error .invalidTag
  else do
    let dSalt ← b64Field members "duress_salt"
    let dNonce ← b64Field members "duress_nonce"
    let dCt ← b64Field members "duress_encrypted_keys"
    let kdf ← field members "kdf"
    let params ← field members "kdf_params"
    let dWrap ← deriveWrapKeyFromParams R (normalizePassphrase passphrase) dSalt kdf params
    let dKey ← chachaKey dWrap
    return .duress members (← decryptKeys C dKey dNonce dCt)

def unsupportedVersion (members : Members) : PyError :=
  .valueError ("unsupported identity file version: " ++
    reprValue R ((lookup "version" members).getD .null))

/-- load_identity() up to the decrypted keys. -/
def unlock (doc : Value) (passphrase : Passphrase) : Except PyError Unlocked :=
  match doc.members? with
  | none => .error .attributeError
  | some members =>
    if ((lookup "version" members).bind Value.number?) ≠ some 1 then
      .error (unsupportedVersion R members)
    else do
      let salt ← b64Field members "salt"
      let nonce ← b64Field members "nonce"
      let encryptedPrivate ← b64Field members "encrypted_private_keys"
      let kdf ← field members "kdf"
      let params ← field members "kdf_params"
      let wrapKey ← deriveWrapKeyFromParams R (normalizePassphrase passphrase) salt kdf params
      let key ← chachaKey wrapKey
      match decryptKeys C key nonce encryptedPrivate with
      | .ok privateBlob => .ok (.real members privateBlob)
      | .error .invalidTag => unlockDuress C R members passphrase
      | .error e => .error e

def storedKey (members : Members) (name : String) : Except PyError Bytes := do
  b64decode (← subscript (← field members "public_keys") name)

/-- The identity of the private keys, once their public halves match the stored ones. -/
def realIdentity (members : Members) (privateBlob : Bytes) : Except PyError LoadedIdentity := do
  let (edKp, xKp, kemKp) ← deserializePrivateKeys R privateBlob
  let storedVerify ← storedKey members "verify_key"
  let storedEncrypt ← storedKey members "encrypt_pub"
  let storedKemPub ← storedKey members "kem_pub"
  if edKp.verifyKey.raw.toList ≠ storedVerify then
    throw (.valueError "Identity file corrupted: Ed25519 public key mismatch")
  if xKp.publicKey.raw.toList ≠ storedEncrypt then
    throw (.valueError "Identity file corrupted: X25519 public key mismatch")
  if kemKp.publicKey.raw.toList ≠ storedKemPub then
    throw (.valueError "Identity file corrupted: ML-KEM-768 public key mismatch")
  let deviceId ← field members "device_id"
  let callsign ← field members "callsign"
  let rank ← rankOf (← field members "rank")
  return ⟨deviceId, callsign, rank, edKp, xKp, kemKp⟩

def decoyIdentity (members : Members) (decoyBlob : Bytes) : Except PyError LoadedIdentity := do
  let (edKp, xKp, kemKp) ← deserializePrivateKeys R decoyBlob
  let deviceId ← field members "duress_device_id"
  let callsign ← field members "callsign"
  let rank ← rankOf (← field members "rank")
  return ⟨deviceId, callsign, rank, edKp, xKp, kemKp⟩

/-- load_identity(): what it returns or raises, and the file it leaves. -/
def loadIdentity (draws : SaveDraws) (doc : Value) (passphrase : Passphrase) :
    Except PyError LoadedIdentity × Value :=
  match unlock C R doc passphrase with
  | .error e => (.error e, doc)
  | .ok (.real members privateBlob) => (realIdentity R members privateBlob, doc)
  | .ok (.duress members decoyBlob) =>
    match decoyIdentity R members decoyBlob with
    | .error e => (.error e, doc)
    | .ok decoy =>
      match saveIdentity C R draws decoy passphrase none with
      | .error e => (.error e, doc)
      | .ok wiped => (.ok decoy, wiped)

end Loading

end Mesim.IdentityFile
