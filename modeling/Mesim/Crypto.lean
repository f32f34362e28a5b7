import Mesim.Octets

/-!
Cryptographic primitives and the functions built directly on them.
Ed25519, X25519, ML-KEM-768, HKDF-SHA256, ChaCha20-Poly1305 and HMAC come from
third-party libraries; a `Suite` is what the program sees of them, with the
documented output lengths. What else the program relies on is stated as
separate laws, so that each result names the ones it uses. The liboqs library
is taken as present.
-/
namespace Mesim.Crypto

open Octets

/-- The exceptions the modelled code raises or lets through. -/
inductive PyError where
  | valueError (msg : String)
  | unicodeError
  | structError
  | keyError
  | overflowError (msg : String)
  | invalidSignature
  | invalidTag
  | typeError
  | attributeError
  | runtimeError
  | hashingError
  | programmingError
  | markupError
  deriving DecidableEq, Repr

/-- UnicodeEncodeError and UnicodeDecodeError are subclasses of ValueError;
struct.error is not. -/
def PyError.isValueError : PyError → Bool
  | .valueError _ => true
  | .unicodeError => true
  | _ => false

theorem ok_bind {α β : Type} (a : α) (f : α → Except PyError β) :
    (Except.ok a : Except PyError α) >>= f = f a := rfl

theorem bind_ok_iff {α β : Type} {x : Except PyError α} {f : α → Except PyError β} {b : β} :
    x >>= f = .ok b ↔ ∃ a, x = .ok a ∧ f a = .ok b := by
  cases x with
  | error e =>
    constructor
    · intro h
      cases h
    · rintro ⟨_, h, _⟩
      cases h
  | ok a =>
    constructor
    · intro h
      exact ⟨a, rfl, h⟩
    · rintro ⟨a', ha, h⟩
      cases ha
      exact h

structure Ed25519SigningKey where
  raw : Fixed 32
  deriving DecidableEq

structure Ed25519VerifyKey where
  raw : Fixed 32
  deriving DecidableEq

structure Ed25519KeyPair where
  signingKey : Ed25519SigningKey
  verifyKey : Ed25519VerifyKey
  deriving DecidableEq

structure X25519PrivKey where
  raw : Fixed 32
  deriving DecidableEq

structure X25519PubKey where
  raw : Fixed 32
  deriving DecidableEq

structure X25519KeyPair where
  privateKey : X25519PrivKey
  publicKey : X25519PubKey
  deriving DecidableEq

structure MLKEMSecretKey where
  raw : Fixed 2400
  deriving DecidableEq

structure MLKEMPublicKey where
  raw : Fixed 1184
  deriving DecidableEq

structure MLKEMKeyPair where
  secretKey : MLKEMSecretKey
  publicKey : MLKEMPublicKey
  deriving DecidableEq

structure KEMEncapResult where
  ciphertext : Fixed 1088
  sharedSecret : Fixed 32
  deriving DecidableEq

structure SessionKey where
  raw : Fixed 32
  deriving DecidableEq

abbrev Nonce := Fixed 12

abbrev mlkemCtLen : ℕ := 1088

/-- The third-party primitives. `x25519Exchange` answers `none` where the
library rejects an all-zero shared secret with a ValueError; `mlkemDecap` is
total, since ML-KEM decapsulation rejects implicitly. -/
structure Suite where
  ed25519Sign : Ed25519SigningKey → Bytes → Fixed 64
  ed25519Verify : Ed25519VerifyKey → Bytes → Bytes → Bool
  x25519Exchange : X25519PrivKey → X25519PubKey → Option (Fixed 32)
  mlkemEncap : MLKEMPublicKey → Fixed 32 → Fixed 1088 × Fixed 32
  mlkemDecap : MLKEMSecretKey → Fixed 1088 → Fixed 32
  hkdf : Bytes → Fixed 32
  chachaEncrypt : Fixed 32 → Bytes → Bytes → Bytes → Bytes
  chachaDecrypt : Fixed 32 → Bytes → Bytes → Bytes → Option Bytes
  chacha_length : ∀ key nonce aad plaintext,
    (chachaEncrypt key nonce aad plaintext).length = plaintext.length + 16
  hmacSha256 : Fixed 32 → Bytes → Fixed 32

namespace Suite

variable (C : Suite)

/-- Decryption with the encrypting key, nonce and associated data succeeds. -/
def AeadCorrect : Prop := ∀ key nonce aad plaintext,
  C.chachaDecrypt key nonce aad (C.chachaEncrypt key nonce aad plaintext) = some plaintext

/-- A signature made with the pair's signing key verifies under its verify key. -/
def SignCorrect (pair : Ed25519KeyPair) : Prop := ∀ message,
  C.ed25519Verify pair.verifyKey message (C.ed25519Sign pair.signingKey message).toList = true

/-- Both ends of an X25519 exchange succeed with the same shared secret. -/
def DhCorrect (ours theirs : X25519KeyPair) : Prop := ∃ secret,
  C.x25519Exchange ours.privateKey theirs.publicKey = some secret ∧
  C.x25519Exchange theirs.privateKey ours.publicKey = some secret

/-- Decapsulating an honest ciphertext gives the encapsulated secret. -/
def KemCorrect (pair : MLKEMKeyPair) : Prop := ∀ seed,
  C.mlkemDecap pair.secretKey (C.mlkemEncap pair.publicKey seed).1 =
    (C.mlkemEncap pair.publicKey seed).2

/-- The info string and the absent salt are constants of the program, so the
derivation is a function of the two shared secrets. -/
def deriveSessionKey (x25519SharedSecret mlkemSharedSecret : Fixed 32) : SessionKey :=
  ⟨C.hkdf (x25519SharedSecret.toList ++ mlkemSharedSecret.toList)⟩

def kemEncapsulate (seed : Fixed 32) (peerX25519Pub : X25519PubKey)
    (peerMlkemPub : MLKEMPublicKey) (ourX25519Priv : X25519PrivKey) :
    Except PyError (KEMEncapResult × SessionKey) :=
  match C.x25519Exchange ourX25519Priv peerX25519Pub with
  | none => .error (.valueError "Error computing shared key.")
  | some x25519Ss =>
    let (mlkemCt, mlkemSs) := C.mlkemEncap peerMlkemPub seed
    .ok (⟨mlkemCt, mlkemSs⟩, C.deriveSessionKey x25519Ss mlkemSs)

def kemDecapsulate (kemCiphertext : Fixed 1088) (initiatorX25519Pub : X25519PubKey)
    (ourX25519Priv : X25519PrivKey) (ourMlkemSecret : MLKEMSecretKey) :
    Except PyError SessionKey :=
  match C.x25519Exchange ourX25519Priv initiatorX25519Pub with
  | none => .error (.valueError "Error computing shared key.")
  | some x25519Ss =>
    .ok (C.deriveSessionKey x25519Ss (C.mlkemDecap ourMlkemSecret kemCiphertext))

/-- The nonce is drawn by the caller, as os.urandom(12) inside the source function. -/
def encryptMessage (nonce : Nonce) (plaintext : Bytes) (sessionKey : SessionKey)
    (aad : Bytes) : Bytes × Bytes :=
  (nonce.toList, C.chachaEncrypt sessionKey.raw nonce.toList aad plaintext)

def decryptMessage (nonce ciphertext : Bytes) (sessionKey : SessionKey) (aad : Bytes) :
    Except PyError Bytes :=
  if nonce.length = 12 then
    match C.chachaDecrypt sessionKey.raw nonce aad ciphertext with
    | some plaintext => .ok plaintext
    | none => .error .invalidTag
  else .error (.valueError "Nonce must be 12 bytes")

def signMessage (message : Bytes) (signingKey : Ed25519SigningKey) : Fixed 64 :=
  C.ed25519Sign signingKey message

def verifySignature (message signature : Bytes) (verifyKey : Ed25519VerifyKey) :
    Except PyError Unit :=
  if C.ed25519Verify verifyKey message signature then .ok () else .error .invalidSignature

theorem decrypt_encrypt (h : C.AeadCorrect) (nonce : Nonce) (plaintext : Bytes)
    (key : SessionKey) (aad : Bytes) :
    C.decryptMessage nonce.toList (C.encryptMessage nonce plaintext key aad).2 key aad =
      .ok plaintext := by
  have hlen : nonce.toList.length = 12 := nonce.toList_length
  simp only [decryptMessage, encryptMessage, hlen, if_true, h key.raw nonce.toList aad plaintext]

/-- With a nonce of the right length, a wrong tag is the only way to fail. -/
theorem decryptMessage_error (nonce ciphertext : Bytes) (key : SessionKey) (aad : Bytes)
    (e : PyError) (hnonce : nonce.length = 12)
    (h : C.decryptMessage nonce ciphertext key aad = .error e) : e = .invalidTag := by
  simp only [decryptMessage, if_pos hnonce] at h
  split at h
  · contradiction
  · exact (Except.error.inj h).symm

theorem verify_sign (pair : Ed25519KeyPair) (h : C.SignCorrect pair) (message : Bytes) :
    C.verifySignature message (C.signMessage message pair.signingKey).toList pair.verifyKey =
      .ok () := by
  simp only [verifySignature, signMessage, h message, if_true]

theorem verifySignature_ok_iff (message signature : Bytes) (key : Ed25519VerifyKey) :
    C.verifySignature message signature key = .ok () ↔
      C.ed25519Verify key message signature = true := by
  unfold verifySignature
  split <;> simp_all

/-- Decapsulating the peer's ciphertext derives the key the peer derived. -/
theorem decapsulate_encapsulate (seed : Fixed 32) (ours theirs : X25519KeyPair)
    (kem : MLKEMKeyPair) (hdh : C.DhCorrect ours theirs) (hkem : C.KemCorrect kem) :
    ∃ result key, C.kemEncapsulate seed theirs.publicKey kem.publicKey ours.privateKey =
        .ok (result, key) ∧
      C.kemDecapsulate result.ciphertext ours.publicKey theirs.privateKey kem.secretKey =
        .ok key := by
  obtain ⟨secret, hours, htheirs⟩ := hdh
  refine ⟨⟨(C.mlkemEncap kem.publicKey seed).1, (C.mlkemEncap kem.publicKey seed).2⟩,
    C.deriveSessionKey secret (C.mlkemEncap kem.publicKey seed).2, ?_, ?_⟩
  · simp only [kemEncapsulate, hours]
  · simp only [kemDecapsulate, htheirs, hkem seed]

end Suite

section Stub

/-- A checksum of a byte string, in the given number of bytes. -/
def checksum (width : ℕ) (b : Bytes) : Fixed width :=
  ⟨packBE width (unpackBE b + b.length), packBE_length width _⟩

def xorBytes (a b : Fixed 32) : Fixed 32 := List.Vector.map₂ (· ^^^ ·) a b

theorem xorBytes_comm (a b : Fixed 32) : xorBytes a b = xorBytes b a := by
  obtain ⟨a, ha⟩ := a
  obtain ⟨b, hb⟩ := b
  apply Subtype.ext
  exact List.zipWith_comm_of_comm (fun x y => UInt8.xor_comm x y)

theorem slice_ciphertext_length (ciphertext : Fixed 1088) :
    (slice ciphertext.toList 0 32).length = 32 :=
  slice_length _ _ _ (by rw [ciphertext.toList_length]; omega)

theorem ljust_slice_length (b : Bytes) : (ljust (slice b 32 32) 32 0).length = 32 :=
  ljust_length _ _ _ (by rw [slice, List.length_take]; omega)

/-- An insecure suite that computes: signatures and tags are checksums, public
keys repeat the private ones. It satisfies the laws, which are therefore
consistent, and evaluates on concrete inputs. -/
def stub : Suite where
  ed25519Sign key message := key.raw ++ checksum 32 message
  ed25519Verify key message signature :=
    signature = (key.raw ++ checksum 32 message).toList
  x25519Exchange priv pub := some (xorBytes priv.raw pub.raw)
  mlkemEncap _ seed := (seed ++ List.Vector.replicate 1056 (0 : UInt8), seed)
  mlkemDecap _ ciphertext := ⟨slice ciphertext.toList 0 32, slice_ciphertext_length ciphertext⟩
  hkdf b := ⟨ljust (slice b 32 32) 32 0, ljust_slice_length b⟩
  chachaEncrypt key nonce aad plaintext :=
    plaintext ++ (checksum 16 (nonce ++ aad ++ plaintext ++ key.toList)).toList
  chachaDecrypt key nonce aad ciphertext :=
    let plaintext := ciphertext.take (ciphertext.length - 16)
    if ciphertext.drop (ciphertext.length - 16) =
        (checksum 16 (nonce ++ aad ++ plaintext ++ key.toList)).toList
    then some plaintext else none
  chacha_length key nonce aad plaintext := by
    simp only [List.length_append, List.Vector.toList_length]
  hmacSha256 key message :=
    checksum 16 (key.toList ++ message) ++ checksum 16 message

theorem stub_aeadCorrect : stub.AeadCorrect := by
  intro key nonce aad plaintext
  have hlen : (plaintext ++ (checksum 16 (nonce ++ aad ++ plaintext ++ key.toList)).toList).length
      - 16 = plaintext.length := by
    simp only [List.length_append, List.Vector.toList_length]
    omega
  simp only [stub, hlen, List.take_left, List.drop_left, if_true]

theorem stub_signCorrect (key : Fixed 32) : stub.SignCorrect ⟨⟨key⟩, ⟨key⟩⟩ := by
  intro message
  exact decide_eq_true rfl

theorem stub_dhCorrect (a b : Fixed 32) :
    stub.DhCorrect ⟨⟨a⟩, ⟨a⟩⟩ ⟨⟨b⟩, ⟨b⟩⟩ :=
  ⟨xorBytes a b, rfl, congrArg some (xorBytes_comm b a)⟩

theorem stub_kemCorrect (pair : MLKEMKeyPair) : stub.KemCorrect pair := by
  intro seed
  apply Subtype.ext
  show slice (seed ++ List.Vector.replicate 1056 (0 : UInt8)).toList 0 32 = seed.toList
  rw [List.Vector.toList_append]
  exact slice_append_left _ _ _ seed.toList_length

/-- The stub's session key is the KEM secret. -/
theorem stub_deriveSessionKey (x25519Ss mlkemSs : Fixed 32) :
    stub.deriveSessionKey x25519Ss mlkemSs = ⟨mlkemSs⟩ := by
  refine congrArg SessionKey.mk (Subtype.ext ?_)
  show ljust (slice (x25519Ss.toList ++ mlkemSs.toList) 32 32) 32 0 = mlkemSs.toList
  rw [slice_append_right _ _ _ _ (Nat.le_of_eq x25519Ss.toList_length), x25519Ss.toList_length,
    Nat.sub_self, slice_self _ _ (Nat.le_of_eq mlkemSs.toList_length),
    ljust_eq_self _ _ _ (Nat.le_of_eq mlkemSs.toList_length.symm)]

theorem stub_kemDecapsulate (ciphertext : Fixed 1088) (pub : X25519PubKey) (priv : X25519PrivKey)
    (secret : MLKEMSecretKey) :
    stub.kemDecapsulate ciphertext pub priv secret =
      .ok ⟨stub.mlkemDecap secret ciphertext⟩ :=
  congrArg Except.ok (stub_deriveSessionKey (xorBytes priv.raw pub.raw) _)

theorem stub_kemEncapsulate (seed : Fixed 32) (pub : X25519PubKey) (kemPub : MLKEMPublicKey)
    (priv : X25519PrivKey) :
    stub.kemEncapsulate seed pub kemPub priv =
      .ok (⟨(stub.mlkemEncap kemPub seed).1, seed⟩, ⟨seed⟩) := by
  rw [← stub_deriveSessionKey (xorBytes priv.raw pub.raw) seed]
  rfl

end Stub

end Mesim.Crypto
