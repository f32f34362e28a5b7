import Mesim.Crypto
import Mesim.TextCodec

/-!
Device identities and the public bundles nodes show to each other.
A bundle is signed over its fields in a fixed layout; whoever receives one
checks that signature with the verify key the bundle itself carries.
-/
namespace Mesim.Identity

open Octets TextCodec Crypto

/-- Lower number, higher authority. -/
inductive Rank where
  | command
  | officer
  | nco
  | squad
  deriving DecidableEq, Repr

namespace Rank

def toByte : Rank → UInt8
  | .command => 1
  | .officer => 2
  | .nco => 3
  | .squad => 4

def ofByte? (x : UInt8) : Except PyError Rank :=
  if x = 1 then .ok .command
  else if x = 2 then .ok .officer
  else if x = 3 then .ok .nco
  else if x = 4 then .ok .squad
  else .error (.valueError (toString x ++ " is not a valid Rank"))

theorem ofByte_toByte (r : Rank) : ofByte? r.toByte = .ok r := by
  cases r <;> rfl

end Rank

structure DeviceIdentity where
  deviceId : String
  callsign : String
  rank : Rank
  signingKeypair : Ed25519KeyPair
  encryptKeypair : X25519KeyPair
  kemKeypair : MLKEMKeyPair
  deriving DecidableEq

structure PublicBundle where
  deviceId : String
  callsign : String
  rank : Rank
  verifyKey : Ed25519VerifyKey
  encryptPub : X25519PubKey
  kemPub : MLKEMPublicKey
  bundleSig : Bytes
  deriving DecidableEq

/-- Each text field is UTF-8, zero-padded and cut to its width. -/
def canonicalBundleBytes (deviceId callsign : String) (rank : Rank)
    (verifyKey : Ed25519VerifyKey) (encryptPub : X25519PubKey) (kemPub : MLKEMPublicKey) : Bytes :=
  (ljust (encodeUtf8 deviceId) 36 0).take 36 ++
    (ljust (encodeUtf8 callsign) 32 0).take 32 ++
    [rank.toByte] ++ verifyKey.raw.toList ++ encryptPub.raw.toList ++ kemPub.raw.toList

variable (C : Suite)

def getPublicBundle (identity : DeviceIdentity) : PublicBundle :=
  let canon := canonicalBundleBytes identity.deviceId identity.callsign identity.rank
    identity.signingKeypair.verifyKey identity.encryptKeypair.publicKey
    identity.kemKeypair.publicKey
  { deviceId := identity.deviceId
    callsign := identity.callsign
    rank := identity.rank
    verifyKey := identity.signingKeypair.verifyKey
    encryptPub := identity.encryptKeypair.publicKey
    kemPub := identity.kemKeypair.publicKey
    bundleSig := (C.signMessage canon identity.signingKeypair.signingKey).toList }

def verifyPublicBundle (bundle : PublicBundle) : Except PyError Unit :=
  let canon := canonicalBundleBytes bundle.deviceId bundle.callsign bundle.rank
    bundle.verifyKey bundle.encryptPub bundle.kemPub
  C.verifySignature canon bundle.bundleSig bundle.verifyKey

theorem verify_getPublicBundle (identity : DeviceIdentity)
    (h : C.SignCorrect identity.signingKeypair) :
    verifyPublicBundle C (getPublicBundle C identity) = .ok () :=
  C.verify_sign identity.signingKeypair h _

end Mesim.Identity
