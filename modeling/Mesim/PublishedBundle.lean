import Mesim.LoadErrors
import Mesim.Nodes

/-!
Public bundles over the device API.
GET /bundle shows a node's bundle as a JSON object with its keys in base64. A node
that has discovered a peer fetches the object and makes a bundle of whatever it has
received; only an object with all seven fields, with texts for the two names and
keys of the right lengths, becomes one, and connect() checks its signature before it
sends anything.
-/
namespace Mesim.PublishedBundle

open Octets TextCodec Crypto Identity Packet Base64 Json IdentityFile Duress
open Transport Operations Nodes
open MeshTransport
open LoadErrors (subscript_ok_iff)

section Model

variable (C : Suite)

/-- The body of the response to GET /bundle. -/
def getBundle (identity : DeviceIdentity) : Value :=
  let bundle := getPublicBundle C identity
  .obj [("device_id", .str bundle.deviceId),
    ("callsign", .str bundle.callsign),
    ("rank", .int (rankNumber bundle.rank)),
    ("verify_key", encoded bundle.verifyKey.raw.toList),
    ("encrypt_pub", encoded bundle.encryptPub.raw.toList),
    ("kem_pub", encoded bundle.kemPub.raw.toList),
    ("bundle_sig", encoded bundle.bundleSig)]

/-- A PublicBundle as the received object fills it: the names are whatever values it holds. -/
structure FetchedBundle where
  deviceId : Value
  callsign : Value
  rank : Rank
  verifyKey : Ed25519VerifyKey
  encryptPub : X25519PubKey
  kemPub : MLKEMPublicKey
  bundleSig : Bytes

/-- The length check of a key class. -/
def sized (keyClass : String) (width : ℕ) (raw : Bytes) : Except PyError (Fixed width) :=
  if h : raw.length = width then .ok ⟨raw, h⟩
  else
    .error (.valueError (keyClass ++ " must be " ++ toString width ++ " bytes, got " ++
      toString raw.length))

/-- `base64.b64decode(data[name])`. -/
def keyText (data : Value) (name : String) : Except PyError Bytes := do
  b64decode (← subscript data name)

/-- The bundle that `_fetch_and_connect` makes of a response. -/
def fetchedBundle (data : Value) : Except PyError FetchedBundle := do
  let deviceId ← subscript data "device_id"
  let callsign ← subscript data "callsign"
  let rank ← rankOf (← subscript data "rank")
  let verifyKey ← sized "Ed25519VerifyKey" 32 (← keyText data "verify_key")
  let encryptPub ← sized "X25519PubKey" 32 (← keyText data "encrypt_pub")
  let kemPub ← sized "MLKEMPublicKey" mlkemPkLen (← keyText data "kem_pub")
  let bundleSig ← keyText data "bundle_sig"
  return ⟨deviceId, callsign, rank, ⟨verifyKey⟩, ⟨encryptPub⟩, ⟨kemPub⟩, bundleSig⟩

/-- `value.encode("utf-8")` is there for texts only. -/
def text (value : Value) : Except PyError String :=
  match value with
  | .str s => .ok s
  | _ => .error .attributeError

/-- connect() first lays the fields out for the signature, which takes texts for the names. -/
def connectable (data : Value) : Except PyError PublicBundle := do
  let fetched ← fetchedBundle data
  let deviceId ← text fetched.deviceId
  let callsign ← text fetched.callsign
  return ⟨deviceId, callsign, fetched.rank, fetched.verifyKey, fetched.encryptPub, fetched.kemPub,
    fetched.bundleSig⟩

/-- How the request ends: with an exception, no JSON included, or with a status and a value. -/
inductive Reply where
  | failed
  | answered (status : ℕ) (body : Value)

/-- `_fetch_and_connect` from the reply to the first wait of connect(); every exception ends
the task and is shown. -/
def fetchAndConnect (n : Node) (peerAddr : Addr) (reply : Reply) : Node × List Effect :=
  match reply with
  | .failed => (n, [])
  | .answered status body =>
    if status ≠ 200 then (n, [])
    else match connectable body with
      | .error _ => (n, [])
      | .ok bundle => n.connect C peerAddr bundle

end Model

section Parsing

/-- The object holds the text under the name. -/
def HasText (members : Members) (name s : String) : Prop := lookup name members = some (.str s)

/-- The object holds the bytes in base64 under the name. -/
def HasKey (members : Members) (name : String) (raw : Bytes) : Prop :=
  ∃ v, lookup name members = some v ∧ b64decode v = .ok raw

/-- The object spells out the bundle. -/
structure Spells (members : Members) (bundle : PublicBundle) : Prop where
  deviceId : HasText members "device_id" bundle.deviceId
  callsign : HasText members "callsign" bundle.callsign
  rank : ∃ v, lookup "rank" members = some v ∧ rankOf v = .ok bundle.rank
  verifyKey : HasKey members "verify_key" bundle.verifyKey.raw.toList
  encryptPub : HasKey members "encrypt_pub" bundle.encryptPub.raw.toList
  kemPub : HasKey members "kem_pub" bundle.kemPub.raw.toList
  bundleSig : HasKey members "bundle_sig" bundle.bundleSig

theorem keyText_ok_iff {members : Members} {name : String} {raw : Bytes} :
    keyText (.obj members) name = .ok raw ↔ HasKey members name raw := by
  rw [keyText, bind_ok_iff]
  constructor
  · rintro ⟨v, hv, hraw⟩
    obtain ⟨members', heq, hlookup⟩ := subscript_ok_iff.mp hv
    cases heq
    exact ⟨v, hlookup, hraw⟩
  · rintro ⟨v, hlookup, hraw⟩
    exact ⟨v, subscript_ok_iff.mpr ⟨members, rfl, hlookup⟩, hraw⟩

theorem sized_ok_iff {keyClass : String} {width : ℕ} {raw : Bytes} {key : Fixed width} :
    sized keyClass width raw = .ok key ↔ raw = key.toList := by
  unfold sized
  split
  · rename_i h
    constructor
    · intro heq
      cases heq
      rfl
    · rintro rfl
      rfl
  · rename_i h
    constructor
    · intro heq
      contradiction
    · rintro rfl
      exact absurd key.toList_length h

theorem text_ok_iff {v : Value} {s : String} : text v = .ok s ↔ v = .str s := by
  cases v with
  | str s' => simp [text]
  | null | bool _ | int _ | float _ | arr _ | obj _ => simp [text]

/-- A response becomes a bundle exactly when it is an object that spells the bundle out. -/
theorem connectable_iff (data : Value) (bundle : PublicBundle) :
    connectable data = .ok bundle ↔ ∃ members, data = .obj members ∧ Spells members bundle := by
  constructor
  · intro h
    obtain ⟨fetched, hfetched, h⟩ := bind_ok_iff.mp h
    obtain ⟨deviceId, hdevice, h⟩ := bind_ok_iff.mp h
    obtain ⟨callsign, hcallsign, h⟩ := bind_ok_iff.mp h
    obtain ⟨idValue, hidValue, hfetched⟩ := bind_ok_iff.mp hfetched
    obtain ⟨callsignValue, hcallsignValue, hfetched⟩ := bind_ok_iff.mp hfetched
    obtain ⟨rankValue, hrankValue, hfetched⟩ := bind_ok_iff.mp hfetched
    obtain ⟨rank, hrank, hfetched⟩ := bind_ok_iff.mp hfetched
    obtain ⟨verifyRaw, hverifyRaw, hfetched⟩ := bind_ok_iff.mp hfetched
    obtain ⟨verifyKey, hverify, hfetched⟩ := bind_ok_iff.mp hfetched
    obtain ⟨encryptRaw, hencryptRaw, hfetched⟩ := bind_ok_iff.mp hfetched
    obtain ⟨encryptPub, hencrypt, hfetched⟩ := bind_ok_iff.mp hfetched
    obtain ⟨kemRaw, hkemRaw, hfetched⟩ := bind_ok_iff.mp hfetched
    obtain ⟨kemPub, hkem, hfetched⟩ := bind_ok_iff.mp hfetched
    obtain ⟨bundleSig, hsig, hfetched⟩ := bind_ok_iff.mp hfetched
    cases hfetched
    cases h
    obtain ⟨members, rfl, hlookup⟩ := subscript_ok_iff.mp hidValue
    have hmember : ∀ {name : String} {v : Value}, subscript (.obj members) name = .ok v →
        lookup name members = some v := by
      intro name v hv
      obtain ⟨members', heq, hfound⟩ := subscript_ok_iff.mp hv
      cases heq
      exact hfound
    refine ⟨members, rfl, ⟨?_, ?_, ⟨rankValue, hmember hrankValue, hrank⟩, ?_, ?_, ?_,
      keyText_ok_iff.mp hsig⟩⟩
    · exact hlookup.trans (congrArg some (text_ok_iff.mp hdevice))
    · exact (hmember hcallsignValue).trans (congrArg some (text_ok_iff.mp hcallsign))
    · exact keyText_ok_iff.mp (by rw [hverifyRaw, sized_ok_iff.mp hverify])
    · exact keyText_ok_iff.mp (by rw [hencryptRaw, sized_ok_iff.mp hencrypt])
    · exact keyText_ok_iff.mp (by rw [hkemRaw, sized_ok_iff.mp hkem])
  · rintro ⟨members, rfl, h⟩
    obtain ⟨rankValue, hrankValue, hrank⟩ := h.rank
    have hmember : ∀ {name : String} {v : Value}, lookup name members = some v →
        subscript (.obj members) name = .ok v :=
      fun hfound => subscript_ok_iff.mpr ⟨members, rfl, hfound⟩
    refine bind_ok_iff.mpr ⟨⟨.str bundle.deviceId, .str bundle.callsign, bundle.rank,
      bundle.verifyKey, bundle.encryptPub, bundle.kemPub, bundle.bundleSig⟩, ?_, rfl⟩
    rw [fetchedBundle, hmember h.deviceId, ok_bind, hmember h.callsign, ok_bind, hmember hrankValue,
      ok_bind, hrank, ok_bind, keyText_ok_iff.mpr h.verifyKey, ok_bind, sized_ok_iff.mpr rfl, ok_bind,
      keyText_ok_iff.mpr h.encryptPub, ok_bind, sized_ok_iff.mpr rfl, ok_bind,
      keyText_ok_iff.mpr h.kemPub, ok_bind, sized_ok_iff.mpr rfl, ok_bind,
      keyText_ok_iff.mpr h.bundleSig, ok_bind]
    rfl

end Parsing

section Results

variable (C : Suite)

theorem spells_getBundle (identity : DeviceIdentity) :
    ∃ members, getBundle C identity = .obj members ∧
      Spells members (getPublicBundle C identity) := by
  have hkey : ∀ raw : Bytes, b64decode (encoded raw) = .ok raw := b64decode_encoded
  exact ⟨_, rfl, ⟨rfl, rfl, ⟨_, rfl, rankOf_rankNumber _⟩, ⟨_, rfl, hkey _⟩, ⟨_, rfl, hkey _⟩,
    ⟨_, rfl, hkey _⟩, ⟨_, rfl, hkey _⟩⟩⟩

/-- What a node publishes is read back as its public bundle. -/
theorem connectable_getBundle (identity : DeviceIdentity) :
    connectable (getBundle C identity) = .ok (getPublicBundle C identity) :=
  (connectable_iff _ _).mpr (spells_getBundle C identity)

/-- Before its signature is checked a bundle does nothing, and then it is for one address. -/
theorem connect_cases (n : Node) (peerAddr : Addr) (bundle : PublicBundle) :
    ((n.connect C peerAddr bundle).1.transport = n.transport ∧
        (n.connect C peerAddr bundle).2 = []) ∨
      (verifyPublicBundle C bundle = .ok () ∧
        ∀ e ∈ (n.connect C peerAddr bundle).2, ∃ wire, e = .sendto wire peerAddr) := by
  have hbegun := connectBegin_begun C n.transport peerAddr bundle
  have htransport : (n.connect C peerAddr bundle).1.transport =
    (connectBegin C n.transport peerAddr bundle).state := rfl
  have heffects : (n.connect C peerAddr bundle).2 =
    (connectBegin C n.transport peerAddr bundle).effects := rfl
  rw [htransport, heffects]
  generalize connectBegin C n.transport peerAddr bundle = out at hbegun
  cases hbegun with
  | rejected e hverify => exact Or.inl ⟨rfl, rfl⟩
  | unsent e hverify =>
    refine Or.inr ⟨hverify, ?_⟩
    intro e he
    cases he
  | sent wire hverify hwire =>
    refine Or.inr ⟨hverify, ?_⟩
    intro e he
    unfold sendRaw at he
    split at he
    · exact ⟨_, List.mem_singleton.mp he⟩
    · cases he

/-- Whatever answers in a peer's place, the node opens no handshake and sends nothing unless
the answer is an object with status 200 that spells out a bundle with a valid signature, and
then it sends to the discovered address alone. -/
theorem fetched_bundle_verified (n : Node) (peerAddr : Addr) (reply : Reply) :
    let out := fetchAndConnect C n peerAddr reply
    (out.1.transport = n.transport ∧ out.2 = []) ∨
      ((∃ members bundle, reply = .answered 200 (.obj members) ∧ Spells members bundle ∧
          verifyPublicBundle C bundle = .ok () ∧ out = n.connect C peerAddr bundle) ∧
        ∀ e ∈ out.2, ∃ wire, e = .sendto wire peerAddr) := by
  intro out
  cases reply with
  | failed => exact Or.inl ⟨rfl, rfl⟩
  | answered status body =>
    by_cases hstatus : status = 200
    · subst hstatus
      cases hbundle : connectable body with
      | error e =>
        have hout : out = (n, []) := by
          simp only [out, fetchAndConnect, hbundle, ne_eq, not_true_eq_false, if_false]
        rw [hout]
        exact Or.inl ⟨rfl, rfl⟩
      | ok bundle =>
        have hout : out = n.connect C peerAddr bundle := by
          simp only [out, fetchAndConnect, hbundle, ne_eq, not_true_eq_false, if_false]
        obtain ⟨members, rfl, hspells⟩ := (connectable_iff body bundle).mp hbundle
        rcases connect_cases C n peerAddr bundle with ⟨hsame, hquiet⟩ | ⟨hverify, heffects⟩
        · rw [hout]
          exact Or.inl ⟨hsame, hquiet⟩
        · exact Or.inr ⟨⟨members, bundle, rfl, hspells, hverify, hout⟩, hout ▸ heffects⟩
    · have hout : out = (n, []) := if_pos hstatus
      rw [hout]
      exact Or.inl ⟨rfl, rfl⟩

end Results

end Mesim.PublishedBundle
