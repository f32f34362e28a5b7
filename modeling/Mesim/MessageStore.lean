import Mesim.IdTable
import Mesim.IdentityFile
import Mathlib.Algebra.Order.Ring.Rat

/-!
The message store.
A database file with a salt and a key check beside a table of encrypted messages.
open() derives the key from the passphrase and, when the file is not new, compares
its key check. An int that is handed to SQLite must fit in 64 bits; the ids and times
that SQLite keeps are taken as unbounded and exact.
-/
namespace Mesim

open Octets TextCodec Crypto Base64 Json IdentityFile

namespace MessageStore

structure Row where
  id : ℕ
  peerId : String
  direction : String
  ciphertext : Bytes
  timestamp : ℚ
  delivered : Bool
  deriving DecidableEq

/-- The values of the meta table; the text of `kdf_params` is the JSON value it holds. -/
structure MetaTable where
  kdfSalt : Option String
  kdfParams : Option Value
  keyCheck : Option String
  version : Option String

structure Database where
  metaTable : MetaTable
  messages : IdTable Row.id

/-- The file that open() creates. -/
def Database.new : Database := ⟨⟨none, none, none, none⟩, .empty⟩

/-- What identity files run on, and HMAC-SHA256 with keys of any length. -/
structure StoreRuntime extends Runtime where
  hmacSha256 : Bytes → Bytes → Fixed 32

end MessageStore

open MessageStore

structure StoredMessage where
  id : ℕ
  peerId : String
  direction : String
  plaintext : Bytes
  timestamp : ℚ
  delivered : Bool
  deriving DecidableEq

/-- The store object, with the file it works on. -/
structure MessageStore where
  passphrase : Bytes
  key : Option Bytes
  isOpen : Bool
  db : Database

namespace MessageStore

section Keys

variable (R : StoreRuntime)

def keyCheckInfo : Bytes := "mesim-store-v1".toList.map fun c => UInt8.ofNat c.toNat

/-- `_derive_key`: the parameters are those of the identity file. -/
def deriveKey (passphrase salt : Bytes) : Except PyError Bytes :=
  deriveWrapKey R.toRuntime passphrase salt

def storeKdfParams : Value :=
  if R.argon2Available then
    .obj [("alg", .str "argon2id"), ("time_cost", .int argon2TimeCost),
      ("memory_cost", .int argon2MemoryCost), ("parallelism", .int argon2Parallelism),
      ("hash_len", .int argon2HashLen)]
  else .obj [("alg", .str "scrypt"), ("n", .int (2 ^ 17)), ("r", .int 8), ("p", .int 1)]

def deriveKeyFromParams (passphrase salt : Bytes) (params : Value) : Except PyError Bytes :=
  match params.members? with
  | none => .error .attributeError
  | some members =>
    let alg := (lookup "alg" members).getD (.str "argon2id")
    if alg.string? = some "argon2id" then
      if R.argon2Available then do
        let timeCost ← subscript params "time_cost"
        let memoryCost ← subscript params "memory_cost"
        let parallelism ← subscript params "parallelism"
        let hashLen ← subscript params "hash_len"
        R.argon2 passphrase salt timeCost memoryCost parallelism hashLen
      else .error .runtimeError
    else if alg.string? = some "scrypt" then do
      let n ← subscript params "n"
      let r ← subscript params "r"
      let p ← subscript params "p"
      R.scrypt passphrase salt n r p
    else .error (.valueError ("unsupported KDF: " ++ reprValue R.toRuntime alg))

/-- `_key_check`. -/
def checkOf (key : Bytes) : Fixed 32 := R.hmacSha256 key keyCheckInfo

end Keys

section Cipher

variable (C : Suite)

def encrypt (key : Bytes) (nonce : Nonce) (plaintext : Bytes) : Except PyError Bytes := do
  let key ← chachaKey key
  return nonce.toList ++ encryptKeys C key nonce plaintext

def decrypt (key blob : Bytes) : Except PyError Bytes := do
  let key ← chachaKey key
  decryptKeys C key (blob.take 12) (blob.drop 12)

end Cipher

section Lifecycle

variable (R : StoreRuntime)

def init (passphrase : Passphrase) (db : Database) : MessageStore where
  passphrase := normalizePassphrase passphrase
  key := none
  isOpen := false
  db := db

/-- The key of a file that is not new, and the key check stored in it. -/
def reopenKey (passphrase : Bytes) (saltB64 : String) (metaTable : MetaTable) :
    Except PyError (Bytes × Bytes) := do
  let salt ← b64decode (.str saltB64)
  let key ← deriveKeyFromParams R passphrase salt (metaTable.kdfParams.getD (.obj []))
  let storedCheck ← b64decode (.str (metaTable.keyCheck.getD ""))
  return (key, storedCheck)

def newMeta (salt : Fixed 32) (key : Bytes) : MetaTable where
  kdfSalt := some (b64encode salt.toList)
  kdfParams := some (storeKdfParams R)
  keyCheck := some (b64encode (checkOf R key).toList)
  version := some "1"

/-- open(), drawing the salt of a new file. -/
def openFile (s : MessageStore) (salt : Fixed 32) : Except PyError Unit × MessageStore :=
  if s.isOpen then (.ok (), s)
  else
    match s.db.metaTable.kdfSalt with
    | none =>
      match deriveKey R s.passphrase salt.toList with
      | .error e => (.error e, { s with isOpen := true })
      | .ok key => (.ok (), ⟨s.passphrase, some key, true, ⟨newMeta R salt key, s.db.messages⟩⟩)
    | some saltB64 =>
      match reopenKey R s.passphrase saltB64 s.db.metaTable with
      | .error e => (.error e, { s with isOpen := true })
      | .ok (key, storedCheck) =>
        if (checkOf R key).toList = storedCheck then
          (.ok (), { s with isOpen := true, key := some key })
        else (.error .invalidTag, s)

def close (s : MessageStore) : MessageStore := { s with isOpen := false, key := none }

def assertOpen (s : MessageStore) : Except PyError Bytes :=
  match s.key with
  | some key => if s.isOpen then .ok key else .error .runtimeError
  | none => .error .runtimeError

end Lifecycle

section Operations

variable (C : Suite) (s : MessageStore)

def validDirection (direction : String) : Prop := direction = "sent" ∨ direction = "recv"

instance (direction : String) : Decidable (validDirection direction) :=
  inferInstanceAs (Decidable (_ ∨ _))

def withMessages (messages : IdTable Row.id) : MessageStore :=
  { s with db := ⟨s.db.metaTable, messages⟩ }

def invalidDirection (direction : String) : PyError :=
  .valueError ("direction must be 'sent' or 'recv', got " ++ reprText direction)

/-- Returns the row id. -/
def saveMessage (now : ℚ) (nonce : Nonce) (peerId direction : String) (plaintext : Bytes)
    (timestamp : Option ℚ) : Except PyError ℕ × MessageStore :=
  if ¬ validDirection direction then
    (.error (invalidDirection direction), s)
  else
    match s.assertOpen with
    | .error e => (.error e, s)
    | .ok key =>
      match encrypt C key nonce plaintext with
      | .error e => (.error e, s)
      | .ok blob =>
        (.ok s.db.messages.nextId, s.withMessages (s.db.messages.insert
          (fun id => ⟨id, peerId, direction, blob, timestamp.getD now, false⟩) fun _ => rfl))

/-- `WHERE peer_id=?`, with `AND id<?` when there is a bound. -/
def isListed (peerId : String) (beforeId : Option ℤ) (row : Row) : Bool :=
  row.peerId = peerId && beforeId.all fun bound => (row.id : ℤ) < bound

/-- `LIMIT`: a negative one is none. -/
def limited {α : Type} (limit : ℤ) (rows : List α) : List α :=
  if limit < 0 then rows else rows.take limit.toNat

/-- The ints that SQLite has room for. -/
def Fits (n : ℤ) : Prop := -2 ^ 63 ≤ n ∧ n < 2 ^ 63

instance (n : ℤ) : Decidable (Fits n) := inferInstanceAs (Decidable (_ ∧ _))

/-- What sqlite3 makes of an int. -/
def bindInt (n : ℤ) : Except PyError ℤ :=
  if Fits n then .ok n
  else .error (.overflowError "Python int too large to convert to SQLite INTEGER")

/-- The id of `AND id<?`, when there is one. -/
def bindBound : Option ℤ → Except PyError (Option ℤ)
  | none => .ok none
  | some bound => (bindInt bound).map some

/-- The rows as messages, up to the first one that does not decrypt. -/
def readRows (key : Bytes) : List Row → Except PyError (List StoredMessage)
  | [] => .ok []
  | row :: rest => do
    let plaintext ← decrypt C key row.ciphertext
    let messages ← readRows key rest
    return ⟨row.id, row.peerId, row.direction, plaintext, row.timestamp, row.delivered⟩ :: messages

def getHistory (peerId : String) (limit : ℤ) (beforeId : Option ℤ) :
    Except PyError (List StoredMessage) := do
  let key ← s.assertOpen
  let beforeId ← bindBound beforeId
  let limit ← bindInt limit
  readRows C key (limited limit (s.db.messages.select Row.timestamp (isListed peerId beforeId)))

def deliver (msgId : ℤ) (row : Row) : Row :=
  if (row.id : ℤ) = msgId then { row with delivered := true } else row

theorem id_deliver (msgId : ℤ) (row : Row) : (deliver msgId row).id = row.id := by
  unfold deliver
  split <;> rfl

def markDelivered (msgId : ℤ) : Except PyError Unit × MessageStore :=
  match s.assertOpen with
  | .error e => (.error e, s)
  | .ok _ =>
    match bindInt msgId with
    | .error e => (.error e, s)
    | .ok msgId =>
      (.ok (), s.withMessages (s.db.messages.update (deliver msgId) (id_deliver msgId)))

/-- Returns the number of rows deleted. -/
def purgeOld (now maxAgeSeconds : ℚ) : Except PyError ℕ × MessageStore :=
  match s.assertOpen with
  | .error e => (.error e, s)
  | .ok _ =>
    let cutoff := now - maxAgeSeconds
    let kept := s.db.messages.delete fun row => row.timestamp < cutoff
    (.ok (s.db.messages.rows.length - kept.rows.length), s.withMessages kept)

end Operations

end MessageStore

end Mesim
