import Mesim.Crypto
import Mesim.IdTable
import Mesim.TextCodec
import Mathlib.Data.Rat.Cast.Order

/-!
The queue for peers that are offline.
A table of encrypted payloads in which ids are handed out in increasing order
and never again. An entry belongs to a peer in normal form, lives for a day, and
is read back oldest first.
-/
namespace Mesim.ForwardQueue

open Octets TextCodec Crypto

def ttlSeconds : ℚ := 86400

def maxQueuePerPeer : ℕ := 256

def hexChars : List Char := "0123456789abcdefABCDEF".toList

/-- A UUID without hyphens gets them back; anything else is passed through. -/
def normalizePeerId (peerId : String) : String :=
  if peerId.length = 36 then peerId
  else if peerId.length = 32 ∧ peerId.toList.all (fun c => hexChars.contains c) then
    let p := peerId.toList.map Char.toLower
    String.ofList (p.take 8 ++ '-' :: (p.drop 8).take 4 ++ '-' :: (p.drop 12).take 4 ++
      '-' :: (p.drop 16).take 4 ++ '-' :: (p.drop 20).take 12)
  else peerId

theorem normalizePeerId_length (peerId : String) (h : peerId.length = 32)
    (hhex : peerId.toList.all (fun c => hexChars.contains c) = true) :
    (normalizePeerId peerId).length = 36 := by
  have hlen : (peerId.toList.map Char.toLower).length = 32 := by
    rw [List.length_map, String.length_toList, h]
  rw [normalizePeerId, if_neg (by omega), if_pos ⟨h, hhex⟩, String.length_ofList]
  simp only [List.length_append, List.length_cons, List.length_take, List.length_drop, hlen]
  rfl

/-- The normal form is its own normal form. -/
theorem normalizePeerId_idem (peerId : String) :
    normalizePeerId (normalizePeerId peerId) = normalizePeerId peerId := by
  have hcanonical : ∀ p : String, p.length = 36 → normalizePeerId p = p := fun p hp => if_pos hp
  by_cases h : peerId.length = 32 ∧ peerId.toList.all (fun c => hexChars.contains c) = true
  · exact hcanonical _ (normalizePeerId_length peerId h.1 h.2)
  · have hself : normalizePeerId peerId = peerId := by
      by_cases hlen : peerId.length = 36
      · exact hcanonical peerId hlen
      · rw [normalizePeerId, if_neg hlen, if_neg h]
    rw [hself, hself]

structure Row where
  id : ℕ
  peerId : String
  payload : Bytes
  queuedAt : ℚ
  expiresAt : ℚ
  attempt : ℕ
  deriving DecidableEq

/-- The table forward_queue. -/
abbrev Table := IdTable Row.id

namespace Table

def empty : Table := IdTable.empty

def insert (t : Table) (peerId : String) (payload : Bytes) (queuedAt expiresAt : ℚ) : Table :=
  IdTable.insert t (fun id => ⟨id, peerId, payload, queuedAt, expiresAt, 0⟩) fun _ => rfl

def bump (id : ℕ) (row : Row) : Row :=
  if row.id = id then { row with attempt := row.attempt + 1 } else row

theorem id_bump (id : ℕ) (row : Row) : (bump id row).id = row.id := by
  unfold bump
  split <;> rfl

def incrementAttempt (t : Table) (id : ℕ) : Table := t.update (bump id) (id_bump id)

/-- Rows that were filed in the order of their times are selected in the order of filing. -/
theorem select_of_timed (t : Table) (h : (t.rows.map Row.queuedAt).Pairwise (· ≤ ·))
    (condition : Row → Bool) : t.select Row.queuedAt condition = t.rows.filter condition := by
  have hrows : t.rows.Pairwise (IdTable.Precedes Row.queuedAt Row.id) := by
    have hids := List.pairwise_map.mp t.ordered
    have htimes := List.pairwise_map.mp h
    refine (hids.and htimes).imp fun hab => ?_
    rcases hab.2.lt_or_eq with hlt | heq
    · exact Or.inl hlt
    · exact Or.inr ⟨heq, hab.1.le⟩
  exact (hrows.filter condition).insertionSort_eq

/-- An id stands for one row. -/
theorem row_unique (t : Table) {a b : Row} (ha : a ∈ t.rows) (hb : b ∈ t.rows) (hid : a.id = b.id) :
    a = b :=
  List.inj_on_of_nodup_map t.nodup_ids ha hb hid

end Table

end Mesim.ForwardQueue

namespace Mesim

open Octets TextCodec Crypto ForwardQueue

structure QueuedMessage where
  id : ℕ
  peerId : String
  payload : Bytes
  queuedAt : ℚ
  expiresAt : ℚ
  attempt : ℕ
  deriving DecidableEq

/-- The queue: its store key, whether its file is open, and the file's table. -/
structure ForwardQueue where
  key : SessionKey
  isOpen : Bool
  table : Table

namespace ForwardQueue

variable (C : Suite)

def encryptPayload (nonce : Nonce) (key : SessionKey) (payload : Bytes) : Bytes :=
  let (nonce, ct) := C.encryptMessage nonce payload key []
  nonce ++ ct

def decryptPayload (key : SessionKey) (blob : Bytes) : Except PyError Bytes :=
  C.decryptMessage (blob.take 12) (blob.drop 12) key []

theorem decryptPayload_encryptPayload (haead : C.AeadCorrect) (nonce : Nonce) (key : SessionKey)
    (payload : Bytes) :
    decryptPayload C key (encryptPayload C nonce key payload) = .ok payload := by
  have hlen : nonce.toList.length = 12 := nonce.toList_length
  show C.decryptMessage ((nonce.toList ++ _).take 12) ((nonce.toList ++ _).drop 12) key [] = _
  rw [List.take_left' hlen, List.drop_left' hlen]
  exact C.decrypt_encrypt haead nonce payload key []

def assertOpen (q : ForwardQueue) : Except PyError Unit :=
  if q.isOpen then .ok () else .error .runtimeError

def openFile (q : ForwardQueue) : ForwardQueue := { q with isOpen := true }

def close (q : ForwardQueue) : ForwardQueue := { q with isOpen := false }

def isLive (peerId : String) (now : ℚ) (row : Row) : Bool :=
  row.peerId = peerId && decide (now < row.expiresAt)

def queueSize (q : ForwardQueue) (now : ℚ) (peerId : String) : Except PyError ℕ := do
  let peerId := normalizePeerId peerId
  q.assertOpen
  return (q.table.rows.filter (isLive peerId now)).length

def totalSize (q : ForwardQueue) (now : ℚ) : Except PyError ℕ := do
  q.assertOpen
  return (q.table.rows.filter (fun row => now < row.expiresAt)).length

def fullQueue (peerId : String) : PyError :=
  .overflowError ("Forward queue for peer " ++ reprText peerId ++ " is full (max 256)")

/-- Adds a row and returns its id. The clock is read to count the live rows, and again to file
the new one. -/
def enqueueAt (q : ForwardQueue) (sizeNow now : ℚ) (nonce : Nonce) (peerId : String)
    (payload : Bytes) : Except PyError (ForwardQueue × ℕ) := do
  let peerId := normalizePeerId peerId
  q.assertOpen
  let size ← q.queueSize sizeNow peerId
  if size ≥ maxQueuePerPeer then
    throw (fullQueue peerId)
  let blob := encryptPayload C nonce q.key payload
  return ({ q with table := q.table.insert peerId blob now (now + ttlSeconds) }, q.table.nextId)

/-- enqueue() while the clock stands still. -/
def enqueue (q : ForwardQueue) (now : ℚ) (nonce : Nonce) (peerId : String) (payload : Bytes) :
    Except PyError (ForwardQueue × ℕ) := q.enqueueAt C now now nonce peerId payload

/-- The rows as messages, up to the first one that does not decrypt. -/
def readRows (key : SessionKey) : List Row → Except PyError (List QueuedMessage)
  | [] => .ok []
  | row :: rest => do
    let payload ← decryptPayload C key row.payload
    let messages ← readRows key rest
    return ⟨row.id, row.peerId, payload, row.queuedAt, row.expiresAt, row.attempt⟩ :: messages

def getPending (q : ForwardQueue) (now : ℚ) (peerId : String) : Except PyError (List QueuedMessage) :=
  do
    let peerId := normalizePeerId peerId
    q.assertOpen
    readRows C q.key (q.table.select Row.queuedAt (isLive peerId now))

def markSent (q : ForwardQueue) (queueId : ℕ) : Except PyError ForwardQueue := do
  q.assertOpen
  return { q with table := q.table.delete (fun row => row.id = queueId) }

def incrementAttempt (q : ForwardQueue) (queueId : ℕ) : Except PyError ForwardQueue := do
  q.assertOpen
  return { q with table := q.table.incrementAttempt queueId }

def purgeExpired (q : ForwardQueue) (now : ℚ) : Except PyError (ForwardQueue × ℕ) := do
  q.assertOpen
  let table := q.table.delete (fun row => row.expiresAt ≤ now)
  return ({ q with table := table }, q.table.rows.length - table.rows.length)

section Specs

variable {C} {q q' : ForwardQueue}

theorem mem_readRows (key : SessionKey) (rows : List Row) (messages : List QueuedMessage)
    (h : readRows C key rows = .ok messages) :
    ∀ m ∈ messages, ∃ row ∈ rows, row.id = m.id ∧ decryptPayload C key row.payload = .ok m.payload := by
  induction rows generalizing messages with
  | nil =>
    cases h
    intro m hm
    contradiction
  | cons row rest ih =>
    rw [readRows] at h
    cases hpayload : decryptPayload C key row.payload with
    | error e =>
      rw [hpayload] at h
      contradiction
    | ok payload =>
      rw [hpayload] at h
      cases hrest : readRows C key rest with
      | error e =>
        rw [hrest] at h
        contradiction
      | ok more =>
        rw [hrest] at h
        cases h
        intro m hm
        rcases List.mem_cons.mp hm with rfl | hm
        · exact ⟨row, List.mem_cons_self, rfl, hpayload⟩
        · obtain ⟨old, hold, heq⟩ := ih more hrest m hm
          exact ⟨old, List.mem_cons_of_mem row hold, heq⟩

theorem map_id_readRows (key : SessionKey) (rows : List Row) (messages : List QueuedMessage)
    (h : readRows C key rows = .ok messages) : messages.map QueuedMessage.id = rows.map Row.id := by
  induction rows generalizing messages with
  | nil =>
    cases h
    rfl
  | cons row rest ih =>
    rw [readRows] at h
    cases hpayload : decryptPayload C key row.payload with
    | error e =>
      rw [hpayload] at h
      contradiction
    | ok payload =>
      rw [hpayload] at h
      cases hrest : readRows C key rest with
      | error e =>
        rw [hrest] at h
        contradiction
      | ok more =>
        rw [hrest] at h
        cases h
        rw [List.map_cons, List.map_cons, ih more hrest]

theorem queueSize_open (hopen : q.isOpen = true) (now : ℚ) (peerId : String) :
    q.queueSize now peerId =
      .ok (q.table.rows.filter (isLive (normalizePeerId peerId) now)).length := by
  rw [queueSize, assertOpen, if_pos hopen]
  rfl

theorem enqueueAt_open (sizeNow now : ℚ) (nonce : Nonce) (peerId : String) (payload : Bytes) {size : ℕ}
    (hopen : q.isOpen = true) (hsize : q.queueSize sizeNow (normalizePeerId peerId) = .ok size) :
    q.enqueueAt C sizeNow now nonce peerId payload =
      if size ≥ maxQueuePerPeer then .error (fullQueue (normalizePeerId peerId))
      else .ok (⟨q.key, q.isOpen, q.table.insert (normalizePeerId peerId)
        (encryptPayload C nonce q.key payload) now (now + ttlSeconds)⟩, q.table.nextId) := by
  simp only [enqueueAt, assertOpen, hopen, if_true, bind, Except.bind, hsize]
  split <;> rfl

/-- What enqueue() has done when it returns. -/
theorem enqueueAt_ok {sizeNow now : ℚ} {nonce : Nonce} {peerId : String} {payload : Bytes} {id : ℕ}
    (h : q.enqueueAt C sizeNow now nonce peerId payload = .ok (q', id)) : id = q.table.nextId ∧
      q' = ⟨q.key, q.isOpen, q.table.insert (normalizePeerId peerId)
        (encryptPayload C nonce q.key payload) now (now + ttlSeconds)⟩ := by
  by_cases hopen : q.isOpen = true
  · rw [enqueueAt_open sizeNow now nonce peerId payload hopen (queueSize_open hopen _ _)] at h
    split at h
    · contradiction
    · cases h
      exact ⟨rfl, rfl⟩
  · rw [enqueueAt, assertOpen, if_neg hopen] at h
    contradiction

theorem enqueue_room (now : ℚ) (peerId : String) {size : ℕ} (hopen : q.isOpen = true)
    (hsize : q.queueSize now (normalizePeerId peerId) = .ok size) (hroom : size < maxQueuePerPeer)
    (nonce : Nonce) (payload : Bytes) :
    q.enqueue C now nonce peerId payload =
      .ok (⟨q.key, q.isOpen, q.table.insert (normalizePeerId peerId)
        (encryptPayload C nonce q.key payload) now (now + ttlSeconds)⟩, q.table.nextId) := by
  rw [enqueue, enqueueAt_open now now nonce peerId payload hopen hsize, if_neg (Nat.not_le.mpr hroom)]

theorem markSent_open (hopen : q.isOpen = true) (id : ℕ) :
    q.markSent id = .ok { q with table := q.table.delete (fun row => row.id = id) } := by
  rw [markSent, assertOpen, if_pos hopen]
  rfl

theorem incrementAttempt_open (hopen : q.isOpen = true) (id : ℕ) :
    q.incrementAttempt id = .ok { q with table := q.table.incrementAttempt id } := by
  rw [ForwardQueue.incrementAttempt, assertOpen, if_pos hopen]
  rfl

theorem purgeExpired_open (hopen : q.isOpen = true) (now : ℚ) :
    q.purgeExpired now = .ok (⟨q.key, q.isOpen, q.table.delete fun row => row.expiresAt ≤ now⟩,
      q.table.rows.length - (q.table.delete fun row => row.expiresAt ≤ now).rows.length) := by
  rw [purgeExpired, assertOpen, if_pos hopen]
  rfl

/-- Pending messages are live rows, decrypted. -/
theorem getPending_ok {now : ℚ} {peerId : String} {pending : List QueuedMessage}
    (h : q.getPending C now peerId = .ok pending) : q.isOpen = true ∧
      ∀ msg ∈ pending, ∃ row ∈ q.table.rows, row.id = msg.id ∧
        decryptPayload C q.key row.payload = .ok msg.payload := by
  by_cases hopen : q.isOpen = true
  · refine ⟨hopen, fun msg hmsg => ?_⟩
    rw [getPending, assertOpen, if_pos hopen] at h
    obtain ⟨row, hrow, heq⟩ := mem_readRows q.key _ pending h msg hmsg
    exact ⟨row, ((IdTable.mem_select _ _ _).mp hrow).1, heq⟩
  · rw [getPending, assertOpen, if_neg hopen] at h
    contradiction

end Specs

end ForwardQueue

end Mesim
