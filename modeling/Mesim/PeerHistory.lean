import Mesim.MessageLog
import Mesim.Repl
import Mesim.StoreForward

/-!
The history of a peer, over all that writes and reads it.
A peer can be named in two ways, with and without hyphens. POST /send files a message
under the hyphenated name, the command line under the name that was typed or the
session it stands for, and an incoming message under the name of its session; the
two readers look under the name they are given. The connection to the file serves the
thread that opened it only, and over HTTP the endpoint that reads runs in another.
-/
namespace Mesim.PeerHistory

open Octets TextCodec Crypto Identity Packet Transport Operations Nodes IdentityFile MessageStore
open MessageLog ForwardQueue StoreForward

section Model

def maxMessageBytes : ℕ := 4096

/-- How a message came to name its peer; on the command line, in view of these sessions. -/
inductive Naming where
  | post (peerId : String)
  | command (sessions : List String) (peerId : String)
  | received (peerId : String)

/-- A message that was sent or received, with its row id. -/
structure Exchange where
  naming : Naming
  id : ℕ
  direction : String
  plaintext : Bytes
  timestamp : ℚ

/-- A node with its queue and its store, the messages whose callback has not run yet, and what was
sent and received. -/
structure System where
  node : Node
  queue : ForwardQueue
  store : MessageStore
  tasks : List (String × Bytes)
  log : List Exchange

/-- The session that an id on the command line stands for: one of that name, or else the only one
that starts with it. Without one it stands for itself; two are an error. -/
def resolve (sessions : List String) (peerId : String) : Option String :=
  if sessions.contains peerId then some peerId
  else if peerId.length ≥ 8 then
    match sessions.filter (fun pid => peerId.toList.isPrefixOf pid.toList) with
    | [] => some peerId
    | [pid] => some pid
    | _ => none
  else some peerId

/-- The peer_id of the row. -/
def filedUnder : Naming → String
  | .post peerId => normalizePeerId peerId
  | .command sessions peerId => (resolve sessions peerId).getD peerId
  | .received peerId => peerId

def peerOf (naming : Naming) : String := normalizePeerId (filedUnder naming)

variable (C : Suite)

def save (s : System) (now : ℚ) (nonce : Nonce) (naming : Naming) (direction : String)
    (plaintext : Bytes) : System :=
  let r := s.store.saveMessage C now nonce (filedUnder naming) direction plaintext none
  { s with
    store := r.2
    log := match r.1 with
      | .ok id => s.log ++ [⟨naming, id, direction, plaintext, now⟩]
      | .error _ => s.log }

/-- send_or_queue(), and a row for what it took. -/
def sendAndSave (env : Env) (s : System) (now : ℚ) (nonce : Nonce) (naming : Naming)
    (payload : Bytes) : System :=
  let r := sendOrQueue C env s.node.transport s.queue (filedUnder naming) payload
  let s := { s with node := { s.node with transport := r.transport }, queue := r.queue }
  match r.ended with
  | .error _ => s
  | .ok _ => save C s now nonce naming "sent" payload

/-- POST /send. -/
def sendMessage (env : Env) (s : System) (now : ℚ) (nonce : Nonce) (peerId message : String) :
    System :=
  if (encodeUtf8 message).length > maxMessageBytes then s
  else sendAndSave C env s now nonce (.post peerId) (encodeUtf8 message)

def cmdSend (env : Env) (s : System) (now : ℚ) (nonce : Nonce) (peerId message : String) : System :=
  let sessions := s.node.transport.sessions.keys
  match resolve sessions peerId with
  | none => s
  | some _ => sendAndSave C env s now nonce (.command sessions peerId) (encodeUtf8 message)

/-- The part of handle_command() that writes. -/
def handleCommand (env : Env) (s : System) (now : ℚ) (nonce : Nonce) (line : String) : System :=
  match Repl.command line with
  | some (.send peerId message) => cmdSend C env s now nonce peerId message
  | _ => s

def onMessageReceived (s : System) (now : ℚ) (nonce : Nonce) (peerId : String) (payload : Bytes) :
    System :=
  save C s now nonce (.received peerId) "recv" payload

/-- The calls that the command line's callback, registered under this number, is scheduled for. -/
def scheduled (cb : Callback) (effects : List Effect) : List (String × Bytes) :=
  effects.filterMap fun e => match e with
    | .message cb' peerId plaintext => if cb' = cb then some (peerId, plaintext) else none
    | _ => none

inductive Label where
  | transport (env : Env) (e : Event)
  | received (i : ℕ) (now : ℚ) (nonce : Nonce)
  | post (env : Env) (now : ℚ) (nonce : Nonce) (peerId message : String)
  | command (env : Env) (now : ℚ) (nonce : Nonce) (line : String)

def step (cb : Callback) (s : System) : Label → System
  | .transport env e =>
    { s with
      node := (s.node.step C env e).1
      tasks := s.tasks ++ scheduled cb (s.node.step C env e).2 }
  | .received i now nonce =>
    match s.tasks[i]? with
    | some (peerId, payload) =>
      onMessageReceived C { s with tasks := s.tasks.eraseIdx i } now nonce peerId payload
    | none => s
  | .post env now nonce peerId message => sendMessage C env s now nonce peerId message
  | .command env now nonce line => handleCommand C env s now nonce line

/-- Where a call runs: in the thread that opened the store, or in the pool that FastAPI keeps for the
endpoints that are no coroutines. -/
inductive Thread where
  | opener
  | worker
  deriving DecidableEq

/-- The two ways to read a history; GET /messages takes a limit. -/
inductive Reader where
  | getMessages (thread : Thread) (limit : ℤ)
  | cmdHistory

def Reader.limit : Reader → ℤ
  | .getMessages _ limit => min limit 500
  | .cmdHistory => 20

def Reader.thread : Reader → Thread
  | .getMessages thread _ => thread
  | .cmdHistory => .opener

/-- The messages that a reader shows. -/
def history (s : System) (reader : Reader) (peerId : String) : Except PyError (List StoredMessage) := do
  let _ ← s.store.assertOpen
  if reader.thread = .worker then throw .programmingError
  s.store.getHistory C peerId reader.limit none

/-- The reader is where it can read, with a limit that SQLite has room for. -/
def Reader.Answers (reader : Reader) : Prop :=
  reader.thread = .opener ∧ -2 ^ 63 ≤ reader.limit

end Model

section Listing

variable {α β : Type} {condition : α → Bool}

theorem take_filter_of_all (n : ℕ) (xs : List α) (h : ∀ x ∈ xs.take n, condition x = true) :
    (xs.filter condition).take n = xs.take n := by
  induction xs generalizing n with
  | nil => rfl
  | cons x rest ih =>
    cases n with
    | zero => rfl
    | succ n =>
      rw [List.take_succ_cons] at h ⊢
      rw [List.filter_cons_of_pos (h x List.mem_cons_self), List.take_succ_cons,
        ih n fun y hy => h y (List.mem_cons_of_mem x hy)]

theorem limited_filter_of_all (limit : ℤ) (xs : List α)
    (h : ∀ x ∈ limited limit xs, condition x = true) :
    limited limit (xs.filter condition) = limited limit xs := by
  unfold limited at h ⊢
  split at h
  · rename_i hlimit
    rw [if_pos hlimit, if_pos hlimit]
    exact List.filter_eq_self.mpr h
  · rename_i hlimit
    rw [if_neg hlimit, if_neg hlimit]
    exact take_filter_of_all _ xs h

theorem mem_of_mem_limited {limit : ℤ} {xs : List α} {x : α} (h : x ∈ limited limit xs) : x ∈ xs := by
  unfold limited at h
  split at h
  · exact h
  · exact List.mem_of_mem_take h

/-- Leaving some entries out shows at the front of a list exactly when one of them was there. -/
theorem limited_filter_iff (f : α → β) (condition : α → Bool) (limit : ℤ) (xs : List α)
    (hinj : ∀ x ∈ xs, ∀ y ∈ xs, f x = f y → x = y) :
    (limited limit (xs.filter condition)).map f = (limited limit xs).map f ↔
      ∀ x ∈ limited limit xs, condition x = true := by
  constructor
  · intro heq x hx
    have hmem : f x ∈ (limited limit (xs.filter condition)).map f := by
      rw [heq]
      exact List.mem_map_of_mem hx
    obtain ⟨y, hy, hfy⟩ := List.mem_map.mp hmem
    obtain ⟨hyxs, hcondition⟩ := List.mem_filter.mp (mem_of_mem_limited hy)
    rwa [hinj y hyxs x (mem_of_mem_limited hx) hfy] at hcondition
  · intro hall
    rw [limited_filter_of_all limit xs hall]

end Listing

section Exchanges

/-- The row of an exchange, decrypted. -/
def stored (x : Exchange) : StoredMessage :=
  ⟨x.id, filedUnder x.naming, x.direction, x.plaintext, x.timestamp, false⟩

/-- What was exchanged with a peer, by time and id. -/
def conversation (log : List Exchange) (peer : String) : List Exchange :=
  (log.filter fun x => peerOf x.naming = peer).insertionSort
    (IdTable.Precedes Exchange.timestamp Exchange.id)

/-- The message without the name that its row carries. -/
def unnamed (m : StoredMessage) : StoredMessage := { m with peerId := "" }

variable {log : List Exchange}

/-- The listing of a name has what was filed under it, out of the conversation of its peer. -/
theorem listing_stored (hids : (log.map Exchange.id).Nodup) (peerId : String) :
    listing (log.map stored) peerId none =
      ((conversation log (normalizePeerId peerId)).filter
        fun x => filedUnder x.naming = peerId).map stored := by
  have hsort : listing (log.map stored) peerId none =
      ((log.filter fun x => filedUnder x.naming = peerId).insertionSort
        (IdTable.Precedes Exchange.timestamp Exchange.id)).map stored := by
    have hfilter : (fun m : StoredMessage => (m.peerId = peerId : Bool) &&
        (none : Option ℤ).all fun bound => (m.id : ℤ) < bound) ∘ stored =
          fun x => (filedUnder x.naming = peerId : Bool) := by
      funext x
      exact Bool.and_true _
    rw [listing, List.filter_map, hfilter]
    exact (List.map_insertionSort (IdTable.Precedes Exchange.timestamp Exchange.id)
      (IdTable.Precedes StoredMessage.timestamp StoredMessage.id) _ _ fun a _ b _ => Iff.rfl).symm
  rw [hsort]
  refine congrArg (List.map stored) (IdTable.eq_of_before (IdTable.sort_before _ ?_)
    ((IdTable.sort_before _ ?_).filter _) fun x => ?_)
  · exact hids.sublist (List.filter_sublist.map _)
  · exact hids.sublist (List.filter_sublist.map _)
  · rw [List.mem_insertionSort, List.mem_filter, List.mem_filter, conversation,
      List.mem_insertionSort, List.mem_filter, decide_eq_true_iff, decide_eq_true_iff]
    constructor
    · rintro ⟨hmem, rfl⟩
      exact ⟨⟨hmem, rfl⟩, rfl⟩
    · rintro ⟨⟨hmem, _⟩, hfiled⟩
      exact ⟨hmem, hfiled⟩

/-- An exchange is known by its row id. -/
theorem unnamed_injective (hids : (log.map Exchange.id).Nodup) (peer : String) :
    ∀ x ∈ conversation log peer, ∀ y ∈ conversation log peer,
      unnamed (stored x) = unnamed (stored y) → x = y := by
  intro x hx y hy heq
  have hmem : ∀ z ∈ conversation log peer, z ∈ log := fun z hz => by
    rw [conversation, List.mem_insertionSort] at hz
    exact (List.mem_filter.mp hz).1
  exact List.inj_on_of_nodup_map hids (hmem x hx) (hmem y hy) (congrArg StoredMessage.id heq)

end Exchanges

section Invariant

variable {C : Suite} {R : StoreRuntime} {cb : Callback} {s : System} {key : Fixed 32}

/-- The store is open and its rows are the exchanges. -/
structure Records (C : Suite) (R : StoreRuntime) (key : Fixed 32) (s : System) : Prop where
  filed : Filed C R s.store key (s.log.map stored)
  isOpen : s.store.isOpen = true

theorem Records.nodup_ids (h : Records C R key s) : (s.log.map Exchange.id).Nodup := by
  have hids := h.filed.nodup_ids
  rwa [List.map_map] at hids

theorem Records.elsewhere (h : Records C R key s) (node : Node) (queue : ForwardQueue)
    (tasks : List (String × Bytes)) :
    Records C R key { s with node := node, queue := queue, tasks := tasks } := ⟨h.filed, h.isOpen⟩

theorem records_save (haead : C.AeadCorrect) (h : Records C R key s) (now : ℚ) (nonce : Nonce)
    (naming : Naming) (direction : String) (hvalid : validDirection direction) (plaintext : Bytes) :
    Records C R key (save C s now nonce naming direction plaintext) := by
  obtain ⟨table, hsaved, hfiled⟩ := saveMessage_open haead h.filed h.isOpen now nonce
    (filedUnder naming) direction plaintext none hvalid
  unfold save
  rw [hsaved]
  refine ⟨?_, h.isOpen⟩
  rw [List.map_append]
  exact hfiled

theorem records_sendAndSave (haead : C.AeadCorrect) (h : Records C R key s) (env : Env) (now : ℚ)
    (nonce : Nonce) (naming : Naming) (payload : Bytes) :
    Records C R key (sendAndSave C env s now nonce naming payload) := by
  unfold sendAndSave
  dsimp only
  split
  · exact h.elsewhere _ _ _
  · exact records_save haead (h.elsewhere _ _ s.tasks) now nonce naming "sent" (Or.inl rfl) payload

theorem records_step (haead : C.AeadCorrect) (s : System) (l : Label) (h : Records C R key s) :
    Records C R key (step C cb s l) := by
  cases l with
  | transport env e => exact h.elsewhere _ _ _
  | received i now nonce =>
    rw [step]
    split
    · exact records_save haead (h.elsewhere s.node s.queue _) now nonce _ "recv" (Or.inr rfl) _
    · exact h
  | post env now nonce peerId message =>
    rw [step, sendMessage]
    split
    · exact h
    · exact records_sendAndSave haead h env now nonce _ _
  | command env now nonce line =>
    rw [step, handleCommand]
    split
    · rw [cmdSend]
      split
      · exact h
      · exact records_sendAndSave haead h env now nonce _ _
    · exact h

theorem limit_le (reader : Reader) : reader.limit ≤ 500 := by
  cases reader with
  | getMessages thread limit => exact min_le_right _ _
  | cmdHistory => decide

theorem Records.history (h : Records C R key s) {reader : Reader} (hreader : reader.Answers)
    (peerId : String) : history C s reader peerId = .ok (limited reader.limit
      (((conversation s.log (normalizePeerId peerId)).filter
        fun x => filedUnder x.naming = peerId).map stored)) := by
  have hfits : Fits reader.limit := ⟨hreader.2, (limit_le reader).trans_lt (by decide)⟩
  have hassert := assertOpen_filed h.filed
  rw [if_pos h.isOpen] at hassert
  have hread : s.store.getHistory C peerId reader.limit none = _ :=
    getHistory_open h.filed h.isOpen peerId hfits (by simp)
  rw [listing_stored h.nodup_ids] at hread
  simp only [PeerHistory.history, hassert, hreader.1, reduceCtorEq, if_false, bind, Except.bind, hread]

/-- A reader in another thread, or with a limit that is too small, raises. -/
theorem Records.history_error (h : Records C R key s) {reader : Reader} (hreader : ¬ reader.Answers)
    (peerId : String) : ∃ e, PeerHistory.history C s reader peerId = .error e := by
  have hassert := assertOpen_filed h.filed
  rw [if_pos h.isOpen] at hassert
  cases hthread : reader.thread with
  | worker =>
    exact ⟨.programmingError, by
      simp only [PeerHistory.history, hassert, hthread, if_true, bind, Except.bind, throw, throwThe,
        MonadExceptOf.throw]⟩
  | opener =>
    have hlarge : ¬ Fits reader.limit := fun hfits => hreader ⟨hthread, hfits.1⟩
    have hread : s.store.getHistory C peerId reader.limit none = _ :=
      getHistory_tooLarge h.filed h.isOpen peerId (Or.inl hlarge)
    exact ⟨tooLarge, by
      simp only [PeerHistory.history, hassert, hthread, reduceCtorEq, if_false, bind, Except.bind,
        hread]⟩

end Invariant

section Results

/-- A new store that was just opened, and nothing sent or received. -/
def Initial (R : StoreRuntime) (passphrase : Passphrase) (s : System) : Prop :=
  s.log = [] ∧ s.tasks = [] ∧
    ∃ salt, s.store = ((MessageStore.init passphrase .new).openFile R salt).2

/-- The reader shows the peer's messages, up to its limit. -/
def ShowsAll (C : Suite) (s : System) (reader : Reader) (peerId : String) : Prop :=
  (history C s reader peerId).map (List.map unnamed) =
    .ok ((limited reader.limit (conversation s.log (normalizePeerId peerId))).map
      fun x => unnamed (stored x))

variable {C : Suite} {R : StoreRuntime} {cb : Callback} {s : System}

theorem records_initial (passphrase : Passphrase)
    (hderives : Derives R (normalizePassphrase passphrase)) (h : Initial R passphrase s) :
    ∃ key, Records C R key s := by
  obtain ⟨hlog, _, salt, hstore⟩ := h
  obtain ⟨key, hfiled, _, hopen, _⟩ := openFile_blank (C := C) (R := R)
    (s := MessageStore.init passphrase .new) ⟨rfl, rfl, rfl, rfl⟩ hderives salt
  refine ⟨key, ⟨?_, by rw [hstore]; exact hopen⟩⟩
  rw [hlog, hstore]
  exact hfiled

/-- Under a name of the peer a reader shows its messages exactly when it runs in the thread that opened
the store, with a limit that SQLite has room for, and the first of the messages, up to the limit, were
all filed under that very name. -/
theorem shows_all_iff (C : Suite) (R : StoreRuntime) (haead : C.AeadCorrect) (cb : Callback)
    (passphrase : Passphrase) (hderives : Derives R (normalizePassphrase passphrase)) (s : System)
    (hinit : Initial R passphrase s) (labels : List Label) (reader : Reader) (peerId : String) :
    ShowsAll C (Runs.run (step C cb) s labels) reader peerId ↔ reader.Answers ∧
      ∀ x ∈ limited reader.limit
        (conversation (Runs.run (step C cb) s labels).log (normalizePeerId peerId)),
        filedUnder x.naming = peerId := by
  obtain ⟨key, hstart⟩ := records_initial passphrase hderives hinit
  have h : Records C R key (Runs.run (step C cb) s labels) :=
    Runs.invariant_of_step (records_step haead) s labels hstart
  by_cases hreader : reader.Answers
  swap
  · obtain ⟨e, hraised⟩ := h.history_error hreader peerId
    refine iff_of_false (fun hshows => ?_) fun hboth => hreader hboth.1
    rw [ShowsAll, hraised] at hshows
    cases hshows
  have hiff := limited_filter_iff (unnamed ∘ stored) (fun x => filedUnder x.naming = peerId)
    reader.limit _ (unnamed_injective h.nodup_ids (normalizePeerId peerId))
  simp only [decide_eq_true_iff] at hiff
  rw [and_iff_right hreader, ← hiff, ShowsAll, h.history hreader, ← map_limited]
  show Except.ok _ = Except.ok _ ↔ _
  rw [Except.ok.injEq, List.map_map]
  rfl

end Results

section Stub

open Honest

/-- A peer's id without hyphens, as POST /send documents it. -/
def plainId : String := "00112233445566778899aabbccddeeff"

def hyphenId : String := "00112233-4455-6677-8899-aabbccddeeff"

theorem normalizePeerId_plainId : normalizePeerId plainId = hyphenId := by decide +kernel

/-- A message for an unknown peer, posted with either id, is queued and filed. -/
theorem exists_posted (peerId : String) (hname : normalizePeerId peerId = hyphenId) :
    ∃ s : System, Initial stubStore (.text "alpha") s ∧ Started bravo s.node ∧
      (Runs.run (step stub 0) s [.post stillEnv 5 stubNonce peerId "hi"]).log =
        [⟨.post peerId, 1, "sent", [104, 105], 5⟩] := by
  obtain ⟨n, hn, _⟩ := exists_started
  let q : ForwardQueue := ⟨sharedKey, true, .empty⟩
  let store : MessageStore :=
    ((MessageStore.init (.text "alpha") .new).openFile stubStore (List.Vector.replicate 32 0)).2
  refine ⟨⟨n, q, store, [], []⟩, ⟨rfl, rfl, _, rfl⟩, hn, ?_⟩
  have hoffline : n.transport.sessions.get? hyphenId = none := by
    rw [hn.1.sessions]
    rfl
  have hsame : normalizePeerId hyphenId = hyphenId := by decide +kernel
  have hqueued : (sendOrQueue stub stillEnv n.transport q hyphenId [104, 105]).ended = .ok false := by
    have hempty : q.queueSize stillEnv.time (normalizePeerId hyphenId) = .ok 0 := by decide +kernel
    have henqueue := enqueue_room (C := stub) _ hyphenId rfl hempty (by decide)
      (stillEnv.nonce 0) [104, 105]
    rw [hsame] at henqueue
    simp only [sendOrQueue, hsame, hoffline, Option.isSome_none, Bool.false_eq_true, if_false,
      henqueue]
  have hsaved : (store.saveMessage stub 5 stubNonce hyphenId "sent" [104, 105] none).1 = .ok 1 := by
    decide +kernel
  have hbytes : encodeUtf8 "hi" = [104, 105] := by decide +kernel
  have hsize : ¬ ([104, 105] : Bytes).length > maxMessageBytes := by decide
  rw [Runs.run_cons, Runs.run_nil, step, sendMessage, hbytes, if_neg hsize, sendAndSave]
  simp only [filedUnder, hname, hqueued, save, hsaved]
  rfl

theorem records_run (s : System) (hinit : Initial stubStore (.text "alpha") s) (labels : List Label) :
    ∃ key, Records stub stubStore key (Runs.run (step stub 0) s labels) := by
  obtain ⟨key, hstart⟩ := records_initial (C := stub) _ (derives_stub _) hinit
  exact ⟨key, Runs.invariant_of_step (records_step stub_aeadCorrect) s labels hstart⟩

/-- What is posted to an id without hyphens neither reader shows under it. -/
theorem posted_not_shown : ∃ (s : System) (labels : List Label),
    Initial stubStore (.text "alpha") s ∧
    (conversation (Runs.run (step stub 0) s labels).log (normalizePeerId plainId)).length = 1 ∧
    ∀ reader : Reader, reader = .cmdHistory ∨ reader = .getMessages .opener 100 →
      history stub (Runs.run (step stub 0) s labels) reader plainId = .ok [] ∧
      ¬ ShowsAll stub (Runs.run (step stub 0) s labels) reader plainId := by
  obtain ⟨s, hinit, _, hlog⟩ := exists_posted plainId normalizePeerId_plainId
  obtain ⟨key, hrecords⟩ := records_run s hinit [.post stillEnv 5 stubNonce plainId "hi"]
  have hnothing : (((conversation [⟨.post plainId, 1, "sent", [104, 105], 5⟩]
      (normalizePeerId plainId)).filter fun x => filedUnder x.naming = plainId).map stored) = [] := by
    decide +kernel
  have hone : (conversation [⟨.post plainId, 1, "sent", [104, 105], 5⟩]
      (normalizePeerId plainId)) = [⟨.post plainId, 1, "sent", [104, 105], 5⟩] := by
    have hpeer : peerOf (.post plainId) = normalizePeerId plainId := normalizePeerId_idem plainId
    simp only [conversation, List.filter_cons, hpeer, decide_true, if_true, List.filter_nil]
    rfl
  refine ⟨s, _, hinit, by rw [hlog, hone]; rfl, fun reader hreader => ?_⟩
  have hanswers : reader.Answers ∧ 1 ≤ reader.limit := by
    rcases hreader with rfl | rfl <;> exact ⟨⟨rfl, by decide⟩, by decide⟩
  have hread := hrecords.history hanswers.1 plainId
  rw [hlog, hnothing, limited, if_neg (by omega), List.take_nil] at hread
  refine ⟨hread, fun hshows => ?_⟩
  rw [ShowsAll, hread, hlog, hone, limited, if_neg (by omega),
    List.take_of_length_le (by simp only [List.length_singleton]; omega)] at hshows
  cases Except.ok.inj hshows

/-- Under the id with hyphens they do. -/
theorem shows_all_iff_hyphenId : ∃ (s : System) (labels : List Label),
    (Runs.run (step stub 0) s labels).log.length = 1 ∧
    ShowsAll stub (Runs.run (step stub 0) s labels) .cmdHistory hyphenId := by
  obtain ⟨s, hinit, _, hlog⟩ := exists_posted hyphenId (by decide +kernel)
  refine ⟨s, _, by rw [hlog]; rfl, ?_⟩
  refine (shows_all_iff stub stubStore stub_aeadCorrect 0 (.text "alpha") (derives_stub _) s hinit _
    .cmdHistory hyphenId).mpr ⟨⟨rfl, by decide⟩, fun x hx => ?_⟩
  have hmem := mem_of_mem_limited hx
  rw [hlog, conversation, List.mem_insertionSort] at hmem
  rw [List.mem_singleton.mp (List.mem_filter.mp hmem).1]
  decide +kernel

end Stub

end Mesim.PeerHistory
