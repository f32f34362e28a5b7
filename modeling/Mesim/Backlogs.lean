import Mesim.Flush
import Mesim.Settling

/-!
The messages that wait for a peer.
A queue holds a message for a peer from the call that files it to the flush that hands it
to the transport. flush_peer() takes off the queue what send() has taken over, and nothing
else, so the messages taken over and those that still wait are together the same before
and after it.
-/
namespace Mesim.Backlogs

open Octets Crypto Packet Transport Operations Nodes ForwardQueue StoreForward Flush
open Reassembly InFlightTable Answers Conversations

section Queues

variable (C : Suite)

/-- The message of a row, if it is for this peer. -/
def held (key : SessionKey) (peerId : String) (row : Row) : Option Bytes :=
  if row.peerId = peerId then (decryptPayload C key row.payload).toOption else none

/-- The messages that a queue holds for a peer. -/
def backlog (q : ForwardQueue) (peerId : String) : List Bytes :=
  q.table.rows.filterMap (held C q.key peerId)

variable {C} {q : ForwardQueue} {peerId : String}

theorem held_of_ne (key : SessionKey) {row : Row} (h : row.peerId ≠ peerId) :
    held C key peerId row = none := if_neg h

theorem held_bump (key : SessionKey) (peerId : String) (id : ℕ) (row : Row) :
    held C key peerId (Table.bump id row) = held C key peerId row := by
  unfold Table.bump
  split <;> rfl

/-- A message is filed at the end of its peer's backlog. -/
theorem backlog_enqueue (haead : C.AeadCorrect) {q' : ForwardQueue} {now : ℚ} {nonce : Nonce}
    {name : String} {payload : Bytes} {id : ℕ}
    (h : q.enqueue C now nonce name payload = .ok (q', id)) (peerId : String) :
    backlog C q' peerId =
      backlog C q peerId ++ if normalizePeerId name = peerId then [payload] else [] := by
  obtain ⟨_, rfl⟩ := enqueueAt_ok h
  simp only [backlog, Table.insert, IdTable.insert, List.filterMap_append]
  by_cases hpeer : normalizePeerId name = peerId
  · have hheld : held C q.key peerId ⟨q.table.nextId, normalizePeerId name,
        encryptPayload C nonce q.key payload, now, now + ttlSeconds, 0⟩ = some payload := by
      rw [held, if_pos hpeer, decryptPayload_encryptPayload C haead]
      rfl
    rw [if_pos hpeer, List.filterMap_cons_some hheld, List.filterMap_nil]
  · rw [if_neg hpeer, List.filterMap_cons_none (held_of_ne q.key hpeer), List.filterMap_nil]

/-- Counting an attempt leaves the messages as they are. -/
theorem backlog_incrementAttempt (q : ForwardQueue) (id : ℕ) (peerId : String) :
    backlog C ⟨q.key, q.isOpen, q.table.incrementAttempt id⟩ peerId = backlog C q peerId := by
  simp only [backlog, Table.incrementAttempt, IdTable.update, List.filterMap_map]
  exact List.filterMap_congr fun row _ => held_bump q.key peerId id row

theorem perm_delete (t : Table) {row : Row} (hrow : row ∈ t.rows) :
    t.rows.Perm (row :: (t.delete fun other => other.id = row.id).rows) := by
  have hids : (t.rows.map Row.id).Nodup := t.ordered.imp fun hlt => Nat.ne_of_lt hlt
  have hnodup : t.rows.Nodup := hids.of_map
  have herase : t.rows.erase row = (t.delete fun other => other.id = row.id).rows := by
    rw [hnodup.erase_eq_filter]
    refine List.filter_congr fun other hother => ?_
    refine congrArg Bool.not (Bool.eq_iff_iff.mpr ?_)
    rw [beq_iff_eq, decide_eq_true_iff]
    exact ⟨congrArg Row.id, t.row_unique hother hrow⟩
  rw [← herase]
  exact List.perm_cons_erase hrow

/-- Taking a row off the queue takes its message off its peer's backlog. -/
theorem backlog_delete {row : Row} (hrow : row ∈ q.table.rows) {payload : Bytes}
    (hheld : held C q.key peerId row = some payload) :
    (payload :: backlog C ⟨q.key, q.isOpen, q.table.delete fun other => other.id = row.id⟩
      peerId).Perm (backlog C q peerId) := by
  have hperm := (perm_delete q.table hrow).filterMap (held C q.key peerId)
  rw [List.filterMap_cons_some hheld] at hperm
  exact hperm.symm

theorem backlog_delete_other {row : Row} (hrow : row ∈ q.table.rows) (hne : row.peerId ≠ peerId) :
    backlog C ⟨q.key, q.isOpen, q.table.delete fun other => other.id = row.id⟩ peerId =
      backlog C q peerId := by
  simp only [backlog, IdTable.delete, List.filterMap_filter]
  refine List.filterMap_congr fun other hother => ?_
  by_cases hid : other.id = row.id
  · rw [q.table.row_unique hother hrow hid, held_of_ne q.key hne, ite_self]
  · rw [decide_eq_false hid, Bool.not_false, if_pos rfl]

theorem payloads_of_read {key : SessionKey} {rows : List Row} {messages : List QueuedMessage}
    (h : List.Forall₂ (ReadFrom C key) rows messages) (hrows : ∀ row ∈ rows, row.peerId = peerId) :
    messages.map QueuedMessage.payload = rows.filterMap (held C key peerId) := by
  induction h with
  | nil => rfl
  | @cons row msg rows messages hread _ ih =>
    have hheld : held C key peerId row = some msg.payload := by
      rw [held, if_pos (hrows row List.mem_cons_self), hread.1]
      rfl
    rw [List.map_cons, List.filterMap_cons_some hheld,
      ih fun other hother => hrows other (List.mem_cons_of_mem row hother)]

/-- The pending messages come from different rows of the peer. -/
structure Drawn (C : Suite) (q : ForwardQueue) (peerId : String) (pending : List QueuedMessage) :
    Prop where
  row : ∀ msg ∈ pending, ∃ row ∈ q.table.rows, row.id = msg.id ∧ row.peerId = peerId ∧
    held C q.key peerId row = some msg.payload
  distinct : (pending.map QueuedMessage.id).Nodup

/-- What is pending is drawn from the queue, and it is the whole backlog while every row of the
peer is live. -/
theorem drawn_getPending {now : ℚ} {pending : List QueuedMessage}
    (h : q.getPending C now (normalizePeerId peerId) = .ok pending)
    (hnormal : normalizePeerId peerId = peerId) : Drawn C q peerId pending ∧
      ((∀ row ∈ q.table.rows, row.peerId = peerId → now < row.expiresAt) →
        (pending.map QueuedMessage.payload).Perm (backlog C q peerId)) := by
  rcases getPending_cases C q now peerId with ⟨_, found, hfound, hread⟩ | ⟨_, e, herror⟩
  · rw [h] at hfound
    cases hfound
    rw [hnormal] at hread
    have hselect : ∀ row ∈ q.table.select Row.queuedAt (isLive peerId now),
        row ∈ q.table.rows ∧ row.peerId = peerId := by
      intro row hrow
      obtain ⟨hmem, hlive⟩ := (IdTable.mem_select _ _ _).mp hrow
      rw [isLive, Bool.and_eq_true, decide_eq_true_iff] at hlive
      exact ⟨hmem, hlive.1⟩
    refine ⟨⟨fun msg hmsg => ?_, ?_⟩, fun hall => ?_⟩
    · obtain ⟨k, hk, rfl⟩ := List.mem_iff_getElem.mp hmsg
      have hk' : k < (q.table.select Row.queuedAt (isLive peerId now)).length := hread.length_eq ▸ hk
      have hfrom := hread.get hk' hk
      obtain ⟨hmem, hpeer⟩ := hselect _ (List.getElem_mem hk')
      refine ⟨_, hmem, hfrom.2.1.symm, hpeer, ?_⟩
      rw [held, if_pos hpeer]
      exact congrArg Except.toOption hfrom.1
    · have hids : (q.table.rows.map Row.id).Nodup :=
        q.table.ordered.imp fun hlt => Nat.ne_of_lt hlt
      rw [map_id_of_read hread]
      refine (((List.perm_insertionSort _ _).map Row.id).nodup_iff).mpr ?_
      exact hids.sublist (List.filter_sublist.map Row.id)
    · rw [payloads_of_read hread fun row hrow => (hselect row hrow).2]
      refine ((List.perm_insertionSort _ _).filterMap _).trans (List.Perm.of_eq ?_)
      rw [List.filterMap_filter, backlog]
      refine List.filterMap_congr fun row hrow => ?_
      by_cases hpeer : row.peerId = peerId
      · rw [if_pos]
        rw [isLive, decide_eq_true hpeer, decide_eq_true (hall row hrow hpeer)]
        rfl
      · rw [held_of_ne q.key hpeer, ite_self]
  · rw [h] at herror
    contradiction

end Queues

section Handover

variable (C : Suite) {N : Type*} [DecidableEq N] (addr : N → Addr) (name : N → String)

/-- The messages taken from one node to another. -/
def messages (i j : N) (taken : List (Taken N)) : List Bytes :=
  (taken.filter fun m => m.sender = i ∧ m.receiver = j).map Taken.message

/-- The calls of send() that flush_peer() makes, from its k-th on. -/
def handovers (i j : N) (envs : ℕ → Env) : List QueuedMessage → ℕ → List (Step N)
  | [], _ => []
  | msg :: rest, k => .send i j (envs k) msg.payload :: handovers i j envs rest (k + 1)

/-- What one node has passed on from its queue to another. -/
structure Passed (i j : N) (s s' : Conversation N) (q q' : ForwardQueue) : Prop where
  others : ∀ k, k ≠ i → s'.network.node k = s.network.node k
  calls : s'.calls = s.calls
  isOpen : q'.isOpen = q.isOpen
  decrypts : Decrypts C q → Decrypts C q'
  moved : (messages i j s'.taken ++ backlog C q' (name j)).Perm
    (messages i j s.taken ++ backlog C q (name j))
  kept : ∀ k l, ¬ (k = i ∧ l = j) → messages k l s'.taken = messages k l s.taken
  apart : ∀ peerId, peerId ≠ name j → backlog C q' peerId = backlog C q peerId

variable {C addr name} {s s' s'' : Conversation N} {q q' q'' : ForwardQueue} {i j : N}

theorem messages_append (i j : N) (taken : List (Taken N)) (m : Taken N) :
    messages i j (taken ++ [m]) =
      messages i j taken ++ if m.sender = i ∧ m.receiver = j then [m.message] else [] := by
  rw [messages, List.filter_append, List.map_append, ← messages, List.filter_singleton]
  by_cases h : m.sender = i ∧ m.receiver = j
  · rw [if_pos h, decide_eq_true h]
    rfl
  · rw [if_neg h, decide_eq_false h]
    rfl

theorem Passed.refl (i j : N) (s : Conversation N) (q : ForwardQueue) :
    Passed C name i j s s q q :=
  ⟨fun _ _ => rfl, rfl, rfl, id, List.Perm.refl _, fun _ _ _ => rfl, fun _ _ => rfl⟩

theorem Passed.trans (h : Passed C name i j s s' q q') (h' : Passed C name i j s' s'' q' q'') :
    Passed C name i j s s'' q q'' where
  others k hk := (h'.others k hk).trans (h.others k hk)
  calls := h'.calls.trans h.calls
  isOpen := h'.isOpen.trans h.isOpen
  decrypts hq := h'.decrypts (h.decrypts hq)
  moved := h'.moved.trans h.moved
  kept k l hkl := (h'.kept k l hkl).trans (h.kept k l hkl)
  apart peerId hne := (h'.apart peerId hne).trans (h.apart peerId hne)

omit [DecidableEq N] in
/-- A call of send() calls no callback. -/
theorem called_send (env : Env) (t : MeshTransport) (peerId : String) (message : Bytes) (i : N) :
    called i (send C env t peerId message).effects = [] := by
  rw [called, List.map_eq_nil_iff, List.filter_eq_nil_iff]
  intro e he
  obtain ⟨packet, dest, rfl⟩ := SignedDelivery.send_sendto C env t peerId message e he
  simp

theorem network_send (s : Conversation N) (i j : N) (env : Env) (message : Bytes) :
    (step C addr name s (.send i j env message)).network.node i =
      (send C env (s.network.node i) (name j) message).state :=
  Function.update_self i _ _

theorem taken_send (s : Conversation N) (i j : N) (env : Env) (message : Bytes) :
    (step C addr name s (.send i j env message)).taken =
      s.taken ++ if (send C env (s.network.node i) (name j) message).raised = none then
        [⟨i, j, (s.network.node i).msgIdCounter, message⟩] else [] := by
  simp only [step]
  split
  · rfl
  · exact (List.append_nil _).symm

theorem calls_send (s : Conversation N) (i j : N) (env : Env) (message : Bytes) :
    (step C addr name s (.send i j env message)).calls = s.calls := by
  show s.calls ++ called i (send C env (s.network.node i) (name j) message).effects = s.calls
  rw [called_send, List.append_nil]

/-- A row whose message goes out is taken off the queue. -/
theorem passed_sent (addr : N → Addr) (env : Env) {row : Row} (hrow : row ∈ q.table.rows)
    {payload : Bytes} (hpeer : row.peerId = name j) (hheld : held C q.key (name j) row = some payload)
    (hraised : (send C env (s.network.node i) (name j) payload).raised = none) :
    Passed C name i j s (step C addr name s (.send i j env payload)) q
      ⟨q.key, q.isOpen, q.table.delete fun other => other.id = row.id⟩ where
  others k hk := Function.update_of_ne hk _ _
  calls := calls_send s i j env payload
  isOpen := rfl
  decrypts hq other hother := hq other (List.mem_filter.mp hother).1
  moved := by
    rw [taken_send, if_pos hraised, messages_append, if_pos ⟨rfl, rfl⟩, List.append_assoc]
    exact (backlog_delete hrow hheld).append_left _
  kept k l hkl := by
    rw [taken_send, if_pos hraised, messages_append,
      if_neg fun hand => hkl ⟨hand.1.symm, hand.2.symm⟩, List.append_nil]
  apart peerId hne := backlog_delete_other hrow (hpeer ▸ hne.symm)

/-- A row whose message does not go out stays. -/
theorem passed_unsent (addr : N → Addr) (env : Env) (id : ℕ) {payload : Bytes}
    (hraised : (send C env (s.network.node i) (name j) payload).raised ≠ none) :
    Passed C name i j s (step C addr name s (.send i j env payload)) q
      ⟨q.key, q.isOpen, q.table.incrementAttempt id⟩ where
  others k hk := Function.update_of_ne hk _ _
  calls := calls_send s i j env payload
  isOpen := rfl
  decrypts hq other hother := by
    obtain ⟨row, hrow, rfl⟩ := List.mem_map.mp hother
    obtain ⟨message, hmessage⟩ := hq row hrow
    refine ⟨message, ?_⟩
    rw [← hmessage]
    unfold Table.bump
    split <;> rfl
  moved := by
    rw [taken_send, if_neg hraised, List.append_nil, backlog_incrementAttempt]
  kept k l _ := by rw [taken_send, if_neg hraised, List.append_nil]
  apart peerId _ := backlog_incrementAttempt q id peerId

/-- The other pending messages are still drawn from the queue when one was taken off it. -/
theorem Drawn.tail_sent {peerId : String} {msg : QueuedMessage} {rest : List QueuedMessage}
    (h : Drawn C q peerId (msg :: rest)) :
    Drawn C ⟨q.key, q.isOpen, q.table.delete fun other => other.id = msg.id⟩ peerId rest where
  row other hother := by
    obtain ⟨row, hrow, hid, hpeer, hheld⟩ := h.row other (List.mem_cons_of_mem msg hother)
    refine ⟨row, List.mem_filter.mpr ⟨hrow, ?_⟩, hid, hpeer, hheld⟩
    have hne : row.id ≠ msg.id := by
      rw [hid]
      intro heq
      have hnew := (List.nodup_cons.mp h.distinct).1
      exact hnew (heq ▸ List.mem_map_of_mem hother)
    exact congrArg Bool.not (decide_eq_false hne)
  distinct := (List.nodup_cons.mp h.distinct).2

theorem Drawn.tail_unsent {peerId : String} {msg : QueuedMessage} {rest : List QueuedMessage}
    (h : Drawn C q peerId (msg :: rest)) :
    Drawn C ⟨q.key, q.isOpen, q.table.incrementAttempt msg.id⟩ peerId rest where
  row other hother := by
    obtain ⟨row, hrow, hid, hpeer, hheld⟩ := h.row other (List.mem_cons_of_mem msg hother)
    refine ⟨Table.bump msg.id row, List.mem_map_of_mem hrow, (Table.id_bump _ _).trans hid, ?_,
      (held_bump _ _ _ _).trans hheld⟩
    rw [← hpeer]
    unfold Table.bump
    split <;> rfl
  distinct := (List.nodup_cons.mp h.distinct).2

/-- What the loop of flush_peer() does to the queue, the conversation's sends do to the messages
taken, and they leave the same transport. -/
theorem passed_flushEach (envs : ℕ → Env) (pending : List QueuedMessage) (k : ℕ)
    (s : Conversation N) (q : ForwardQueue) (hopen : q.isOpen = true)
    (h : Drawn C q (name j) pending) :
    let r := flushEach C envs (name j) (s.network.node i) q pending k
    let s' := Runs.run (step C addr name) s (handovers i j envs pending k)
    r.transport = s'.network.node i ∧ Passed C name i j s s' q r.queue := by
  induction pending generalizing k s q with
  | nil => exact ⟨rfl, .refl i j s q⟩
  | cons msg rest ih =>
    obtain ⟨row, hrow, hid, hpeer, hheld⟩ := h.row msg List.mem_cons_self
    cases hraised : (send C (envs k) (s.network.node i) (name j) msg.payload).raised with
    | none =>
      have hone := passed_sent addr (envs k) hrow hpeer hheld hraised
      rw [hid] at hone
      obtain ⟨htransport, hrest⟩ := ih (k + 1)
        (step C addr name s (.send i j (envs k) msg.payload))
        ⟨q.key, q.isOpen, q.table.delete fun other => other.id = msg.id⟩ hopen h.tail_sent
      rw [network_send] at htransport hrest
      rw [flushEach_sent hopen hraised]
      exact ⟨htransport, hone.trans hrest⟩
    | some e =>
      have hne : (send C (envs k) (s.network.node i) (name j) msg.payload).raised ≠ none := by
        rw [hraised]
        exact Option.some_ne_none e
      have hone := passed_unsent addr (q := q) (envs k) msg.id hne
      obtain ⟨htransport, hrest⟩ := ih (k + 1)
        (step C addr name s (.send i j (envs k) msg.payload))
        ⟨q.key, q.isOpen, q.table.incrementAttempt msg.id⟩ hopen h.tail_unsent
      rw [network_send] at htransport hrest
      rw [flushEach_unsent hopen e hraised]
      exact ⟨htransport, hone.trans hrest⟩

end Handover

section Room

variable {C : Suite} {N : Type*} [DecidableEq N] {addr : N → Addr} {name : N → String}
variable {node : N → MeshTransport} {s : Conversation N} {i j : N}

/-- A message is at most one more in flight. -/
theorem underway_send_le {letters : List (Letter N × Phase)}
    (h : Tracks C addr name node s letters) (i j : N) (env : Env) (message : Bytes) :
    underway (step C addr name s (.send i j env message)) j ≤ underway s j + 1 := by
  have hold : ∀ m ∈ s.taken,
      (((step C addr name s (.send i j env message)).network.node m.sender).inFlight.get?
        m.msgId).isSome = ((s.network.node m.sender).inFlight.get? m.msgId).isSome := by
    intro m hm
    by_cases hi : m.sender = i
    · rw [h.taken] at hm
      obtain ⟨p, hp, rfl⟩ := List.mem_map.mp hm
      have hlt := h.counted p hp
      rw [hi] at hlt ⊢
      rw [network_send, send_other C env _ _ _ _ hlt.ne]
    · exact congrArg (fun t => (MeshTransport.inFlight t).get? m.msgId |>.isSome)
        (Function.update_of_ne hi _ _)
  rw [underway, taken_send, List.filter_append, List.length_append, underway]
  refine Nat.add_le_add (le_of_eq (congrArg List.length ?_)) ?_
  · refine List.filter_congr fun m hm => ?_
    rw [hold m hm]
  · refine (List.length_filter_le _ _).trans ?_
    split
    · exact le_rfl
    · exact Nat.zero_le 1

/-- There is room for the messages of a flush while they and those in flight to the peer are no
more than it can reassemble at once. -/
theorem always_handovers (hacq : Acquainted C addr name node) (hname : Function.Injective name)
    (envs : ℕ → Env) (pending : List QueuedMessage) (k : ℕ) (s : Conversation N)
    (h : ∃ letters, Tracks C addr name node s letters)
    (hroom : underway s j + pending.length ≤ maxReassemblyBufs) :
    Runs.Always (step C addr name) Unhurried s (handovers i j envs pending k) := by
  induction pending generalizing k s with
  | nil => trivial
  | cons msg rest ih =>
    obtain ⟨letters, htracks⟩ := h
    rw [List.length_cons] at hroom
    have hlt : underway s j < maxReassemblyBufs := by omega
    have hle := underway_send_le htracks i j (envs k) msg.payload
    refine ⟨hlt, ih (k + 1) _ (htracks.sends hacq hname i j (envs k) msg.payload hlt) ?_⟩
    omega

/-- The handovers of a flush are sends, so the conversation is still accounted for after them. -/
theorem tracks_handovers (hacq : Acquainted C addr name node) (hname : Function.Injective name)
    (envs : ℕ → Env) (pending : List QueuedMessage) (k : ℕ) (s : Conversation N)
    (h : ∃ letters, Tracks C addr name node s letters)
    (hunhurried : Runs.Always (step C addr name) Unhurried s (handovers i j envs pending k)) :
    ∃ letters, Tracks C addr name node
      (Runs.run (step C addr name) s (handovers i j envs pending k)) letters := by
  induction pending generalizing k s with
  | nil => exact h
  | cons msg rest ih =>
    obtain ⟨letters, htracks⟩ := h
    exact ih (k + 1) _ (htracks.sends hacq hname i j (envs k) msg.payload hunhurried.1)
      hunhurried.2

/-- send() takes a message for a peer with a session if it has an id left for it and the message
makes few enough fragments. -/
theorem raised_send {t : MeshTransport} {peerId : String} {message : Bytes} (env : Env)
    (hsession : (t.sessions.get? peerId).isSome = true) (hcounter : t.msgIdCounter < 256 ^ 4)
    (hcount : Framing.packetCount message < 256) :
    (send C env t peerId message).raised = none ∧
      ((send C env t peerId message).state.sessions.get? peerId).isSome = true ∧
      (send C env t peerId message).state.msgIdCounter = t.msgIdCounter + 1 := by
  obtain ⟨session, hget⟩ := Option.isSome_iff_exists.mp hsession
  have hsendable : (sending C env t session.sessionKey message).Sendable := by
    rw [sendable_iff, Framing.sending_total]
    exact ⟨hcounter, hcount⟩
  refine ⟨(send_raised_iff C env t peerId message session hget).mpr hsendable, ?_,
    (send_loop C env t peerId message session hget).2.2.2⟩
  have hbound := congrArg Option.isSome ((send_same C env t peerId message).bound peerId)
  rw [Dispatch.bound, Dispatch.bound, Option.isSome_map, Option.isSome_map] at hbound
  rw [hbound, hsession]

/-- Where every message goes through, the flush takes them all over. -/
theorem messages_handovers (envs : ℕ → Env) (pending : List QueuedMessage) (k : ℕ)
    (s : Conversation N)
    (hsession : ((s.network.node i).sessions.get? (name j)).isSome = true)
    (hcounter : (s.network.node i).msgIdCounter + pending.length ≤ 256 ^ 4)
    (hcount : ∀ msg ∈ pending, Framing.packetCount msg.payload < 256) :
    messages i j (Runs.run (step C addr name) s (handovers i j envs pending k)).taken =
      messages i j s.taken ++ pending.map QueuedMessage.payload := by
  induction pending generalizing k s with
  | nil => exact (List.append_nil _).symm
  | cons msg rest ih =>
    rw [List.length_cons] at hcounter
    rw [List.forall_mem_cons] at hcount
    obtain ⟨hraised, hsession', hnext⟩ := raised_send (C := C) (envs k) hsession
      (by omega) hcount.1
    have hrest := ih (k + 1) (step C addr name s (.send i j (envs k) msg.payload))
      (by rw [network_send]; exact hsession') (by rw [network_send, hnext]; omega) hcount.2
    rw [taken_send, if_pos hraised, messages_append, if_pos ⟨rfl, rfl⟩] at hrest
    rw [handovers, Runs.run_cons, hrest, List.append_assoc]
    rfl

end Room

end Mesim.Backlogs
