import Mesim.ForwardQueue
import Mesim.Runs
import Mathlib.Algebra.BigOperators.Group.Finset.Basic
import Mathlib.Algebra.Order.Ring.Rat

/-!
What the forward queue is for: a line of messages for each peer.
A message joins the end of its peer's line and leaves it when it is marked sent; it
counts until its time is up. As long as the clock does not go back, the table is
read as these lines, whatever has been purged from it.
-/
namespace Mesim.FifoQueue

open Octets Crypto ForwardQueue

section Lines

inductive QueueEvent where
  | enqueued (id : ℕ) (peerId : String) (payload : Bytes) (queuedAt : ℚ)
  | sent (id : ℕ)
  | attempted (id : ℕ)
  deriving DecidableEq

/-- The messages waiting for each peer, in the order in which they came. -/
abbrev Lines := String → List QueuedMessage

def bumped (id : ℕ) (m : QueuedMessage) : QueuedMessage :=
  if m.id = id then { m with attempt := m.attempt + 1 } else m

def serve (lines : Lines) : QueueEvent → Lines
  | .enqueued id peerId payload queuedAt =>
    let peerId := normalizePeerId peerId
    Function.update lines peerId
      (lines peerId ++ [⟨id, peerId, payload, queuedAt, queuedAt + ttlSeconds, 0⟩])
  | .sent id => fun peerId => (lines peerId).filter fun m => m.id ≠ id
  | .attempted id => fun peerId => (lines peerId).map (bumped id)

/-- The messages whose time is not up. -/
def live (now : ℚ) (line : List QueuedMessage) : List QueuedMessage :=
  line.filter fun m => now < m.expiresAt

theorem live_live {now later : ℚ} (h : now ≤ later) (line : List QueuedMessage) :
    live later (live now line) = live later line := by
  rw [live, live, live, List.filter_filter]
  refine List.filter_congr fun m _ => ?_
  rw [Bool.eq_iff_iff, Bool.and_eq_true, decide_eq_true_iff, decide_eq_true_iff, and_iff_left_iff_imp]
  exact fun hlt => h.trans_lt hlt

theorem length_live_le {now later : ℚ} (h : now ≤ later) (line : List QueuedMessage) :
    (live later line).length ≤ (live now line).length := by
  rw [← live_live h]
  exact List.length_filter_le _ _

theorem live_filter (now : ℚ) (p : QueuedMessage → Bool) (line : List QueuedMessage) :
    live now (line.filter p) = (live now line).filter p := List.filter_comm _ _ _

theorem bumped_expiresAt (id : ℕ) (m : QueuedMessage) : (bumped id m).expiresAt = m.expiresAt := by
  unfold bumped
  split <;> rfl

theorem live_map_bumped (now : ℚ) (id : ℕ) (line : List QueuedMessage) :
    live now (line.map (bumped id)) = (live now line).map (bumped id) := by
  rw [live, live, List.filter_map]
  refine congrArg _ (List.filter_congr fun m _ => ?_)
  rw [Function.comp_apply, bumped_expiresAt]

end Lines

section Calls

variable (C : Suite)

/-- enqueue(), with the queue that it leaves. -/
def enqueueAt (q : ForwardQueue) (sizeNow now : ℚ) (nonce : Nonce) (peerId : String)
    (payload : Bytes) : Except PyError ℕ × ForwardQueue :=
  match q.enqueueAt C sizeNow now nonce peerId payload with
  | .ok (q', id) => (.ok id, q')
  | .error e => (.error e, q)

inductive Call where
  | openFile
  | close
  | enqueue (sizeNow now : ℚ) (nonce : Nonce) (peerId : String) (payload : Bytes)
  | getPending (now : ℚ) (peerId : String)
  | markSent (queueId : ℕ)
  | incrementAttempt (queueId : ℕ)
  | purgeExpired (now : ℚ)
  | queueSize (now : ℚ) (peerId : String)
  | totalSize (now : ℚ)

/-- The clock readings of a call. -/
def readings : Call → List ℚ
  | .enqueue sizeNow now _ _ _ => [sizeNow, now]
  | .getPending now _ | .purgeExpired now | .queueSize now _ | .totalSize now => [now]
  | .openFile | .close | .markSent _ | .incrementAttempt _ => []

/-- A call that raises leaves the queue as it is. -/
def step (q : ForwardQueue) : Call → ForwardQueue
  | .openFile => q.openFile
  | .close => q.close
  | .enqueue sizeNow now nonce peerId payload => (enqueueAt C q sizeNow now nonce peerId payload).2
  | .markSent queueId => (q.markSent queueId).toOption.getD q
  | .incrementAttempt queueId => (q.incrementAttempt queueId).toOption.getD q
  | .purgeExpired now => ((q.purgeExpired now).map Prod.fst).toOption.getD q
  | .getPending _ _ | .queueSize _ _ | .totalSize _ => q

/-- What the call does to the lines: nothing when it raises. -/
def logged : ForwardQueue × Call → List QueueEvent
  | (q, .enqueue sizeNow now nonce peerId payload) =>
    match (enqueueAt C q sizeNow now nonce peerId payload).1 with
    | .ok id => [.enqueued id peerId payload now]
    | .error _ => []
  | (q, .markSent queueId) =>
    match q.markSent queueId with
    | .ok _ => [.sent queueId]
    | .error _ => []
  | (q, .incrementAttempt queueId) =>
    match q.incrementAttempt queueId with
    | .ok _ => [.attempted queueId]
    | .error _ => []
  | _ => []

/-- The lines after a run. -/
def linesAfter (q : ForwardQueue) (calls : List Call) : Lines :=
  ((Runs.visits (step C) q calls).flatMap (logged C)).foldl serve fun _ => []

end Calls

section Invariant

variable (C : Suite)

/-- What the row says once it is decrypted. -/
def messageOf (key : SessionKey) (row : Row) : QueuedMessage where
  id := row.id
  peerId := row.peerId
  payload := (decryptPayload C key row.payload).toOption.getD []
  queuedAt := row.queuedAt
  expiresAt := row.expiresAt
  attempt := row.attempt

/-- The rows of a peer as messages. -/
def lineOf (q : ForwardQueue) (peerId : String) : List QueuedMessage :=
  (q.table.rows.filter fun row => row.peerId = peerId).map (messageOf C q.key)

/-- The table holds the lines, but for what had expired at some reading of the past. -/
structure Holds (q : ForwardQueue) (lines : Lines) (past : List ℚ) : Prop where
  readable : ∀ row ∈ q.table.rows, ∃ payload, decryptPayload C q.key row.payload = .ok payload
  normal : ∀ row ∈ q.table.rows, normalizePeerId row.peerId = row.peerId
  filed : ∀ row ∈ q.table.rows, row.queuedAt ∈ past
  ordered : (q.table.rows.map Row.queuedAt).Pairwise (· ≤ ·)
  agrees : ∀ peerId now, (∀ r ∈ past, r ≤ now) →
    live now (lineOf C q peerId) = live now (lines peerId)
  bounded : ∀ peerId now, (∀ r ∈ past, r ≤ now) →
    (live now (lines peerId)).length ≤ maxQueuePerPeer

variable {C} {q : ForwardQueue} {lines : Lines} {past : List ℚ}

theorem readRows_eq (key : SessionKey) (rows : List Row)
    (h : ∀ row ∈ rows, ∃ payload, decryptPayload C key row.payload = .ok payload) :
    readRows C key rows = .ok (rows.map (messageOf C key)) := by
  induction rows with
  | nil => rfl
  | cons row rest ih =>
    obtain ⟨payload, hpayload⟩ := h row List.mem_cons_self
    have hrest := ih fun r hr => h r (List.mem_cons_of_mem row hr)
    simp only [readRows, hpayload, hrest, bind, Except.bind, List.map_cons, messageOf,
      Except.toOption, Option.getD_some]
    rfl

theorem live_lineOf (q : ForwardQueue) (peerId : String) (now : ℚ) :
    live now (lineOf C q peerId) =
      (q.table.rows.filter (isLive peerId now)).map (messageOf C q.key) := by
  rw [live, lineOf, List.filter_map, List.filter_filter]
  refine congrArg _ (List.filter_congr fun row _ => ?_)
  rw [isLive, Function.comp_apply, Bool.and_comm]
  rfl

theorem Holds.select (h : Holds C q lines past) (condition : Row → Bool) :
    q.table.select Row.queuedAt condition = q.table.rows.filter condition :=
  q.table.select_of_timed h.ordered condition

theorem Holds.getPending (h : Holds C q lines past) (hopen : q.isOpen = true) (peerId : String)
    (now : ℚ) (hnow : ∀ r ∈ past, r ≤ now) :
    q.getPending C now peerId = .ok (live now (lines (normalizePeerId peerId))) := by
  have hread := readRows_eq q.key (q.table.rows.filter (isLive (normalizePeerId peerId) now))
    fun row hrow => h.readable row (List.mem_filter.mp hrow).1
  rw [← live_lineOf, h.agrees _ now hnow] at hread
  simp only [ForwardQueue.getPending, assertOpen, hopen, if_true, bind, Except.bind, h.select, hread]

theorem Holds.queueSize (h : Holds C q lines past) (hopen : q.isOpen = true) (peerId : String)
    (now : ℚ) (hnow : ∀ r ∈ past, r ≤ now) :
    q.queueSize now peerId = .ok (live now (lines (normalizePeerId peerId))).length := by
  rw [← h.agrees _ now hnow, live_lineOf, List.length_map]
  simp only [ForwardQueue.queueSize, assertOpen, hopen, if_true, bind, Except.bind]
  rfl

theorem Holds.totalSize (h : Holds C q lines past) (hopen : q.isOpen = true) (now : ℚ)
    (hnow : ∀ r ∈ past, r ≤ now) : ∃ peers : Finset String,
      (∀ p ∈ peers, normalizePeerId p = p) ∧ (∀ p, p ∉ peers → live now (lines p) = []) ∧
      q.totalSize now = .ok (∑ p ∈ peers, (live now (lines p)).length) := by
  let rows := q.table.rows.filter fun row => now < row.expiresAt
  have hlive : ∀ p, (live now (lines p)).length = (rows.map Row.peerId).count p := by
    intro p
    rw [← h.agrees p now hnow, live_lineOf, List.length_map, List.count, List.countP_map,
      List.countP_eq_length_filter, List.filter_filter]
    refine congrArg List.length (List.filter_congr fun row _ => ?_)
    rw [isLive]
    rfl
  refine ⟨(rows.map Row.peerId).toFinset, fun p hp => ?_, fun p hp => ?_, ?_⟩
  · obtain ⟨row, hrow, rfl⟩ := List.mem_map.mp (List.mem_toFinset.mp hp)
    exact h.normal row (List.mem_filter.mp hrow).1
  · rw [List.mem_toFinset] at hp
    exact List.length_eq_zero_iff.mp ((hlive p).trans (List.count_eq_zero.mpr hp))
  · rw [Finset.sum_congr rfl fun p _ => hlive p, List.sum_toFinset_count_eq_length, List.length_map]
    simp only [ForwardQueue.totalSize, assertOpen, hopen, if_true, bind, Except.bind]
    rfl

theorem Holds.later (h : Holds C q lines past) (more : List ℚ) : Holds C q lines (past ++ more) where
  readable := h.readable
  normal := h.normal
  filed row hrow := List.mem_append_left _ (h.filed row hrow)
  ordered := h.ordered
  agrees peerId now hnow := h.agrees peerId now fun r hr => hnow r (List.mem_append_left _ hr)
  bounded peerId now hnow := h.bounded peerId now fun r hr => hnow r (List.mem_append_left _ hr)

theorem holds_new (h : q.table.rows = []) : Holds C q (fun _ => []) [] where
  readable row hrow := by
    rw [h] at hrow
    contradiction
  normal row hrow := by
    rw [h] at hrow
    contradiction
  filed row hrow := by
    rw [h] at hrow
    contradiction
  ordered := by
    rw [h]
    exact List.Pairwise.nil
  agrees peerId now _ := by
    rw [lineOf, h]
    rfl
  bounded _ _ _ := Nat.zero_le _

/-- Whether the file is open does not matter to what it holds. -/
theorem Holds.reopen (h : Holds C q lines past) (isOpen : Bool) :
    Holds C { q with isOpen := isOpen } lines past :=
  ⟨h.readable, h.normal, h.filed, h.ordered, h.agrees, h.bounded⟩

theorem Holds.delete (h : Holds C q lines past) (condition : Row → Bool) (lines' : Lines)
    (past' : List ℚ) (hpast : past ⊆ past')
    (hagrees : ∀ peerId now, (∀ r ∈ past', r ≤ now) →
      live now (lineOf C { q with table := q.table.delete condition } peerId) =
        live now (lines' peerId))
    (hbounded : ∀ peerId now, (∀ r ∈ past', r ≤ now) →
      (live now (lines' peerId)).length ≤ maxQueuePerPeer) :
    Holds C { q with table := q.table.delete condition } lines' past' where
  readable row hrow := h.readable row (List.mem_filter.mp hrow).1
  normal row hrow := h.normal row (List.mem_filter.mp hrow).1
  filed row hrow := hpast (h.filed row (List.mem_filter.mp hrow).1)
  ordered := h.ordered.sublist (List.filter_sublist.map _)
  agrees := hagrees
  bounded := hbounded

theorem filter_purged (t : Table) (now : ℚ) (condition : Row → Bool)
    (h : ∀ row, condition row = true → now < row.expiresAt) :
    (t.delete fun row => row.expiresAt ≤ now).rows.filter condition = t.rows.filter condition := by
  rw [IdTable.delete, List.filter_filter]
  refine List.filter_congr fun row _ => ?_
  rw [Bool.eq_iff_iff, Bool.and_eq_true, and_iff_left_iff_imp, Bool.not_eq_true',
    decide_eq_false_iff_not, not_le]
  exact h row

theorem isLive_expiresAt {now later : ℚ} (h : now ≤ later) (peerId : String) (row : Row)
    (hlive : isLive peerId later row = true) : now < row.expiresAt := by
  rw [isLive, Bool.and_eq_true, decide_eq_true_iff, decide_eq_true_iff] at hlive
  exact h.trans_lt hlive.2

/-- Purging takes out only what no later reading counts. -/
theorem Holds.purge (h : Holds C q lines past) (now : ℚ) :
    Holds C { q with table := q.table.delete fun row => row.expiresAt ≤ now } lines
      (past ++ [now]) := by
  refine h.delete _ lines _ (List.subset_append_left _ _) (fun peerId later hlater => ?_)
    fun peerId later hlater => (h.later [now]).bounded peerId later hlater
  rw [← h.agrees peerId later fun r hr => hlater r (List.mem_append_left _ hr), live_lineOf,
    live_lineOf]
  exact congrArg _ (filter_purged q.table now _
    fun row => isLive_expiresAt (hlater now (by simp)) peerId row)

/-- No later call sees whether the table was purged. -/
theorem purgeExpired_unseen (hopen : q.isOpen = true) (now : ℚ) :
    ∃ q' n, q.purgeExpired now = .ok (q', n) ∧ ∀ later, now ≤ later →
      (∀ peerId, q'.getPending C later peerId = q.getPending C later peerId ∧
        q'.queueSize later peerId = q.queueSize later peerId) ∧
      q'.totalSize later = q.totalSize later := by
  refine ⟨_, _, purgeExpired_open hopen now, fun later hlater => ⟨fun peerId => ?_, ?_⟩⟩
  · have hrows := filter_purged q.table now (isLive (normalizePeerId peerId) later)
      fun row => isLive_expiresAt hlater _ row
    constructor
    · simp only [ForwardQueue.getPending, assertOpen, IdTable.select, hrows]
    · simp only [ForwardQueue.queueSize, assertOpen, hrows]
  · have hrows := filter_purged q.table now (fun row => later < row.expiresAt)
      fun row hlive => hlater.trans_lt (of_decide_eq_true hlive)
    simp only [ForwardQueue.totalSize, assertOpen, hrows]

theorem lineOf_delete (q : ForwardQueue) (id : ℕ) (peerId : String) :
    lineOf C { q with table := q.table.delete fun row => row.id = id } peerId =
      (lineOf C q peerId).filter fun m => m.id ≠ id := by
  simp only [lineOf, IdTable.delete, List.filter_map]
  rw [List.filter_comm]
  refine congrArg _ (List.filter_congr fun row _ => ?_)
  simp only [Function.comp_apply, messageOf, ne_eq, decide_not]
  rfl

theorem Holds.markSent (h : Holds C q lines past) (id : ℕ) :
    Holds C { q with table := q.table.delete fun row => row.id = id } (serve lines (.sent id))
      past := by
  refine h.delete _ _ _ (List.Subset.refl _) (fun peerId now hnow => ?_) fun peerId now hnow => ?_
  · rw [lineOf_delete, serve, live_filter, live_filter, h.agrees peerId now hnow]
  · rw [serve, live_filter]
    exact (List.length_filter_le _ _).trans (h.bounded peerId now hnow)

theorem lineOf_incrementAttempt (q : ForwardQueue) (id : ℕ) (peerId : String) :
    lineOf C { q with table := q.table.incrementAttempt id } peerId =
      (lineOf C q peerId).map (bumped id) := by
  simp only [lineOf, Table.incrementAttempt, IdTable.update, List.filter_map, List.map_map]
  have hpeer : ∀ row, (Table.bump id row).peerId = row.peerId := by
    intro row
    unfold Table.bump
    split <;> rfl
  have hmessage : messageOf C q.key ∘ Table.bump id = bumped id ∘ messageOf C q.key := by
    funext row
    simp only [Function.comp_apply, Table.bump, bumped]
    by_cases hid : row.id = id
    · rw [if_pos hid, if_pos (by exact hid)]
      rfl
    · rw [if_neg hid, if_neg (by exact hid)]
  rw [hmessage]
  refine congrArg _ (List.filter_congr fun row _ => ?_)
  rw [Function.comp_apply, hpeer]

theorem Holds.incrementAttempt (h : Holds C q lines past) (id : ℕ) :
    Holds C { q with table := q.table.incrementAttempt id } (serve lines (.attempted id)) past := by
  have hfields : ∀ row, (Table.bump id row).payload = row.payload ∧
      (Table.bump id row).peerId = row.peerId ∧ (Table.bump id row).queuedAt = row.queuedAt := by
    intro row
    unfold Table.bump
    split <;> exact ⟨rfl, rfl, rfl⟩
  constructor
  · intro row hrow
    obtain ⟨old, hold, rfl⟩ := List.mem_map.mp hrow
    rw [(hfields old).1]
    exact h.readable old hold
  · intro row hrow
    obtain ⟨old, hold, rfl⟩ := List.mem_map.mp hrow
    rw [(hfields old).2.1]
    exact h.normal old hold
  · intro row hrow
    obtain ⟨old, hold, rfl⟩ := List.mem_map.mp hrow
    rw [(hfields old).2.2]
    exact h.filed old hold
  · have htimes : ((q.table.incrementAttempt id).rows.map Row.queuedAt) =
        q.table.rows.map Row.queuedAt := by
      rw [Table.incrementAttempt, IdTable.update, List.map_map]
      exact List.map_congr_left fun row _ => (hfields row).2.2
    rw [htimes]
    exact h.ordered
  · intro peerId now hnow
    rw [lineOf_incrementAttempt, serve, live_map_bumped, live_map_bumped, h.agrees peerId now hnow]
  · intro peerId now hnow
    rw [serve, live_map_bumped, List.length_map]
    exact h.bounded peerId now hnow

theorem lineOf_insert (haead : C.AeadCorrect) (q : ForwardQueue) (peerId : String) (payload : Bytes)
    (nonce : Nonce) (now expiresAt : ℚ) (peerId' : String) :
    lineOf C ⟨q.key, q.isOpen,
        q.table.insert peerId (encryptPayload C nonce q.key payload) now expiresAt⟩ peerId' =
      lineOf C q peerId' ++
        if peerId = peerId' then [⟨q.table.nextId, peerId, payload, now, expiresAt, 0⟩] else [] := by
  simp only [lineOf, Table.insert, IdTable.insert, List.filter_append, List.map_append]
  apply congrArg _
  by_cases hpeer : peerId = peerId'
  · simp only [hpeer, List.filter_cons, List.filter_nil, decide_true, if_true, List.map_cons,
      List.map_nil, messageOf, decryptPayload_encryptPayload C haead, Except.toOption,
      Option.getD_some]
  · simp only [hpeer, List.filter_cons, List.filter_nil, decide_false, Bool.false_eq_true, if_false,
      List.map_nil]

theorem Holds.enqueue (haead : C.AeadCorrect) (h : Holds C q lines past) (sizeNow now : ℚ)
    (hsorted : (past ++ [sizeNow, now]).Pairwise (· ≤ ·)) (nonce : Nonce) (peerId : String)
    (payload : Bytes)
    (hroom : (live sizeNow (lines (normalizePeerId peerId))).length < maxQueuePerPeer) :
    Holds C ⟨q.key, q.isOpen, q.table.insert (normalizePeerId peerId)
        (encryptPayload C nonce q.key payload) now (now + ttlSeconds)⟩
      (serve lines (.enqueued q.table.nextId peerId payload now)) (past ++ [sizeNow, now]) := by
  obtain ⟨_, hreadings, hbefore⟩ := List.pairwise_append.mp hsorted
  have hclock : sizeNow ≤ now := (List.pairwise_cons.mp hreadings).1 now (by simp)
  have hpast : ∀ r ∈ past, r ≤ sizeNow := fun r hr => hbefore r hr sizeNow (by simp)
  constructor
  · intro row hrow
    rcases List.mem_append.mp hrow with hold | hnew
    · exact h.readable row hold
    · rw [List.mem_singleton.mp hnew]
      exact ⟨payload, decryptPayload_encryptPayload C haead nonce q.key payload⟩
  · intro row hrow
    rcases List.mem_append.mp hrow with hold | hnew
    · exact h.normal row hold
    · rw [List.mem_singleton.mp hnew]
      exact normalizePeerId_idem peerId
  · intro row hrow
    rcases List.mem_append.mp hrow with hold | hnew
    · exact List.mem_append_left _ (h.filed row hold)
    · rw [List.mem_singleton.mp hnew]
      simp
  · show ((q.table.rows ++ _).map Row.queuedAt).Pairwise _
    rw [List.map_append, List.pairwise_append]
    refine ⟨h.ordered, List.pairwise_singleton _ _, fun r hr r' hr' => ?_⟩
    obtain ⟨row, hrow, rfl⟩ := List.mem_map.mp hr
    rw [List.mem_singleton.mp hr']
    exact (hpast _ (h.filed row hrow)).trans hclock
  · intro peerId' later hlater
    have hagrees := (h.later [sizeNow, now]).agrees peerId' later hlater
    rw [lineOf_insert haead, live, List.filter_append, serve]
    by_cases hpeer : normalizePeerId peerId = peerId'
    · subst peerId'
      rw [if_pos rfl, Function.update_self, live, List.filter_append]
      exact congrArg (· ++ _) hagrees
    · rw [if_neg hpeer, Function.update_of_ne (Ne.symm hpeer), List.filter_nil, List.append_nil]
      exact hagrees
  · intro peerId' later hlater
    rw [serve]
    by_cases hpeer : normalizePeerId peerId = peerId'
    · subst peerId'
      rw [Function.update_self, live, List.filter_append, List.length_append]
      have hfewer := length_live_le (hlater sizeNow (by simp)) (lines (normalizePeerId peerId))
      have hone : ((List.filter (fun m => decide (later < m.expiresAt)) [(⟨q.table.nextId,
          normalizePeerId peerId, payload, now, now + ttlSeconds, 0⟩ : QueuedMessage)])).length ≤ 1 :=
        List.length_filter_le _ _
      rw [live] at hfewer
      omega
    · rw [Function.update_of_ne (Ne.symm hpeer)]
      exact (h.later [sizeNow, now]).bounded peerId' later hlater

/-- What enqueue() does: it refuses a full line and otherwise adds a row. -/
theorem Holds.enqueueAt_eq (h : Holds C q lines past) (hopen : q.isOpen = true) (sizeNow now : ℚ)
    (hnow : ∀ r ∈ past, r ≤ sizeNow) (nonce : Nonce) (peerId : String) (payload : Bytes) :
    enqueueAt C q sizeNow now nonce peerId payload =
      if (live sizeNow (lines (normalizePeerId peerId))).length ≥ maxQueuePerPeer then
        (.error (fullQueue (normalizePeerId peerId)), q)
      else (.ok q.table.nextId, ⟨q.key, q.isOpen, q.table.insert (normalizePeerId peerId)
        (encryptPayload C nonce q.key payload) now (now + ttlSeconds)⟩) := by
  have hsize := h.queueSize hopen (normalizePeerId peerId) sizeNow hnow
  rw [normalizePeerId_idem] at hsize
  rw [FifoQueue.enqueueAt, enqueueAt_open sizeNow now nonce peerId payload hopen hsize]
  split_ifs <;> rfl

theorem assertOpen_closed (hopen : q.isOpen = false) : q.assertOpen = .error .runtimeError := by
  rw [assertOpen, hopen]
  rfl

theorem enqueueAt_closed (hopen : q.isOpen = false) (sizeNow now : ℚ) (nonce : Nonce)
    (peerId : String) (payload : Bytes) :
    enqueueAt C q sizeNow now nonce peerId payload = (.error .runtimeError, q) := by
  simp only [enqueueAt, ForwardQueue.enqueueAt, assertOpen_closed hopen, bind, Except.bind]

theorem markSent_closed (hopen : q.isOpen = false) (queueId : ℕ) :
    q.markSent queueId = .error .runtimeError := by
  rw [ForwardQueue.markSent, assertOpen_closed hopen]
  rfl

theorem incrementAttempt_closed (hopen : q.isOpen = false) (queueId : ℕ) :
    q.incrementAttempt queueId = .error .runtimeError := by
  rw [ForwardQueue.incrementAttempt, assertOpen_closed hopen]
  rfl

theorem purgeExpired_closed (hopen : q.isOpen = false) (now : ℚ) :
    q.purgeExpired now = .error .runtimeError := by
  rw [ForwardQueue.purgeExpired, assertOpen_closed hopen]
  rfl

end Invariant

section Results

variable {C : Suite} {q : ForwardQueue} {lines : Lines} {past : List ℚ}

theorem holds_step (haead : C.AeadCorrect) (h : Holds C q lines past) (call : Call)
    (hsorted : (past ++ readings call).Pairwise (· ≤ ·)) :
    Holds C (step C q call) ((logged C (q, call)).foldl serve lines) (past ++ readings call) := by
  cases call with
  | openFile => exact (h.reopen true).later []
  | close => exact (h.reopen false).later []
  | getPending now peerId => exact h.later [now]
  | queueSize now peerId => exact h.later [now]
  | totalSize now => exact h.later [now]
  | enqueue sizeNow now nonce peerId payload =>
    have hpast : ∀ r ∈ past, r ≤ sizeNow := fun r hr =>
      (List.pairwise_append.mp hsorted).2.2 r hr sizeNow (by simp [readings])
    simp only [step, logged]
    cases hopen : q.isOpen with
    | false =>
      rw [enqueueAt_closed hopen]
      exact h.later _
    | true =>
      rw [h.enqueueAt_eq hopen sizeNow now hpast nonce peerId payload]
      split
      · exact h.later _
      · rename_i hroom
        exact h.enqueue haead sizeNow now hsorted nonce peerId payload (Nat.lt_of_not_le hroom)
  | markSent queueId =>
    simp only [step, logged]
    cases hopen : q.isOpen with
    | false =>
      rw [markSent_closed hopen]
      exact h.later []
    | true =>
      rw [markSent_open hopen]
      exact (h.markSent queueId).later []
  | incrementAttempt queueId =>
    simp only [step, logged]
    cases hopen : q.isOpen with
    | false =>
      rw [incrementAttempt_closed hopen]
      exact h.later []
    | true =>
      rw [incrementAttempt_open hopen]
      exact (h.incrementAttempt queueId).later []
  | purgeExpired now =>
    simp only [step, logged]
    cases hopen : q.isOpen with
    | false =>
      rw [purgeExpired_closed hopen]
      exact h.later [now]
    | true =>
      rw [purgeExpired_open hopen]
      exact h.purge now

theorem holds_run (haead : C.AeadCorrect) (calls : List Call) (h : Holds C q lines past)
    (hsorted : (past ++ calls.flatMap readings).Pairwise (· ≤ ·)) :
    Holds C (Runs.run (step C) q calls)
      (((Runs.visits (step C) q calls).flatMap (logged C)).foldl serve lines)
      (past ++ calls.flatMap readings) := by
  induction calls generalizing q lines past with
  | nil => exact h.later []
  | cons call rest ih =>
    rw [List.flatMap_cons, ← List.append_assoc] at hsorted ⊢
    rw [Runs.visits, List.flatMap_cons, List.foldl_append]
    exact ih (holds_step haead h call (List.pairwise_append.mp hsorted).1) hsorted

/-- What the calls return at a time, by the lines. -/
structure ServesLines (C : Suite) (q : ForwardQueue) (lines : Lines) (now : ℚ) : Prop where
  pending : q.isOpen = true → ∀ peerId,
    q.getPending C now peerId = .ok (live now (lines (normalizePeerId peerId)))
  size : q.isOpen = true → ∀ peerId,
    q.queueSize now peerId = .ok (live now (lines (normalizePeerId peerId))).length
  bounded : ∀ peerId, (live now (lines peerId)).length ≤ maxQueuePerPeer
  total : q.isOpen = true → ∃ peers : Finset String, (∀ p ∈ peers, normalizePeerId p = p) ∧
    (∀ p, p ∉ peers → live now (lines p) = []) ∧
    q.totalSize now = .ok (∑ p ∈ peers, (live now (lines p)).length)
  purge : q.isOpen = true → ∃ q' n, q.purgeExpired now = .ok (q', n) ∧ ∀ later, now ≤ later →
    (∀ peerId, q'.getPending C later peerId = q.getPending C later peerId ∧
      q'.queueSize later peerId = q.queueSize later peerId) ∧
    q'.totalSize later = q.totalSize later
  enqueue : q.isOpen = true → ∀ later nonce peerId payload,
    (live now (lines (normalizePeerId peerId))).length < maxQueuePerPeer →
      ∃ id, (enqueueAt C q now later nonce peerId payload).1 = .ok id
  overflow : ∀ later nonce peerId payload msg,
    (enqueueAt C q now later nonce peerId payload).1 = .error (.overflowError msg) →
      (enqueueAt C q now later nonce peerId payload).2 = q

theorem enqueueAt_error (sizeNow now : ℚ) (nonce : Nonce) (peerId : String) (payload : Bytes)
    (e : PyError) (h : (enqueueAt C q sizeNow now nonce peerId payload).1 = .error e) :
    (enqueueAt C q sizeNow now nonce peerId payload).2 = q := by
  unfold enqueueAt at h ⊢
  split at h
  · contradiction
  · rfl

/-- A new queue whose clock does not go back serves the lines of its calls: each peer's messages in
the order in which they were enqueued, while their time is not up, with their attempts. -/
theorem queue_refines_lines (C : Suite) (haead : C.AeadCorrect) (q : ForwardQueue)
    (hnew : q.table.rows = []) (calls : List Call) (now : ℚ)
    (hclock : (calls.flatMap readings ++ [now]).Pairwise (· ≤ ·)) :
    ServesLines C (Runs.run (step C) q calls) (linesAfter C q calls) now := by
  obtain ⟨hsorted, _, hbefore⟩ := List.pairwise_append.mp hclock
  have hnow : ∀ r ∈ calls.flatMap readings, r ≤ now := fun r hr => hbefore r hr now (by simp)
  have h : Holds C (Runs.run (step C) q calls) (linesAfter C q calls)
      ([] ++ calls.flatMap readings) := holds_run haead calls (holds_new hnew) hsorted
  exact ⟨fun hopen peerId => h.getPending hopen peerId now hnow,
    fun hopen peerId => h.queueSize hopen peerId now hnow, fun peerId => h.bounded peerId now hnow,
    fun hopen => h.totalSize hopen now hnow, fun hopen => purgeExpired_unseen hopen now,
    fun hopen later nonce peerId payload hroom => by
      rw [h.enqueueAt_eq hopen now later hnow nonce peerId payload, if_neg (Nat.not_le.mpr hroom)]
      exact ⟨_, rfl⟩,
    fun later nonce peerId payload _ herror =>
      enqueueAt_error now later nonce peerId payload _ herror⟩

/-- The second of two messages is left, after one attempt. -/
theorem queue_refines_lines_bravo : ∃ q : ForwardQueue, ∃ calls : List Call,
    linesAfter stub q calls "bravo" = [⟨2, "bravo", [50], 2, 86402, 1⟩] ∧
      ServesLines stub (Runs.run (step stub) q calls) (linesAfter stub q calls) 10 := by
  let nonce : Nonce := List.Vector.replicate 12 0
  let q : ForwardQueue := ⟨⟨List.Vector.replicate 32 0⟩, false, .empty⟩
  let calls : List Call := [.openFile, .enqueue 1 1 nonce "bravo" [49],
    .enqueue 2 2 nonce "bravo" [50], .incrementAttempt 2, .markSent 1, .purgeExpired 5]
  refine ⟨q, calls, by decide +kernel, ?_⟩
  exact queue_refines_lines stub stub_aeadCorrect q rfl calls 10 (by decide +kernel)

end Results

end Mesim.FifoQueue
