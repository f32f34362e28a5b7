import Mesim.FifoQueue
import Mesim.Flush

/-!
One message in the forward queue.
From its filing until it is marked sent or its time is up, its row stays where it is,
whatever else is filed, purged or tried. While every row decrypts, get_pending() returns
it to the one peer that it was filed for.
-/
namespace Mesim.QueueEntries

open Octets Crypto ForwardQueue FifoQueue Flush

/-- A message as it was filed. -/
structure Filing where
  id : ℕ
  peerId : String
  payload : Bytes
  expiresAt : ℚ

variable (C : Suite)

/-- The queue holds a row for it. -/
def Waits (q : ForwardQueue) (f : Filing) : Prop :=
  ∃ row ∈ q.table.rows, row.id = f.id ∧ row.peerId = f.peerId ∧ row.expiresAt = f.expiresAt ∧
    decryptPayload C q.key row.payload = .ok f.payload

section Steps

variable {C} {q q' : ForwardQueue} {f : Filing}

/-- What one call can leave of the table. -/
inductive Change (C : Suite) (q : ForwardQueue) : Call → ForwardQueue → Prop
  | same (call : Call) : Change C q call q
  | opened : Change C q .openFile { q with isOpen := true }
  | closed : Change C q .close { q with isOpen := false }
  | filed (sizeNow now : ℚ) (nonce : Nonce) (peerId : String) (payload : Bytes) :
      Change C q (.enqueue sizeNow now nonce peerId payload) { q with
        table := q.table.insert (normalizePeerId peerId) (encryptPayload C nonce q.key payload) now
          (now + ttlSeconds) }
  | sent (id : ℕ) : Change C q (.markSent id) { q with
      table := q.table.delete fun row => row.id = id }
  | attempted (id : ℕ) : Change C q (.incrementAttempt id) { q with
      table := q.table.incrementAttempt id }
  | purged (now : ℚ) : Change C q (.purgeExpired now) { q with
      table := q.table.delete fun row => row.expiresAt ≤ now }

theorem change_step (q : ForwardQueue) (call : Call) : Change C q call (step C q call) := by
  have hsame : Change C q call q := .same call
  cases call with
  | openFile => exact .opened
  | close => exact .closed
  | getPending now peerId => exact hsame
  | queueSize now peerId => exact hsame
  | totalSize now => exact hsame
  | enqueue sizeNow now nonce peerId payload =>
    rw [step, FifoQueue.enqueueAt]
    split
    · next q' id henqueue =>
      obtain ⟨-, rfl⟩ := enqueueAt_ok henqueue
      exact .filed sizeNow now nonce peerId payload
    · exact hsame
  | markSent id =>
    cases hopen : q.isOpen with
    | false =>
      simp only [step, markSent_closed hopen]
      exact hsame
    | true =>
      simp only [step, markSent_open hopen]
      exact .sent id
  | incrementAttempt id =>
    cases hopen : q.isOpen with
    | false =>
      simp only [step, incrementAttempt_closed hopen]
      exact hsame
    | true =>
      simp only [step, incrementAttempt_open hopen]
      exact .attempted id
  | purgeExpired now =>
    cases hopen : q.isOpen with
    | false =>
      simp only [step, purgeExpired_closed hopen]
      exact hsame
    | true =>
      simp only [step, purgeExpired_open hopen]
      exact .purged now

theorem mem_delete {t : Table} {row : Row} (hrow : row ∈ t.rows) {condition : Row → Bool}
    (h : condition row = false) : row ∈ (t.delete condition).rows := by
  apply List.mem_filter.mpr ⟨hrow, ?_⟩
  rw [h]
  rfl

theorem payload_bump (id : ℕ) (row : Row) : (Table.bump id row).payload = row.payload := by
  unfold Table.bump
  split <;> rfl

theorem Waits.attempted (h : Waits C q f) (id : ℕ) :
    Waits C { q with table := q.table.incrementAttempt id } f := by
  obtain ⟨row, hrow, hid, hpeer, hend, hpayload⟩ := h
  refine ⟨Table.bump id row, List.mem_map_of_mem hrow, ?_⟩
  rw [Table.id_bump, payload_bump]
  refine ⟨hid, ?_, ?_, hpayload⟩
  · rw [← hpeer]
    unfold Table.bump
    split <;> rfl
  · rw [← hend]
    unfold Table.bump
    split <;> rfl

/-- A row stays until it is marked sent or has expired. -/
theorem Change.waits {call : Call} (hchange : Change C q call q') (h : Waits C q f)
    (hkept : call ≠ .markSent f.id) (hlive : ∀ now, call = .purgeExpired now → now < f.expiresAt) :
    Waits C q' f := by
  obtain ⟨row, hrow, hid, hpeer, hend, hpayload⟩ := h
  cases hchange with
  | same _ => exact ⟨row, hrow, hid, hpeer, hend, hpayload⟩
  | opened => exact ⟨row, hrow, hid, hpeer, hend, hpayload⟩
  | closed => exact ⟨row, hrow, hid, hpeer, hend, hpayload⟩
  | filed sizeNow now nonce peerId payload =>
    exact ⟨row, List.mem_append_left _ hrow, hid, hpeer, hend, hpayload⟩
  | sent id =>
    have hne : row.id ≠ id := by
      intro heq
      exact hkept (by rw [← hid, heq])
    exact ⟨row, mem_delete hrow (decide_eq_false hne), hid, hpeer, hend, hpayload⟩
  | attempted id => exact Waits.attempted ⟨row, hrow, hid, hpeer, hend, hpayload⟩ id
  | purged now =>
    have hlate : ¬ row.expiresAt ≤ now := by
      rw [hend, not_le]
      exact hlive now rfl
    exact ⟨row, mem_delete hrow (decide_eq_false hlate), hid, hpeer, hend, hpayload⟩

theorem waits_run (h : Waits C q f) (calls : List Call) (hkept : .markSent f.id ∉ calls)
    (hlive : ∀ now, .purgeExpired now ∈ calls → now < f.expiresAt) :
    Waits C (Runs.run (step C) q calls) f := by
  induction calls generalizing q with
  | nil => exact h
  | cons call rest ih =>
    rw [List.mem_cons, not_or] at hkept
    have hnext := (change_step q call).waits h (Ne.symm hkept.1) fun now hpurge =>
      hlive now (hpurge ▸ List.mem_cons_self)
    exact ih hnext hkept.2 fun now hpurge => hlive now (List.mem_cons_of_mem call hpurge)

theorem Change.decrypts (haead : C.AeadCorrect) {call : Call} (hchange : Change C q call q')
    (h : Decrypts C q) : Decrypts C q' := by
  cases hchange with
  | same _ => exact h
  | opened => exact h
  | closed => exact h
  | filed sizeNow now nonce peerId payload =>
    intro row hrow
    rcases List.mem_append.mp hrow with hold | hnew
    · exact h row hold
    · rw [List.mem_singleton.mp hnew]
      exact ⟨payload, decryptPayload_encryptPayload C haead nonce q.key payload⟩
  | sent id => exact fun row hrow => h row (List.mem_filter.mp hrow).1
  | attempted id =>
    intro row hrow
    obtain ⟨old, hold, rfl⟩ := List.mem_map.mp hrow
    rw [payload_bump]
    exact h old hold
  | purged now => exact fun row hrow => h row (List.mem_filter.mp hrow).1

theorem decrypts_run (haead : C.AeadCorrect) (h : Decrypts C q) (calls : List Call) :
    Decrypts C (Runs.run (step C) q calls) :=
  Runs.invariant_of_step (fun s call hs => (change_step s call).decrypts haead hs) q calls h

theorem decrypts_new (h : q.table.rows = []) : Decrypts C q := by
  intro row hrow
  rw [h] at hrow
  contradiction

end Steps

section Filing

variable {C} {q q' : ForwardQueue}

/-- A call of enqueue() that returns an id has filed the message under it. -/
theorem waits_enqueueAt (haead : C.AeadCorrect) (q : ForwardQueue) (sizeNow now : ℚ) (nonce : Nonce)
    (peerId : String) (payload : Bytes) (id : ℕ)
    (h : (FifoQueue.enqueueAt C q sizeNow now nonce peerId payload).1 = .ok id) :
    Waits C (FifoQueue.enqueueAt C q sizeNow now nonce peerId payload).2
      ⟨id, normalizePeerId peerId, payload, now + ttlSeconds⟩ := by
  revert h
  rw [FifoQueue.enqueueAt]
  split
  · next q' id' henqueue =>
    obtain ⟨rfl, rfl⟩ := enqueueAt_ok henqueue
    intro h
    refine ⟨_, List.mem_append_right _ List.mem_cons_self, Except.ok.inj h, rfl, rfl, ?_⟩
    exact decryptPayload_encryptPayload C haead nonce q.key payload
  · exact fun h => by contradiction

/-- While every row decrypts, the live rows of the peer are returned. -/
theorem getPending_eq (h : Decrypts C q) (hopen : q.isOpen = true) (now : ℚ) (peerId : String) :
    q.getPending C now peerId =
      .ok ((q.table.select Row.queuedAt (isLive (normalizePeerId peerId) now)).map (messageOf C q.key)) := by
  have hread := readRows_eq q.key (q.table.select Row.queuedAt (isLive (normalizePeerId peerId) now))
    fun row hrow => h row ((IdTable.mem_select _ _ _).mp hrow).1
  simp only [ForwardQueue.getPending, assertOpen, hopen, if_true, bind, Except.bind, hread]

theorem messageOf_payload {key : SessionKey} {row : Row} {payload : Bytes}
    (h : decryptPayload C key row.payload = .ok payload) :
    (messageOf C key row).payload = payload := by
  rw [messageOf, h]
  rfl

/-- A message whose time is not up is returned for its own peer and for no other. -/
theorem mem_pending_iff {f : Filing} (hwaits : Waits C q f) (now : ℚ) (hlive : now < f.expiresAt)
    (peerId : String) :
    (∃ m ∈ (q.table.select Row.queuedAt (isLive peerId now)).map (messageOf C q.key),
      m.id = f.id ∧ m.payload = f.payload) ↔ f.peerId = peerId := by
  obtain ⟨row, hrow, hid, hpeer, hend, hpayload⟩ := hwaits
  constructor
  · rintro ⟨m, hm, hmid, _⟩
    obtain ⟨found, hfound, rfl⟩ := List.mem_map.mp hm
    obtain ⟨hmem, hisLive⟩ := (IdTable.mem_select _ _ _).mp hfound
    have hsame : found = row := q.table.row_unique hmem hrow (hmid.trans hid.symm)
    rw [hsame, isLive, Bool.and_eq_true, decide_eq_true_iff] at hisLive
    rw [← hpeer, hisLive.1]
  · intro heq
    have hisLive : isLive peerId now row = true := by
      rw [isLive, hpeer, hend, heq, decide_eq_true rfl, decide_eq_true hlive]
      rfl
    refine ⟨_, List.mem_map_of_mem ((IdTable.mem_select _ _ _).mpr ⟨hrow, hisLive⟩), hid, ?_⟩
    exact messageOf_payload hpayload

end Filing

section Stays

/-- A run of a new queue that files a message, does not mark it sent and purges nothing whose time
this is. -/
structure Stay where
  queue : ForwardQueue
  new : queue.table.rows = []
  before : List Call
  sizeNow : ℚ
  filedAt : ℚ
  nonce : Nonce
  peerId : String
  payload : Bytes
  id : ℕ
  filed : (FifoQueue.enqueueAt C (Runs.run (step C) queue before) sizeNow filedAt nonce peerId payload).1 =
    .ok id
  later : List Call
  kept : .markSent id ∉ later
  live : ∀ now, .purgeExpired now ∈ later → now < filedAt + ttlSeconds

variable {C}

def Stay.calls (s : Stay C) : List Call :=
  s.before ++ .enqueue s.sizeNow s.filedAt s.nonce s.peerId s.payload :: s.later

def Stay.last (s : Stay C) : ForwardQueue := Runs.run (step C) s.queue s.calls

def Stay.filing (s : Stay C) : Filing where
  id := s.id
  peerId := normalizePeerId s.peerId
  payload := s.payload
  expiresAt := s.filedAt + ttlSeconds

theorem Stay.waits (haead : C.AeadCorrect) (s : Stay C) : Waits C s.last s.filing := by
  rw [Stay.last, Stay.calls, Runs.run_append]
  have hfiled := waits_enqueueAt haead _ _ _ _ _ _ _ s.filed
  exact waits_run hfiled s.later s.kept s.live

/-- It is returned for the peer that it was filed for, under any name with the same normal form. -/
theorem Stay.pending (haead : C.AeadCorrect) (s : Stay C) (hopen : s.last.isOpen = true) (now : ℚ)
    (hlive : now < s.filedAt + ttlSeconds) (peerId : String) :
    ∃ pending, s.last.getPending C now peerId = .ok pending ∧
      ((∃ m ∈ pending, m.id = s.id ∧ m.payload = s.payload) ↔
        normalizePeerId s.peerId = normalizePeerId peerId) := by
  have hdecrypts : Decrypts C s.last := decrypts_run haead (decrypts_new s.new) s.calls
  exact ⟨_, getPending_eq hdecrypts hopen now peerId,
    mem_pending_iff (s.waits haead) now hlive (normalizePeerId peerId)⟩

end Stays

end Mesim.QueueEntries
