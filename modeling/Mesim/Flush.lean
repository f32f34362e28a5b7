import Mesim.StoreForward

/-!
What one call of flush_peer() does to the queue.
The loop is stated over any way that the single calls of transport.send() may turn
out, and flush_peer() is its instance. If the live rows of the peer decrypt, each of
them is handed over once, in the order of the queue; those that went out are deleted,
those that did not have one attempt more, and no other row is touched. A row that does
not decrypt stops the call before anything is handed over.
-/
namespace Mesim.Flush

open Octets Crypto Packet Transport Operations ForwardQueue StoreForward

/-- What a call of flush_peer() leaves behind, what it has handed to transport.send()
and what it returns. -/
structure FlushRun (σ : Type) where
  transport : σ
  queue : ForwardQueue
  handed : List (String × Bytes)
  ended : Except PyError ℕ

section Loop

variable {σ : Type} (sendTo : ℕ → σ → String → Bytes → σ × Option PyError) (peerId : String)

/-- The loop of flush_peer(); `sendTo i` is its i-th call of transport.send(). -/
def flushLoop : σ → ForwardQueue → List QueuedMessage → ℕ → FlushRun σ
  | t, q, [], _ => ⟨t, q, [], .ok 0⟩
  | t, q, msg :: rest, i =>
    let (t', raised) := sendTo i t peerId msg.payload
    let marked := match raised with
      | none => q.markSent msg.id
      | some e => .error e
    match marked with
    | .ok q' =>
      let more := flushLoop t' q' rest (i + 1)
      ⟨more.transport, more.queue, (peerId, msg.payload) :: more.handed, more.ended.map (· + 1)⟩
    | .error _ =>
      match q.incrementAttempt msg.id with
      | .ok q' =>
        let more := flushLoop t' q' rest (i + 1)
        ⟨more.transport, more.queue, (peerId, msg.payload) :: more.handed, more.ended⟩
      | .error e => ⟨t', q, [(peerId, msg.payload)], .error e⟩

/-- The ids of the messages, each with whether its call of transport.send() succeeds. -/
def tries : σ → List QueuedMessage → ℕ → List (ℕ × Bool)
  | _, [], _ => []
  | t, msg :: rest, i =>
    let (t', raised) := sendTo i t peerId msg.payload
    (msg.id, raised.isNone) :: tries t' rest (i + 1)

theorem map_fst_tries (t : σ) (pending : List QueuedMessage) (i : ℕ) :
    (tries sendTo peerId t pending i).map Prod.fst = pending.map QueuedMessage.id := by
  induction pending generalizing t i with
  | nil => rfl
  | cons msg rest ih => rw [tries, List.map_cons, List.map_cons, ih]

end Loop

def sentIds (l : List (ℕ × Bool)) : List ℕ := (l.filter (·.2)).map Prod.fst

def failedIds (l : List (ℕ × Bool)) : List ℕ := (l.filter (!·.2)).map Prod.fst

/-- What becomes of a row. -/
def settle (l : List (ℕ × Bool)) (row : Row) : Option Row :=
  if row.id ∈ sentIds l then none
  else if row.id ∈ failedIds l then some { row with attempt := row.attempt + 1 }
  else some row

def flushPeerWith {σ : Type} (C : Suite) (sendTo : ℕ → σ → String → Bytes → σ × Option PyError)
    (now : ℚ) (t : σ) (q : ForwardQueue) (peerId : String) : FlushRun σ :=
  let peerId := normalizePeerId peerId
  match q.getPending C now peerId with
  | .ok pending => flushLoop sendTo peerId t q pending 0
  | .error e => ⟨t, q, [], .error e⟩

section Tried

variable (l : List (ℕ × Bool)) (id : ℕ)

@[simp] theorem sentIds_sent : sentIds ((id, true) :: l) = id :: sentIds l := rfl

@[simp] theorem sentIds_failed : sentIds ((id, false) :: l) = sentIds l := rfl

@[simp] theorem failedIds_sent : failedIds ((id, true) :: l) = failedIds l := rfl

@[simp] theorem failedIds_failed : failedIds ((id, false) :: l) = id :: failedIds l := rfl

theorem mem_fst_iff : id ∈ l.map Prod.fst ↔ id ∈ sentIds l ∨ id ∈ failedIds l := by
  induction l with
  | nil => simp [sentIds, failedIds]
  | cons entry rest ih =>
    obtain ⟨j, went⟩ := entry
    cases went with
    | true => simp only [List.map_cons, List.mem_cons, ih, sentIds_sent, failedIds_sent, or_assoc]
    | false =>
      simp only [List.map_cons, List.mem_cons, ih, sentIds_failed, failedIds_failed]
      exact or_left_comm

variable {l id}

/-- With different ids, none stands for a row that went out and for one that did not. -/
theorem not_sent_and_failed (hids : (l.map Prod.fst).Nodup) (hsent : id ∈ sentIds l) :
    id ∉ failedIds l := by
  induction l with
  | nil => exact List.not_mem_nil
  | cons entry rest ih =>
    obtain ⟨j, went⟩ := entry
    obtain ⟨hnew, hrest⟩ := List.nodup_cons.mp hids
    cases went with
    | true =>
      rcases List.mem_cons.mp hsent with rfl | hsent
      · exact fun hfailed => hnew ((mem_fst_iff rest _).mpr (Or.inr hfailed))
      · exact ih hrest hsent
    | false =>
      intro hfailed
      rcases List.mem_cons.mp hfailed with rfl | hfailed
      · exact hnew ((mem_fst_iff rest _).mpr (Or.inl hsent))
      · exact ih hrest hsent hfailed

theorem settle_untouched {row : Row} (h : row.id ∉ l.map Prod.fst) : settle l row = some row := by
  rw [mem_fst_iff, not_or] at h
  rw [settle, if_neg h.1, if_neg h.2]

/-- An entry settles no row but its own. -/
theorem settle_other (went : Bool) {row : Row} (hne : row.id ≠ id) :
    settle ((id, went) :: l) row = settle l row := by
  have hmem : ∀ ids : List ℕ, row.id ∈ id :: ids ↔ row.id ∈ ids := fun ids =>
    List.mem_cons.trans (or_iff_right hne)
  cases went with
  | true =>
    rw [settle, settle, sentIds_sent, failedIds_sent]
    exact if_congr (hmem _) rfl rfl
  | false =>
    rw [settle, settle, sentIds_failed, failedIds_failed]
    exact if_congr Iff.rfl rfl (if_congr (hmem _) rfl rfl)

/-- A row that goes out is dropped before the others are settled. -/
theorem settle_sent (rows : List Row) :
    (rows.filter fun row => !decide (row.id = id)).filterMap (settle l) =
      rows.filterMap (settle ((id, true) :: l)) := by
  induction rows with
  | nil => rfl
  | cons row rest ih =>
    by_cases heq : row.id = id
    · have hnone : settle ((id, true) :: l) row = none :=
        if_pos (by rw [sentIds_sent, heq]; exact List.mem_cons_self)
      rw [List.filter_cons_of_neg (by simp [heq]), List.filterMap_cons_none hnone, ih]
    · rw [List.filter_cons_of_pos (by simp [heq]), List.filterMap_cons, List.filterMap_cons,
        settle_other true heq, ih]

/-- A row that does not go out has its attempt counted before the others are settled. -/
theorem settle_failed (hnew : id ∉ l.map Prod.fst) (rows : List Row) :
    (rows.map (Table.bump id)).filterMap (settle l) =
      rows.filterMap (settle ((id, false) :: l)) := by
  rw [List.filterMap_map]
  refine List.filterMap_congr fun row _ => ?_
  rw [Function.comp_apply]
  by_cases heq : row.id = id
  · have hbump : Table.bump id row = { row with attempt := row.attempt + 1 } := if_pos heq
    have hsent : id ∉ sentIds l := fun h => hnew ((mem_fst_iff l id).mpr (Or.inl h))
    rw [hbump, settle_untouched (by rw [heq]; exact hnew), settle, sentIds_failed, heq,
      if_neg hsent, failedIds_failed, if_pos List.mem_cons_self]
  · have hbump : Table.bump id row = row := if_neg heq
    rw [hbump, settle_other false heq]

end Tried

section Exact

variable {σ : Type} (C : Suite) (sendTo : ℕ → σ → String → Bytes → σ × Option PyError)

/-- A message that was read from a row. -/
def ReadFrom (key : SessionKey) (row : Row) (msg : QueuedMessage) : Prop :=
  decryptPayload C key row.payload = .ok msg.payload ∧ msg.id = row.id ∧ msg.peerId = row.peerId ∧
    msg.queuedAt = row.queuedAt ∧ msg.expiresAt = row.expiresAt ∧ msg.attempt = row.attempt

/-- What the loop leaves, for messages with different ids. -/
structure Settled (peerId : String) (t : σ) (q : ForwardQueue) (pending : List QueuedMessage) (i : ℕ)
    (run : FlushRun σ) : Prop where
  handed : run.handed = pending.map fun msg => (peerId, msg.payload)
  ended : run.ended = .ok (sentIds (tries sendTo peerId t pending i)).length
  rows : run.queue.table.rows =
    q.table.rows.filterMap (settle (tries sendTo peerId t pending i))
  nextId : run.queue.table.nextId = q.table.nextId
  key : run.queue.key = q.key
  isOpen : run.queue.isOpen = q.isOpen

theorem settled_flushLoop (peerId : String) (t : σ) (q : ForwardQueue)
    (pending : List QueuedMessage) (i : ℕ) (hopen : q.isOpen = true)
    (hids : (pending.map QueuedMessage.id).Nodup) :
    Settled sendTo peerId t q pending i (flushLoop sendTo peerId t q pending i) := by
  induction pending generalizing t q i with
  | nil =>
    have hrows : q.table.rows.filterMap (settle []) = q.table.rows := by
      conv => rhs; rw [← List.filterMap_some (l := q.table.rows)]
      exact List.filterMap_congr fun row _ => settle_untouched List.not_mem_nil
    exact ⟨rfl, rfl, hrows.symm, rfl, rfl, rfl⟩
  | cons msg rest ih =>
    obtain ⟨hnew, hrest⟩ := List.nodup_cons.mp hids
    cases hout : sendTo i t peerId msg.payload with
    | mk t' raised =>
      cases raised with
      | none =>
        have hmark := markSent_open hopen msg.id
        have h := ih t' { q with table := q.table.delete fun row => row.id = msg.id } (i + 1) hopen
          hrest
        have htries : tries sendTo peerId t (msg :: rest) i =
            (msg.id, true) :: tries sendTo peerId t' rest (i + 1) := by
          rw [tries, hout]
          rfl
        simp only [flushLoop, hout, hmark]
        refine ⟨congrArg _ h.handed, ?_, ?_, h.nextId, h.key, h.isOpen⟩
        · rw [htries, sentIds_sent, h.ended]
          rfl
        · rw [htries, ← settle_sent]
          exact h.rows
      | some e =>
        have hbump := incrementAttempt_open hopen msg.id
        have h := ih t' { q with table := q.table.incrementAttempt msg.id } (i + 1) hopen hrest
        have htries : tries sendTo peerId t (msg :: rest) i =
            (msg.id, false) :: tries sendTo peerId t' rest (i + 1) := by
          rw [tries, hout]
          rfl
        have hnew' : msg.id ∉ (tries sendTo peerId t' rest (i + 1)).map Prod.fst := by
          rw [map_fst_tries]
          exact hnew
        simp only [flushLoop, hout, hbump]
        refine ⟨congrArg _ h.handed, ?_, ?_, h.nextId, h.key, h.isOpen⟩
        · rw [htries, sentIds_failed]
          exact h.ended
        · rw [htries, ← settle_failed hnew']
          exact h.rows

theorem readRows_cases (key : SessionKey) (rows : List Row) :
    (∃ messages, readRows C key rows = .ok messages ∧
      List.Forall₂ (ReadFrom C key) rows messages) ∨
    ∃ row ∈ rows, ∃ e, decryptPayload C key row.payload = .error e ∧
      readRows C key rows = .error e := by
  induction rows with
  | nil => exact Or.inl ⟨[], rfl, .nil⟩
  | cons row rest ih =>
    rw [readRows]
    cases hpayload : decryptPayload C key row.payload with
    | error e => exact Or.inr ⟨row, List.mem_cons_self, e, hpayload, rfl⟩
    | ok payload =>
      rcases ih with ⟨messages, hrest, hread⟩ | ⟨bad, hbad, e, hpayload', hrest⟩
      · rw [hrest]
        exact Or.inl ⟨_, rfl, .cons ⟨hpayload, rfl, rfl, rfl, rfl, rfl⟩ hread⟩
      · rw [hrest]
        exact Or.inr ⟨bad, List.mem_cons_of_mem row hbad, e, hpayload', rfl⟩

/-- The queue is open and the live rows of the peer hold messages under its key. -/
def Readable (q : ForwardQueue) (peerId : String) (now : ℚ) : Prop :=
  q.isOpen = true ∧ ∀ row ∈ q.table.rows, isLive peerId now row = true →
    ∃ payload, decryptPayload C q.key row.payload = .ok payload

theorem getPending_cases (q : ForwardQueue) (now : ℚ) (peerId : String) :
    (Readable C q (normalizePeerId peerId) now ∧ ∃ pending,
      q.getPending C now (normalizePeerId peerId) = .ok pending ∧ List.Forall₂ (ReadFrom C q.key)
        (q.table.select Row.queuedAt (isLive (normalizePeerId peerId) now)) pending) ∨
    (¬ Readable C q (normalizePeerId peerId) now ∧
      ∃ e, q.getPending C now (normalizePeerId peerId) = .error e) := by
  by_cases hopen : q.isOpen = true
  · have hpending : q.getPending C now (normalizePeerId peerId) =
        readRows C q.key (q.table.select Row.queuedAt (isLive (normalizePeerId peerId) now)) := by
      rw [getPending, assertOpen, if_pos hopen, normalizePeerId_idem]
      rfl
    rw [hpending]
    rcases readRows_cases C q.key
        (q.table.select Row.queuedAt (isLive (normalizePeerId peerId) now)) with
      ⟨messages, hok, hread⟩ | ⟨row, hrow, e, hpayload, herror⟩
    · refine Or.inl ⟨⟨hopen, fun row hrow hlive => ?_⟩, messages, hok, hread⟩
      have hselected : row ∈ q.table.select Row.queuedAt (isLive (normalizePeerId peerId) now) :=
        (IdTable.mem_select _ _ _).mpr ⟨hrow, hlive⟩
      obtain ⟨i, hi, rfl⟩ := List.mem_iff_getElem.mp hselected
      have hlen := hread.length_eq
      exact ⟨_, (hread.get hi (hlen ▸ hi)).1⟩
    · refine Or.inr ⟨fun hreadable => ?_, e, herror⟩
      obtain ⟨hin, hlive⟩ := (IdTable.mem_select _ _ _).mp hrow
      obtain ⟨payload, hok⟩ := hreadable.2 row hin hlive
      rw [hok] at hpayload
      cases hpayload
  · refine Or.inr ⟨fun hreadable => hopen hreadable.1, .runtimeError, ?_⟩
    rw [getPending, assertOpen, if_neg hopen]
    rfl

/-- The account of a call: the messages of the live rows in their order are handed over,
and these rows are the ones that the outcomes settle. -/
structure Accounted (now : ℚ) (peerId : String) (t : σ) (q : ForwardQueue)
    (pending : List QueuedMessage) (run : FlushRun σ) : Prop extends
    Settled sendTo peerId t q pending 0 run where
  read : List.Forall₂ (ReadFrom C q.key) (q.table.select Row.queuedAt (isLive peerId now)) pending
  touched : ∀ row ∈ q.table.rows, isLive peerId now row = true ↔
    row.id ∈ sentIds (tries sendTo peerId t pending 0) ∨
      row.id ∈ failedIds (tries sendTo peerId t pending 0)
  deleted : ∀ row ∈ q.table.rows, row.id ∈ sentIds (tries sendTo peerId t pending 0) →
    ∀ row' ∈ run.queue.table.rows, row'.id ≠ row.id
  kept : ∀ row ∈ q.table.rows, row.id ∈ failedIds (tries sendTo peerId t pending 0) →
    { row with attempt := row.attempt + 1 } ∈ run.queue.table.rows
  untouched : ∀ row ∈ q.table.rows, isLive peerId now row = false → row ∈ run.queue.table.rows

variable {C}

theorem map_id_of_read {key : SessionKey} {rows : List Row} {messages : List QueuedMessage}
    (h : List.Forall₂ (ReadFrom C key) rows messages) :
    messages.map QueuedMessage.id = rows.map Row.id := by
  induction h with
  | nil => rfl
  | cons hread _ ih => rw [List.map_cons, List.map_cons, ih, hread.2.1]

theorem id_settle {l : List (ℕ × Bool)} {row row' : Row} (h : settle l row = some row') :
    row'.id = row.id ∧ row.id ∉ sentIds l := by
  unfold settle at h
  split at h
  · cases h
  · rename_i hsent
    split at h
    · rw [← Option.some.inj h]
      exact ⟨rfl, hsent⟩
    · rw [← Option.some.inj h]
      exact ⟨rfl, hsent⟩

theorem payload_settle {l : List (ℕ × Bool)} {row row' : Row} (h : settle l row = some row') :
    row'.payload = row.payload := by
  unfold settle at h
  split at h
  · cases h
  · split at h
    · rw [← Option.some.inj h]
    · rw [← Option.some.inj h]

theorem accounted_flushLoop (now : ℚ) (peerId : String) (t : σ) (q : ForwardQueue)
    (pending : List QueuedMessage) (hopen : q.isOpen = true)
    (hread : List.Forall₂ (ReadFrom C q.key) (q.table.select Row.queuedAt (isLive peerId now)) pending) :
    Accounted C sendTo now peerId t q pending (flushLoop sendTo peerId t q pending 0) := by
  have hselect : (q.table.select Row.queuedAt (isLive peerId now)).map Row.id =
      pending.map QueuedMessage.id := (map_id_of_read hread).symm
  have hnodup : (pending.map QueuedMessage.id).Nodup := by
    rw [← hselect]
    exact q.table.nodup_select _
  have hsettled := settled_flushLoop sendTo peerId t q pending 0 hopen hnodup
  have hfst := map_fst_tries sendTo peerId t pending 0
  have hapart : ∀ id ∈ failedIds (tries sendTo peerId t pending 0),
      id ∉ sentIds (tries sendTo peerId t pending 0) := fun id hfailed hsent =>
    not_sent_and_failed (by rw [hfst]; exact hnodup) hsent hfailed
  have htouched : ∀ row ∈ q.table.rows, isLive peerId now row = true ↔
      row.id ∈ (tries sendTo peerId t pending 0).map Prod.fst := by
    intro row hrow
    rw [hfst, ← hselect, List.mem_map]
    constructor
    · intro hlive
      exact ⟨row, (IdTable.mem_select _ _ _).mpr ⟨hrow, hlive⟩, rfl⟩
    · rintro ⟨other, hother, hid⟩
      obtain ⟨hin, hlive⟩ := (IdTable.mem_select _ _ _).mp hother
      rwa [← q.table.row_unique hin hrow hid]
  refine ⟨hsettled, hread, fun row hrow => (htouched row hrow).trans (mem_fst_iff _ _), ?_, ?_, ?_⟩
  · intro row hrow hsent row' hrow' heq
    rw [hsettled.rows] at hrow'
    obtain ⟨old, hold, hsettle⟩ := List.mem_filterMap.mp hrow'
    obtain ⟨hid, hnot⟩ := id_settle hsettle
    rw [← hid, heq] at hnot
    exact hnot hsent
  · intro row hrow hfailed
    rw [hsettled.rows]
    refine List.mem_filterMap.mpr ⟨row, hrow, ?_⟩
    rw [settle, if_neg (hapart row.id hfailed), if_pos hfailed]
  · intro row hrow hdead
    rw [hsettled.rows]
    refine List.mem_filterMap.mpr ⟨row, hrow, settle_untouched fun hin => ?_⟩
    rw [← htouched row hrow, hdead] at hin
    cases hin

end Exact

section Code

variable (C : Suite)

/-- The calls of transport.send() that flush_peer() makes. -/
def transportSend (envs : ℕ → Env) (i : ℕ) (t : MeshTransport) (peerId : String) (payload : Bytes) :
    MeshTransport × Option PyError :=
  ((send C (envs i) t peerId payload).state, (send C (envs i) t peerId payload).raised)

/-- What a run of the loop has in common with a result of flush_peer(). -/
structure Same (result : Result (List (ℕ × ℕ))) (run : FlushRun MeshTransport) : Prop where
  transport : result.transport = run.transport
  queue : result.queue = run.queue
  ended : result.ended.map List.length = run.ended

theorem same_flushEach (envs : ℕ → Env) (peerId : String) (t : MeshTransport) (q : ForwardQueue)
    (pending : List QueuedMessage) (i : ℕ) (hopen : q.isOpen = true) :
    Same (flushEach C envs peerId t q pending i)
      (flushLoop (transportSend C envs) peerId t q pending i) := by
  induction pending generalizing t q i with
  | nil => exact ⟨rfl, rfl, rfl⟩
  | cons msg rest ih =>
    have hlength : ∀ (entry : ℕ × ℕ) (ended : Except PyError (List (ℕ × ℕ))),
        (ended.map (entry :: ·)).map List.length = (ended.map List.length).map (· + 1) := by
      intro entry ended
      cases ended <;> rfl
    cases hraised : (send C (envs i) t peerId msg.payload).raised with
    | none =>
      have h := ih (send C (envs i) t peerId msg.payload).state
        { q with table := q.table.delete fun row => row.id = msg.id } (i + 1) hopen
      rw [flushEach_sent hopen hraised]
      simp only [flushLoop, transportSend, hraised, markSent_open hopen]
      exact ⟨h.transport, h.queue, (hlength _ _).trans (congrArg _ h.ended)⟩
    | some e =>
      have h := ih (send C (envs i) t peerId msg.payload).state
        { q with table := q.table.incrementAttempt msg.id } (i + 1) hopen
      rw [flushEach_unsent hopen e hraised]
      simp only [flushLoop, transportSend, hraised, incrementAttempt_open hopen]
      exact ⟨h.transport, h.queue, h.ended⟩

theorem same_flushPeer (now : ℚ) (envs : ℕ → Env) (t : MeshTransport) (q : ForwardQueue)
    (peerId : String) :
    Same (flushPeer C now envs t q peerId)
      (flushPeerWith C (transportSend C envs) now t q peerId) := by
  unfold flushPeer flushPeerWith
  dsimp only
  cases hpending : q.getPending C now (normalizePeerId peerId) with
  | ok pending => exact same_flushEach C envs _ t q pending 0 (getPending_ok hpending).1
  | error e => exact ⟨rfl, rfl, rfl⟩

/-- Every message of a queue that is filled under one key decrypts under it. -/
def Decrypts (q : ForwardQueue) : Prop :=
  ∀ row ∈ q.table.rows, ∃ payload, decryptPayload C q.key row.payload = .ok payload

theorem Decrypts.readable {q : ForwardQueue} (h : Decrypts C q) (hopen : q.isOpen = true)
    (peerId : String) (now : ℚ) : Readable C q peerId now := ⟨hopen, fun row hrow _ => h row hrow⟩

theorem Decrypts.enqueue (haead : C.AeadCorrect) {q q' : ForwardQueue} (h : Decrypts C q) {now : ℚ}
    {nonce : Nonce} {peerId : String} {payload : Bytes} {id : ℕ}
    (henqueue : q.enqueue C now nonce peerId payload = .ok (q', id)) : Decrypts C q' := by
  obtain ⟨_, rfl⟩ := enqueueAt_ok henqueue
  intro row hrow
  rcases List.mem_append.mp hrow with hold | hnew
  · exact h row hold
  · rw [List.mem_singleton.mp hnew]
    exact ⟨payload, decryptPayload_encryptPayload C haead nonce q.key payload⟩

theorem Decrypts.flushed {σ : Type} {sendTo : ℕ → σ → String → Bytes → σ × Option PyError}
    {peerId : String} {t : σ} {q : ForwardQueue} {pending : List QueuedMessage} {i : ℕ}
    {run : FlushRun σ} (h : Decrypts C q) (hrun : Settled sendTo peerId t q pending i run) :
    Decrypts C run.queue := by
  intro row hrow
  rw [hrun.rows] at hrow
  obtain ⟨old, hold, hsettle⟩ := List.mem_filterMap.mp hrow
  rw [hrun.key, payload_settle hsettle]
  exact h old hold

theorem flushed_readable {σ : Type} (sendTo : ℕ → σ → String → Bytes → σ × Option PyError) (now : ℚ)
    (t : σ) (q : ForwardQueue) (peerId : String)
    (hreadable : Readable C q (normalizePeerId peerId) now) : ∃ pending,
    Accounted C sendTo now (normalizePeerId peerId) t q pending
      (flushPeerWith C sendTo now t q peerId) := by
  rcases getPending_cases C q now peerId with ⟨_, pending, hpending, hread⟩ | ⟨hnot, _⟩
  · refine ⟨pending, ?_⟩
    simp only [flushPeerWith, hpending]
    exact accounted_flushLoop sendTo now _ t q pending hreadable.1 hread
  · exact absurd hreadable hnot

theorem flushed_unreadable {σ : Type} (sendTo : ℕ → σ → String → Bytes → σ × Option PyError)
    (now : ℚ) (t : σ) (q : ForwardQueue) (peerId : String)
    (hreadable : ¬ Readable C q (normalizePeerId peerId) now) : ∃ e,
    flushPeerWith C sendTo now t q peerId = ⟨t, q, [], .error e⟩ := by
  rcases getPending_cases C q now peerId with ⟨hyes, _⟩ | ⟨_, e, herror⟩
  · exact absurd hyes hreadable
  · refine ⟨e, ?_⟩
    simp only [flushPeerWith, herror]

/-- If the live rows of the peer decrypt, flush_peer() gives this account of them, whichever
calls of transport.send() raise; if not, it raises and leaves everything as it was. -/
theorem flush_exact {σ : Type} (sendTo : ℕ → σ → String → Bytes → σ × Option PyError) (now : ℚ)
    (t : σ) (q : ForwardQueue) (peerId : String) :
    (Readable C q (normalizePeerId peerId) now → ∃ pending,
      Accounted C sendTo now (normalizePeerId peerId) t q pending
        (flushPeerWith C sendTo now t q peerId)) ∧
    (¬ Readable C q (normalizePeerId peerId) now → ∃ e,
      flushPeerWith C sendTo now t q peerId = ⟨t, q, [], .error e⟩) ∧
    ∀ (envs : ℕ → Env) (t' : MeshTransport), Same (flushPeer C now envs t' q peerId)
      (flushPeerWith C (transportSend C envs) now t' q peerId) := by
  refine ⟨fun hreadable => ?_, fun hreadable => ?_, fun envs t' => ?_⟩
  · exact flushed_readable C sendTo now t q peerId hreadable
  · exact flushed_unreadable C sendTo now t q peerId hreadable
  · exact same_flushPeer C now envs t' q peerId

end Code

section Stub

/-- One message filed under each of two keys, the second of them the queue's. -/
def mixedQueue : ForwardQueue where
  key := ⟨List.Vector.replicate 32 2⟩
  isOpen := true
  table := (Table.empty.insert "bravo" (ForwardQueue.encryptPayload stub (List.Vector.replicate 12 0)
    ⟨List.Vector.replicate 32 1⟩ [1]) 0 86400).insert "bravo"
      (ForwardQueue.encryptPayload stub (List.Vector.replicate 12 0) ⟨List.Vector.replicate 32 2⟩ [2])
      0 86400

/-- A row filed under another key keeps the rows under this one from being handed over. -/
theorem foreign_row_stops_flush : ¬ ∀ (σ : Type)
    (sendTo : ℕ → σ → String → Bytes → σ × Option PyError) (now : ℚ) (t : σ) (q : ForwardQueue)
    (peerId : String), q.isOpen = true → ∀ row ∈ q.table.rows,
    isLive (normalizePeerId peerId) now row = true → ∀ payload,
    decryptPayload stub q.key row.payload = .ok payload →
    (normalizePeerId peerId, payload) ∈ (flushPeerWith stub sendTo now t q peerId).handed := by
  intro h
  have hhanded := h Unit (fun _ _ _ _ => ((), none)) 0 () mixedQueue "bravo" rfl
    ⟨2, "bravo", ForwardQueue.encryptPayload stub (List.Vector.replicate 12 0)
      ⟨List.Vector.replicate 32 2⟩ [2], 0, 86400, 0⟩ (List.mem_cons_of_mem _ List.mem_cons_self)
    (by decide +kernel) [2] (decryptPayload_encryptPayload stub stub_aeadCorrect _ _ _)
  have hnone : (flushPeerWith stub (fun _ _ _ _ => ((), none)) 0 () mixedQueue "bravo").handed = [] := by
    decide +kernel
  rw [hnone] at hhanded
  cases hhanded

end Stub

end Mesim.Flush
