import Mesim.QueueEntries
import Mesim.SendOrder

/-!
The queue over the life of its node, and of the processes that share its file.
Rows come from calls of send_or_queue() and keep their id, their peer and their call; what
is handed over for a peer comes from its own rows or from a call in its name. A property
of the queue that filing, purging and flushing keep holds after every run of these.
-/
namespace Mesim.QueueRuns

open Octets Crypto Identity Packet Transport Operations Dispatch Nodes ForwardQueue
open Reassembly InFlightTable FifoQueue Flush StoreForward SendOrder QueueEntries

section Model

variable (C : Suite) (cb : Callback)

/-- What happens to the queue: the steps of its node, the purges when the program starts and ends,
and a new process with a node of its own. -/
inductive Happening where
  | step (l : SendOrder.Label)
  | purge (now : ℚ)
  | restart (node : Node)

def happen (s : SendOrder.System) : Happening → SendOrder.System
  | .step l => SendOrder.step C cb s l
  | .purge now =>
    { s with
      queue := ((s.queue.purgeExpired now).map Prod.fst).toOption.getD s.queue
      clock := now }
  | .restart node => { s with node := node, tasks := [], looping := true }

/-- Purges happen at these times only, and flushes to these peers. -/
def Allows (purged : ℚ → Prop) (flushed : String → Prop) (s : SendOrder.System) : Happening → Prop
  | .step (.flushTask i _ _) => ∀ pid, s.tasks[i]? = some pid → flushed pid
  | .step (.flushLoop _) => ∀ pid ∈ s.node.transport.sessions.keys, flushed pid
  | .purge now => purged now
  | _ => True

end Model

section Flushing

variable {C : Suite} {t : MeshTransport} {q : ForwardQueue}

/-- A flush either gives its account of the peer's rows or leaves the queue alone. -/
theorem flushPeer_cases (now : ℚ) (envs : ℕ → Env) (t : MeshTransport) (q : ForwardQueue)
    (peerId : String) :
    (∃ pending run, Accounted C (transportSend C envs) now (normalizePeerId peerId) t q pending run ∧
      (flushPeer C now envs t q peerId).queue = run.queue) ∨
    (flushPeer C now envs t q peerId).queue = q := by
  have hsame := same_flushPeer C now envs t q peerId
  by_cases hreadable : Readable C q (normalizePeerId peerId) now
  · obtain ⟨pending, hrun⟩ := flushed_readable C (transportSend C envs) now t q peerId hreadable
    exact Or.inl ⟨pending, _, hrun, hsame.queue⟩
  · obtain ⟨e, hrun⟩ := flushed_unreadable C (transportSend C envs) now t q peerId hreadable
    rw [hrun] at hsame
    exact Or.inr hsame.queue

theorem nextId_flushPeer (now : ℚ) (envs : ℕ → Env) (peerId : String) :
    (flushPeer C now envs t q peerId).queue.table.nextId = q.table.nextId := by
  rcases flushPeer_cases (C := C) now envs t q peerId with ⟨pending, run, hrun, hqueue⟩ | hqueue
  · rw [hqueue, hrun.nextId]
  · rw [hqueue]

theorem decrypts_flushPeer (h : Decrypts C q) (now : ℚ) (envs : ℕ → Env) (peerId : String) :
    Decrypts C (flushPeer C now envs t q peerId).queue := by
  rcases flushPeer_cases (C := C) now envs t q peerId with ⟨pending, run, hrun, hqueue⟩ | hqueue
  · rw [hqueue]
    exact h.flushed C hrun.toSettled
  · rw [hqueue]
    exact h

/-- The rows of another peer stay. -/
theorem waits_flushPeer {f : Filing} (h : Waits C q f) (now : ℚ) (envs : ℕ → Env) (peerId : String)
    (hother : normalizePeerId peerId ≠ f.peerId) :
    Waits C (flushPeer C now envs t q peerId).queue f := by
  rcases flushPeer_cases (C := C) now envs t q peerId with ⟨pending, run, hrun, hqueue⟩ | hqueue
  · obtain ⟨row, hrow, hid, hpeer, hend, hpayload⟩ := h
    have hdead : isLive (normalizePeerId peerId) now row = false := by
      rw [isLive, hpeer, decide_eq_false (Ne.symm hother)]
      rfl
    rw [hqueue]
    refine ⟨row, hrun.untouched row hrow hdead, hid, hpeer, hend, ?_⟩
    rw [hrun.key]
    exact hpayload
  · rw [hqueue]
    exact h

theorem pending_row {now : ℚ} {peerId : String} {pending : List QueuedMessage}
    (h : q.getPending C now peerId = .ok pending) : ∀ msg ∈ pending, ∃ row ∈ q.table.rows,
      row.id = msg.id ∧ row.peerId = normalizePeerId peerId := by
  intro msg hmsg
  have hopen := (getPending_ok h).1
  simp only [ForwardQueue.getPending, assertOpen, hopen, if_true, bind, Except.bind] at h
  obtain ⟨row, hrow, hid, _⟩ := mem_readRows q.key _ pending h msg hmsg
  obtain ⟨hmem, hlive⟩ := (IdTable.mem_select _ _ _).mp hrow
  rw [isLive, Bool.and_eq_true, decide_eq_true_iff] at hlive
  exact ⟨row, hmem, hid, hlive.1⟩

theorem goesOut_zero_iff (env : Env) (peerId : String) (payload : Bytes) :
    GoesOut C t peerId 0 payload ↔ (send C env t peerId payload).raised = none := by
  refine ⟨fun h => h.raised env, fun h => ?_⟩
  cases hsession : t.sessions.get? peerId with
  | none =>
    rw [send, hsession] at h
    cases h
  | some session =>
    have hsendable := (send_raised_iff C env t peerId payload session hsession).mp h
    obtain ⟨hcounter, htotal⟩ := (sendable_iff C env t session.sessionKey payload).mp hsendable
    exact ⟨by rw [hsession]; rfl, hcounter, htotal⟩

/-- Whatever is sent before it, a message goes out when there is a number left for it. -/
theorem goesOut_after_iff (env : Env) (peerId : String) (before payload : Bytes) (k : ℕ) :
    GoesOut C (send C env t peerId before).state peerId k payload ↔
      GoesOut C t peerId (k + 1) payload := by
  refine ⟨fun h => ?_, fun h => h.after env before⟩
  cases hsession : t.sessions.get? peerId with
  | none =>
    rw [send, hsession] at h
    have hnone : (t.sessions.get? peerId).isSome = true := h.1
    rw [hsession] at hnone
    contradiction
  | some session =>
    obtain ⟨_, hcounter, htotal⟩ := h
    rw [(send_loop C env t peerId before session hsession).2.2.2] at hcounter
    rw [(send_same C env t peerId before).identity] at htotal
    exact ⟨by rw [hsession]; rfl, by omega, htotal⟩

/-- The rows that a flush reports are those whose turn finds the message sendable. -/
theorem flushEach_sent_iff (envs : ℕ → Env) (peerId : String) (t : MeshTransport) (q : ForwardQueue)
    (pending : List QueuedMessage) (i : ℕ) (hopen : q.isOpen = true) :
    ∃ sent, (flushEach C envs peerId t q pending i).ended = .ok sent ∧ ∀ id,
      id ∈ sent.map Prod.fst ↔
        ∃ k msg, pending[k]? = some msg ∧ msg.id = id ∧ GoesOut C t peerId k msg.payload := by
  induction pending generalizing t q i with
  | nil =>
    refine ⟨[], rfl, fun id => iff_of_false List.not_mem_nil ?_⟩
    rintro ⟨k, msg, hmsg, _⟩
    cases hmsg
  | cons msg rest ih =>
    have hsplit : ∀ id,
        (∃ k m, (msg :: rest)[k]? = some m ∧ m.id = id ∧ GoesOut C t peerId k m.payload) ↔
          (msg.id = id ∧ (send C (envs i) t peerId msg.payload).raised = none) ∨
            ∃ k m, rest[k]? = some m ∧ m.id = id ∧
              GoesOut C (send C (envs i) t peerId msg.payload).state peerId k m.payload := by
      intro id
      constructor
      · rintro ⟨k, m, hm, hid, hout⟩
        cases k with
        | zero =>
          cases hm
          exact Or.inl ⟨hid, hout.raised (envs i)⟩
        | succ k => exact Or.inr ⟨k, m, hm, hid, hout.after (envs i) msg.payload⟩
      · rintro (⟨hid, hraised⟩ | ⟨k, m, hm, hid, hout⟩)
        · exact ⟨0, msg, rfl, hid, (goesOut_zero_iff (envs i) peerId msg.payload).mpr hraised⟩
        · exact ⟨k + 1, m, hm, hid, (goesOut_after_iff (envs i) peerId _ _ k).mp hout⟩
    cases hraised : (send C (envs i) t peerId msg.payload).raised with
    | none =>
      obtain ⟨sent, hended, hiff⟩ := ih (send C (envs i) t peerId msg.payload).state
        ⟨q.key, q.isOpen, q.table.delete fun row => row.id = msg.id⟩ (i + 1) hopen
      rw [flushEach_sent hopen hraised]
      refine ⟨(msg.id, t.msgIdCounter) :: sent, ?_, fun id => ?_⟩
      · dsimp only
        rw [hended]
        rfl
      · rw [List.map_cons, List.mem_cons, hiff, hsplit, hraised]
        simp only [and_true, eq_comm]
    | some e =>
      obtain ⟨sent, hended, hiff⟩ := ih (send C (envs i) t peerId msg.payload).state
        ⟨q.key, q.isOpen, q.table.incrementAttempt msg.id⟩ (i + 1) hopen
      rw [flushEach_unsent hopen e hraised]
      refine ⟨sent, hended, fun id => ?_⟩
      rw [hiff, hsplit, hraised]
      simp only [reduceCtorEq, and_false, false_or]

end Flushing

section Steps

variable {C : Suite} {cb : Callback} {s s' s'' : SendOrder.System}

/-- Where the rows come from that a run leaves, and the messages that it hands over: from before,
or from its own calls. -/
structure Stepped (s s' : SendOrder.System) : Prop where
  rows : ∀ row ∈ s'.queue.table.rows,
    (∃ old ∈ s.queue.table.rows, row.id = old.id ∧ row.peerId = old.peerId ∧
      s'.callOf row.id = s.callOf old.id) ∨
    (s.queue.table.nextId ≤ row.id ∧ s.calls ≤ s'.callOf row.id ∧ s'.callOf row.id < s'.calls)
  handed : ∀ entry ∈ s'.handed, entry ∈ s.handed ∨ (s.calls ≤ entry.2 ∧ entry.2 < s'.calls) ∨
    ∃ row ∈ s.queue.table.rows, entry = (row.peerId, s.callOf row.id)
  nextId : s.queue.table.nextId ≤ s'.queue.table.nextId
  calls : s.calls ≤ s'.calls

/-- Nothing is filed or handed over. -/
theorem stepped_of_rows (hrows : ∀ row ∈ s'.queue.table.rows, row ∈ s.queue.table.rows)
    (hnextId : s'.queue.table.nextId = s.queue.table.nextId) (hcalls : s.calls ≤ s'.calls)
    (hcallOf : s'.callOf = s.callOf) (hhanded : s'.handed = s.handed) : Stepped s s' where
  rows row hrow := Or.inl ⟨row, hrows row hrow, rfl, rfl, by rw [hcallOf]⟩
  handed entry hentry := Or.inl (hhanded ▸ hentry)
  nextId := hnextId.ge
  calls := hcalls

theorem Stepped.refl (s : SendOrder.System) : Stepped s s :=
  stepped_of_rows (fun _ hrow => hrow) rfl le_rfl rfl rfl

theorem Stepped.trans (h : Stepped s s') (h' : Stepped s' s'') : Stepped s s'' where
  rows row hrow := by
    rcases h'.rows row hrow with ⟨old, hold, hid, hpeer, hcall⟩ | ⟨hid, hcall, hlt⟩
    · rcases h.rows old hold with ⟨first, hfirst, hid', hpeer', hcall'⟩ | ⟨hid', hcall', hlt'⟩
      · exact Or.inl ⟨first, hfirst, hid.trans hid', hpeer.trans hpeer', hcall.trans hcall'⟩
      · rw [hid, ← hid, hcall]
        exact Or.inr ⟨by omega, hcall', hlt'.trans_le h'.calls⟩
    · exact Or.inr ⟨h.nextId.trans hid, h.calls.trans hcall, hlt⟩
  handed entry hentry := by
    rcases h'.handed entry hentry with hold | ⟨hcall, hlt⟩ | ⟨row, hrow, rfl⟩
    · rcases h.handed entry hold with hfirst | ⟨hcall, hlt⟩ | hrow
      · exact Or.inl hfirst
      · exact Or.inr (Or.inl ⟨hcall, hlt.trans_le h'.calls⟩)
      · exact Or.inr (Or.inr hrow)
    · exact Or.inr (Or.inl ⟨h.calls.trans hcall, hlt⟩)
    · rcases h.rows row hrow with ⟨first, hfirst, _, hpeer, hcall⟩ | ⟨_, hcall, hlt⟩
      · exact Or.inr (Or.inr ⟨first, hfirst, by rw [hpeer, hcall]⟩)
      · exact Or.inr (Or.inl ⟨hcall, hlt.trans_le h'.calls⟩)
  nextId := h.nextId.trans h'.nextId
  calls := h.calls.trans h'.calls

theorem stepped_flush (s : SendOrder.System) (peerId : String) (now : ℚ) (envs : ℕ → Env) :
    Stepped s (flush C s peerId now envs) := by
  cases hpending : s.queue.getPending C now peerId with
  | error e =>
    rw [flush_error peerId now envs e hpending]
    exact stepped_of_rows (fun _ hrow => hrow) rfl le_rfl rfl rfl
  | ok pending =>
    obtain ⟨hflushed, hhanded⟩ := flush_ok peerId now envs pending hpending
    constructor
    · intro row hrow
      obtain ⟨old, hold, hid, hpeer, _⟩ := old_of_sublist hflushed.sublist hrow
      exact Or.inl ⟨old, hold, hid, hpeer, congrArg s.callOf hid⟩
    · intro entry hentry
      rw [hhanded] at hentry
      rcases List.mem_append.mp hentry with hold | hnew
      · exact Or.inl hold
      · obtain ⟨msg, hmsg, rfl⟩ := List.mem_map.mp hnew
        obtain ⟨row, hrow, hid, hpeer⟩ := pending_row hpending msg hmsg
        exact Or.inr (Or.inr ⟨row, hrow, by rw [hpeer, hid]⟩)
    · exact (nextId_flushPeer now envs peerId).ge
    · exact le_rfl

theorem stepped_loopPeer (times : String → FlushTimes) (s : SendOrder.System) (peerId : String) :
    Stepped s (loopPeer C times s peerId) := by
  have hsame : ∀ looping, Stepped s { s with looping := looping } := fun looping =>
    stepped_of_rows (fun _ hrow => hrow) rfl le_rfl rfl rfl
  unfold loopPeer
  split
  · split
    · exact hsame false
    · exact Stepped.refl s
    · have hflush := stepped_flush (C := C) s peerId (times peerId).now (times peerId).envs
      exact hflush.trans (stepped_of_rows (fun _ hrow => hrow) rfl le_rfl rfl rfl)
  · exact Stepped.refl s

/-- A call of send_or_queue() files or hands over its own message only. -/
theorem stepped_sendOrQueue (s : SendOrder.System) (env : Env) (peerId : String) (payload : Bytes) :
    Stepped s (SendOrder.step C cb s (.sendOrQueue env peerId payload)) := by
  simp only [SendOrder.step, sendOrQueue]
  by_cases hsession : (s.node.transport.sessions.get? (normalizePeerId peerId)).isSome = true
  · simp only [if_pos hsession]
    have hhanded : ∀ entry ∈ s.handed ++ [(normalizePeerId peerId, s.calls)],
        entry ∈ s.handed ∨ (s.calls ≤ entry.2 ∧ entry.2 < s.calls + 1) ∨
          ∃ row ∈ s.queue.table.rows, entry = (row.peerId, s.callOf row.id) := by
      intro entry hentry
      rcases List.mem_append.mp hentry with hold | hnew
      · exact Or.inl hold
      · rw [List.mem_singleton.mp hnew]
        exact Or.inr (Or.inl ⟨le_rfl, Nat.lt_succ_self _⟩)
    cases (send C env s.node.transport (normalizePeerId peerId) payload).raised with
    | none =>
      exact ⟨fun row hrow => Or.inl ⟨row, hrow, rfl, rfl, rfl⟩, hhanded, le_rfl, Nat.le_succ _⟩
    | some e =>
      exact ⟨fun row hrow => Or.inl ⟨row, hrow, rfl, rfl, rfl⟩, hhanded, le_rfl, Nat.le_succ _⟩
  · simp only [if_neg hsession]
    cases henqueue : s.queue.enqueue C env.time (env.nonce 0) (normalizePeerId peerId) payload with
    | error e => exact stepped_of_rows (fun _ hrow => hrow) rfl (Nat.le_succ _) rfl rfl
    | ok out =>
      obtain ⟨q', id⟩ := out
      obtain ⟨_, rfl⟩ := enqueueAt_ok henqueue
      refine ⟨fun row hrow => ?_, fun entry hentry => Or.inl hentry, Nat.le_succ _, Nat.le_succ _⟩
      rcases List.mem_append.mp hrow with hold | hnew
      · refine Or.inl ⟨row, hold, rfl, rfl, ?_⟩
        exact Function.update_of_ne (Nat.ne_of_lt (s.queue.table.below row hold)) _ _
      · rw [List.mem_singleton.mp hnew]
        dsimp only
        rw [Function.update_self]
        exact Or.inr ⟨le_rfl, le_rfl, Nat.lt_succ_self _⟩

theorem stepped_happen (s : SendOrder.System) (h : Happening) : Stepped s (happen C cb s h) := by
  cases h with
  | step l =>
    cases l with
    | transport env e => exact stepped_of_rows (fun _ hrow => hrow) rfl le_rfl rfl rfl
    | sendOrQueue env peerId payload =>
      rw [happen]
      exact stepped_sendOrQueue s env peerId payload
    | flushTask i now envs =>
      rw [happen, SendOrder.step]
      split
      · have htasks : Stepped s { s with tasks := s.tasks.eraseIdx i } :=
          stepped_of_rows (fun _ hrow => hrow) rfl le_rfl rfl rfl
        exact htasks.trans (stepped_flush _ _ now envs)
      · exact Stepped.refl s
    | flushLoop times =>
      rw [happen, SendOrder.step]
      exact Runs.invariant_of_step (I := fun s' => Stepped s s')
        (fun s' peerId hs' => hs'.trans (stepped_loopPeer times s' peerId)) s _ (Stepped.refl s)
  | purge now =>
    rw [happen]
    cases hopen : s.queue.isOpen with
    | false =>
      rw [purgeExpired_closed hopen]
      exact stepped_of_rows (fun _ hrow => hrow) rfl le_rfl rfl rfl
    | true =>
      rw [purgeExpired_open hopen]
      exact stepped_of_rows (fun row hrow => (List.mem_filter.mp hrow).1) rfl le_rfl rfl rfl
  | restart node => exact stepped_of_rows (fun _ hrow => hrow) rfl le_rfl rfl rfl

theorem stepped_run (s : SendOrder.System) (happenings : List Happening) :
    Stepped s (Runs.run (happen C cb) s happenings) :=
  Runs.invariant_of_step (I := fun s' => Stepped s s')
    (fun s' h hs' => hs'.trans (stepped_happen s' h)) s happenings (Stepped.refl s)

end Steps

section Kept

variable {C : Suite} {cb : Callback}

/-- send_or_queue() files at most its own message. -/
theorem sendOrQueue_queue (env : Env) (t : MeshTransport) (q : ForwardQueue) (peerId : String)
    (payload : Bytes) : (sendOrQueue C env t q peerId payload).queue = q ∨
      Change C q (.enqueue env.time env.time (env.nonce 0) (normalizePeerId peerId) payload)
        (sendOrQueue C env t q peerId payload).queue := by
  have hending := sendOrQueue_ending C env t q peerId payload
  generalize sendOrQueue C env t q peerId payload = result at hending
  cases hending with
  | sent _ => exact Or.inl rfl
  | unsent _ => exact Or.inl rfl
  | refused _ => exact Or.inl rfl
  | queued q' id henqueued =>
    obtain ⟨_, rfl⟩ := enqueueAt_ok henqueued
    exact Or.inr (.filed _ _ _ _ _)

/-- A property of the queue that filing keeps, and purges at these times and flushes of these
peers. -/
structure Stable (C : Suite) (I : ForwardQueue → Prop) (purged : ℚ → Prop)
    (flushed : String → Prop) : Prop where
  file : ∀ q q' sizeNow now nonce peerId payload, I q →
    Change C q (.enqueue sizeNow now nonce peerId payload) q' → I q'
  purge : ∀ q q' now, purged now → I q → Change C q (.purgeExpired now) q' → I q'
  flush : ∀ q t now envs peerId, flushed peerId → I q → I (flushPeer C now envs t q peerId).queue

variable {I : ForwardQueue → Prop} {purged : ℚ → Prop} {flushed : String → Prop}

theorem Stable.loopPeer (h : Stable C I purged flushed) (times : String → FlushTimes)
    (s : SendOrder.System) (peerId : String) (hs : I s.queue) (hpeer : flushed peerId) :
    I (loopPeer C times s peerId).queue := by
  unfold SendOrder.loopPeer
  split
  · split
    · exact hs
    · exact hs
    · exact h.flush s.queue s.node.transport _ _ peerId hpeer hs
  · exact hs

theorem Stable.happen (h : Stable C I purged flushed) (s : SendOrder.System) (e : Happening)
    (hs : I s.queue) (hallowed : Allows purged flushed s e) : I (happen C cb s e).queue := by
  cases e with
  | step l =>
    cases l with
    | transport env e => exact hs
    | sendOrQueue env peerId payload =>
      show I (sendOrQueue C env s.node.transport s.queue peerId payload).queue
      rcases sendOrQueue_queue (C := C) env s.node.transport s.queue peerId payload with
        hsame | hfiled
      · rw [hsame]
        exact hs
      · exact h.file _ _ _ _ _ _ _ hs hfiled
    | flushTask i now envs =>
      rw [QueueRuns.happen, SendOrder.step]
      split
      · rename_i peerId htask
        exact h.flush s.queue s.node.transport now envs peerId (hallowed peerId htask) hs
      · exact hs
    | flushLoop times =>
      have hpeers : Runs.Always (SendOrder.loopPeer C times) (fun _ peerId => flushed peerId) s
          s.node.transport.sessions.keys := by
        refine (Runs.always_iff s _).mpr fun done peerId hdone => hallowed peerId (hdone.subset ?_)
        exact List.mem_append_right _ List.mem_cons_self
      exact Runs.invariant (I := fun s => I s.queue) (h.loopPeer times) s _ hs hpeers
  | purge now => exact h.purge _ _ now hallowed hs (change_step s.queue (.purgeExpired now))
  | restart node => exact hs

theorem stable_decrypts (haead : C.AeadCorrect) :
    Stable C (Decrypts C) (fun _ => True) (fun _ => True) where
  file _ _ _ _ _ _ _ hq hchange := hchange.decrypts haead hq
  purge _ _ _ _ hq hchange := hchange.decrypts haead hq
  flush _ _ now envs peerId _ hq := decrypts_flushPeer hq now envs peerId

theorem stable_waits (f : Filing) : Stable C (fun q => Waits C q f) (fun now => now < f.expiresAt)
    (fun pid => normalizePeerId pid ≠ f.peerId) where
  file q q' sizeNow now nonce peerId payload hq hchange := by
    refine hchange.waits hq ?_ ?_
    · intro heq
      cases heq
    · intro later heq
      cases heq
  purge q q' now hnow hq hchange := by
    refine hchange.waits hq ?_ ?_
    · intro heq
      cases heq
    · intro later heq
      cases heq
      exact hnow
  flush q t now envs peerId hother hq := waits_flushPeer hq now envs peerId hother

/-- What every purge and every flush keeps holds after any run. -/
theorem Stable.run (h : Stable C I (fun _ => True) (fun _ => True)) {s : SendOrder.System}
    (hs : I s.queue) (happenings : List Happening) :
    I (Runs.run (QueueRuns.happen C cb) s happenings).queue := by
  refine Runs.invariant_of_step (I := fun s => I s.queue) (fun s e hs => ?_) s happenings hs
  refine h.happen s e hs ?_
  cases e with
  | step l =>
    cases l with
    | transport _ _ => trivial
    | sendOrQueue _ _ _ => trivial
    | flushTask _ _ _ => exact fun _ _ => trivial
    | flushLoop _ => exact fun _ _ => trivial
  | purge _ => trivial
  | restart _ => trivial

theorem stable_isOpen :
    Stable C (fun q => q.isOpen = true) (fun _ => True) (fun _ => True) where
  file q q' sizeNow now nonce peerId payload hq hchange := by
    cases hchange with
    | same _ => exact hq
    | filed _ _ _ _ _ => exact hq
  purge q q' now _ hq hchange := by
    cases hchange with
    | same _ => exact hq
    | purged _ => exact hq
  flush q t now envs peerId _ hq := by
    rcases flushPeer_cases (C := C) now envs t q peerId with ⟨pending, run, hrun, hqueue⟩ | hqueue
    · rw [hqueue, hrun.isOpen]
      exact hq
    · rw [hqueue]
      exact hq

end Kept

end Mesim.QueueRuns
