import Mesim.StoreForward

/-!
The order in which messages for a peer are handed to the transport.
send_or_queue() hands a message over at once when the peer has a session and files
it otherwise. A new session only schedules a flush, and until that task runs a
later message goes out before the filed ones.
-/
namespace Mesim.SendOrder

open Octets Crypto Identity Packet Transport Operations Dispatch Nodes Fragments Reassembly
open InFlightTable ForwardQueue StoreForward

/-- A node with its queue, the flush tasks that have not run yet, and what has happened to the
messages: how many calls of send_or_queue() there were, which call filed a row, and the calls
whose messages were handed to the transport, with their peers. -/
structure System where
  node : Node
  queue : ForwardQueue
  tasks : List String
  looping : Bool
  calls : ℕ
  callOf : ℕ → ℕ
  handed : List (String × ℕ)
  clock : ℚ

/-- The clock readings of one turn of the flush loop, and what its sends draw. -/
structure FlushTimes where
  sizeNow : ℚ
  now : ℚ
  envs : ℕ → Env

inductive Label where
  | transport (env : Env) (e : Event)
  | sendOrQueue (env : Env) (peerId : String) (payload : Bytes)
  | flushTask (i : ℕ) (now : ℚ) (envs : ℕ → Env)
  | flushLoop (times : String → FlushTimes)

section Steps

variable (C : Suite) (cb : Callback)

/-- `_on_peer_connected`, registered under this number, schedules a flush. -/
def scheduled (effects : List Effect) : List String :=
  effects.filterMap fun e => match e with
    | .connected cb' peerId => if cb' = cb then some peerId else none
    | _ => none

/-- The rows that flush_peer() hands over, by their ids. -/
def pendingIds (q : ForwardQueue) (now : ℚ) (peerId : String) : List ℕ :=
  match q.getPending C now peerId with
  | .ok pending => pending.map (·.id)
  | .error _ => []

def flush (s : System) (peerId : String) (now : ℚ) (envs : ℕ → Env) : System :=
  let r := flushPeer C now envs s.node.transport s.queue peerId
  { s with
    node := { s.node with transport := r.transport }
    queue := r.queue
    handed := s.handed ++
      (pendingIds C s.queue now peerId).map fun id => (normalizePeerId peerId, s.callOf id)
    clock := now }

/-- The loop's turn for one session. An exception ends the loop for good. -/
def loopPeer (times : String → FlushTimes) (s : System) (peerId : String) : System :=
  if s.looping then
    match s.queue.queueSize (times peerId).sizeNow peerId with
    | .error _ => { s with looping := false }
    | .ok 0 => s
    | .ok (_ + 1) =>
      let looping := (flushPeer C (times peerId).now (times peerId).envs s.node.transport s.queue
        peerId).ended.isOk
      { flush C s peerId (times peerId).now (times peerId).envs with looping := looping }
  else s

def step (s : System) : Label → System
  | .transport env e =>
    { s with
      node := (s.node.step C env e).1
      tasks := s.tasks ++ scheduled cb (s.node.step C env e).2 }
  | .sendOrQueue env peerId payload =>
    let r := sendOrQueue C env s.node.transport s.queue peerId payload
    { s with
      node := { s.node with transport := r.transport }
      queue := r.queue
      calls := s.calls + 1
      callOf := match r.ended with
        | .ok false => Function.update s.callOf s.queue.table.nextId s.calls
        | _ => s.callOf
      handed := if (s.node.transport.sessions.get? (normalizePeerId peerId)).isSome then
          s.handed ++ [(normalizePeerId peerId, s.calls)]
        else s.handed
      clock := env.time }
  | .flushTask i now envs =>
    match s.tasks[i]? with
    | some peerId => flush C { s with tasks := s.tasks.eraseIdx i } peerId now envs
    | none => s
  | .flushLoop times => Runs.run (loopPeer C times) s s.node.transport.sessions.keys

/-- Nothing filed and nothing handed over. -/
def Initial (s : System) : Prop := s.queue.table.rows = [] ∧ s.handed = []

/-- The calls whose messages were handed over for the peer, in order. -/
def handedTo (s : System) (peerId : String) : List ℕ :=
  (s.handed.filter fun entry => entry.1 = peerId).map Prod.snd

end Steps

section Guard

variable (C : Suite)

/-- A message that is sent after this many others goes out. -/
def GoesOut (t : MeshTransport) (peerId : String) (ahead : ℕ) (payload : Bytes) : Prop :=
  (t.sessions.get? peerId).isSome ∧ t.msgIdCounter + ahead < 256 ^ 4 ∧
    (splitFragments
      ((C.signMessage payload t.identity.signingKeypair.signingKey).toList ++ payload)).length < 256

/-- No row that a flush hands over stays behind a later one: all but the last go out. -/
def Drains (t : MeshTransport) (q : ForwardQueue) (peerId : String) (now : ℚ) : Prop :=
  ∀ pending, q.getPending C now peerId = .ok pending → ∀ k msg, pending[k]? = some msg →
    k + 1 < pending.length → GoesOut C t (normalizePeerId peerId) k msg.payload

def FlushInOrder (now : ℚ) (s : System) (peerId : String) : Prop :=
  s.clock ≤ now ∧ Drains C s.node.transport s.queue peerId now

/-- The clock does not go back, a message goes out at once only when no other is waiting for its
peer, and a flush leaves none behind a later one. -/
def Orderly (s : System) : Label → Prop
  | .transport _ _ => True
  | .sendOrQueue env peerId _ => s.clock ≤ env.time ∧
      ((s.node.transport.sessions.get? (normalizePeerId peerId)).isSome = true →
        ∀ row ∈ s.queue.table.rows, isLive (normalizePeerId peerId) env.time row = false)
  | .flushTask i now _ => ∀ peerId, s.tasks[i]? = some peerId → FlushInOrder C now s peerId
  | .flushLoop times => Runs.Always (loopPeer C times)
      (fun s peerId => s.looping = true → FlushInOrder C (times peerId).now s peerId) s
      s.node.transport.sessions.keys

end Guard

section Flushing

variable {C : Suite} {t : MeshTransport} {q : ForwardQueue} {peerId : String} {payload : Bytes}

theorem GoesOut.raised (h : GoesOut C t peerId 0 payload) (env : Env) :
    (send C env t peerId payload).raised = none := by
  obtain ⟨hsession, hcounter, htotal⟩ := h
  obtain ⟨session, hsession⟩ := Option.isSome_iff_exists.mp hsession
  apply (send_raised_iff C env t peerId payload session hsession).mpr
  exact (sendable_iff C env t session.sessionKey payload).mpr ⟨hcounter, htotal⟩

theorem GoesOut.after {k : ℕ} (h : GoesOut C t peerId (k + 1) payload) (env : Env)
    (before : Bytes) : GoesOut C (send C env t peerId before).state peerId k payload := by
  obtain ⟨hsession, hcounter, htotal⟩ := h
  obtain ⟨session, hget⟩ := Option.isSome_iff_exists.mp hsession
  have hsame := send_same C env t peerId before
  refine ⟨?_, ?_, ?_⟩
  · have hbound := congrArg Option.isSome (hsame.bound peerId)
    rw [bound, bound, Option.isSome_map, Option.isSome_map] at hbound
    exact hbound.trans hsession
  · rw [(send_loop C env t peerId before session hget).2.2.2]
    omega
  · rw [hsame.identity]
    exact htotal

/-- What a flush never changes of a row. -/
def untried (row : Row) : Row := { row with attempt := 0 }

theorem untried_bump (id : ℕ) (row : Row) : untried (Table.bump id row) = untried row := by
  unfold Table.bump
  split <;> rfl

/-- The rows a flush leaves are rows from before, and none of a message that goes out. -/
structure Flushed (C : Suite) (t : MeshTransport) (peerId : String) (rows rows' : List Row)
    (pending : List QueuedMessage) : Prop where
  sublist : (rows'.map untried).Sublist (rows.map untried)
  gone : ∀ k msg, pending[k]? = some msg → GoesOut C t peerId k msg.payload →
    ∀ row ∈ rows', row.id ≠ msg.id

theorem old_of_sublist {rows rows' : List Row} (h : (rows'.map untried).Sublist (rows.map untried))
    {row : Row} (hrow : row ∈ rows') : ∃ old ∈ rows, row.id = old.id ∧ row.peerId = old.peerId ∧
      row.queuedAt = old.queuedAt ∧ row.expiresAt = old.expiresAt := by
  obtain ⟨old, hold, heq⟩ := List.mem_map.mp (h.subset (List.mem_map_of_mem hrow))
  simp only [untried, Row.mk.injEq] at heq
  obtain ⟨hid, hpeer, _, htime, hend, _⟩ := heq
  exact ⟨old, hold, hid.symm, hpeer.symm, htime.symm, hend.symm⟩

/-- What a flush never changes stays in order. -/
theorem pairwise_of_sublist {α : Type} {rows rows' : List Row}
    (h : (rows'.map untried).Sublist (rows.map untried)) (f : Row → α)
    (hf : ∀ row, f (untried row) = f row) {rel : α → α → Prop}
    (hrows : (rows.map f).Pairwise rel) : (rows'.map f).Pairwise rel := by
  have hsub := h.map f
  have hsame : f ∘ untried = f := funext hf
  rw [List.map_map, List.map_map, hsame] at hsub
  exact hrows.sublist hsub

theorem flushed_each (envs : ℕ → Env) (pending : List QueuedMessage) (i : ℕ)
    (hopen : q.isOpen = true) :
    Flushed C t peerId q.table.rows (flushEach C envs peerId t q pending i).queue.table.rows
      pending := by
  induction pending generalizing t q i with
  | nil => exact ⟨List.Sublist.refl _, fun k msg h => by contradiction⟩
  | cons msg rest ih =>
    let t₁ := (send C (envs i) t peerId msg.payload).state
    cases hraised : (send C (envs i) t peerId msg.payload).raised with
    | none =>
      obtain ⟨hsublist, hgone⟩ := ih (t := t₁)
        (q := ⟨q.key, q.isOpen, q.table.delete (fun row => row.id = msg.id)⟩) (i + 1) hopen
      rw [flushEach_sent hopen hraised]
      refine ⟨hsublist.trans (List.filter_sublist.map _), fun k msg' hmsg' hout row hrow => ?_⟩
      cases k with
      | zero =>
        cases hmsg'
        obtain ⟨old, hold, hsame, _⟩ := old_of_sublist hsublist hrow
        have hne := (List.mem_filter.mp hold).2
        rw [Bool.not_eq_true', decide_eq_false_iff_not] at hne
        exact fun hid => hne (hsame.symm.trans hid)
      | succ k => exact hgone k msg' hmsg' (hout.after (envs i) msg.payload) row hrow
    | some e =>
      obtain ⟨hsublist, hgone⟩ := ih (t := t₁)
        (q := ⟨q.key, q.isOpen, q.table.incrementAttempt msg.id⟩) (i + 1) hopen
      rw [flushEach_unsent hopen e hraised]
      have hsame : (q.table.incrementAttempt msg.id).rows.map untried =
          q.table.rows.map untried := by
        rw [Table.incrementAttempt, IdTable.update, List.map_map]
        exact List.map_congr_left fun row _ => untried_bump msg.id row
      refine ⟨hsame ▸ hsublist, fun k msg' hmsg' hout row hrow => ?_⟩
      cases k with
      | zero =>
        cases hmsg'
        exact absurd (hraised.symm.trans (hout.raised (envs i))) (Option.some_ne_none e)
      | succ k => exact hgone k msg' hmsg' (hout.after (envs i) msg.payload) row hrow

end Flushing

section Invariant

variable (C : Suite)

/-- Rows stand in the order of their times and of their calls, and no row that can still go out
has been overtaken. -/
structure Ordered (s : System) : Prop where
  timed : (s.queue.table.rows.map Row.queuedAt).Pairwise (· ≤ ·)
  filed : ∀ row ∈ s.queue.table.rows, row.queuedAt ≤ s.clock
  called : (s.queue.table.rows.map fun row => s.callOf row.id).Pairwise (· ≤ ·)
  counted : ∀ row ∈ s.queue.table.rows, s.callOf row.id < s.calls
  made : ∀ entry ∈ s.handed, entry.2 < s.calls
  inOrder : ∀ peerId, (handedTo s peerId).Pairwise (· ≤ ·)
  waiting : ∀ row ∈ s.queue.table.rows, s.clock < row.expiresAt →
    ∀ entry ∈ s.handed, entry.1 = row.peerId → entry.2 ≤ s.callOf row.id

variable {C} {cb : Callback} {s : System}

theorem ordered_initial (h : Initial s) : Ordered s := by
  obtain ⟨hrows, hhanded⟩ := h
  constructor
  · rw [hrows]
    exact List.Pairwise.nil
  · rw [hrows]
    exact fun row hrow => absurd hrow List.not_mem_nil
  · rw [hrows]
    exact List.Pairwise.nil
  · rw [hrows]
    exact fun row hrow => absurd hrow List.not_mem_nil
  · rw [hhanded]
    exact fun entry hentry => absurd hentry List.not_mem_nil
  · intro peerId
    rw [handedTo, hhanded]
    exact List.Pairwise.nil
  · rw [hrows]
    exact fun row hrow => absurd hrow List.not_mem_nil

/-- Time passes, and calls are made that file nothing and hand nothing over. -/
theorem Ordered.later (h : Ordered s) (now : ℚ) (hclock : s.clock ≤ now) (calls : ℕ)
    (hcalls : s.calls ≤ calls) : Ordered { s with calls := calls, clock := now } where
  timed := h.timed
  filed row hrow := (h.filed row hrow).trans hclock
  called := h.called
  counted row hrow := (h.counted row hrow).trans_le hcalls
  made entry hentry := (h.made entry hentry).trans_le hcalls
  inOrder := h.inOrder
  waiting row hrow hlive := h.waiting row hrow (hclock.trans_lt hlive)

/-- The node and its tasks do not matter to the order. -/
theorem Ordered.elsewhere (h : Ordered s) (node : Node) (tasks : List String) (looping : Bool) :
    Ordered { s with node := node, tasks := tasks, looping := looping } :=
  ⟨h.timed, h.filed, h.called, h.counted, h.made, h.inOrder, h.waiting⟩

theorem mem_handedTo (peerId : String) (call : ℕ) :
    call ∈ handedTo s peerId ↔ (peerId, call) ∈ s.handed := by
  simp [handedTo]

/-- Calls that come after all the others may be handed over last. -/
theorem pairwise_handedTo_append (h : ∀ peerId, (handedTo s peerId).Pairwise (· ≤ ·))
    (more : List (String × ℕ)) (hmore : (more.map Prod.snd).Pairwise (· ≤ ·))
    (habove : ∀ entry ∈ s.handed, ∀ new ∈ more, entry.1 = new.1 → entry.2 ≤ new.2)
    (peerId : String) :
    (((s.handed ++ more).filter fun entry => entry.1 = peerId).map Prod.snd).Pairwise (· ≤ ·) := by
  rw [List.filter_append, List.map_append, List.pairwise_append]
  refine ⟨h peerId, hmore.sublist (List.filter_sublist.map _), fun c hc c' hc' => ?_⟩
  have hold := (mem_handedTo peerId c).mp hc
  obtain ⟨new, hnew, rfl⟩ := List.mem_map.mp hc'
  obtain ⟨hmem, hpeer⟩ := List.mem_filter.mp hnew
  exact habove _ hold new hmem (of_decide_eq_true hpeer).symm

/-- flush_peer() and get_pending() both normalize. -/
theorem getPending_normalizePeerId (q : ForwardQueue) (now : ℚ) (peerId : String) :
    q.getPending C now (normalizePeerId peerId) = q.getPending C now peerId := by
  simp only [ForwardQueue.getPending, normalizePeerId_idem]

/-- The rows that a flush hands over, in the order of filing. -/
theorem pendingIds_eq (h : Ordered s) (now : ℚ) (peerId : String) (pending : List QueuedMessage)
    (hpending : s.queue.getPending C now peerId = .ok pending) :
    pending.map QueuedMessage.id =
      (s.queue.table.rows.filter (isLive (normalizePeerId peerId) now)).map Row.id := by
  have hopen := (getPending_ok hpending).1
  simp only [ForwardQueue.getPending, assertOpen, hopen, if_true, bind, Except.bind,
    s.queue.table.select_of_timed h.timed] at hpending
  exact map_id_readRows _ _ _ hpending

theorem Ordered.handed_live (h : Ordered s) (now : ℚ) (peerId : String) (hclock : s.clock ≤ now)
    (pending : List QueuedMessage) (hpending : s.queue.getPending C now peerId = .ok pending) :
    ∀ msg ∈ pending, ∃ row ∈ s.queue.table.rows, row.id = msg.id ∧
      row.peerId = normalizePeerId peerId ∧ s.clock < row.expiresAt := by
  intro msg hmsg
  have hid : msg.id ∈ pending.map QueuedMessage.id := List.mem_map_of_mem hmsg
  rw [pendingIds_eq h now peerId pending hpending] at hid
  obtain ⟨row, hrow, heq⟩ := List.mem_map.mp hid
  obtain ⟨hmem, hlive⟩ := List.mem_filter.mp hrow
  rw [isLive, Bool.and_eq_true, decide_eq_true_iff, decide_eq_true_iff] at hlive
  exact ⟨row, hmem, heq, hlive.1, hclock.trans_lt hlive.2⟩

theorem Ordered.calls_sorted (h : Ordered s) (now : ℚ) (peerId : String)
    (pending : List QueuedMessage) (hpending : s.queue.getPending C now peerId = .ok pending) :
    (pending.map fun msg => s.callOf msg.id).Pairwise (· ≤ ·) := by
  have hids : (pending.map fun msg => s.callOf msg.id) =
      (s.queue.table.rows.filter (isLive (normalizePeerId peerId) now)).map
        fun row => s.callOf row.id := by
    have hmap := congrArg (List.map s.callOf) (pendingIds_eq h now peerId pending hpending)
    rw [List.map_map, List.map_map] at hmap
    exact hmap
  rw [hids]
  exact h.called.sublist (List.filter_sublist.map _)

/-- A live row that a flush leaves is the last one it handed over. -/
theorem Ordered.left_last (h : Ordered s) (now : ℚ) (peerId : String)
    (hdrains : Drains C s.node.transport s.queue peerId now) (pending : List QueuedMessage)
    (hpending : s.queue.getPending C now peerId = .ok pending) (rows' : List Row)
    (hflushed : Flushed C s.node.transport (normalizePeerId peerId) s.queue.table.rows rows' pending)
    (row : Row) (hrow : row ∈ rows') (hpeer : row.peerId = normalizePeerId peerId)
    (hlive : now < row.expiresAt) : ∀ msg ∈ pending, s.callOf msg.id ≤ s.callOf row.id := by
  obtain ⟨old, hold, hsame, holdPeer, _, hend⟩ := old_of_sublist hflushed.sublist hrow
  have hlisted : row.id ∈ pending.map QueuedMessage.id := by
    rw [pendingIds_eq h now peerId pending hpending]
    refine List.mem_map.mpr ⟨old, List.mem_filter.mpr ⟨hold, ?_⟩, hsame.symm⟩
    rw [isLive, Bool.and_eq_true, decide_eq_true_iff, decide_eq_true_iff]
    exact ⟨holdPeer.symm.trans hpeer, hlive.trans_eq hend⟩
  obtain ⟨last, hlast, hid⟩ := List.mem_map.mp hlisted
  obtain ⟨k, hk, hget⟩ := List.mem_iff_getElem.mp hlast
  have hlastOne : ¬ k + 1 < pending.length := by
    intro hlt
    have hout := hdrains pending hpending k last (by rw [← hget, List.getElem?_eq_getElem]) hlt
    exact hflushed.gone k last (by rw [← hget, List.getElem?_eq_getElem]) hout row hrow hid.symm
  intro msg hmsg
  obtain ⟨j, hj, rfl⟩ := List.mem_iff_getElem.mp hmsg
  have hsorted := h.calls_sorted now peerId pending hpending
  rw [List.pairwise_map] at hsorted
  rw [← hid, ← hget]
  rcases (show j ≤ k by omega).lt_or_eq with hlt | rfl
  · exact List.pairwise_iff_getElem.mp hsorted j k hj hk hlt
  · exact le_rfl

theorem flush_error (peerId : String) (now : ℚ) (envs : ℕ → Env) (e : PyError)
    (hpending : s.queue.getPending C now peerId = .error e) :
    flush C s peerId now envs = { s with clock := now } := by
  simp only [flush, flushPeer, pendingIds, getPending_normalizePeerId, hpending, List.map_nil,
    List.append_nil]

theorem flush_ok (peerId : String) (now : ℚ) (envs : ℕ → Env) (pending : List QueuedMessage)
    (hpending : s.queue.getPending C now peerId = .ok pending) :
    Flushed C s.node.transport (normalizePeerId peerId) s.queue.table.rows
        (flush C s peerId now envs).queue.table.rows pending ∧
      (flush C s peerId now envs).handed =
        s.handed ++ pending.map fun msg => (normalizePeerId peerId, s.callOf msg.id) := by
  have hflushed : Flushed C s.node.transport (normalizePeerId peerId) s.queue.table.rows
      (flushEach C envs (normalizePeerId peerId) s.node.transport s.queue pending 0).queue.table.rows
      pending := flushed_each envs pending 0 (getPending_ok hpending).1
  refine ⟨?_, ?_⟩
  · simp only [flush, flushPeer, getPending_normalizePeerId, hpending]
    exact hflushed
  · simp only [flush, pendingIds, hpending, List.map_map]
    rfl

theorem ordered_flush (h : Ordered s) (peerId : String) (now : ℚ) (envs : ℕ → Env)
    (hinOrder : FlushInOrder C now s peerId) : Ordered (flush C s peerId now envs) := by
  obtain ⟨hclock, hdrains⟩ := hinOrder
  cases hpending : s.queue.getPending C now peerId with
  | error e =>
    rw [flush_error peerId now envs e hpending]
    exact h.later now hclock s.calls le_rfl
  | ok pending =>
    obtain ⟨hflushed, hhanded⟩ := flush_ok peerId now envs pending hpending
    have hlive := h.handed_live now peerId hclock pending hpending
    constructor
    · exact pairwise_of_sublist hflushed.sublist Row.queuedAt (fun _ => rfl) h.timed
    · intro row hrow
      obtain ⟨old, hold, _, _, htime, _⟩ := old_of_sublist hflushed.sublist hrow
      rw [htime]
      exact (h.filed old hold).trans hclock
    · exact pairwise_of_sublist hflushed.sublist (fun row => s.callOf row.id) (fun _ => rfl) h.called
    · intro row hrow
      obtain ⟨old, hold, hid, _⟩ := old_of_sublist hflushed.sublist hrow
      rw [hid]
      exact h.counted old hold
    · rw [hhanded]
      intro entry hentry
      rcases List.mem_append.mp hentry with hold | hnew
      · exact h.made entry hold
      · obtain ⟨msg, hmsg, rfl⟩ := List.mem_map.mp hnew
        obtain ⟨row, hrow, hid, _⟩ := hlive msg hmsg
        rw [← hid]
        exact h.counted row hrow
    · intro peerId'
      rw [handedTo, hhanded]
      refine pairwise_handedTo_append h.inOrder _ ?_ ?_ peerId'
      · rw [List.map_map]
        exact h.calls_sorted now peerId pending hpending
      · intro entry hentry new hnew hpeer
        obtain ⟨msg, hmsg, rfl⟩ := List.mem_map.mp hnew
        obtain ⟨row, hrow, hid, hrowPeer, hexpires⟩ := hlive msg hmsg
        rw [← hid]
        exact h.waiting row hrow hexpires entry hentry (hpeer.trans hrowPeer.symm)
    · rw [hhanded]
      intro row hrow hexpires entry hentry hpeer
      rcases List.mem_append.mp hentry with hold | hnew
      · obtain ⟨old, hmem, hid, hrowPeer, _, hend⟩ := old_of_sublist hflushed.sublist hrow
        rw [hid]
        exact h.waiting old hmem (hclock.trans_lt (hexpires.trans_eq hend)) entry hold
          (hpeer.trans hrowPeer)
      · obtain ⟨msg, hmsg, rfl⟩ := List.mem_map.mp hnew
        exact h.left_last now peerId hdrains pending hpending _ hflushed row hrow hpeer.symm
          hexpires msg hmsg

/-- A message is handed over at once when nothing else is waiting for its peer. -/
theorem Ordered.direct (h : Ordered s) (peerId : String)
    (hnone : ∀ row ∈ s.queue.table.rows, isLive peerId s.clock row = false) :
    Ordered { s with calls := s.calls + 1, handed := s.handed ++ [(peerId, s.calls)] } where
  timed := h.timed
  filed := h.filed
  called := h.called
  counted row hrow := Nat.lt_succ_of_lt (h.counted row hrow)
  made entry hentry := by
    rcases List.mem_append.mp hentry with hold | hnew
    · exact Nat.lt_succ_of_lt (h.made entry hold)
    · rw [List.mem_singleton.mp hnew]
      exact Nat.lt_succ_self s.calls
  inOrder := by
    apply pairwise_handedTo_append h.inOrder _ (List.pairwise_singleton _ _)
    intro entry hentry new hnew _
    rw [List.mem_singleton.mp hnew]
    exact (h.made entry hentry).le
  waiting row hrow hlive entry hentry hpeer := by
    rcases List.mem_append.mp hentry with hold | hnew
    · exact h.waiting row hrow hlive entry hold hpeer
    · rw [List.mem_singleton.mp hnew] at hpeer
      have hdead := hnone row hrow
      rw [isLive, ← hpeer, decide_eq_true rfl, Bool.true_and, decide_eq_false_iff_not] at hdead
      exact absurd hlive hdead

/-- A filed message comes after every other: in time, in the table and by its call. -/
theorem Ordered.filing (h : Ordered s) (peerId : String) (payload : Bytes) (expiresAt : ℚ) :
    Ordered { s with
      queue := ⟨s.queue.key, s.queue.isOpen, s.queue.table.insert peerId payload s.clock expiresAt⟩
      calls := s.calls + 1
      callOf := Function.update s.callOf s.queue.table.nextId s.calls } := by
  have hold : ∀ row ∈ s.queue.table.rows,
      Function.update s.callOf s.queue.table.nextId s.calls row.id = s.callOf row.id :=
    fun row hrow => Function.update_of_ne (Nat.ne_of_lt (s.queue.table.below row hrow)) _ _
  have hnew : Function.update s.callOf s.queue.table.nextId s.calls s.queue.table.nextId =
      s.calls := Function.update_self _ _ _
  constructor
  · simp only [Table.insert, IdTable.insert, List.map_append, List.pairwise_append]
    refine ⟨h.timed, List.pairwise_singleton _ _, fun time htime time' htime' => ?_⟩
    obtain ⟨row, hrow, rfl⟩ := List.mem_map.mp htime
    rw [List.mem_singleton.mp htime']
    exact h.filed row hrow
  · intro row hrow
    rcases List.mem_append.mp hrow with hmem | hmem
    · exact h.filed row hmem
    · rw [List.mem_singleton.mp hmem]
  · simp only [Table.insert, IdTable.insert, List.map_append, List.pairwise_append]
    rw [List.map_congr_left hold]
    refine ⟨h.called, List.pairwise_singleton _ _, fun call hcall call' hcall' => ?_⟩
    obtain ⟨row, hrow, rfl⟩ := List.mem_map.mp hcall
    have hlast : call' = s.calls := (List.mem_singleton.mp hcall').trans hnew
    rw [hlast]
    exact (h.counted row hrow).le
  · intro row hrow
    dsimp only
    rcases List.mem_append.mp hrow with hmem | hmem
    · rw [hold row hmem]
      exact Nat.lt_succ_of_lt (h.counted row hmem)
    · rw [List.mem_singleton.mp hmem, hnew]
      exact Nat.lt_succ_self s.calls
  · exact fun entry hentry => Nat.lt_succ_of_lt (h.made entry hentry)
  · exact h.inOrder
  · intro row hrow hlive entry hentry hpeer
    dsimp only
    rcases List.mem_append.mp hrow with hmem | hmem
    · rw [hold row hmem]
      exact h.waiting row hmem hlive entry hentry hpeer
    · rw [List.mem_singleton.mp hmem, hnew]
      exact (h.made entry hentry).le

theorem ordered_sendOrQueue (h : Ordered s) (env : Env) (peerId : String) (payload : Bytes)
    (horderly : Orderly C s (.sendOrQueue env peerId payload)) :
    Ordered (step C cb s (.sendOrQueue env peerId payload)) := by
  obtain ⟨hclock, hnone⟩ := horderly
  have hlater := h.later env.time hclock s.calls le_rfl
  simp only [step, sendOrQueue]
  by_cases hsession : (s.node.transport.sessions.get? (normalizePeerId peerId)).isSome = true
  · simp only [if_pos hsession]
    have hdirect := hlater.direct (normalizePeerId peerId) (hnone hsession)
    cases (send C env s.node.transport (normalizePeerId peerId) payload).raised with
    | none => exact hdirect.elsewhere _ _ _
    | some e => exact hdirect.elsewhere _ _ _
  · simp only [if_neg hsession]
    cases henqueue : s.queue.enqueue C env.time (env.nonce 0) (normalizePeerId peerId) payload with
    | error e => exact h.later env.time hclock (s.calls + 1) (Nat.le_succ _)
    | ok out =>
      obtain ⟨q', id⟩ := out
      obtain ⟨_, rfl⟩ := enqueueAt_ok henqueue
      exact hlater.filing _ _ _

theorem ordered_loopPeer (times : String → FlushTimes) (s : System) (peerId : String) (h : Ordered s)
    (hguard : s.looping = true → FlushInOrder C (times peerId).now s peerId) :
    Ordered (loopPeer C times s peerId) := by
  unfold loopPeer
  split
  · rename_i hlooping
    split
    · exact h.elsewhere _ _ _
    · exact h
    · have hflush := ordered_flush h peerId (times peerId).now (times peerId).envs (hguard hlooping)
      exact hflush.elsewhere _ _ _
  · exact h

theorem ordered_step (s : System) (l : Label) (h : Ordered s) (horderly : Orderly C s l) :
    Ordered (step C cb s l) := by
  cases l with
  | transport env e => exact h.elsewhere _ _ _
  | sendOrQueue env peerId payload => exact ordered_sendOrQueue h env peerId payload horderly
  | flushTask i now envs =>
    rw [step]
    split
    · rename_i peerId htask
      obtain ⟨hclock, hdrains⟩ := horderly peerId htask
      have htasks := h.elsewhere s.node (s.tasks.eraseIdx i) s.looping
      exact ordered_flush htasks peerId now envs ⟨hclock, hdrains⟩
    · exact h
  | flushLoop times =>
    rw [step]
    exact Runs.invariant (ordered_loopPeer times) s _ h horderly

end Invariant

section Results

variable {C : Suite} {cb : Callback}

/-- The messages of a peer are handed over in the order of the calls as long as none is handed over
before one that is still waiting. -/
theorem handed_in_order (C : Suite) (cb : Callback) (s : System) (hinit : Initial s)
    (labels : List Label) (horderly : Runs.Always (step C cb) (Orderly C) s labels) :
    ∀ peerId, (handedTo (Runs.run (step C cb) s labels) peerId).Pairwise (· ≤ ·) :=
  (Runs.invariant ordered_step s labels (ordered_initial hinit) horderly).inOrder

/-- A message that goes out at once while an older one waits for the peer, before the next flush,
is handed over before it. -/
theorem overtaken (s : System) (env : Env) (peerId : String) (payload : Bytes) (now : ℚ)
    (envs : ℕ → Env) (pending : List QueuedMessage) (msg : QueuedMessage)
    (hsession : (s.node.transport.sessions.get? (normalizePeerId peerId)).isSome = true)
    (hpending : s.queue.getPending C now peerId = .ok pending) (hmsg : msg ∈ pending)
    (hcall : s.callOf msg.id < s.calls) :
    ¬ (handedTo (flush C (step C cb s (.sendOrQueue env peerId payload)) peerId now envs)
      (normalizePeerId peerId)).Pairwise (· ≤ ·) := by
  have hqueue : (step C cb s (.sendOrQueue env peerId payload)).queue = s.queue ∧
      (step C cb s (.sendOrQueue env peerId payload)).callOf = s.callOf := by
    simp only [step, sendOrQueue, if_pos hsession]
    cases (send C env s.node.transport (normalizePeerId peerId) payload).raised <;> exact ⟨rfl, rfl⟩
  have hsent : (step C cb s (.sendOrQueue env peerId payload)).handed =
      s.handed ++ [(normalizePeerId peerId, s.calls)] := by
    simp only [step, if_pos hsession]
  have hhanded : (flush C (step C cb s (.sendOrQueue env peerId payload)) peerId now envs).handed =
      (s.handed ++ [(normalizePeerId peerId, s.calls)]) ++
        pending.map fun m => (normalizePeerId peerId, s.callOf m.id) := by
    simp only [flush, pendingIds, hqueue.1, hqueue.2, hsent, hpending, List.map_map]
    rfl
  intro hsorted
  rw [handedTo, hhanded, List.filter_append, List.map_append, List.pairwise_append] at hsorted
  refine Nat.not_le.mpr hcall (hsorted.2.2 s.calls ?_ (s.callOf msg.id) ?_)
  · simp
  · refine List.mem_map.mpr ⟨(normalizePeerId peerId, s.callOf msg.id), ?_, rfl⟩
    exact List.mem_filter.mpr ⟨List.mem_map.mpr ⟨msg, hmsg, rfl⟩, decide_eq_true rfl⟩

end Results

section Stub

open Honest

theorem scheduled_sendRaw (cb : Callback) (t : MeshTransport) (packet : Bytes) (addr : Addr) :
    scheduled cb (t.sendRaw packet addr) = [] := by
  unfold scheduled MeshTransport.sendRaw
  split <;> rfl

/-- A message for a peer without a session, when there is room in the queue. -/
theorem step_queued (s : System) (env : Env) (peerId : String) (payload : Bytes) (size : ℕ)
    (hname : normalizePeerId peerId = peerId) (hopen : s.queue.isOpen = true)
    (hoffline : s.node.transport.sessions.get? peerId = none)
    (hsize : s.queue.queueSize env.time peerId = .ok size) (hroom : size < maxQueuePerPeer) :
    step stub 0 s (.sendOrQueue env peerId payload) = { s with
      queue := ⟨s.queue.key, s.queue.isOpen, s.queue.table.insert peerId
        (encryptPayload stub (env.nonce 0) s.queue.key payload) env.time (env.time + ttlSeconds)⟩
      calls := s.calls + 1
      callOf := Function.update s.callOf s.queue.table.nextId s.calls
      clock := env.time } := by
  have henqueue := enqueue_room (C := stub) env.time peerId hopen (hname.symm ▸ hsize) hroom
    (env.nonce 0) payload
  rw [hname] at henqueue
  simp only [step, sendOrQueue, hname, hoffline, Option.isSome_none, Bool.false_eq_true, if_false,
    henqueue]

theorem effects_datagram (n : Node) (data : Bytes) (addr : Addr) :
    (n.step stub stillEnv (.datagram data addr)).2 =
      (dispatch stub stillEnv n.transport data addr).effects := rfl

theorem scheduled_connected (cb : Callback) (peerId : String) :
    scheduled cb [.connected cb peerId] = [peerId] := by
  simp [scheduled]

theorem scheduled_append (cb : Callback) (before after : List Effect) :
    scheduled cb (before ++ after) = scheduled cb before ++ scheduled cb after :=
  List.filterMap_append

theorem step_transport (s : System) (event : Event) (peers : List String)
    (h : scheduled 0 (s.node.step stub stillEnv event).2 = peers) :
    step stub 0 s (.transport stillEnv event) = { s with
      node := nodeStep stub s.node (stillEnv, event)
      tasks := s.tasks ++ peers } := by
  rw [step, h]
  rfl

/-- A HANDSHAKE is at most answered. -/
theorem scheduled_announce (t : MeshTransport) (senderId : Fixed 32) (wire : Bytes)
    (bundle : PublicBundle) (hlen : wire.length < 65536) (hwire : announced stub wire = some bundle) :
    scheduled 0 (dispatch stub stillEnv t (frame .handshake senderId wire zeroMac)
      alphaAddr).effects = [] := by
  have hparse : parsePacket (frame .handshake senderId wire zeroMac) =
      .ok ⟨.handshake, senderId.toList, wire⟩ := parsePacket_unkeyed .handshake senderId wire hlen
  have hcase := dispatch_case stub stillEnv t (frame .handshake senderId wire zeroMac) alphaAddr
  generalize dispatch stub stillEnv t _ alphaAddr = out at hcase
  cases hcase with
  | handshake _ _ _ out _ _ _ heffects =>
    rcases heffects with hnil | ⟨own, _, hsent⟩
    · rw [hnil]
      rfl
    · rw [hsent, scheduled_sendRaw]
  | other out _ hidle _ =>
    have hnone : announced stub wire = none := hidle _ hparse
    rw [hwire] at hnone
    contradiction
  | handshakeResp _ _ _ _ hparse' _ _ | keyInit _ _ _ _ hparse' _ | keyAck _ _ _ _ _ hparse' _ _ =>
    rw [hparse] at hparse'
    cases hparse'

/-- A KEY_INIT that is taken schedules a flush. -/
theorem scheduled_keyInit (t : MeshTransport) (senderId : Fixed 32) (ciphertext : Bytes)
    (key : SessionKey) (bundle : PublicBundle) (hlen : ciphertext.length < 65536)
    (hinstall : keyInitInstalls stub t ciphertext alphaAddr = some (key, bundle))
    (hcbs : t.connectedCbs = [0]) :
    scheduled 0 (dispatch stub stillEnv t (frame .keyInit senderId ciphertext zeroMac)
      alphaAddr).effects = [bundle.deviceId] := by
  rw [dispatch_keyInit stub stillEnv _ _ _ _ alphaAddr _ _
    (parsePacket_unkeyed .keyInit senderId ciphertext hlen) hinstall, hcbs]
  dsimp only
  rw [scheduled_append, scheduled_sendRaw, List.nil_append, List.map_singleton,
    scheduled_connected]

/-- A peer's HANDSHAKE and KEY_INIT at bravo's node: the second one connects. -/
theorem exists_connection_to (peer : DeviceIdentity) (hpeer : HonestIdentity stub peer) :
    ∃ (n : Node) (announce keyInit : Event), Started bravo n ∧
    n.transport.connectedCbs = [0] ∧
    scheduled 0 (n.step stub stillEnv announce).2 = [] ∧
    scheduled 0 ((nodeStep stub n (stillEnv, announce)).step stub stillEnv keyInit).2 = [peer.deviceId] ∧
    ((nodeStep stub (nodeStep stub n (stillEnv, announce))
      (stillEnv, keyInit)).transport.sessions.get? peer.deviceId).isSome = true ∧
    (nodeStep stub (nodeStep stub n (stillEnv, announce))
      (stillEnv, keyInit)).transport.msgIdCounter = 1 := by
  obtain ⟨t₀, ht₀⟩ := init_ok bravo (by decide)
  obtain ⟨wire, _, hlen, hwire⟩ := announced_wire stub peer hpeer
  let t := startWith t₀ [] [0] [] [] .empty
  have hfresh : Fresh bravo t := fresh_startWith bravo t₀ ht₀ [] [0] [] [] .empty
  let n : Node := ⟨t, []⟩
  have hn : Started bravo n := ⟨hfresh, rfl⟩
  have hwireLen : wire.length < 65536 := by
    rw [hlen]
    decide
  let announce : Event := .datagram (frame .handshake sid wire zeroMac) alphaAddr
  let keyInit : Event := .datagram (frame .keyInit sid (repeated 0).toList zeroMac) alphaAddr
  obtain ⟨hestablished, htraffic⟩ := node_announce_then_keyInit stub stillEnv stillEnv n alphaAddr
    sid wire _ (repeated 0) firstKey (started_wellFormed bravo n hn) hwire
    (stub_kemDecapsulate (repeated 0) _ _ _)
  refine ⟨n, announce, keyInit, hn, rfl, ?_, ?_, ?_, htraffic.msgIdCounter.trans hfresh.msgIdCounter⟩
  · exact scheduled_announce t sid wire _ hwireLen hwire
  · have hct : (repeated 0).toList.length < 65536 := by
      rw [List.Vector.toList_length]
      decide
    have hvalid := (started_wellFormed bravo n hn).pending
    have hsame := sameTraffic_notePeerBundle t alphaAddr (getPublicBundle stub peer)
    have hkey : stub.kemDecapsulate ⟨(repeated 0).toList, (repeated 0).toList_length⟩
        (getPublicBundle stub peer).encryptPub bravo.encryptKeypair.privateKey
        bravo.kemKeypair.secretKey = .ok firstKey := stub_kemDecapsulate (repeated 0) _ _ _
    have hinstall : keyInitInstalls stub (t.notePeerBundle alphaAddr (getPublicBundle stub peer))
        (repeated 0).toList alphaAddr = some (firstKey, getPublicBundle stub peer) := by
      simp only [keyInitInstalls, peerBundle_notePeerBundle t alphaAddr _ hvalid,
        List.Vector.toList_length, dite_true, hsame.identity, hfresh.identity, hkey]
    have hcbs : (t.notePeerBundle alphaAddr (getPublicBundle stub peer)).connectedCbs = [0] := by
      unfold MeshTransport.notePeerBundle
      split <;> rfl
    have hnoted : (nodeStep stub n (stillEnv, announce)).transport =
        t.notePeerBundle alphaAddr (getPublicBundle stub peer) :=
      dispatch_handshake stub stillEnv t _ sid.toList wire alphaAddr _
        (parsePacket_unkeyed .handshake sid wire hwireLen) hwire
    rw [effects_datagram, hnoted]
    exact scheduled_keyInit _ sid _ firstKey (getPublicBundle stub peer) hct hinstall hcbs
  · obtain ⟨session, hsession, _⟩ := Option.map_eq_some_iff.mp hestablished.session
    exact Option.isSome_iff_exists.mpr ⟨session, hsession⟩

theorem exists_connection : ∃ (n : Node) (announce keyInit : Event), Started bravo n ∧
    n.transport.connectedCbs = [0] ∧
    scheduled 0 (n.step stub stillEnv announce).2 = [] ∧
    scheduled 0 ((nodeStep stub n (stillEnv, announce)).step stub stillEnv keyInit).2 = ["alpha"] ∧
    ((nodeStep stub (nodeStep stub n (stillEnv, announce))
      (stillEnv, keyInit)).transport.sessions.get? "alpha").isSome = true ∧
    (nodeStep stub (nodeStep stub n (stillEnv, announce))
      (stillEnv, keyInit)).transport.msgIdCounter = 1 := exists_connection_to alpha honest_alpha

/-- Queued for alpha, and overtaken by the next message before the flush that his connection has
scheduled. -/
theorem sent_before_queued : ∃ (s : System) (labels : List Label), Initial s ∧
    Started bravo s.node ∧ s.node.transport.connectedCbs = [0] ∧ s.tasks = [] ∧ s.calls = 0 ∧
    handedTo (Runs.run (step stub 0) s labels) "alpha" = [1, 0] ∧
    ¬ (handedTo (Runs.run (step stub 0) s labels) "alpha").Pairwise (· ≤ ·) := by
  obtain ⟨n, announce, keyInit, hn, hcbs, hquiet, hconnected, hsession, _⟩ := exists_connection
  let q₀ : ForwardQueue := ⟨sharedKey, true, .empty⟩
  let s₀ : System := ⟨n, q₀, [], true, 0, fun _ => 0, [], 0⟩
  let labels : List Label := [.sendOrQueue stillEnv "alpha" [48], .transport stillEnv announce,
    .transport stillEnv keyInit, .sendOrQueue stillEnv "alpha" [49],
    .flushTask 0 0 fun _ => stillEnv]
  have hname : normalizePeerId "alpha" = "alpha" := by decide
  have hoffline : n.transport.sessions.get? "alpha" = none := by
    rw [hn.1.sessions]
    rfl
  let q₁ : ForwardQueue := ⟨sharedKey, true, q₀.table.insert "alpha"
    (encryptPayload stub (stillEnv.nonce 0) sharedKey [48]) 0 (0 + ttlSeconds)⟩
  have hempty : q₀.queueSize 0 "alpha" = .ok 0 := by decide +kernel
  have hqueued : step stub 0 s₀ (.sendOrQueue stillEnv "alpha" [48]) =
      ⟨n, q₁, [], true, 1, Function.update (fun _ => 0) 1 0, [], 0⟩ :=
    step_queued s₀ stillEnv "alpha" [48] 0 hname rfl hoffline hempty (by decide)
  let n₁ := nodeStep stub n (stillEnv, announce)
  let n₂ := nodeStep stub n₁ (stillEnv, keyInit)
  have hannounced : step stub 0 ⟨n, q₁, [], true, 1, Function.update (fun _ => 0) 1 0, [], 0⟩
      (.transport stillEnv announce) =
        ⟨n₁, q₁, [], true, 1, Function.update (fun _ => 0) 1 0, [], 0⟩ :=
    step_transport _ announce [] hquiet
  have hopened : step stub 0 ⟨n₁, q₁, [], true, 1, Function.update (fun _ => 0) 1 0, [], 0⟩
      (.transport stillEnv keyInit) =
        ⟨n₂, q₁, ["alpha"], true, 1, Function.update (fun _ => 0) 1 0, [], 0⟩ :=
    step_transport _ keyInit ["alpha"] hconnected
  let n₃ : Node := { n₂ with transport := (send stub stillEnv n₂.transport "alpha" [49]).state }
  have hdirect : step stub 0 ⟨n₂, q₁, ["alpha"], true, 1, Function.update (fun _ => 0) 1 0, [], 0⟩
      (.sendOrQueue stillEnv "alpha" [49]) =
        ⟨n₃, q₁, ["alpha"], true, 2, Function.update (fun _ => 0) 1 0, [("alpha", 1)], 0⟩ := by
    simp only [step, sendOrQueue, hname, n₂, n₁, hsession]
    cases (send stub stillEnv (nodeStep stub (nodeStep stub n (stillEnv, announce))
      (stillEnv, keyInit)).transport "alpha" [49]).raised <;> rfl
  have hpending : pendingIds stub q₁ 0 "alpha" = [1] := by decide +kernel
  have hhanded : handedTo (Runs.run (step stub 0) s₀ labels) "alpha" = [1, 0] := by
    simp only [labels, Runs.run_cons, Runs.run_nil, hqueued, hannounced, hopened, hdirect]
    simp only [step, handedTo, flush, List.getElem?_cons_zero, hpending, hname]
    rfl
  refine ⟨s₀, labels, ⟨rfl, rfl⟩, hn, hcbs, rfl, rfl, hhanded, ?_⟩
  rw [hhanded]
  decide

/-- Two messages queued for alpha, and the flush that his connection has scheduled. -/
theorem handed_in_order_alpha : ∃ (s : System) (labels : List Label),
    (handedTo (Runs.run (step stub 0) s labels) "alpha").length = 2 ∧
    ∀ peerId, (handedTo (Runs.run (step stub 0) s labels) peerId).Pairwise (· ≤ ·) := by
  obtain ⟨n, announce, keyInit, hn, hcbs, hquiet, hconnected, hsession, hcounter⟩ :=
    exists_connection
  let q₀ : ForwardQueue := ⟨sharedKey, true, .empty⟩
  let s₀ : System := ⟨n, q₀, [], true, 0, fun _ => 0, [], 0⟩
  let labels : List Label := [.sendOrQueue stillEnv "alpha" [48], .sendOrQueue stillEnv "alpha" [49],
    .transport stillEnv announce, .transport stillEnv keyInit, .flushTask 0 0 fun _ => stillEnv]
  have hname : normalizePeerId "alpha" = "alpha" := by decide
  have hoffline : n.transport.sessions.get? "alpha" = none := by
    rw [hn.1.sessions]
    rfl
  let blob : UInt8 → Bytes := fun b => encryptPayload stub (stillEnv.nonce 0) sharedKey [b]
  let q₁ : ForwardQueue := ⟨sharedKey, true, q₀.table.insert "alpha" (blob 48) 0 (0 + ttlSeconds)⟩
  let q₂ : ForwardQueue := ⟨sharedKey, true, q₁.table.insert "alpha" (blob 49) 0 (0 + ttlSeconds)⟩
  let callOf := Function.update (Function.update (fun _ => 0) 1 0) 2 1
  have hempty : q₀.queueSize 0 "alpha" = .ok 0 := by decide +kernel
  have hone : q₁.queueSize 0 "alpha" = .ok 1 := by decide +kernel
  have hfirst : step stub 0 s₀ (.sendOrQueue stillEnv "alpha" [48]) =
      ⟨n, q₁, [], true, 1, Function.update (fun _ => 0) 1 0, [], 0⟩ :=
    step_queued s₀ stillEnv "alpha" [48] 0 hname rfl hoffline hempty (by decide)
  have hsecond : step stub 0 ⟨n, q₁, [], true, 1, Function.update (fun _ => 0) 1 0, [], 0⟩
      (.sendOrQueue stillEnv "alpha" [49]) = ⟨n, q₂, [], true, 2, callOf, [], 0⟩ :=
    step_queued _ stillEnv "alpha" [49] 1 hname rfl hoffline hone (by decide)
  let n₁ := nodeStep stub n (stillEnv, announce)
  let n₂ := nodeStep stub n₁ (stillEnv, keyInit)
  have hannounced : step stub 0 ⟨n, q₂, [], true, 2, callOf, [], 0⟩ (.transport stillEnv announce) =
      ⟨n₁, q₂, [], true, 2, callOf, [], 0⟩ := step_transport _ announce [] hquiet
  have hopened : step stub 0 ⟨n₁, q₂, [], true, 2, callOf, [], 0⟩ (.transport stillEnv keyInit) =
      ⟨n₂, q₂, ["alpha"], true, 2, callOf, [], 0⟩ := step_transport _ keyInit ["alpha"] hconnected
  have hpending : q₂.getPending stub 0 "alpha" = .ok [⟨1, "alpha", [48], 0, 86400, 0⟩,
    ⟨2, "alpha", [49], 0, 86400, 0⟩] := by decide +kernel
  have hhanded : handedTo (Runs.run (step stub 0) s₀ labels) "alpha" = [0, 1] := by
    simp only [labels, Runs.run_cons, Runs.run_nil, hfirst, hsecond, hannounced, hopened]
    simp only [step, handedTo, flush, pendingIds, List.getElem?_cons_zero, hpending, hname]
    rfl
  have hdrains : Drains stub n₂.transport q₂ "alpha" 0 := by
    intro pending h k msg hmsg hlast
    cases hpending.symm.trans h
    have hk : k = 0 := by
      simp only [List.length_cons, List.length_nil] at hlast
      omega
    subst hk
    cases hmsg
    refine ⟨by rw [hname]; exact hsession, by rw [hcounter]; decide, ?_⟩
    have hlen : ((stub.signMessage [48] n₂.transport.identity.signingKeypair.signingKey).toList ++
        [48]).length = 65 := by rw [List.length_append, List.Vector.toList_length]; rfl
    rw [splitFragments_single _ (by rw [hlen]; decide) (by rw [hlen]; decide), List.length_singleton]
    decide
  refine ⟨s₀, labels, by rw [hhanded]; rfl, ?_⟩
  refine handed_in_order stub 0 s₀ ⟨rfl, rfl⟩ labels ?_
  refine ⟨⟨le_rfl, fun h => ?_⟩, ?_⟩
  · rw [hname] at h
    exact absurd (h.symm.trans (congrArg Option.isSome hoffline)) (by decide)
  rw [hfirst]
  refine ⟨⟨le_rfl, fun h => ?_⟩, ?_⟩
  · rw [hname] at h
    exact absurd (h.symm.trans (congrArg Option.isSome hoffline)) (by decide)
  rw [hsecond]
  refine ⟨trivial, ?_⟩
  rw [hannounced]
  refine ⟨trivial, ?_⟩
  rw [hopened]
  refine ⟨fun peerId htask => ?_, trivial⟩
  cases htask
  exact ⟨le_rfl, hdrains⟩

end Stub

end Mesim.SendOrder
