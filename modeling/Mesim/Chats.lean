import Mesim.Backlogs
import Mesim.PeerHistory

/-!
The histories of nodes in conversation.
Each node's program stands over its transport: POST /send and the send command hand a message
to the transport, or queue it while there is no session, and file it; a flush hands what was
queued to the transport; and what the transport delivers waits for its callback, which files it
on the other side. What one history shows as received from a peer is what the peer's history
shows as sent, up to what still waits in the queue and what is on its way.
-/
namespace Mesim.Chats

open Octets TextCodec Crypto Identity Packet Transport Operations Dispatch Nodes Fragments
open Reassembly InFlightTable Answers Conversations MessageStore MessageLog ForwardQueue
open StoreForward PeerHistory Flush Backlogs

section Model

/-- What a program has besides its transport. -/
structure Desk where
  queue : ForwardQueue
  store : MessageStore
  tasks : List (String × Bytes)
  log : List Exchange

structure Chat (N : Type*) where
  conversation : Conversation N
  desk : N → Desk

/-- A request to the sender's program is about the receiver, if it goes out at all. -/
inductive Action (N : Type*) where
  | request (sender receiver : N) (l : PeerHistory.Label)
  | deliver (delivery : Delivery N)
  | callback (node : N) (i : ℕ) (now : ℚ) (nonce : Nonce)
  | flush (sender receiver : N) (now : ℚ) (envs : ℕ → Env)
  | sweep (node : N) (env : Env)

def view (t : MeshTransport) (d : Desk) : PeerHistory.System :=
  ⟨⟨t, []⟩, d.queue, d.store, d.tasks, d.log⟩

def Desk.of (p : PeerHistory.System) : Desk := ⟨p.queue, p.store, p.tasks, p.log⟩

/-- What a request hands to send_or_queue(), and when. -/
structure Entry where
  env : Env
  now : ℚ
  nonce : Nonce
  naming : Naming
  payload : Bytes

def entry (p : PeerHistory.System) : PeerHistory.Label → Option Entry
  | .post env now nonce peerId message =>
    if (encodeUtf8 message).length > maxMessageBytes then none
    else some ⟨env, now, nonce, .post peerId, encodeUtf8 message⟩
  | .command env now nonce line =>
    match Repl.command line with
    | some (.send peerId message) =>
      (resolve p.node.transport.sessions.keys peerId).map fun _ =>
        ⟨env, now, nonce, .command p.node.transport.sessions.keys peerId, encodeUtf8 message⟩
    | _ => none
  | .transport _ _ | .received _ _ _ => none

/-- POST /send, or a line of the command line. -/
def IsRequest : PeerHistory.Label → Prop
  | .post _ _ _ _ _ | .command _ _ _ _ => True
  | .transport _ _ | .received _ _ _ => False

variable (C : Suite) (cb : Callback) {N : Type*} [DecidableEq N] (addr : N → Addr)
variable (name : N → String)

def program (s : Chat N) (i : N) : PeerHistory.System :=
  view (s.conversation.network.node i) (s.desk i)

/-- The desks after a step of one program. -/
def turn (s : Chat N) (i : N) (l : PeerHistory.Label) : N → Desk :=
  Function.update s.desk i (Desk.of (PeerHistory.step C cb (program s i) l))

/-- What the transports do for a request. -/
def pass (s : Chat N) (i j : N) : Option Entry → Conversation N
  | none => s.conversation
  | some e =>
    if ((s.conversation.network.node i).sessions.get? (peerOf e.naming)).isSome then
      Conversations.step C addr name s.conversation (.send i j e.env e.payload)
    else s.conversation

/-- What the transports do for a flush. -/
def handOver (s : Chat N) (i j : N) (now : ℚ) (envs : ℕ → Env) : List (Conversations.Step N) :=
  match (s.desk i).queue.getPending C now (normalizePeerId (name j)) with
  | .ok pending => handovers i j envs pending 0
  | .error _ => []

/-- The program after flush_peer(). -/
def flushed (s : Chat N) (i j : N) (now : ℚ) (envs : ℕ → Env) : PeerHistory.System :=
  let r := flushPeer C now envs (s.conversation.network.node i) (s.desk i).queue (name j)
  { view r.transport (s.desk i) with queue := r.queue }

def step (s : Chat N) : Action N → Chat N
  | .request i j l => ⟨pass C addr name s i j (entry (program s i) l), turn C cb s i l⟩
  | .deliver d =>
    ⟨Conversations.step C addr name s.conversation (.deliver d),
      if Arrives addr (s.conversation.network, d) then
        turn C cb s d.receiver (.transport d.env (.datagram d.datagram.data d.datagram.source))
      else s.desk⟩
  | .callback i k now nonce => { s with desk := turn C cb s i (.received k now nonce) }
  | .flush i j now envs =>
    ⟨Runs.run (Conversations.step C addr name) s.conversation (handOver C name s i j now envs),
      Function.update s.desk i (Desk.of (flushed C name s i j now envs))⟩
  | .sweep i env =>
    ⟨Conversations.step C addr name s.conversation (.sweep i env),
      turn C cb s i (.transport env .retry)⟩

/-- A message that goes out is filed under its receiver's name; each message of a request or a flush
finds fewer messages to its receiver in flight than it can reassemble; and no sweep finds one
overdue. -/
def Unhurried (s : Chat N) : Action N → Prop
  | .request i j l => IsRequest l ∧ ∀ e, entry (program s i) l = some e →
      ((s.conversation.network.node i).sessions.get? (peerOf e.naming)).isSome →
        filedUnder e.naming = name j ∧ underway s.conversation j < maxReassemblyBufs
  | .deliver _ | .callback _ _ _ _ => True
  | .flush i j now envs => Runs.Always (Conversations.step C addr name) Conversations.Unhurried
      s.conversation (handOver C name s i j now envs)
  | .sweep i env => due env (s.conversation.network.node i) = []

/-- A request that names its peer by its id in normal form while there is no session for it. -/
def Offline (p : PeerHistory.System) (l : PeerHistory.Label) : Prop :=
  IsRequest l ∧ ∀ e, entry p l = some e → filedUnder e.naming = peerOf e.naming ∧
    (p.node.transport.sessions.get? (peerOf e.naming)).isSome = false

/-- Programs over these transports that opened new stores and queues and were used offline. -/
structure Begins (R : StoreRuntime) (node : N → MeshTransport) (s : Chat N) : Prop where
  conversation : s.conversation = Conversations.start node
  desks : ∀ i, ∃ passphrase p labels, Derives R (IdentityFile.normalizePassphrase passphrase) ∧
    Initial R passphrase p ∧ p.queue.isOpen = true ∧ p.queue.table.rows = [] ∧
    Runs.Always (PeerHistory.step C cb) Offline p labels ∧
    s.desk i = Desk.of (Runs.run (PeerHistory.step C cb) p labels)

/-- The whole history of a peer. -/
def history (s : Chat N) (i : N) (peerId : String) : Except PyError (List StoredMessage) :=
  (s.desk i).store.getHistory C peerId (-1) none

/-- What went one way, out of a history. -/
def went (direction : String) (messages : List StoredMessage) : List Bytes :=
  (messages.filter fun m => m.direction = direction).map StoredMessage.plaintext

end Model

section Programs

variable {C : Suite} {cb : Callback} {N : Type*} [DecidableEq N] {addr : N → Addr}
variable {name : N → String} {s : Chat N} {i j : N}

theorem step_request (C : Suite) (cb : Callback) (p : PeerHistory.System)
    (l : PeerHistory.Label) (hl : IsRequest l) :
    PeerHistory.step C cb p l = (entry p l).elim p fun e =>
      sendAndSave C e.env p e.now e.nonce e.naming e.payload := by
  cases l with
  | transport | received => exact absurd hl not_false
  | post env now nonce peerId message =>
    rw [PeerHistory.step, sendMessage, entry]
    split <;> rfl
  | command env now nonce line =>
    rw [PeerHistory.step, handleCommand, entry]
    cases hcommand : Repl.command line with
    | none => rfl
    | some command =>
      cases command with
      | send peerId message =>
        simp only [cmdSend]
        cases hresolve : resolve p.node.transport.sessions.keys peerId with
        | none => rfl
        | some found => rfl
      | _ => rfl

theorem view_of (p : PeerHistory.System) (hcalls : p.node.calls = []) :
    view p.node.transport (Desk.of p) = p := by
  obtain ⟨⟨t, calls⟩, queue, store, tasks, log⟩ := p
  cases hcalls
  rfl

/-- The program steps as it does alone when its transport does. -/
theorem program_own (p : PeerHistory.System) (conversation : Conversation N)
    (htransport : conversation.network.node i = p.node.transport) (hcalls : p.node.calls = []) :
    program ⟨conversation, Function.update s.desk i (Desk.of p)⟩ i = p := by
  rw [program]
  simp only [Function.update_self, htransport]
  exact view_of _ hcalls

theorem program_other {k : N} (h : k ≠ i) (d : Desk) (conversation : Conversation N)
    (hnode : conversation.network.node k = s.conversation.network.node k) :
    program ⟨conversation, Function.update s.desk i d⟩ k = program s k := by
  simp only [program, Function.update_of_ne h, hnode]

theorem node_act (c : Conversation N) (wire : List Datagram) (out : Outcome) {k : N} (h : k ≠ i) :
    (act addr c wire i out).network.node k = c.network.node k :=
  Function.update_of_ne h _ _

/-- What a request does to a program and its transport. -/
theorem sendAndSave_out (e : Entry) (p : PeerHistory.System)
    (hsession : (p.node.transport.sessions.get? (peerOf e.naming)).isSome = true) :
    let out := send C e.env p.node.transport (peerOf e.naming) e.payload
    let p' := { p with node := { p.node with transport := out.state } }
    sendAndSave C e.env p e.now e.nonce e.naming e.payload =
      if out.raised = none then save C p' e.now e.nonce e.naming "sent" e.payload else p' := by
  have hsend : sendOrQueue C e.env p.node.transport p.queue (filedUnder e.naming) e.payload =
      let out := send C e.env p.node.transport (peerOf e.naming) e.payload
      ⟨out.state, p.queue, out.effects, out.raised.elim (.ok true) .error⟩ := by
    simp only [sendOrQueue]
    refine (if_pos hsession).trans ?_
    show _ = Result.mk _ _ _
      ((send C e.env p.node.transport (peerOf e.naming) e.payload).raised.elim _ _)
    rw [show normalizePeerId (filedUnder e.naming) = peerOf e.naming from rfl]
    cases (send C e.env p.node.transport (peerOf e.naming) e.payload).raised <;> rfl
  dsimp only
  rw [sendAndSave, hsend]
  cases hraised : (send C e.env p.node.transport (peerOf e.naming) e.payload).raised with
  | none => simp only [hraised, Option.elim_none, if_true]
  | some err => simp only [hraised, Option.elim_some, reduceCtorEq, if_false]

/-- Without a session the message is queued and filed, or neither, and the transport does nothing. -/
theorem sendAndSave_queued (e : Entry) (p : PeerHistory.System)
    (hsession : (p.node.transport.sessions.get? (peerOf e.naming)).isSome = false) :
    sendAndSave C e.env p e.now e.nonce e.naming e.payload = p ∨
      ∃ queue id, p.queue.enqueue C e.env.time (e.env.nonce 0) (peerOf e.naming) e.payload =
          .ok (queue, id) ∧
        sendAndSave C e.env p e.now e.nonce e.naming e.payload =
          save C { p with queue := queue } e.now e.nonce e.naming "sent" e.payload := by
  have hnone : ¬ (p.node.transport.sessions.get?
      (normalizePeerId (filedUnder e.naming))).isSome = true := by
    rw [show normalizePeerId (filedUnder e.naming) = peerOf e.naming from rfl, hsession]
    exact Bool.false_ne_true
  rw [sendAndSave, sendOrQueue]
  simp only [if_neg hnone]
  rw [show normalizePeerId (filedUnder e.naming) = peerOf e.naming from rfl]
  cases henqueue : p.queue.enqueue C e.env.time (e.env.nonce 0) (peerOf e.naming) e.payload with
  | error err => exact Or.inl rfl
  | ok r => exact Or.inr ⟨r.1, r.2, rfl, rfl⟩

end Programs

section Accounts

variable {N : Type*}

/-- What was filed one way under a name. -/
def texts (direction peerId : String) (log : List Exchange) : List Bytes :=
  (log.filter fun x => x.direction = direction ∧ filedUnder x.naming = peerId).map
    Exchange.plaintext

/-- What waits for its callback. -/
def waiting (peerId : String) (tasks : List (String × Bytes)) : List Bytes :=
  (tasks.filter fun task => task.1 = peerId).map Prod.snd

/-- The message that an effect hands to a callback in the name of a peer. -/
def delivered (cb : Callback) (peerId : String) : Effect → Option Bytes
  | .message cb' p message => if cb' = cb ∧ p = peerId then some message else none
  | _ => none

def handed [DecidableEq N] (cb : Callback) (j : N) (peerId : String) (calls : List (N × Effect)) :
    List Bytes :=
  calls.filterMap fun c => if c.1 = j then delivered cb peerId c.2 else none

theorem texts_append (direction peerId : String) (log : List Exchange) (x : Exchange) :
    texts direction peerId (log ++ [x]) = texts direction peerId log ++
      if x.direction = direction ∧ filedUnder x.naming = peerId then [x.plaintext] else [] := by
  rw [texts, List.filter_append, List.map_append, ← texts, List.filter_singleton]
  by_cases h : x.direction = direction ∧ filedUnder x.naming = peerId
  · rw [if_pos h, decide_eq_true h]
    rfl
  · rw [if_neg h, decide_eq_false h]
    rfl

/-- A row filed the other way or under another name. -/
theorem texts_append_of_not {direction peerId : String} (log : List Exchange) {x : Exchange}
    (h : ¬ (x.direction = direction ∧ filedUnder x.naming = peerId)) :
    texts direction peerId (log ++ [x]) = texts direction peerId log := by
  rw [texts_append, if_neg h, List.append_nil]

variable [DecidableEq N]

theorem waiting_append (peerId : String) (tasks more : List (String × Bytes)) :
    waiting peerId (tasks ++ more) = waiting peerId tasks ++ waiting peerId more := by
  simp only [waiting, List.filter_append, List.map_append]

theorem waiting_cons (peerId : String) (task : String × Bytes) (tasks : List (String × Bytes)) :
    waiting peerId (task :: tasks) =
      (if task.1 = peerId then [task.2] else []) ++ waiting peerId tasks := by
  rw [show task :: tasks = [task] ++ tasks from rfl, waiting_append, waiting,
    List.filter_singleton]
  by_cases h : task.1 = peerId
  · rw [if_pos h, decide_eq_true h]
    rfl
  · rw [if_neg h, decide_eq_false h]
    rfl

theorem waiting_perm (peerId : String) {tasks tasks' : List (String × Bytes)}
    (h : tasks.Perm tasks') : (waiting peerId tasks).Perm (waiting peerId tasks') :=
  (h.filter _).map _

/-- The tasks that effects schedule, in the name of a peer. -/
theorem waiting_scheduled (cb : Callback) (peerId : String) (effects : List Effect) :
    waiting peerId (scheduled cb effects) = effects.filterMap (delivered cb peerId) := by
  induction effects with
  | nil => rfl
  | cons e rest ih =>
    have hcons : scheduled cb (e :: rest) = scheduled cb [e] ++ scheduled cb rest :=
      List.filterMap_append (l := [e])
    rw [hcons, waiting_append, ih, List.filterMap_cons]
    cases e with
    | message cb' p message =>
      by_cases hcb : cb' = cb
      · by_cases hp : p = peerId
        · simp [scheduled, waiting, delivered, hcb, hp]
        · simp [scheduled, waiting, delivered, hcb, hp]
      · simp [scheduled, waiting, delivered, hcb]
    | sendto | connected | sendFailed | ackReceived | rawPacket => rfl

/-- And these are the calls of the callback. -/
theorem handed_called (cb : Callback) (j : N) (peerId : String) (effects : List Effect) :
    handed cb j peerId (called j effects) = effects.filterMap (delivered cb peerId) := by
  induction effects with
  | nil => rfl
  | cons e rest ih =>
    rw [List.filterMap_cons, ← ih]
    cases e with
    | sendto packet dest => rfl
    | message | connected | sendFailed | ackReceived | rawPacket =>
      simp only [called, List.filter_cons_of_pos, List.map_cons, handed, List.filterMap_cons,
        if_true]

theorem handed_called_other (cb : Callback) {i j : N} (h : i ≠ j) (peerId : String)
    (effects : List Effect) : handed cb j peerId (called i effects) = [] := by
  refine List.filterMap_eq_nil_iff.mpr fun c hc => ?_
  obtain ⟨e, _, rfl⟩ := List.mem_map.mp hc
  exact if_neg h

theorem handed_append (cb : Callback) (j : N) (peerId : String) (calls more : List (N × Effect)) :
    handed cb j peerId (calls ++ more) = handed cb j peerId calls ++ handed cb j peerId more :=
  List.filterMap_append

end Accounts

section Mirrors

variable {C : Suite} {R : StoreRuntime} {cb : Callback} {N : Type*} [DecidableEq N]
variable {addr : N → Addr} {name : N → String} {node : N → MeshTransport} {s : Chat N}

/-- The rows account for what the conversation has taken, with what is still queued, and for the
calls of its callbacks. -/
structure Mirrors (C : Suite) (R : StoreRuntime) (cb : Callback) (addr : N → Addr)
    (name : N → String) (node : N → MeshTransport) (s : Chat N) : Prop where
  tracked : ∃ letters, Tracks C addr name node s.conversation letters
  records : ∀ i, ∃ key, Records C R key (program s i)
  queue : ∀ i, (s.desk i).queue.isOpen = true ∧ Decrypts C (s.desk i).queue
  sent : ∀ i j, ((node i).sessions.get? (name j)).isSome = true →
    (messages i j s.conversation.taken ++ backlog C (s.desk i).queue (name j)).Perm
      (texts "sent" (name j) (s.desk i).log)
  received : ∀ i j, (texts "recv" (name i) (s.desk j).log ++
    waiting (name i) (s.desk j).tasks).Perm (handed cb j (name i) s.conversation.calls)

theorem log_save (haead : C.AeadCorrect) {p : PeerHistory.System} {key : Fixed 32}
    (h : Records C R key p) (now : ℚ) (nonce : Nonce) (naming : Naming) (direction : String)
    (hvalid : validDirection direction) (plaintext : Bytes) :
    ∃ id, (save C p now nonce naming direction plaintext).log =
      p.log ++ [⟨naming, id, direction, plaintext, now⟩] := by
  obtain ⟨table, hsaved, _⟩ := saveMessage_open haead h.filed h.isOpen now nonce
    (filedUnder naming) direction plaintext none hvalid
  refine ⟨p.store.db.messages.nextId, ?_⟩
  simp only [save, hsaved]

theorem session_isSome {letters : List (Letter N × Phase)}
    (h : Tracks C addr name node s.conversation letters) (i : N) (peerId : String) :
    ((s.conversation.network.node i).sessions.get? peerId).isSome =
      ((node i).sessions.get? peerId).isSome := by
  have hbound := congrArg Option.isSome ((h.same i).bound peerId)
  simpa only [bound, Option.isSome_map] using hbound

/-- One program steps, and the conversation with it. -/
theorem Mirrors.turn (h : Mirrors C R cb addr name node s) (i : N) (p : PeerHistory.System)
    (conversation : Conversation N)
    (htracked : ∃ letters, Tracks C addr name node conversation letters)
    (hown : program ⟨conversation, Function.update s.desk i (Desk.of p)⟩ i = p)
    (hother : ∀ k, k ≠ i → conversation.network.node k = s.conversation.network.node k)
    (hrecords : ∃ key, Records C R key p)
    (hqueue : p.queue.isOpen = true ∧ Decrypts C p.queue)
    (hsent : ∀ j, ((node i).sessions.get? (name j)).isSome = true →
      (messages i j conversation.taken ++ backlog C p.queue (name j)).Perm
        (texts "sent" (name j) p.log))
    (htaken : ∀ k j, k ≠ i → messages k j conversation.taken = messages k j s.conversation.taken)
    (hreceived : ∀ k, (texts "recv" (name k) p.log ++ waiting (name k) p.tasks).Perm
      (handed cb i (name k) conversation.calls))
    (hcalls : ∀ k j, j ≠ i →
      handed cb j (name k) conversation.calls = handed cb j (name k) s.conversation.calls) :
    Mirrors C R cb addr name node ⟨conversation, Function.update s.desk i (Desk.of p)⟩ where
  tracked := htracked
  records k := by
    by_cases hk : k = i
    · subst hk
      rw [hown]
      exact hrecords
    · rw [program_other hk _ conversation (hother k hk)]
      exact h.records k
  queue k := by
    by_cases hk : k = i
    · subst hk
      simp only [Function.update_self]
      exact hqueue
    · simp only [Function.update_of_ne hk]
      exact h.queue k
  sent k j hsession := by
    by_cases hk : k = i
    · subst hk
      simp only [Function.update_self]
      exact hsent j hsession
    · simp only [Function.update_of_ne hk, htaken k j hk]
      exact h.sent k j hsession
  received k j := by
    by_cases hj : j = i
    · subst hj
      simp only [Function.update_self]
      exact hreceived k
    · simp only [Function.update_of_ne hj, hcalls k j hj]
      exact h.received k j

/-- A step of a program that changes nothing. -/
theorem turn_of_same {i : N} {l : PeerHistory.Label}
    (h : PeerHistory.step C cb (program s i) l = program s i) : turn C cb s i l = s.desk := by
  rw [turn, h]
  exact Function.update_eq_self i s.desk

theorem not_recv_of_sent {x : Exchange} (h : x.direction = "sent") (peerId : String) :
    ¬ (x.direction = "recv" ∧ filedUnder x.naming = peerId) := by
  rw [h]
  exact fun hand => absurd hand.1 (by decide)

theorem not_sent_of_recv {x : Exchange} (h : x.direction = "recv") (peerId : String) :
    ¬ (x.direction = "sent" ∧ filedUnder x.naming = peerId) := by
  rw [h]
  exact fun hand => absurd hand.1 (by decide)

/-- A callback files the message that waited for it. -/
theorem Mirrors.callback (haead : C.AeadCorrect) (h : Mirrors C R cb addr name node s) (i : N)
    (k : ℕ) (now : ℚ) (nonce : Nonce) :
    Mirrors C R cb addr name node (step C cb addr name s (.callback i k now nonce)) := by
  show Mirrors C R cb addr name node ⟨s.conversation, Chats.turn C cb s i (.received k now nonce)⟩
  cases htask : (s.desk i).tasks[k]? with
  | none =>
    have hsame : PeerHistory.step C cb (program s i) (.received k now nonce) = program s i := by
      simp only [PeerHistory.step, program, view, htask]
    rw [turn_of_same hsame]
    exact h
  | some task =>
    obtain ⟨peerId, payload⟩ := task
    obtain ⟨key, hrecords⟩ := h.records i
    have hstep : PeerHistory.step C cb (program s i) (.received k now nonce) =
        save C { program s i with tasks := (s.desk i).tasks.eraseIdx k } now nonce
          (.received peerId) "recv" payload := by
      simp only [PeerHistory.step, program, view, htask, onMessageReceived]
    obtain ⟨id, hlog⟩ := log_save haead (hrecords.elsewhere (program s i).node (program s i).queue
      ((s.desk i).tasks.eraseIdx k)) now nonce (.received peerId) "recv" (Or.inr rfl) payload
    refine h.turn i _ _ h.tracked (program_own _ _ ?_ ?_) (fun _ _ => rfl)
      ⟨key, records_step haead _ _ hrecords⟩ ?_ (fun j hsession => ?_) (fun _ _ _ => rfl)
      (fun k' => ?_) fun _ _ _ => rfl
    · rw [hstep]
      rfl
    · rw [hstep]
      rfl
    · rw [hstep]
      exact h.queue i
    · rw [hstep, hlog, texts_append_of_not _ (not_sent_of_recv rfl _)]
      exact h.sent i j hsession
    · obtain ⟨hlt, hget⟩ := List.getElem?_eq_some_iff.mp htask
      have hperm := List.getElem_cons_eraseIdx_perm hlt
      rw [hget] at hperm
      have hwaiting := waiting_perm (name k') hperm
      rw [waiting_cons] at hwaiting
      refine List.Perm.trans ?_ (h.received k' i)
      rw [hstep, hlog, texts_append, List.append_assoc]
      refine List.Perm.append_left _ (List.Perm.trans (List.Perm.of_eq ?_) hwaiting)
      simp only [filedUnder, true_and]
      rfl

/-- What a transport hands on waits for its callback. -/
theorem Mirrors.deliver (haead : C.AeadCorrect) (hacq : Acquainted C addr name node)
    (hname : Function.Injective name) (haddr : Function.Injective addr)
    (h : Mirrors C R cb addr name node s) (d : Delivery N) :
    Mirrors C R cb addr name node (step C cb addr name s (.deliver d)) := by
  obtain ⟨letters, htracks⟩ := h.tracked
  obtain ⟨key, hrecords⟩ := h.records d.receiver
  by_cases harrives : Arrives addr (s.conversation.network, d)
  · have htracked := htracks.step haead hacq hname haddr (.deliver d) trivial
    rw [step, if_pos harrives]
    simp only [Conversations.step, if_pos harrives] at htracked ⊢
    refine h.turn d.receiver _ _ htracked (program_own _ _ ?_ rfl) (fun k hk => node_act _ _ _ hk)
      ⟨key, records_step haead _ _ hrecords⟩ (h.queue d.receiver)
      (fun j hsession => h.sent d.receiver j hsession) (fun _ _ _ => rfl) (fun k => ?_)
      fun k j hj => ?_
    · exact Function.update_self d.receiver _ _
    · rw [act, handed_append, handed_called, ← waiting_scheduled]
      show (_ ++ waiting (name k) ((s.desk d.receiver).tasks ++ _)).Perm _
      rw [waiting_append, ← List.append_assoc]
      exact (h.received k d.receiver).append_right _
    · rw [act, handed_append, handed_called_other cb (Ne.symm hj), List.append_nil]
  · have hidle : step C cb addr name s (.deliver d) = s := by
      simp only [step, if_neg harrives, Conversations.step]
    rw [hidle]
    exact h

/-- A sweep that finds nothing overdue. -/
theorem step_sweep (C : Suite) (cb : Callback) (addr : N → Addr) (name : N → String) (s : Chat N)
    (i : N) (env : Env) (hdue : due env (s.conversation.network.node i) = []) :
    step C cb addr name s (.sweep i env) = s := by
  have hnothing := retrySweep_idle hdue
  have hstep : (program s i).node.step C env .retry = ((program s i).node, []) := by
    have hout : (program s i).node.step C env .retry =
        ({ (program s i).node with transport :=
            (retrySweep env (s.conversation.network.node i)).state },
          (retrySweep env (s.conversation.network.node i)).effects) := rfl
    rw [hout, hnothing]
    rfl
  have hsame : PeerHistory.step C cb (program s i) (.transport env .retry) = program s i := by
    rw [PeerHistory.step, hstep]
    exact congrArg (fun tasks => { program s i with tasks := tasks }) (List.append_nil _)
  rw [step, turn_of_same hsame]
  simp only [Conversations.step, hnothing, act, Outcome.done, called, List.filter_nil, List.map_nil,
    List.append_nil, Answers.sent, List.filterMap_nil, Function.update_eq_self]

/-- A message that goes out is filed when send() takes it. -/
theorem log_sendAndSave (haead : C.AeadCorrect) {p : PeerHistory.System} {key : Fixed 32}
    (h : Records C R key p) (e : Entry)
    (hsession : (p.node.transport.sessions.get? (peerOf e.naming)).isSome = true) :
    let out := send C e.env p.node.transport (peerOf e.naming) e.payload
    let p' := sendAndSave C e.env p e.now e.nonce e.naming e.payload
    p'.node = { p.node with transport := out.state } ∧ p'.tasks = p.tasks ∧ p'.queue = p.queue ∧
      ∃ id, p'.log = p.log ++ if out.raised = none then
        [⟨e.naming, id, "sent", e.payload, e.now⟩] else [] := by
  have hout := sendAndSave_out (C := C) e p hsession
  dsimp only at hout ⊢
  rw [hout]
  split
  · obtain ⟨id, hlog⟩ := log_save haead (h.elsewhere { p.node with transport :=
      (send C e.env p.node.transport (peerOf e.naming) e.payload).state } p.queue p.tasks)
      e.now e.nonce e.naming "sent" (Or.inl rfl) e.payload
    exact ⟨rfl, rfl, rfl, id, hlog⟩
  · exact ⟨rfl, rfl, rfl, 0, (List.append_nil _).symm⟩

/-- What a request does that finds no session: what it notes as sent it has queued. -/
structure Queued (C : Suite) (e : Entry) (p p' : PeerHistory.System) : Prop where
  node : p'.node = p.node
  tasks : p'.tasks = p.tasks
  isOpen : p'.queue.isOpen = p.queue.isOpen
  decrypts : Decrypts C p.queue → Decrypts C p'.queue
  rows : ∃ rows, p'.log = p.log ++ rows ∧
    (∀ x ∈ rows, x.direction = "sent" ∧ x.naming = e.naming) ∧
    ∀ peerId, backlog C p'.queue peerId = backlog C p.queue peerId ++
      if peerOf e.naming = peerId then rows.map Exchange.plaintext else []

theorem queued_sendAndSave (haead : C.AeadCorrect) {p : PeerHistory.System} {key : Fixed 32}
    (h : Records C R key p) (e : Entry)
    (hsession : (p.node.transport.sessions.get? (peerOf e.naming)).isSome = false) :
    Queued C e p (sendAndSave C e.env p e.now e.nonce e.naming e.payload) := by
  rcases sendAndSave_queued (C := C) e p hsession with hsame | ⟨queue, qid, henqueue, hsaved⟩
  · rw [hsame]
    refine ⟨rfl, rfl, rfl, id, [], (List.append_nil _).symm, fun x hx => ?_, fun peerId => ?_⟩
    · exact absurd hx List.not_mem_nil
    · rw [List.map_nil, ite_self, List.append_nil]
  · obtain ⟨id, hlog⟩ := log_save haead (h.elsewhere p.node queue p.tasks) e.now e.nonce e.naming
      "sent" (Or.inl rfl) e.payload
    rw [hsaved]
    refine ⟨rfl, rfl, ?_, fun hq => hq.enqueue C haead henqueue, _, hlog, fun x hx => ?_,
      fun peerId => ?_⟩
    · rw [show (save C { p with queue := queue } e.now e.nonce e.naming "sent" e.payload).queue =
        queue from rfl, (enqueueAt_ok henqueue).2]
    · rw [List.mem_singleton.mp hx]
      exact ⟨rfl, rfl⟩
    · refine (backlog_enqueue haead henqueue peerId).trans ?_
      rw [peerOf, normalizePeerId_idem]
      rfl

theorem texts_append_all {direction peerId : String} (log rows : List Exchange)
    (h : ∀ x ∈ rows, ¬ (x.direction = direction ∧ filedUnder x.naming = peerId)) :
    texts direction peerId (log ++ rows) = texts direction peerId log := by
  have hnone :
      rows.filter (fun x => x.direction = direction ∧ filedUnder x.naming = peerId) = [] := by
    refine List.filter_eq_nil_iff.mpr fun x hx => ?_
    rw [decide_eq_true_iff]
    exact h x hx
  rw [texts, List.filter_append, hnone, List.append_nil, texts]

/-- A request files what its transport takes. -/
theorem Mirrors.request (haead : C.AeadCorrect) (hacq : Acquainted C addr name node)
    (hname : Function.Injective name) (hnormal : ∀ j, normalizePeerId (name j) = name j)
    (h : Mirrors C R cb addr name node s) (i j : N) (l : PeerHistory.Label)
    (hl : Unhurried C addr name s (.request i j l)) :
    Mirrors C R cb addr name node (step C cb addr name s (.request i j l)) := by
  obtain ⟨hrequest, hgoes⟩ := hl
  obtain ⟨letters, htracks⟩ := h.tracked
  obtain ⟨key, hrecords⟩ := h.records i
  have hstep := step_request C cb (program s i) l hrequest
  have hkept : ∃ key, Records C R key (PeerHistory.step C cb (program s i) l) :=
    ⟨key, records_step haead _ _ hrecords⟩
  rw [step]
  cases he : entry (program s i) l with
  | none =>
    rw [he, Option.elim_none] at hstep
    rw [turn_of_same hstep]
    exact h
  | some e =>
    rw [he, Option.elim_some] at hstep
    by_cases hsession :
        ((s.conversation.network.node i).sessions.get? (peerOf e.naming)).isSome = true
    · obtain ⟨hfiled, hroom⟩ := hgoes e he hsession
      have hpeer : peerOf e.naming = name j := by rw [peerOf, hfiled, hnormal]
      obtain ⟨hnode, htasks, hqueue, id, hlog⟩ := log_sendAndSave haead hrecords e hsession
      have htracked := htracks.sends hacq hname i j e.env e.payload hroom
      rw [← hstep] at hnode htasks hqueue hlog
      rw [hpeer] at hnode hlog hsession
      simp only [pass, hpeer, hsession, if_true]
      have hlog' : (PeerHistory.step C cb (program s i) l).log = (s.desk i).log ++
          if (send C e.env (s.conversation.network.node i) (name j) e.payload).raised = none then
            [⟨e.naming, id, "sent", e.payload, e.now⟩] else [] := hlog
      refine h.turn i _ _ htracked (program_own _ _ ?_ ?_) (fun k hk => node_act _ _ _ hk) hkept
        (by rw [hqueue]; exact h.queue i) (fun j' hsession' => ?_) (fun k j' hk => ?_) (fun k => ?_)
        fun k j' hj' => ?_
      · rw [hnode]
        exact Function.update_self i _ _
      · rw [hnode]
        rfl
      · rw [hlog', taken_send, hqueue]
        split
        · rw [texts_append, messages_append, hfiled]
          simp only [true_and, hname.eq_iff, List.append_assoc]
          refine List.Perm.trans (List.perm_append_comm.append_left _) ?_
          rw [← List.append_assoc]
          exact (h.sent i j' hsession').append_right _
        · rw [List.append_nil, List.append_nil]
          exact h.sent i j' hsession'
      · rw [taken_send]
        split
        · rw [messages_append, if_neg fun hand => hk hand.1.symm, List.append_nil]
        · rw [List.append_nil]
      · rw [hlog', htasks, texts_append_all _ _ fun x hx => ?_]
        · rw [calls_send]
          exact h.received k i
        · split at hx
          · rw [List.mem_singleton.mp hx]
            exact not_recv_of_sent rfl _
          · exact absurd hx List.not_mem_nil
      · rw [calls_send]
    · have hnone := Bool.eq_false_iff.mpr hsession
      have hqueued := queued_sendAndSave haead hrecords e hnone
      rw [← hstep] at hqueued
      obtain ⟨rows, hlog, hrows, hbacklog⟩ := hqueued.rows
      simp only [pass, if_neg hsession]
      have hlog' : (PeerHistory.step C cb (program s i) l).log = (s.desk i).log ++ rows := hlog
      refine h.turn i _ _ h.tracked (program_own _ _ ?_ ?_) (fun _ _ => rfl) hkept
        ⟨hqueued.isOpen.trans (h.queue i).1, hqueued.decrypts (h.queue i).2⟩
        (fun j' hsession' => ?_) (fun _ _ _ => rfl) (fun k => ?_) fun _ _ _ => rfl
      · rw [hqueued.node]
        rfl
      · rw [hqueued.node]
        rfl
      · -- what has no session goes under another name
        have hne : peerOf e.naming ≠ name j' := by
          intro heq
          rw [heq, session_isSome htracks, hsession'] at hnone
          contradiction
        rw [hbacklog, if_neg hne, List.append_nil, hlog', texts_append_all _ _ fun x hx => ?_]
        · exact h.sent i j' hsession'
        · rintro ⟨-, hfiled⟩
          rw [(hrows x hx).2] at hfiled
          exact hne (by rw [peerOf, hfiled, hnormal])
      · rw [hlog', hqueued.tasks, texts_append_all _ _ fun x hx => not_recv_of_sent (hrows x hx).1 _]
        exact h.received k i

/-- A flush hands on what was queued, or finds nothing that it can read. -/
theorem flush_passed (C : Suite) (addr : N → Addr)
    (hnormal : ∀ j, normalizePeerId (name j) = name j) (s : Chat N) (i j : N) (now : ℚ)
    (envs : ℕ → Env) :
    let r := flushPeer C now envs (s.conversation.network.node i) (s.desk i).queue (name j)
    let s' := Runs.run (Conversations.step C addr name) s.conversation
      (handOver C name s i j now envs)
    r.transport = s'.network.node i ∧
      Passed C name i j s.conversation s' (s.desk i).queue r.queue := by
  dsimp only
  rw [handOver, flushPeer]
  cases hpending : (s.desk i).queue.getPending C now (normalizePeerId (name j)) with
  | error e => exact ⟨rfl, .refl i j _ _⟩
  | ok pending =>
    dsimp only
    rw [hnormal]
    exact passed_flushEach envs pending 0 s.conversation (s.desk i).queue (getPending_ok hpending).1
      (drawn_getPending hpending (hnormal j)).1

/-- A flush takes off the queue what the transport takes. -/
theorem Mirrors.flush (hacq : Acquainted C addr name node) (hname : Function.Injective name)
    (hnormal : ∀ j, normalizePeerId (name j) = name j) (h : Mirrors C R cb addr name node s)
    (i j : N) (now : ℚ) (envs : ℕ → Env) (hl : Unhurried C addr name s (.flush i j now envs)) :
    Mirrors C R cb addr name node (step C cb addr name s (.flush i j now envs)) := by
  obtain ⟨key, hrecords⟩ := h.records i
  obtain ⟨htransport, hpassed⟩ := flush_passed C addr hnormal s i j now envs
  have htracked : ∃ letters, Tracks C addr name node (Runs.run (Conversations.step C addr name)
      s.conversation (handOver C name s i j now envs)) letters := by
    rw [Unhurried] at hl
    unfold handOver at hl ⊢
    split
    · rename_i pending hpending
      rw [hpending] at hl
      exact tracks_handovers hacq hname envs pending 0 s.conversation h.tracked hl
    · exact h.tracked
  refine h.turn i _ _ htracked (program_own _ _ htransport.symm rfl) hpassed.others
    ⟨key, hrecords.elsewhere _ _ _⟩
    ⟨hpassed.isOpen.trans (h.queue i).1, hpassed.decrypts (h.queue i).2⟩
    (fun j' hsession => ?_) (fun k j' hk => hpassed.kept k j' fun hand => hk hand.1)
    (fun k => ?_) fun k j' _ => ?_
  · by_cases hj : j' = j
    · subst hj
      exact hpassed.moved.trans (h.sent i j' hsession)
    · rw [hpassed.kept i j' fun hand => hj hand.2]
      refine List.Perm.trans (List.Perm.of_eq ?_) (h.sent i j' hsession)
      exact congrArg _ (hpassed.apart (name j') fun heq => hj (hname heq))
  · rw [hpassed.calls]
    exact h.received k i
  · rw [hpassed.calls]

/-- No step breaks the mirror. -/
theorem Mirrors.step (haead : C.AeadCorrect) (hacq : Acquainted C addr name node)
    (hname : Function.Injective name) (haddr : Function.Injective addr)
    (hnormal : ∀ j, normalizePeerId (name j) = name j) (h : Mirrors C R cb addr name node s)
    (a : Action N) (ha : Unhurried C addr name s a) :
    Mirrors C R cb addr name node (Chats.step C cb addr name s a) := by
  cases a with
  | request i j l => exact h.request haead hacq hname hnormal i j l ha
  | deliver d => exact h.deliver haead hacq hname haddr d
  | callback i k now nonce => exact h.callback haead i k now nonce
  | flush i j now envs => exact h.flush hacq hname hnormal i j now envs ha
  | sweep i env =>
    rw [step_sweep C cb addr name s i env ha]
    exact h

/-- A program that was only used offline has queued what it notes as sent. -/
structure Drafted (C : Suite) (R : StoreRuntime) (p : PeerHistory.System) : Prop where
  records : ∃ key, Records C R key p
  queue : p.queue.isOpen = true ∧ Decrypts C p.queue
  tasks : p.tasks = []
  received : ∀ peerId, texts "recv" peerId p.log = []
  sent : ∀ peerId, backlog C p.queue peerId = texts "sent" peerId p.log

theorem drafted_initial {passphrase : IdentityFile.Passphrase} {p : PeerHistory.System}
    (hderives : Derives R (IdentityFile.normalizePassphrase passphrase))
    (hinitial : Initial R passphrase p) (hopen : p.queue.isOpen = true)
    (hrows : p.queue.table.rows = []) : Drafted C R p where
  records := records_initial passphrase hderives hinitial
  queue := ⟨hopen, fun row hrow => absurd (hrows ▸ hrow) List.not_mem_nil⟩
  tasks := hinitial.2.1
  received peerId := by
    rw [hinitial.1]
    rfl
  sent peerId := by
    rw [hinitial.1, backlog, hrows]
    rfl

theorem Drafted.step (haead : C.AeadCorrect) {p : PeerHistory.System} (h : Drafted C R p)
    (l : PeerHistory.Label) (hl : Offline p l) : Drafted C R (PeerHistory.step C cb p l) := by
  obtain ⟨key, hrecords⟩ := h.records
  rw [step_request C cb p l hl.1]
  cases he : entry p l with
  | none => exact h
  | some e =>
    obtain ⟨hfiled, hnone⟩ := hl.2 e he
    have hqueued := queued_sendAndSave haead hrecords e hnone
    obtain ⟨rows, hlog, hrows, hbacklog⟩ := hqueued.rows
    refine ⟨⟨key, records_sendAndSave haead hrecords _ _ _ _ _⟩,
      ⟨hqueued.isOpen.trans h.queue.1, hqueued.decrypts h.queue.2⟩, hqueued.tasks.trans h.tasks,
      fun peerId => ?_, fun peerId => ?_⟩
    · rw [Option.elim_some, hlog,
        texts_append_all _ _ fun x hx => not_recv_of_sent (hrows x hx).1 peerId]
      exact h.received peerId
    · rw [Option.elim_some, hbacklog, h.sent, hlog, texts, texts, List.filter_append,
        List.map_append]
      refine congrArg _ ?_
      by_cases hpeer : peerOf e.naming = peerId
      · rw [if_pos hpeer, List.filter_eq_self.mpr fun x hx => ?_]
        obtain ⟨hdirection, hnaming⟩ := hrows x hx
        rw [decide_eq_true_iff, hdirection, hnaming, hfiled]
        exact ⟨rfl, hpeer⟩
      · rw [if_neg hpeer, List.filter_eq_nil_iff.mpr fun x hx => ?_]
        · rfl
        · obtain ⟨_, hnaming⟩ := hrows x hx
          rw [decide_eq_true_iff, hnaming, hfiled]
          exact fun hand => hpeer hand.2

theorem mirrors_begins (haead : C.AeadCorrect) (hacq : Acquainted C addr name node)
    (h : Begins C cb R node s) : Mirrors C R cb addr name node s := by
  have hdrafted : ∀ i, ∃ p, Drafted C R p ∧ s.desk i = Desk.of p := by
    intro i
    obtain ⟨passphrase, p, labels, hderives, hinitial, hopen, hrows, hlabels, hdesk⟩ := h.desks i
    exact ⟨_, Runs.invariant (fun _ l h hl => h.step haead l hl) p labels
      (drafted_initial hderives hinitial hopen hrows) hlabels, hdesk⟩
  constructor
  · rw [h.conversation]
    exact ⟨[], tracks_start hacq⟩
  · intro i
    obtain ⟨p, hp, hdesk⟩ := hdrafted i
    obtain ⟨key, hrecords⟩ := hp.records
    rw [program, hdesk]
    exact ⟨key, hrecords.filed, hrecords.isOpen⟩
  · intro i
    obtain ⟨p, hp, hdesk⟩ := hdrafted i
    rw [hdesk]
    exact hp.queue
  · intro i j _
    obtain ⟨p, hp, hdesk⟩ := hdrafted i
    rw [hdesk, h.conversation]
    exact List.Perm.of_eq (hp.sent (name j))
  · intro i j
    obtain ⟨p, hp, hdesk⟩ := hdrafted j
    rw [hdesk, h.conversation]
    show (texts "recv" (name i) p.log ++ waiting (name i) p.tasks).Perm []
    rw [hp.received, hp.tasks]
    exact List.Perm.refl _

end Mirrors

section Histories

variable {C : Suite} {R : StoreRuntime} {cb : Callback} {N : Type*} [DecidableEq N]
variable {addr : N → Addr} {name : N → String} {node : N → MeshTransport} {s : Chat N}

theorem went_stored (direction : String) (log : List Exchange) :
    went direction (log.map stored) =
      (log.filter fun x => x.direction = direction).map Exchange.plaintext := by
  rw [went, List.filter_map, List.map_map]
  rfl

/-- A history shows the rows filed under the name. -/
theorem Mirrors.history (h : Mirrors C R cb addr name node s) (i : N) (peerId : String) :
    ∃ rows, Chats.history C s i peerId = .ok rows ∧
      ∀ direction, (went direction rows).Perm (texts direction peerId (s.desk i).log) := by
  obtain ⟨key, hrecords⟩ := h.records i
  have hread : (s.desk i).store.getHistory C peerId (-1) none = _ :=
    getHistory_open hrecords.filed hrecords.isOpen peerId (by decide) (by simp)
  rw [listing_stored hrecords.nodup_ids] at hread
  refine ⟨_, hread, fun direction => ?_⟩
  rw [limited, if_pos (by decide), went_stored, List.filter_filter, texts]
  refine List.Perm.map _ ?_
  refine ((List.perm_insertionSort _ _).filter _).trans (List.Perm.of_eq ?_)
  rw [List.filter_filter]
  refine List.filter_congr fun x _ => ?_
  rw [← Bool.decide_and, ← Bool.decide_and, decide_eq_decide]
  refine ⟨fun hand => hand.1, fun hand => ⟨hand, ?_⟩⟩
  rw [peerOf, hand.2]

theorem filterMap_count (cbs : List Callback) (message : Bytes) :
    cbs.filterMap (fun cb' => if cb' = cb then some message else none) =
      List.replicate (cbs.count cb) message := by
  induction cbs with
  | nil => rfl
  | cons first rest ih =>
    rw [List.filterMap_cons, List.count_cons, ih]
    by_cases hfirst : first = cb
    · rw [if_pos hfirst, if_pos (by rw [hfirst]; exact beq_self_eq_true cb), List.replicate_succ]
    · rw [if_neg hfirst, if_neg (by rw [beq_iff_eq]; exact hfirst), Nat.add_zero]

/-- The outcome of a message hands it to its receiver's callback, once. -/
theorem handed_outcome (hname : Function.Injective name)
    (hcbs : ∀ j, (node j).messageCbs.count cb = 1) (i j : N) (m : Taken N) :
    handed cb j (name i) (outcome name node m) =
      if m.sender = i ∧ m.receiver = j then [m.message] else [] := by
  have hack : handed cb j (name i) (ackCalls node m) = [] := by
    refine List.filterMap_eq_nil_iff.mpr fun c hc => ?_
    obtain ⟨cb', _, rfl⟩ := List.mem_map.mp hc
    exact ite_self _
  rw [outcome, handed_append, hack, List.append_nil, handed, messageCalls, List.filterMap_map]
  by_cases hj : m.receiver = j
  · by_cases hi : m.sender = i
    · have hfun : ((fun c : N × Effect => if c.1 = j then delivered cb (name i) c.2 else none) ∘
          fun cb' => (m.receiver, .message cb' (name m.sender) m.message)) =
            fun cb' => if cb' = cb then some m.message else none := by
        funext cb'
        simp only [Function.comp, hj, hi, if_true, delivered, and_true]
      rw [hfun, filterMap_count, if_pos ⟨hi, hj⟩, hcbs]
      rfl
    · rw [if_neg fun hand => hi hand.1]
      refine List.filterMap_eq_nil_iff.mpr fun cb' _ => ?_
      simp only [Function.comp, hj, if_true, delivered, hname.eq_iff, hi, and_false, if_false]
  · rw [if_neg fun hand => hj hand.2]
    refine List.filterMap_eq_nil_iff.mpr fun cb' _ => ?_
    simp only [Function.comp, hj, if_false]

theorem handed_outcomes (hname : Function.Injective name)
    (hcbs : ∀ j, (node j).messageCbs.count cb = 1) (i j : N) (taken : List (Taken N)) :
    handed cb j (name i) (taken.flatMap (outcome name node)) = messages i j taken := by
  induction taken with
  | nil => rfl
  | cons m rest ih =>
    rw [List.flatMap_cons, handed_append, handed_outcome hname hcbs, ih,
      show m :: rest = [m] ++ rest from rfl, messages, messages, List.filter_append,
      List.map_append]
    congr 1
    exact (messages_append i j [] m).symm

theorem handed_subperm (cb : Callback) (j : N) (peerId : String) {calls calls' : List (N × Effect)}
    (h : calls.Subperm calls') :
    (handed cb j peerId calls).Subperm (handed cb j peerId calls') := by
  obtain ⟨found, hperm, hsub⟩ := h
  exact ⟨handed cb j peerId found, hperm.filterMap _, hsub.filterMap _⟩

variable (hname : Function.Injective name) (hcbs : ∀ j, (node j).messageCbs.count cb = 1)
include hname hcbs

/-- What was received, with what still waits, is some of what was sent. -/
theorem Mirrors.received_subperm (h : Mirrors C R cb addr name node s) (i j : N) :
    (texts "recv" (name i) (s.desk j).log ++ waiting (name i) (s.desk j).tasks).Subperm
      (messages i j s.conversation.taken) := by
  obtain ⟨letters, htracks⟩ := h.tracked
  have hsub := handed_subperm cb j (name i) htracks.calls_subperm
  rw [handed_outcomes hname hcbs] at hsub
  exact (h.received i j).subperm.trans hsub

/-- With nothing on its way it is all that was sent. -/
theorem Mirrors.received_perm (h : Mirrors C R cb addr name node s) (i j : N)
    (hwire : s.conversation.network.wire = []) :
    (texts "recv" (name i) (s.desk j).log ++ waiting (name i) (s.desk j).tasks).Perm
      (messages i j s.conversation.taken) := by
  obtain ⟨letters, htracks⟩ := h.tracked
  rw [← handed_outcomes hname hcbs i j]
  exact (h.received i j).trans ((htracks.quiescent hwire).1.filterMap _)

end Histories

section Results

variable {C : Suite} {R : StoreRuntime} {cb : Callback} {N : Type*} [DecidableEq N]
variable {addr : N → Addr} {name : N → String} {node : N → MeshTransport}

theorem conversation_deliveries (cb : Callback) (s : Chat N) (deliveries : List (Delivery N)) :
    (Runs.run (step C cb addr name) s (deliveries.map .deliver)).conversation =
      Runs.run (Conversations.step C addr name) s.conversation (deliveries.map .deliver) := by
  induction deliveries generalizing s with
  | nil => rfl
  | cons d rest ih => exact ih _

theorem tasks_callback (s : Chat N) (j : N) (now : ℚ) (nonce : Nonce) :
    ((step C cb addr name s (.callback j 0 now nonce)).desk j).tasks = (s.desk j).tasks.tail := by
  simp only [step, turn, Function.update_self, Desk.of, PeerHistory.step, program, view]
  cases (s.desk j).tasks with
  | nil => rfl
  | cons task rest => rfl

/-- The callbacks that wait can all run. -/
theorem exists_callbacks (C : Suite) (cb : Callback) (addr : N → Addr) (name : N → String)
    (s : Chat N) (j : N) : ∃ callbacks : List (Action N),
    (∀ a ∈ callbacks, ∃ i k now nonce, a = .callback i k now nonce) ∧
    (Runs.run (step C cb addr name) s callbacks).conversation = s.conversation ∧
    ((Runs.run (step C cb addr name) s callbacks).desk j).tasks = [] := by
  induction htasks : (s.desk j).tasks generalizing s with
  | nil => exact ⟨[], fun a ha => absurd ha List.not_mem_nil, rfl, htasks⟩
  | cons task rest ih =>
    let first : Action N := .callback j 0 0 (Honest.stillEnv.nonce 0)
    have htail : ((step C cb addr name s first).desk j).tasks = rest := by
      rw [tasks_callback, htasks]
      rfl
    obtain ⟨callbacks, hall, hconversation, hnone⟩ := ih _ htail
    refine ⟨first :: callbacks, ?_, hconversation, hnone⟩
    rw [List.forall_mem_cons]
    exact ⟨⟨j, 0, 0, Honest.stillEnv.nonce 0, rfl⟩, hall⟩

/-- Arrivals and callbacks: what happens without anybody asking for it. -/
def Unasked : Action N → Prop
  | .deliver _ | .callback _ _ _ _ => True
  | .request _ _ _ | .flush _ _ _ _ | .sweep _ _ => False

theorem always_unasked (s : Chat N) (actions : List (Action N)) (h : ∀ a ∈ actions, Unasked a) :
    Runs.Always (step C cb addr name) (Unhurried C addr name) s actions := by
  induction actions generalizing s with
  | nil => trivial
  | cons a rest ih =>
    rw [List.forall_mem_cons] at h
    refine ⟨?_, ih _ h.2⟩
    cases a with
    | deliver | callback => exact trivial
    | request | flush | sweep => exact absurd h.1 not_false

/-- They send nothing and queue nothing. -/
theorem run_unasked (C : Suite) (cb : Callback) (addr : N → Addr) (name : N → String) (s : Chat N)
    (actions : List (Action N)) (h : ∀ a ∈ actions, Unasked a) (i : N) :
    let s' := Runs.run (step C cb addr name) s actions
    (s'.desk i).queue = (s.desk i).queue ∧
      (s'.conversation.network.node i).msgIdCounter =
        (s.conversation.network.node i).msgIdCounter := by
  induction actions generalizing s with
  | nil => exact ⟨rfl, rfl⟩
  | cons a rest ih =>
    rw [List.forall_mem_cons] at h
    obtain ⟨hqueue, hcounter⟩ := ih (step C cb addr name s a) h.2
    rw [Runs.run_cons]
    refine ⟨hqueue.trans ?_, hcounter.trans ?_⟩
    · cases a with
      | request | flush | sweep => exact absurd h.1 not_false
      | deliver d =>
        simp only [step]
        split
        · by_cases hi : i = d.receiver
          · subst hi
            simp only [turn, Function.update_self]
            rfl
          · simp only [turn, Function.update_of_ne hi]
        · rfl
      | callback k m now nonce =>
        by_cases hi : i = k
        · subst hi
          simp only [step, turn, Function.update_self, PeerHistory.step]
          split <;> rfl
        · simp only [step, turn, Function.update_of_ne hi]
    · cases a with
      | request | flush | sweep => exact absurd h.1 not_false
      | callback k m now nonce => rfl
      | deliver d =>
        simp only [step, Conversations.step]
        split
        · by_cases hi : i = d.receiver
          · subst hi
            simp only [act, Function.update_self]
            exact counter_dispatch C d.env _ _ _
          · simp only [act, Function.update_of_ne hi]
        · rfl

theorem Mirrors.run (haead : C.AeadCorrect) (hacq : Acquainted C addr name node)
    (hname : Function.Injective name) (haddr : Function.Injective addr)
    (hnormal : ∀ j, normalizePeerId (name j) = name j) {s : Chat N}
    (h : Mirrors C R cb addr name node s) (actions : List (Action N))
    (hactions : Runs.Always (Chats.step C cb addr name) (Unhurried C addr name) s actions) :
    Mirrors C R cb addr name node (Runs.run (Chats.step C cb addr name) s actions) :=
  Runs.invariant (fun _ a h ha => h.step haead hacq hname haddr hnormal a ha) s actions h hactions

/-- From any state arrivals and callbacks alone can bring all that was sent to its receiver. -/
theorem Mirrors.exists_quiet (haead : C.AeadCorrect) (hacq : Acquainted C addr name node)
    (hname : Function.Injective name) (haddr : Function.Injective addr) {s : Chat N}
    (h : Mirrors C R cb addr name node s) (j : N) : ∃ more : List (Action N),
    (∀ a ∈ more, Unasked a) ∧
    (Runs.run (Chats.step C cb addr name) s more).conversation.network.wire = [] ∧
    (Runs.run (Chats.step C cb addr name) s more).conversation.taken = s.conversation.taken ∧
    ((Runs.run (Chats.step C cb addr name) s more).desk j).tasks = [] := by
  obtain ⟨letters, htracks⟩ := h.tracked
  obtain ⟨deliveries, _, hwire, htaken, _⟩ := htracks.exists_deliveries haead hacq hname haddr
  rw [← conversation_deliveries cb] at hwire htaken
  obtain ⟨callbacks, hall, hconversation, htasks⟩ := exists_callbacks C cb addr name
    (Runs.run (Chats.step C cb addr name) s (deliveries.map .deliver)) j
  refine ⟨deliveries.map .deliver ++ callbacks, fun a ha => ?_, ?_, ?_, ?_⟩
  · rcases List.mem_append.mp ha with ha | ha
    · obtain ⟨d, _, rfl⟩ := List.mem_map.mp ha
      exact trivial
    · obtain ⟨i, k, now, nonce, rfl⟩ := hall a ha
      exact trivial
  · rw [Runs.run_append, hconversation, hwire]
  · rw [Runs.run_append, hconversation, htaken]
  · rw [Runs.run_append, htasks]

/-- Programs that were used offline come to stand over transports that know each other. Messages are
posted, by POST /send and by command, and flushed from the queues, while packets and
acknowledgements arrive in any order and callbacks run in any order. At any time what one
history shows as received from a peer, with what the peer still has queued, is some of what the
peer's history shows as sent; with nothing on its way and no callback waiting it is exactly
that; and arrivals and callbacks alone always lead there. -/
theorem histories_mirror (C : Suite) (R : StoreRuntime) (cb : Callback) (haead : C.AeadCorrect)
    (hname : Function.Injective name) (haddr : Function.Injective addr)
    (hnormal : ∀ j, normalizePeerId (name j) = name j) (hacq : Acquainted C addr name node)
    (hcbs : ∀ j, (node j).messageCbs.count cb = 1) (start : Chat N)
    (hstart : Begins C cb R node start) (actions : List (Action N))
    (hactions : Runs.Always (step C cb addr name) (Unhurried C addr name) start actions) (i j : N)
    (hsession : ((node i).sessions.get? (name j)).isSome = true) :
    let s := Runs.run (step C cb addr name) start actions
    let queued := backlog C (s.desk i).queue (name j)
    ∃ mine theirs, history C s i (name j) = .ok mine ∧ history C s j (name i) = .ok theirs ∧
      (went "recv" theirs ++ queued).Subperm (went "sent" mine) ∧
      (s.conversation.network.wire = [] → (s.desk j).tasks = [] →
        (went "recv" theirs ++ queued).Perm (went "sent" mine)) ∧
      ∃ more received, (∀ a ∈ more, Unasked a) ∧
        history C (Runs.run (step C cb addr name) s more) j (name i) = .ok received ∧
        (went "recv" received ++ queued).Perm (went "sent" mine) := by
  intro s queued
  have h : Mirrors C R cb addr name node s :=
    (mirrors_begins haead hacq hstart).run haead hacq hname haddr hnormal actions hactions
  obtain ⟨mine, hmine, hsent⟩ := h.history i (name j)
  obtain ⟨theirs, htheirs, hrecv⟩ := h.history j (name i)
  have hmessages : (messages i j s.conversation.taken ++ queued).Perm (went "sent" mine) :=
    (h.sent i j hsession).trans (hsent "sent").symm
  refine ⟨mine, theirs, hmine, htheirs, ?_, fun hwire htasks => ?_, ?_⟩
  · have hsub := h.received_subperm hname hcbs i j
    have hfiled : (texts "recv" (name i) (s.desk j).log).Subperm (messages i j s.conversation.taken) :=
      (List.sublist_append_left _ _).subperm.trans hsub
    exact (((hrecv "recv").subperm.trans hfiled).append (List.Subperm.refl queued)).trans
      hmessages.subperm
  · have hperm := h.received_perm hname hcbs i j hwire
    rw [htasks, waiting, List.filter_nil, List.map_nil, List.append_nil] at hperm
    exact (((hrecv "recv").trans hperm).append_right queued).trans hmessages
  · obtain ⟨more, hunasked, hwire, htaken, htasks⟩ := h.exists_quiet haead hacq hname haddr j
    have h' := h.run haead hacq hname haddr hnormal more (always_unasked s more hunasked)
    obtain ⟨received, hreceived, hall⟩ := h'.history j (name i)
    have hperm := h'.received_perm hname hcbs i j hwire
    rw [htasks, waiting, List.filter_nil, List.map_nil, List.append_nil, htaken] at hperm
    exact ⟨more, received, hunasked, hreceived,
      (((hall "recv").trans hperm).append_right queued).trans hmessages⟩

/-- Nothing is in flight where nothing is on its way. -/
theorem underway_quiet {s : Conversation N} (hempty : ∀ i m, (s.network.node i).inFlight.get? m = none)
    (j : N) : underway s j = 0 := by
  rw [underway, List.length_eq_zero_iff, List.filter_eq_nil_iff]
  intro m _
  rw [hempty m.sender m.msgId]
  simp

/-- What was queued while the peer was away reaches it: where at most as many messages are queued as
it can reassemble at once, their time has not run out and the transport can take them, one
flush between arrivals and callbacks leaves the peer with all that was sent to it. -/
theorem backlog_arrives (C : Suite) (R : StoreRuntime) (cb : Callback) (haead : C.AeadCorrect)
    (hname : Function.Injective name) (haddr : Function.Injective addr)
    (hnormal : ∀ j, normalizePeerId (name j) = name j) (hacq : Acquainted C addr name node)
    (hcbs : ∀ j, (node j).messageCbs.count cb = 1) (start : Chat N)
    (hstart : Begins C cb R node start) (actions : List (Action N))
    (hactions : Runs.Always (step C cb addr name) (Unhurried C addr name) start actions) (i j : N)
    (hsession : ((node i).sessions.get? (name j)).isSome = true) (s : Chat N)
    (hs : Runs.run (step C cb addr name) start actions = s) (now : ℚ) (envs : ℕ → Env)
    (hlive : ∀ row ∈ (s.desk i).queue.table.rows, row.peerId = name j → now < row.expiresAt)
    (hfew : (backlog C (s.desk i).queue (name j)).length ≤ maxReassemblyBufs)
    (hids : (s.conversation.network.node i).msgIdCounter +
      (backlog C (s.desk i).queue (name j)).length ≤ 256 ^ 4)
    (hshort : ∀ message ∈ backlog C (s.desk i).queue (name j),
      Framing.packetCount message < 256) :
    ∃ before after mine received, (∀ a ∈ before ++ after, Unasked a) ∧
      let s' := Runs.run (step C cb addr name) s (before ++ .flush i j now envs :: after)
      history C s i (name j) = .ok mine ∧ history C s' j (name i) = .ok received ∧
        (went "recv" received).Perm (went "sent" mine) ∧
        backlog C (s'.desk i).queue (name j) = [] := by
  have h : Mirrors C R cb addr name node s := by
    rw [← hs]
    exact (mirrors_begins haead hacq hstart).run haead hacq hname haddr hnormal actions hactions
  obtain ⟨mine, hmine, hsent⟩ := h.history i (name j)
  have hmessages := (h.sent i j hsession).trans (hsent "sent").symm
  -- first everything under way arrives
  obtain ⟨before, hbefore, hwire, htaken, _⟩ := h.exists_quiet haead hacq hname haddr j
  have h₁ := h.run haead hacq hname haddr hnormal before (always_unasked s before hbefore)
  obtain ⟨hqueue, hcounter⟩ := run_unasked C cb addr name s before hbefore i
  let s₁ := Runs.run (step C cb addr name) s before
  obtain ⟨letters, htracks⟩ := h₁.tracked
  have hidle := underway_quiet (fun i m => ((htracks.quiescent hwire).2 i).1 m) j
  -- then the flush finds room for all that is queued
  rcases getPending_cases C (s.desk i).queue now (name j) with
    ⟨_, pending, hpending, _⟩ | ⟨hunreadable, _⟩
  swap
  · exact absurd ((h.queue i).2.readable C (h.queue i).1 _ now) hunreadable
  have hall := (drawn_getPending hpending (hnormal j)).2 hlive
  have hlength : pending.length = (backlog C (s.desk i).queue (name j)).length := by
    rw [← hall.length_eq, List.length_map]
  have hover : handOver C name s₁ i j now envs = handovers i j envs pending 0 := by
    rw [handOver, hqueue, hpending]
  have hroom : Unhurried C addr name s₁ (.flush i j now envs) := by
    rw [Unhurried, hover]
    refine always_handovers hacq hname envs pending 0 s₁.conversation h₁.tracked ?_
    rw [hidle, hlength, Nat.zero_add]
    exact hfew
  have h₂ := h₁.step haead hacq hname haddr hnormal (.flush i j now envs) hroom
  let s₂ := step C cb addr name s₁ (.flush i j now envs)
  have hpassed := (flush_passed C addr hnormal s₁ i j now envs).2
  have htaken₂ : messages i j s₂.conversation.taken =
      messages i j s.conversation.taken ++ pending.map QueuedMessage.payload := by
    show messages i j (Runs.run (Conversations.step C addr name) s₁.conversation
      (handOver C name s₁ i j now envs)).taken = _
    rw [hover, ← htaken]
    refine messages_handovers envs pending 0 s₁.conversation ?_ ?_ fun msg hmsg => ?_
    · rw [session_isSome htracks, hsession]
    · rw [hcounter, hlength]
      exact hids
    · exact hshort _ (hall.mem_iff.mp (List.mem_map_of_mem hmsg))
  have hempty : backlog C (s₂.desk i).queue (name j) = [] := by
    have hmoved := hpassed.moved
    rw [hqueue, htaken] at hmoved
    have hcount := hmoved.length_eq
    rw [show (Runs.run (Conversations.step C addr name) s₁.conversation
      (handOver C name s₁ i j now envs)).taken = s₂.conversation.taken from rfl, htaken₂] at hcount
    simp only [List.length_append, List.length_map] at hcount
    have hqueue₂ : (s₂.desk i).queue = (flushPeer C now envs (s₁.conversation.network.node i)
        (s₁.desk i).queue (name j)).queue := by
      show (Function.update s₁.desk i _ i).queue = _
      rw [Function.update_self]
      rfl
    rw [hqueue₂, hqueue, ← List.length_eq_zero_iff]
    omega
  -- and what it has sent arrives too
  obtain ⟨after, hafter, hwire₃, htaken₃, htasks₃⟩ := h₂.exists_quiet haead hacq hname haddr j
  have h₃ := h₂.run haead hacq hname haddr hnormal after (always_unasked s₂ after hafter)
  obtain ⟨received, hreceived, hrecv⟩ := h₃.history j (name i)
  have hperm := h₃.received_perm hname hcbs i j hwire₃
  rw [htasks₃, waiting, List.filter_nil, List.map_nil, List.append_nil, htaken₃, htaken₂] at hperm
  refine ⟨before, after, mine, received, fun a ha => ?_, ?_⟩
  · exact (List.mem_append.mp ha).elim (hbefore a) (hafter a)
  · rw [Runs.run_append, Runs.run_cons]
    refine ⟨hmine, hreceived, ((hrecv "recv").trans hperm).trans
      ((hall.append_left _).trans hmessages), ?_⟩
    rw [(run_unasked C cb addr name _ after hafter i).1]
    exact hempty

end Results

section Stub

open Honest

/-- A program with a new store and a new queue. -/
def opened (t : MeshTransport) (passphrase : String) : PeerHistory.System where
  node := ⟨t, []⟩
  queue := ⟨sharedKey, true, .empty⟩
  store := ((MessageStore.init (.text passphrase) .new).openFile stubStore
    (List.Vector.replicate 32 0)).2
  tasks := []
  log := []

def greeting : PeerHistory.Label := .post stillEnv 5 stubNonce "bravo" "hi"

/-- Alpha greets bravo before there is a session, if it does; bravo only waits. -/
def drafts (t : MeshTransport) (greetings : List PeerHistory.Label) : Bool → Desk
  | true => Desk.of (Runs.run (PeerHistory.step stub 0) (opened t "alpha") greetings)
  | false => Desk.of (opened t "bravo")

theorem entry_greeting (p : PeerHistory.System) :
    entry p greeting = some ⟨stillEnv, 5, stubNonce, .post "bravo", [104, 105]⟩ := by
  have hbytes : encodeUtf8 "hi" = [104, 105] := by decide +kernel
  simp only [greeting, entry, hbytes]
  rfl

theorem peerOf_bravo : peerOf (.post "bravo") = "bravo" := by decide +kernel

theorem begins_drafts (node : Bool → MeshTransport) (t : MeshTransport)
    (ht : t.sessions.get? "bravo" = none) (greetings : List PeerHistory.Label)
    (h : greetings = [] ∨ greetings = [greeting]) :
    Begins stub 0 stubStore node ⟨Conversations.start node, drafts t greetings⟩ := by
  have hopened : ∀ passphrase, Initial stubStore (.text passphrase) (opened t passphrase) :=
    fun _ => ⟨rfl, rfl, _, rfl⟩
  refine ⟨rfl, fun i => ?_⟩
  cases i with
  | false =>
    exact ⟨.text "bravo", opened t "bravo", [], derives_stub _, hopened _, rfl, rfl, trivial, rfl⟩
  | true =>
    refine ⟨.text "alpha", opened t "alpha", greetings, derives_stub _, hopened _, rfl, rfl, ?_, rfl⟩
    rcases h with rfl | rfl
    · trivial
    · refine ⟨⟨trivial, fun e he => ?_⟩, trivial⟩
      rw [entry_greeting] at he
      cases he
      rw [peerOf_bravo]
      exact ⟨by decide +kernel, by rw [show (opened t "alpha").node.transport = t from rfl, ht]; rfl⟩

/-- Two nodes that hold each other's session, and one of alpha before it had any. -/
theorem exists_duo : ∃ (node : Bool → MeshTransport) (t : MeshTransport),
    Acquainted stub duoAddr duoName node ∧ (∀ j, (node j).messageCbs.count 0 = 1) ∧
    ((node true).sessions.get? "bravo").isSome = true ∧ (node true).msgIdCounter = 1 ∧
    (send stub stillEnv (node true) "bravo" [104, 105]).raised = none ∧
    t.sessions.get? "bravo" = none := by
  obtain ⟨ta, hta⟩ := init_ok alpha (by decide)
  obtain ⟨tb, htb⟩ := init_ok bravo (by decide)
  obtain ⟨session, hholds, _⟩ := holds_met ta bravoAddr bravo
  have hfresh := fresh_startWith alpha ta hta [0] [] [] [0] .empty
  refine ⟨duo ta tb, startWith ta [0] [] [] [0] .empty, acquainted_duo hta htb, ?_,
    Option.isSome_iff_exists.mpr ⟨session, hholds.session⟩, hfresh.msgIdCounter,
    send_duo hta tb [104, 105] (by decide), ?_⟩
  · rintro (_ | _) <;> rfl
  · rw [hfresh.sessions]
    rfl

/-- Alpha posts a message to bravo, and bravo's history comes to show it. -/
theorem histories_mirror_duo : ∃ (start : Chat Bool) (more : List (Action Bool))
    (received : List StoredMessage), history stub (Runs.run (step stub 0 duoAddr duoName) start
      (.request true false greeting :: more)) false "alpha" = .ok received ∧
        went "recv" received = [[104, 105]] := by
  obtain ⟨node, t, hacq, hcbs, hsession, _, hraised, hnone⟩ := exists_duo
  have hbegins := begins_drafts node t hnone [] (Or.inl rfl)
  let start : Chat Bool := ⟨Conversations.start node, drafts t []⟩
  let first : Action Bool := .request true false greeting
  have hfirst : Runs.Always (step stub 0 duoAddr duoName) (Unhurried stub duoAddr duoName) start
      [first] := by
    refine ⟨⟨trivial, fun e he _ => ?_⟩, trivial⟩
    rw [entry_greeting] at he
    cases he
    exact ⟨by decide +kernel, show 0 < maxReassemblyBufs by decide⟩
  have hnormal : ∀ j, normalizePeerId (duoName j) = duoName j := by decide +kernel
  have hname : Function.Injective duoName := by decide
  have haddr : Function.Injective duoAddr := by decide
  obtain ⟨mine, theirs, hmine, _, _, _, more, received, _, hreceived, hperm⟩ :=
    histories_mirror stub stubStore 0 stub_aeadCorrect hname haddr hnormal hacq hcbs start hbegins
      [first] hfirst true false hsession
  have hbegun := mirrors_begins stub_aeadCorrect hacq hbegins
  obtain ⟨key, hrecords⟩ := hbegun.records true
  obtain ⟨_, _, hqueue, id, hlog⟩ := log_sendAndSave stub_aeadCorrect hrecords
    ⟨stillEnv, 5, stubNonce, .post "bravo", [104, 105]⟩ (by rw [peerOf_bravo]; exact hsession)
  have hstep := step_request stub 0 (program start true) greeting trivial
  rw [entry_greeting, Option.elim_some] at hstep
  rw [← hstep] at hqueue hlog
  rw [peerOf_bravo] at hlog
  have hnoted : (PeerHistory.step stub 0 (program start true) greeting).log =
      [⟨.post "bravo", id, "sent", [104, 105], 5⟩] := hlog.trans (if_pos hraised)
  have hdesk : (Runs.run (step stub 0 duoAddr duoName) start [first]).desk true =
      Desk.of (PeerHistory.step stub 0 (program start true) greeting) :=
    Function.update_self (f := start.desk) true _
  have hmirrors := hbegun.run stub_aeadCorrect hacq hname haddr hnormal [first] hfirst
  obtain ⟨rows, hrows, hsent⟩ := hmirrors.history true "bravo"
  cases hmine.symm.trans hrows
  have hone := hperm.trans (hsent "sent")
  have hfiled : filedUnder (.post "bravo") = "bravo" := by decide +kernel
  have htexts : texts "sent" "bravo" [⟨.post "bravo", id, "sent", [104, 105], 5⟩] =
      [[104, 105]] := by
    rw [texts, List.filter_cons_of_pos (by simp [hfiled])]
    rfl
  have hnothing : backlog stub (Desk.of (PeerHistory.step stub 0 (program start true)
      greeting)).queue "bravo" = [] := by
    rw [show (Desk.of (PeerHistory.step stub 0 (program start true) greeting)).queue =
      (PeerHistory.step stub 0 (program start true) greeting).queue from rfl, hqueue]
    rfl
  rw [hdesk, show duoName false = "bravo" from rfl, hnothing, List.append_nil] at hone
  refine ⟨start, more, received, hreceived, List.perm_singleton.mp (hone.trans ?_)⟩
  rw [show (Desk.of (PeerHistory.step stub 0 (program start true) greeting)).log =
    (PeerHistory.step stub 0 (program start true) greeting).log from rfl, hnoted, htexts]

theorem backlog_greeting {t : MeshTransport} (hnone : t.sessions.get? "bravo" = none) :
    (drafts t [greeting] true).queue = ⟨sharedKey, true, ForwardQueue.Table.empty.insert "bravo"
      (ForwardQueue.encryptPayload stub (stillEnv.nonce 0) sharedKey [104, 105]) 0 (0 + ttlSeconds)⟩ := by
  show (PeerHistory.step stub 0 (opened t "alpha") greeting).queue = _
  have hmissing : ¬ (t.sessions.get? "bravo").isSome = true := by simp [hnone]
  have henqueue := @enqueue_room stub ⟨sharedKey, true, .empty⟩ 0 "bravo" 0 rfl rfl (by decide)
    (stillEnv.nonce 0) [104, 105]
  have hnormal : normalizePeerId "bravo" = "bravo" := by decide +kernel
  rw [hnormal] at henqueue
  rw [step_request stub 0 (opened t "alpha") greeting trivial, entry_greeting, Option.elim_some]
  have hsend : sendOrQueue stub stillEnv t ⟨sharedKey, true, .empty⟩ (filedUnder (.post "bravo"))
      [104, 105] = ⟨t, ⟨sharedKey, true, ForwardQueue.Table.empty.insert "bravo"
        (ForwardQueue.encryptPayload stub (stillEnv.nonce 0) sharedKey [104, 105]) 0
          (0 + ttlSeconds)⟩, [], .ok false⟩ := by
    rw [show filedUnder (.post "bravo") = normalizePeerId "bravo" from rfl, hnormal, sendOrQueue]
    simp only [hnormal, if_neg hmissing]
    rw [show stillEnv.time = 0 from rfl, henqueue]
  simp only [sendAndSave, opened, hsend]
  rfl

/-- Alpha greets bravo while there is no session, and after the flush bravo's history shows it. -/
theorem backlog_arrives_duo : ∃ (start : Chat Bool) (before after : List (Action Bool))
    (received : List StoredMessage), history stub (Runs.run (step stub 0 duoAddr duoName) start
      (before ++ .flush true false 5 (fun _ => stillEnv) :: after)) false "alpha" = .ok received ∧
        went "recv" received = [[104, 105]] := by
  obtain ⟨node, t, hacq, hcbs, hsession, hcounter, hraised, hnone⟩ := exists_duo
  have hbegins := begins_drafts node t hnone [greeting] (Or.inr rfl)
  have hqueue := backlog_greeting hnone
  let start : Chat Bool := ⟨Conversations.start node, drafts t [greeting]⟩
  have hnormal : ∀ j, normalizePeerId (duoName j) = duoName j := by decide +kernel
  have hname : Function.Injective duoName := by decide
  have haddr : Function.Injective duoAddr := by decide
  have hbacklog : backlog stub (start.desk true).queue "bravo" = [[104, 105]] := by
    rw [show start.desk true = drafts t [greeting] true from rfl, hqueue]
    decide +kernel
  have hlive : ∀ row ∈ (start.desk true).queue.table.rows, row.peerId = duoName false →
      5 < row.expiresAt := by
    rw [show start.desk true = drafts t [greeting] true from rfl, hqueue]
    intro row hrow _
    rw [List.mem_singleton.mp hrow]
    decide +kernel
  obtain ⟨before, after, mine, received, _, hmine, hreceived, hperm, _⟩ :=
    backlog_arrives stub stubStore 0 stub_aeadCorrect hname haddr hnormal hacq hcbs start hbegins
      [] trivial true false hsession start rfl 5 (fun _ => stillEnv) hlive
      (by rw [show duoName false = "bravo" from rfl, hbacklog]; decide)
      (by
        rw [show duoName false = "bravo" from rfl, hbacklog,
          show (start.conversation.network.node true).msgIdCounter = 1 from hcounter]
        decide)
      (by rw [show duoName false = "bravo" from rfl, hbacklog]; decide)
  refine ⟨start, before, after, received, hreceived, List.perm_singleton.mp (hperm.trans ?_)⟩
  have hmirrors := mirrors_begins stub_aeadCorrect hacq hbegins
  obtain ⟨rows, hrows, hsent⟩ := hmirrors.history true "bravo"
  cases hmine.symm.trans hrows
  refine (hsent "sent").trans ((hmirrors.sent true false hsession).symm.trans ?_)
  rw [show duoName false = "bravo" from rfl, hbacklog]
  exact List.Perm.refl _

end Stub

end Mesim.Chats
