import Mesim.StoreForward

/-!
Who has a message that store-and-forward has accepted.
A ledger beside the node names, for each accepted message whose time has not run
out, the place where it should be: a row of the queue, an entry of the in-flight
table, or its peer, who has acknowledged it. The transport can break the entry it
was given: its retry loop gives up, and it takes any peer's ACK for any message.
-/
namespace Mesim.Custody

open Octets Crypto Identity Packet Transport Operations Dispatch Nodes Fragments Reassembly
open InFlightTable Retransmission ForwardQueue StoreForward

inductive Place where
  | queued (id : ℕ)
  | sent (msgId : ℕ)
  | acknowledged

structure Accepted where
  peerId : String
  payload : Bytes
  acceptedAt : ℚ
  place : Place

/-- A node with its queue, and the ledger of what send_or_queue() has accepted. -/
structure System where
  node : Node
  queue : ForwardQueue
  ledger : List Accepted

inductive Label where
  | transport (env : Env) (e : Event)
  | sendOrQueue (env : Env) (peerId : String) (payload : Bytes)
  | flushPeer (now : ℚ) (envs : ℕ → Env) (peerId : String)
  | purgeExpired (now : ℚ)
  | openQueue
  | closeQueue

def unexpired (now : ℚ) (ledger : List Accepted) : List Accepted :=
  ledger.filter (fun a => now < a.acceptedAt + ttlSeconds)

variable (C : Suite)

/-- The msg_id an event acknowledges, and the peer whose session the ACK came through. -/
def ackedBy (t : MeshTransport) : Event → Option (ℕ × String)
  | .datagram data addr => (acknowledges C t data addr).bind fun m =>
      (t.sessionsByAddr.get? addr).map fun peerId => (m, peerId)
  | _ => none

/-- The peer's own ACK settles a message in flight. -/
def settle (acked : Option (ℕ × String)) (a : Accepted) : Accepted :=
  match a.place with
  | .sent m => if acked = some (m, a.peerId) then { a with place := .acknowledged } else a
  | _ => a

/-- A row that went out passes its message on to the in-flight table. -/
def handOver (handed : List (ℕ × ℕ)) (a : Accepted) : Accepted :=
  match a.place with
  | .queued id =>
    match handed.lookup id with
    | some m => { a with place := .sent m }
    | none => a
  | _ => a

def step (s : System) : Label → System
  | .transport env e =>
    { s with
      node := (s.node.step C env e).1
      ledger := (unexpired env.time s.ledger).map (settle (ackedBy C s.node.transport e)) }
  | .sendOrQueue env peerId payload =>
    let r := sendOrQueue C env s.node.transport s.queue peerId payload
    let place := match r.ended with
      | .ok true => [Place.sent s.node.transport.msgIdCounter]
      | .ok false => [Place.queued s.queue.table.nextId]
      | .error _ => []
    { node := { s.node with transport := r.transport }
      queue := r.queue
      ledger := unexpired env.time s.ledger ++
        place.map fun p => ⟨normalizePeerId peerId, payload, env.time, p⟩ }
  | .flushPeer now envs peerId =>
    let r := flushPeer C now envs s.node.transport s.queue peerId
    let handed := match r.ended with
      | .ok handed => handed
      | .error _ => []
    { node := { s.node with transport := r.transport }
      queue := r.queue
      ledger := (unexpired now s.ledger).map (handOver handed) }
  | .purgeExpired now =>
    let queue := match s.queue.purgeExpired now with
      | .ok (q, _) => q
      | .error _ => s.queue
    { s with queue := queue, ledger := unexpired now s.ledger }
  | .openQueue => { s with queue := s.queue.openFile }
  | .closeQueue => { s with queue := s.queue.close }

/-- A started node with its queue, before the first call. -/
def Initial (owner : DeviceIdentity) (s : System) : Prop := Started owner s.node ∧ s.ledger = []

/-- The packet is one of this message, under this msg_id. -/
def Carries (owner : DeviceIdentity) (m : ℕ) (payload packet : Bytes) : Prop :=
  ∃ x : Sending, x.msgId = m ∧ packet ∈ x.packets C ∧
    x.chunks = splitFragments
      ((C.signMessage payload owner.signingKeypair.signingKey).toList ++ payload)

/-- The message is where the ledger says. -/
inductive Kept (owner : DeviceIdentity) (t : MeshTransport) (q : ForwardQueue) (a : Accepted) : Prop
  | queued (id : ℕ) (row : Row) (hplace : a.place = .queued id) (hrow : row ∈ q.table.rows)
      (hid : row.id = id) (hpeer : row.peerId = a.peerId)
      (hexpires : row.expiresAt = a.acceptedAt + ttlSeconds)
      (hpayload : decryptPayload C q.key row.payload = .ok a.payload)
  | sent (m : ℕ) (inf : InFlight) (hplace : a.place = .sent m) (hget : t.inFlight.get? m = some inf)
      (hcarries : Carries C owner m a.payload inf.packetBytes)
  | acknowledged (hplace : a.place = .acknowledged)

/-- The event takes the entry of this msg_id out of the in-flight table. -/
def Drops (n : Node) (env : Env) (m : ℕ) : Event → Prop
  | .retry => ∃ inf, n.transport.inFlight.get? m = some inf ∧
      env.monotonic ≥ inf.nextRetryAt ∧ maxRetries ≤ inf.attempt
  | .datagram data addr => acknowledges C n.transport data addr = some m
  | _ => False

/-- No accepted message loses its entry but by an ACK of its own peer. -/
def Spared (s : System) : Label → Prop
  | .transport env e => ∀ a ∈ unexpired env.time s.ledger, ∀ m, a.place = .sent m →
      Drops C s.node env m e → ackedBy C s.node.transport e = some (m, a.peerId)
  | _ => True

section Table

variable {C}

theorem next_dropped (n : Node) (env : Env) (e : Event) (h : InFlightTable.Orderly n.transport)
    (m : ℕ) (hdrops : Drops C n env m e) : (n.step C env e).1.transport.inFlight.get? m = none := by
  cases e with
  | retry =>
    obtain ⟨inf, hget, hdue, hspent⟩ := hdrops
    show (retrySweep env n.transport).state.inFlight.get? m = none
    rw [retrySweep_get? h, hget]
    simp only [if_pos hdue, if_pos hspent]
  | datagram data addr =>
    have hack : acknowledges C n.transport data addr = some m := hdrops
    show (dispatch C env n.transport data addr).state.inFlight.get? m = none
    rw [inFlight_dispatch, hack]
    exact OrderedDict.get?_erase_self _ _
  | connect _ _ | resume _ | timeout _ | send _ _ => exact hdrops.elim

theorem next_entry (n : Node) (env : Env) (e : Event) (h : InFlightTable.Orderly n.transport) (m : ℕ)
    (inf : InFlight) (hget : n.transport.inFlight.get? m = some inf) (hdrops : ¬ Drops C n env m e) :
    ∃ inf', (n.step C env e).1.transport.inFlight.get? m = some inf' ∧
      inf'.packetBytes = inf.packetBytes := by
  by_cases hretry : e = .retry
  · subst hretry
    show ∃ inf', (retrySweep env n.transport).state.inFlight.get? m = some inf' ∧ _
    rw [retrySweep_get? h, hget]
    dsimp only
    by_cases hdue : env.monotonic ≥ inf.nextRetryAt
    · have hleft : ¬ inf.attempt ≥ maxRetries := fun hspent => hdrops ⟨inf, hget, hdue, hspent⟩
      rw [if_pos hdue, if_neg hleft]
      exact ⟨_, rfl, rfl⟩
    · rw [if_neg hdue]
      exact ⟨inf, rfl, rfl⟩
  · refine ⟨inf, ?_, rfl⟩
    refine (entry_kept C n (env, e) m (h.used m inf hget) hretry ?_).trans hget
    cases e with
    | datagram data addr => exact hdrops
    | connect _ _ | resume _ | timeout _ | send _ _ | retry => trivial

end Table

section Acks

/-- An ACK that the session's peer has made for the msg_id. -/
theorem ackedBy_ackPacket {t : MeshTransport} {addr : Addr} {peerId : String}
    {session : SessionInfo} (h : Holds t addr peerId session) (senderId : Fixed 32) (m : ℕ)
    (hm : m < 256 ^ 4) :
    ackedBy C t (.datagram (ackPacket C senderId session.sessionKey m) addr) = some (m, peerId) := by
  have hlen : (packBE 4 m).length = 4 := packBE_length 4 m
  have hmac := computeMac_length C session.sessionKey ([protocolVersion, PacketType.ack.toByte] ++
    senderId.toList ++ packBE 2 (packBE 4 m).length) (packBE 4 m)
  have hparse : parsePacket (ackPacket C senderId session.sessionKey m) =
      .ok ⟨.ack, senderId.toList, packBE 4 m⟩ :=
    parsePacket_frame .ack senderId (packBE 4 m) _ (by rw [hlen]; decide) hmac
  have hgate : macGate C t .ack (ackPacket C senderId session.sessionKey m) addr = true := by
    apply macGate_of_verified C h .ack _
    rw [ackPacket, verifyMac_frame C session.sessionKey .ack senderId _ _ hmac, if_pos rfl]
  have hid : unpackBE (slice (packBE 4 m) 0 4) = m := by
    rw [slice, List.drop_zero, List.take_of_length_le hlen.le, unpackBE_packBE 4 m hm]
  have hack : acknowledges C t (ackPacket C senderId session.sessionKey m) addr = some m := by
    simp only [acknowledges, hparse, hgate, hlen, hid, true_and]
    exact if_pos (by decide)
  simp only [ackedBy, hack, h.byAddr, Option.bind_some, Option.map_some]

theorem acknowledges_of_ackedBy {C : Suite} {t : MeshTransport} {data : Bytes} {addr : Addr}
    {m : ℕ} {peerId : String} (h : ackedBy C t (.datagram data addr) = some (m, peerId)) :
    acknowledges C t data addr = some m := by
  obtain ⟨m', hack, hmap⟩ := Option.bind_eq_some_iff.mp h
  obtain ⟨_, _, heq⟩ := Option.map_eq_some_iff.mp hmap
  cases heq
  exact hack

end Acks

section Calls

variable {C} {owner : DeviceIdentity} {t t' : MeshTransport} {q q' : ForwardQueue} {a : Accepted}

theorem Kept.of_queue (h : Kept C owner t q a) (hkey : q'.key = q.key)
    (hrows : ∀ row ∈ q.table.rows, a.place = .queued row.id →
      row.expiresAt = a.acceptedAt + ttlSeconds → ∃ row' ∈ q'.table.rows, row'.id = row.id ∧
        row'.peerId = row.peerId ∧ row'.expiresAt = row.expiresAt ∧ row'.payload = row.payload) :
    Kept C owner t q' a := by
  cases h with
  | queued id row hplace hrow hid hpeer hexpires hpayload =>
    subst hid
    obtain ⟨row', hrow', hid', hpeer', hexpires', hpayload'⟩ := hrows row hrow hplace hexpires
    refine .queued row.id row' hplace hrow' hid' (hpeer'.trans hpeer) (hexpires'.trans hexpires) ?_
    rw [hkey, hpayload']
    exact hpayload
  | sent m inf hplace hget hcarries => exact .sent m inf hplace hget hcarries
  | acknowledged hplace => exact .acknowledged hplace

theorem Kept.delete (h : Kept C owner t q a) (id : ℕ) (hplace : a.place ≠ .queued id) :
    Kept C owner t ⟨q.key, q.isOpen, q.table.delete (fun row => row.id = id)⟩ a := by
  refine h.of_queue rfl fun row hrow hqueued _ =>
    ⟨row, List.mem_filter.mpr ⟨hrow, ?_⟩, rfl, rfl, rfl, rfl⟩
  have hne : row.id ≠ id := by
    rintro rfl
    exact hplace hqueued
  simp [hne]

theorem Kept.incrementAttempt (h : Kept C owner t q a) (id : ℕ) :
    Kept C owner t ⟨q.key, q.isOpen, q.table.incrementAttempt id⟩ a := by
  refine h.of_queue rfl fun row hrow _ _ =>
    ⟨Table.bump id row, List.mem_map_of_mem hrow, Table.id_bump _ _, ?_⟩
  unfold Table.bump
  split <;> exact ⟨rfl, rfl, rfl⟩

theorem Kept.of_transport (h : Kept C owner t q a)
    (ht : ∀ m inf, a.place = .sent m → t.inFlight.get? m = some inf →
      ∃ inf', t'.inFlight.get? m = some inf' ∧ inf'.packetBytes = inf.packetBytes) :
    Kept C owner t' q a := by
  cases h with
  | queued id row hplace hrow hid hpeer hexpires hpayload =>
    exact .queued id row hplace hrow hid hpeer hexpires hpayload
  | sent m inf hplace hget hcarries =>
    obtain ⟨inf', hget', hpacket⟩ := ht m inf hplace hget
    exact .sent m inf' hplace hget' (by rw [hpacket]; exact hcarries)
  | acknowledged hplace => exact .acknowledged hplace

/-- A call of send() leaves the messages in flight where they are. -/
theorem kept_send (h : Kept C owner t q a) (horderly : InFlightTable.Orderly t) (env : Env)
    (peerId : String) (payload : Bytes) : Kept C owner (send C env t peerId payload).state q a := by
  refine h.of_transport fun m inf _ hget => ⟨inf, ?_, rfl⟩
  exact (send_other C env t peerId payload m (Nat.ne_of_lt (horderly.used m inf hget))).trans hget

/-- What it has sent without raising is in flight under the next msg_id. -/
theorem kept_sent (hidentity : t.identity = owner) (env : Env) (peerId : String) (payload : Bytes)
    (hraised : (send C env t peerId payload).raised = none) (hpayload : a.payload = payload)
    (hplace : a.place = .sent t.msgIdCounter) :
    Kept C owner (send C env t peerId payload).state q a := by
  cases hsession : t.sessions.get? peerId with
  | none =>
    rw [send_missing C env t peerId payload hsession] at hraised
    contradiction
  | some session =>
    have hsendable := (send_raised_iff C env t peerId payload session hsession).mp hraised
    let x := sending C env t session.sessionKey payload
    obtain ⟨n, chunk, hchunk, hlast⟩ := exists_last_chunk C env t session.sessionKey payload
    have hentry :=
      send_inFlight C env t peerId payload session hsession hsendable n chunk hchunk hlast
    refine .sent _ _ hplace hentry ⟨x, rfl, (x.mem_packets C _).mpr ⟨n, chunk, hchunk, rfl⟩, ?_⟩
    rw [hpayload, ← hidentity]
    rfl

theorem handOver_of_lookup {handed : List (ℕ × ℕ)} {id m : ℕ} (hplace : a.place = .queued id)
    (h : handed.lookup id = some m) : handOver handed a = { a with place := .sent m } := by
  simp only [handOver, hplace, h]

theorem handOver_of_not_queued {handed : List (ℕ × ℕ)} (h : ∀ id, a.place ≠ .queued id) :
    handOver handed a = a := by
  unfold handOver
  split
  · rename_i id hplace
    exact absurd hplace (h id)
  · rfl

theorem handOver_nil : handOver [] a = a := by
  unfold handOver
  split <;> rfl

theorem handOver_cons_of_ne {handed : List (ℕ × ℕ)} {id m : ℕ} (h : a.place ≠ .queued id) :
    handOver ((id, m) :: handed) a = handOver handed a := by
  cases hplace : a.place with
  | queued id' =>
    have hne : (id' == id) = false := by
      rw [beq_eq_false_iff_ne]
      rintro rfl
      exact h hplace
    simp only [handOver, hplace, List.lookup_cons, hne]
  | sent _ | acknowledged =>
    simp only [handOver, hplace]

/-- What flush_peer() leaves of the messages that were kept before. -/
structure Flushed (C : Suite) (owner : DeviceIdentity) (t : MeshTransport) (q : ForwardQueue)
    (pending : List QueuedMessage) (r : Result (List (ℕ × ℕ))) : Prop where
  orderly : InFlightTable.Orderly r.transport
  identity : r.transport.identity = owner
  kept : ∃ handed, r.ended = .ok handed ∧ ∀ a, Kept C owner t q a →
    (∀ msg ∈ pending, a.place = .queued msg.id → a.payload = msg.payload) →
    Kept C owner r.transport r.queue (handOver handed a)

theorem flushed_each (envs : ℕ → Env) (peerId : String) (pending : List QueuedMessage) (i : ℕ)
    (horderly : InFlightTable.Orderly t) (hidentity : t.identity = owner) (hopen : q.isOpen = true) :
    Flushed C owner t q pending (flushEach C envs peerId t q pending i) := by
  induction pending generalizing t q i with
  | nil => exact ⟨horderly, hidentity, [], rfl, fun a ha _ => by rw [handOver_nil]; exact ha⟩
  | cons msg rest ih =>
    let t₁ := (send C (envs i) t peerId msg.payload).state
    have horderly₁ : InFlightTable.Orderly t₁ := orderly_send C (envs i) t peerId msg.payload horderly
    have hidentity₁ : t₁.identity = owner :=
      (send_same C (envs i) t peerId msg.payload).identity.trans hidentity
    cases hraised : (send C (envs i) t peerId msg.payload).raised with
    | none =>
      obtain ⟨horderly', hidentity', handed, hended, hkept⟩ := ih (t := t₁)
        (q := ⟨q.key, q.isOpen, q.table.delete (fun row => row.id = msg.id)⟩) (i + 1) horderly₁
        hidentity₁ hopen
      rw [flushEach_sent hopen hraised]
      refine ⟨horderly', hidentity', (msg.id, t.msgIdCounter) :: handed, ?_, fun a ha hpending => ?_⟩
      · dsimp only
        rw [hended]
        rfl
      · by_cases hplace : a.place = .queued msg.id
        · -- this row: its message is now in flight
          rw [handOver_of_lookup hplace (by rw [List.lookup_cons_self])]
          have hpayload := hpending msg List.mem_cons_self hplace
          have hrest := hkept { a with place := .sent t.msgIdCounter }
            (kept_sent hidentity (envs i) peerId msg.payload hraised hpayload rfl)
            fun _ _ hqueued => by cases hqueued
          rw [handOver_of_not_queued (fun _ hqueued => by cases hqueued)] at hrest
          exact hrest
        · rw [handOver_cons_of_ne hplace]
          have hstays := (kept_send ha horderly (envs i) peerId msg.payload).delete msg.id hplace
          exact hkept a hstays fun msg' hmsg' => hpending msg' (List.mem_cons_of_mem msg hmsg')
    | some e =>
      obtain ⟨horderly', hidentity', handed, hended, hkept⟩ := ih (t := t₁)
        (q := ⟨q.key, q.isOpen, q.table.incrementAttempt msg.id⟩) (i + 1) horderly₁ hidentity₁ hopen
      rw [flushEach_unsent hopen e hraised]
      refine ⟨horderly', hidentity', handed, hended, fun a ha hpending => ?_⟩
      have hstays := (kept_send ha horderly (envs i) peerId msg.payload).incrementAttempt msg.id
      exact hkept a hstays fun msg' hmsg' => hpending msg' (List.mem_cons_of_mem msg hmsg')

end Calls

/-- The table is in order, and every message of the ledger is where it says. -/
structure Sound (owner : DeviceIdentity) (s : System) : Prop where
  orderly : InFlightTable.Orderly s.node.transport
  identity : s.node.transport.identity = owner
  kept : ∀ a ∈ s.ledger, Kept C owner s.node.transport s.queue a

section Steps

variable {C} {owner : DeviceIdentity} {s : System}

theorem settle_of_acked {acked : Option (ℕ × String)} {a : Accepted} {m : ℕ}
    (hplace : a.place = .sent m) (h : acked = some (m, a.peerId)) :
    settle acked a = { a with place := .acknowledged } := by
  simp only [settle, hplace, if_pos h]

theorem settle_of_ne {acked : Option (ℕ × String)} {a : Accepted}
    (h : ∀ m, a.place = .sent m → acked ≠ some (m, a.peerId)) : settle acked a = a := by
  unfold settle
  split
  · rename_i m hplace
    exact if_neg (h m hplace)
  · rfl

theorem kept_transport (hs : Sound C owner s) (env : Env) (e : Event)
    (hspared : Spared C s (.transport env e)) (a : Accepted) (ha : a ∈ unexpired env.time s.ledger) :
    Kept C owner (s.node.step C env e).1.transport s.queue
      (settle (ackedBy C s.node.transport e) a) := by
  have hkept := hs.kept a (List.mem_filter.mp ha).1
  by_cases hacked : ∃ m, a.place = .sent m ∧ ackedBy C s.node.transport e = some (m, a.peerId)
  · obtain ⟨m, hplace, hacked⟩ := hacked
    rw [settle_of_acked hplace hacked]
    exact .acknowledged rfl
  · push Not at hacked
    rw [settle_of_ne hacked]
    refine hkept.of_transport fun m inf hplace hget => ?_
    refine next_entry s.node env e hs.orderly m inf hget fun hdrops => ?_
    exact hacked m hplace (hspared a ha m hplace hdrops)

theorem transport_sound_iff (hs : Sound C owner s) (env : Env) (e : Event) :
    Sound C owner (step C s (.transport env e)) ↔ Spared C s (.transport env e) := by
  constructor
  · intro hnext a ha m hplace hdrops
    by_contra hacked
    have hsame : settle (ackedBy C s.node.transport e) a = a := settle_of_ne fun m' hplace' => by
      cases hplace.symm.trans hplace'
      exact hacked
    have hkept := hnext.kept a (List.mem_map.mpr ⟨a, ha, hsame⟩)
    cases hkept with
    | queued id _ hqueued _ _ _ _ _ => cases hplace.symm.trans hqueued
    | acknowledged hacknowledged => cases hplace.symm.trans hacknowledged
    | sent m' inf hsent hget _ =>
      cases hplace.symm.trans hsent
      exact Option.some_ne_none inf (hget.symm.trans (next_dropped s.node env e hs.orderly m hdrops))
  · intro hspared
    refine ⟨orderly_step C s.node (env, e) hs.orderly,
      (nodeStep_sameDevice C s.node (env, e)).identity.trans hs.identity, fun b hb => ?_⟩
    obtain ⟨a, ha, rfl⟩ := List.mem_map.mp hb
    exact kept_transport hs env e hspared a ha

theorem sendOrQueue_sound (haead : C.AeadCorrect) (hs : Sound C owner s) (env : Env) (peerId : String)
    (payload : Bytes) : Sound C owner (step C s (.sendOrQueue env peerId payload)) := by
  let t := s.node.transport
  let pid := normalizePeerId peerId
  have hold : ∀ a ∈ unexpired env.time s.ledger, Kept C owner t s.queue a := fun a ha =>
    hs.kept a (List.mem_filter.mp ha).1
  have hsend : ∀ a ∈ unexpired env.time s.ledger,
      Kept C owner (send C env t pid payload).state s.queue a := fun a ha =>
    kept_send (hold a ha) hs.orderly env pid payload
  have horderly := orderly_send C env t pid payload hs.orderly
  have hidentity := (send_same C env t pid payload).identity.trans hs.identity
  have hending := sendOrQueue_ending C env t s.queue peerId payload
  rw [step]
  generalize sendOrQueue C env s.node.transport s.queue peerId payload = r at hending
  cases hending with
  | sent hraised =>
    refine ⟨horderly, hidentity, fun a ha => ?_⟩
    rcases List.mem_append.mp ha with ha | ha
    · exact hsend a ha
    · rw [List.mem_singleton.mp ha]
      exact kept_sent hs.identity env pid payload hraised rfl rfl
  | unsent e =>
    refine ⟨horderly, hidentity, fun a ha => ?_⟩
    rw [List.map_nil, List.append_nil] at ha
    exact hsend a ha
  | queued q' id henqueued =>
    obtain ⟨_, rfl⟩ := enqueueAt_ok henqueued
    refine ⟨hs.orderly, hs.identity, fun a ha => ?_⟩
    rcases List.mem_append.mp ha with ha | ha
    · exact (hold a ha).of_queue rfl fun row hrow _ _ =>
        ⟨row, List.mem_append_left _ hrow, rfl, rfl, rfl, rfl⟩
    · rw [List.mem_singleton.mp ha]
      let row : Row := ⟨s.queue.table.nextId, normalizePeerId pid,
        encryptPayload C (env.nonce 0) s.queue.key payload, env.time, env.time + ttlSeconds, 0⟩
      have hpayload := decryptPayload_encryptPayload C haead (env.nonce 0) s.queue.key payload
      have hrow : row ∈ (s.queue.table.insert (normalizePeerId pid)
          (encryptPayload C (env.nonce 0) s.queue.key payload) env.time (env.time + ttlSeconds)).rows :=
        List.mem_append_right _ (List.mem_singleton_self row)
      have hpeer : row.peerId = pid := by
        dsimp only [row]
        exact normalizePeerId_idem peerId
      exact .queued row.id row rfl hrow rfl hpeer rfl hpayload
  | refused e =>
    refine ⟨hs.orderly, hs.identity, fun a ha => ?_⟩
    rw [List.map_nil, List.append_nil] at ha
    exact hold a ha

theorem flushPeer_sound (hs : Sound C owner s) (now : ℚ) (envs : ℕ → Env) (peerId : String) :
    Sound C owner (step C s (.flushPeer now envs peerId)) := by
  have hold : ∀ a ∈ unexpired now s.ledger, Kept C owner s.node.transport s.queue a := fun a ha =>
    hs.kept a (List.mem_filter.mp ha).1
  rw [step, flushPeer]
  cases hpending : s.queue.getPending C now (normalizePeerId peerId) with
  | error e =>
    refine ⟨hs.orderly, hs.identity, fun b hb => ?_⟩
    obtain ⟨a, ha, rfl⟩ := List.mem_map.mp hb
    rw [handOver_nil]
    exact hold a ha
  | ok pending =>
    obtain ⟨hopen, hrows⟩ := getPending_ok hpending
    have hflushed := flushed_each (C := C) envs (normalizePeerId peerId) pending 0 hs.orderly
      hs.identity hopen
    dsimp only
    generalize flushEach C envs (normalizePeerId peerId) s.node.transport s.queue pending 0 = r
      at hflushed
    obtain ⟨horderly, hidentity, handed, hended, hkept⟩ := hflushed
    refine ⟨horderly, hidentity, fun b hb => ?_⟩
    rw [hended] at hb
    obtain ⟨a, ha, rfl⟩ := List.mem_map.mp hb
    refine hkept a (hold a ha) fun msg hmsg hplace => ?_
    -- the row the ledger means is the one that was read
    obtain ⟨row, hrow, hid, hpayload⟩ := hrows msg hmsg
    cases hold a ha with
    | queued id row' hplace' hrow' hid' _ _ hpayload' =>
      cases hplace.symm.trans hplace'
      rw [s.queue.table.row_unique hrow hrow' (hid.trans hid'.symm), hpayload'] at hpayload
      exact Except.ok.inj hpayload
    | sent _ _ hplace' _ _ => cases hplace.symm.trans hplace'
    | acknowledged hplace' => cases hplace.symm.trans hplace'

theorem purgeExpired_sound (hs : Sound C owner s) (now : ℚ) :
    Sound C owner (step C s (.purgeExpired now)) := by
  refine ⟨hs.orderly, hs.identity, fun a ha => ?_⟩
  obtain ⟨hmem, hlive⟩ := List.mem_filter.mp ha
  have hold := hs.kept a hmem
  rw [step, purgeExpired, assertOpen]
  by_cases hopen : s.queue.isOpen = true
  · rw [if_pos hopen]
    refine hold.of_queue rfl fun row hrow _ hexpires =>
      ⟨row, List.mem_filter.mpr ⟨hrow, ?_⟩, rfl, rfl, rfl, rfl⟩
    have hlt : now < row.expiresAt := by
      rw [hexpires]
      exact of_decide_eq_true hlive
    simp [hlt]
  · rw [if_neg hopen]
    exact hold

theorem step_sound_iff (haead : C.AeadCorrect) (hs : Sound C owner s) (l : Label) :
    Sound C owner (step C s l) ↔ Spared C s l := by
  cases l with
  | transport env e => exact transport_sound_iff hs env e
  | sendOrQueue env peerId payload =>
    exact iff_of_true (sendOrQueue_sound haead hs env peerId payload) trivial
  | flushPeer now envs peerId => exact iff_of_true (flushPeer_sound hs now envs peerId) trivial
  | purgeExpired now => exact iff_of_true (purgeExpired_sound hs now) trivial
  | openQueue | closeQueue =>
    exact iff_of_true ⟨hs.orderly, hs.identity, fun a ha => (hs.kept a ha).of_queue rfl
      fun row hrow _ _ => ⟨row, hrow, rfl, rfl, rfl, rfl⟩⟩ trivial

/-- The ledger is only beside the node: without it the node takes the same step. -/
theorem node_step (s : System) (l : Label) :
    (step C { s with ledger := [] } l).node = (step C s l).node := by
  cases l <;> rfl

theorem structure_step (haead : C.AeadCorrect) (l : Label)
    (h : InFlightTable.Orderly s.node.transport ∧ s.node.transport.identity = owner) :
    InFlightTable.Orderly (step C s l).node.transport ∧
      (step C s l).node.transport.identity = owner := by
  have hempty : Sound C owner { s with ledger := [] } :=
    ⟨h.1, h.2, fun a ha => absurd ha List.not_mem_nil⟩
  have hspared : Spared C { s with ledger := [] } l := by
    cases l with
    | transport env e => exact fun a ha => absurd ha List.not_mem_nil
    | _ => trivial
  have hnext := (step_sound_iff haead hempty l).mpr hspared
  rw [← node_step]
  exact ⟨hnext.orderly, hnext.identity⟩

theorem initial_structure (C : Suite) (h : Initial owner s) :
    InFlightTable.Orderly s.node.transport ∧ s.node.transport.identity = owner :=
  ⟨reachable_orderly C (.of_initial h.1), h.1.1.identity⟩

/-- In every state of a run every message accepted and not expired is in the queue, in flight or
acknowledged by its peer, if and only if no step takes one out of flight otherwise. -/
theorem kept_iff_spared (haead : C.AeadCorrect) (owner : DeviceIdentity) (s : System)
    (hs : Initial owner s) (labels : List Label) :
    (∀ done, done <+: labels → ∀ a ∈ (Runs.run (step C) s done).ledger,
      Kept C owner (Runs.run (step C) s done).node.transport (Runs.run (step C) s done).queue a) ↔
      Runs.Always (step C) (Spared C) s labels := by
  have hstructure := initial_structure C hs
  have hsound : Sound C owner s := ⟨hstructure.1, hstructure.2, fun a ha => by
    rw [hs.2] at ha
    contradiction⟩
  have hstep : ∀ s l, Sound C owner s → (Sound C owner (step C s l) ↔ Spared C s l) :=
    fun _ l hs' => step_sound_iff haead hs' l
  rw [← Runs.invariant_prefixes_iff hstep s labels hsound]
  refine forall_congr' fun done => imp_congr_right fun _ => ⟨fun hkept => ?_, fun hdone => hdone.kept⟩
  have hstays : ∀ s l, (InFlightTable.Orderly s.node.transport ∧ s.node.transport.identity = owner) →
      InFlightTable.Orderly (step C s l).node.transport ∧
        (step C s l).node.transport.identity = owner := fun _ l h => structure_step haead l h
  obtain ⟨horderly, hidentity⟩ := Runs.invariant_of_step hstays s done hstructure
  exact ⟨horderly, hidentity, hkept⟩

end Steps

section Stub

open Honest FragmentDelivery

theorem run_transport (s : System) (hledger : s.ledger = []) (events : List (Env × Event)) :
    Runs.run (step stub) s (events.map fun e => .transport e.1 e.2) =
      ⟨Runs.run (nodeStep stub) s.node events, s.queue, []⟩ := by
  induction events generalizing s with
  | nil =>
    rw [← hledger]
    rfl
  | cons e rest ih =>
    rw [List.map_cons, Runs.run_cons, ih _ (by rw [step, hledger]; rfl)]
    rfl

/-- A sweep that fires the failure callback for a msg_id drops its entry. -/
theorem drops_of_fired (n : Node) (env : Env) (h : InFlightTable.Orderly n.transport) (m : ℕ)
    (cb : Callback) (addr : Addr) (hfired : .sendFailed cb m addr ∈ (n.step stub env .retry).2) :
    Drops stub n env m .retry := by
  rw [effects_retry, retrySweep_effects] at hfired
  obtain ⟨inf, hinf, heffect⟩ := List.mem_flatMap.mp hfired
  obtain ⟨hget, hdue⟩ := (mem_due_iff h env inf).mp hinf
  unfold retryEffects at heffect
  split at heffect
  · rename_i hspent
    obtain ⟨cb', _, heq⟩ := List.mem_map.mp heffect
    obtain ⟨_, hid, _⟩ := Effect.sendFailed.inj heq
    rw [hid] at hget
    exact ⟨inf, hget, hdue, hspent⟩
  · cases mem_sendRaw _ _ _ _ heffect

def emptyQueue : ForwardQueue := ⟨sharedKey, true, .empty⟩

/-- Bravo is gone, and his session is not: the message is nowhere after three sweeps. -/
theorem silence_loses_message : ∃ (s : System) (labels : List Label) (m : ℕ), Initial alpha s ∧
    (Runs.run (step stub) s labels).ledger = [⟨"bravo", shortMessage, stillEnv.time, .sent m⟩] ∧
    (Runs.run (step stub) s labels).node.transport.inFlight.get? m = none ∧
    (Runs.run (step stub) s labels).queue.table.rows = [] := by
  obtain ⟨a, session, events, addr, hreach, hsession, hsendable, _, hfired, rfl⟩ :=
    exists_fired shortMessage (by decide)
  obtain ⟨n₀, before, hn₀, hrun⟩ := hreach
  let m := a.transport.msgIdCounter
  let final : List Label := [.sendOrQueue stillEnv "bravo" shortMessage, .transport (later 10) .retry,
    .transport (later 20) .retry, .transport (later 30) .retry]
  have hraised := (send_raised_iff stub stillEnv a.transport "bravo" shortMessage session hsession).mpr
    hsendable
  have hname : normalizePeerId "bravo" = "bravo" := by decide
  let accepted : Accepted := ⟨"bravo", shortMessage, stillEnv.time, .sent m⟩
  have hsent : step stub ⟨a, emptyQueue, []⟩ (.sendOrQueue stillEnv "bravo" shortMessage) =
      ⟨nodeStep stub a (stillEnv, .send "bravo" shortMessage), emptyQueue, [accepted]⟩ := by
    simp only [step, sendOrQueue, hname, hsession, Option.isSome_some, if_true, hraised]
    rfl
  have hsweep : ∀ (n : Node) (seconds : ℚ), step stub ⟨n, emptyQueue, [accepted]⟩
      (.transport (later seconds) .retry) =
        ⟨nodeStep stub n (later seconds, .retry), emptyQueue, [accepted]⟩ := by
    intro n seconds
    have hlive : unexpired (later seconds).time [accepted] = [accepted] := by
      have hlt : (later seconds).time < accepted.acceptedAt + ttlSeconds := by
        norm_num [later, accepted, stillEnv, ttlSeconds]
      simp [unexpired, hlt]
    rw [step, hlive]
    rfl
  have hend : Runs.run (step stub) ⟨n₀, emptyQueue, []⟩
      (before.map (fun e => .transport e.1 e.2) ++ final) =
        ⟨nodeStep stub (Runs.run (nodeStep stub) (nodeStep stub a (stillEnv, .send "bravo" shortMessage))
          [(later 10, .retry), (later 20, .retry)]) (later 30, .retry), emptyQueue, [accepted]⟩ := by
    rw [Runs.run_append, run_transport _ rfl, hrun, Runs.run_cons, hsent, Runs.run_cons, hsweep,
      Runs.run_cons, hsweep, Runs.run_cons, hsweep, Runs.run_nil, Runs.run_cons, Runs.run_cons,
      Runs.run_nil]
  have ha : Nodes.Reachable stub alpha a := ⟨n₀, before, hn₀, hrun⟩
  have hlast := (ha.next (stillEnv, .send "bravo" shortMessage)).run
    [(later 10, .retry), (later 20, .retry)]
  generalize Runs.run (nodeStep stub) (nodeStep stub a (stillEnv, .send "bravo" shortMessage))
    [(later 10, .retry), (later 20, .retry)] = last at hend hfired hlast
  have horderly := reachable_orderly stub hlast
  have hgone : (nodeStep stub last (later 30, .retry)).transport.inFlight.get? m = none :=
    next_dropped last (later 30) .retry horderly m
      (drops_of_fired last (later 30) horderly m 0 addr hfired)
  refine ⟨⟨n₀, emptyQueue, []⟩, before.map (fun e => .transport e.1 e.2) ++ final, m, ⟨hn₀, rfl⟩, ?_⟩
  rw [hend]
  exact ⟨rfl, hgone, rfl⟩

/-- A message to alpha, at this place. -/
def greeting (place : Place) : Accepted := ⟨"alpha", shortMessage, stillEnv.time, place⟩

/-- The queue with the greeting in it, and after it has gone out. -/
def greetedQueue : ForwardQueue :=
  ⟨sharedKey, true, emptyQueue.table.insert "alpha"
    (encryptPayload stub (stillEnv.nonce 0) sharedKey shortMessage) stillEnv.time
    (stillEnv.time + ttlSeconds)⟩

def drainedQueue : ForwardQueue :=
  ⟨sharedKey, true, greetedQueue.table.delete fun row => row.id = 1⟩

theorem live_greeting (place : Place) :
    unexpired stillEnv.time [greeting place] = [greeting place] := by
  have hlt : stillEnv.time < (greeting place).acceptedAt + ttlSeconds := by
    norm_num [greeting, stillEnv, ttlSeconds]
  simp [unexpired, hlt]

theorem name_alpha : normalizePeerId "alpha" = "alpha" := by decide

/-- Offline, alpha's message is queued. -/
theorem step_greeting (n : Node) (hoffline : n.transport.sessions.get? "alpha" = none) :
    step stub ⟨n, emptyQueue, []⟩ (.sendOrQueue stillEnv "alpha" shortMessage) =
      ⟨n, greetedQueue, [greeting (.queued 1)]⟩ := by
  have hsize : emptyQueue.queueSize stillEnv.time (normalizePeerId "alpha") = .ok 0 := by
    decide +kernel
  have henqueue := enqueue_room (C := stub) stillEnv.time "alpha" rfl hsize (by decide)
    (stillEnv.nonce 0) shortMessage
  rw [name_alpha] at henqueue
  simp only [step, sendOrQueue, name_alpha, hoffline, Option.isSome_none, Bool.false_eq_true,
    if_false, henqueue]
  rfl

/-- It stays there while packets arrive. -/
theorem step_waiting (n : Node) (e : Event) :
    step stub ⟨n, greetedQueue, [greeting (.queued 1)]⟩ (.transport stillEnv e) =
      ⟨nodeStep stub n (stillEnv, e), greetedQueue, [greeting (.queued 1)]⟩ := by
  rw [step, live_greeting]
  rfl

theorem spared_waiting (n : Node) (e : Event) :
    Spared stub ⟨n, greetedQueue, [greeting (.queued 1)]⟩ (.transport stillEnv e) := by
  intro a ha m hplace
  rw [live_greeting, List.mem_singleton] at ha
  rw [ha] at hplace
  contradiction

/-- The flush hands it to the transport. -/
theorem step_flushed (n : Node) (hcounter : n.transport.msgIdCounter = 1)
    (hraised : (send stub stillEnv n.transport "alpha" shortMessage).raised = none) :
    step stub ⟨n, greetedQueue, [greeting (.queued 1)]⟩
        (.flushPeer stillEnv.time (fun _ => stillEnv) "alpha") =
      ⟨nodeStep stub n (stillEnv, .send "alpha" shortMessage), drainedQueue,
        [greeting (.sent 1)]⟩ := by
  let msg : QueuedMessage := ⟨1, "alpha", shortMessage, 0, 86400, 0⟩
  have hpending : greetedQueue.getPending stub stillEnv.time "alpha" = .ok [msg] := by
    decide +kernel
  have hflush : flushEach stub (fun _ => stillEnv) "alpha" n.transport greetedQueue [msg] 0 = _ :=
    flushEach_sent rfl hraised
  simp only [step, flushPeer, name_alpha, hpending, hflush, hcounter, live_greeting]
  rfl

/-- Alpha's ACK settles it. -/
theorem step_acked (n : Node) (data : Bytes)
    (hack : ackedBy stub n.transport (.datagram data alphaAddr) = some (1, "alpha")) :
    step stub ⟨n, drainedQueue, [greeting (.sent 1)]⟩ (.transport stillEnv (.datagram data alphaAddr)) =
      ⟨nodeStep stub n (stillEnv, .datagram data alphaAddr), drainedQueue,
        [greeting .acknowledged]⟩ := by
  rw [step, live_greeting, hack]
  rfl

theorem spared_acked (n : Node) (data : Bytes)
    (hack : ackedBy stub n.transport (.datagram data alphaAddr) = some (1, "alpha")) :
    Spared stub ⟨n, drainedQueue, [greeting (.sent 1)]⟩
      (.transport stillEnv (.datagram data alphaAddr)) := by
  intro a ha m hplace _
  rw [live_greeting, List.mem_singleton] at ha
  rw [ha] at hplace ⊢
  cases hplace
  exact hack

/-- Queued for alpha, who connects: the flush sends the message and his ACK settles it. -/
theorem kept_iff_spared_delivered : ∃ (s : System) (labels : List Label), Initial bravo s ∧
    (Runs.run (step stub) s labels).ledger = [greeting .acknowledged] ∧
    ∀ done, done <+: labels → ∀ a ∈ (Runs.run (step stub) s done).ledger,
      Kept stub bravo (Runs.run (step stub) s done).node.transport
        (Runs.run (step stub) s done).queue a := by
  obtain ⟨n, hn, hidentity⟩ := exists_started
  obtain ⟨wire, _, _, hwire⟩ := announced_wire stub alpha honest_alpha
  let announce : Event := .datagram (frame .handshake sid wire zeroMac) alphaAddr
  let keyInit : Event := .datagram (frame .keyInit sid (repeated 0).toList zeroMac) alphaAddr
  obtain ⟨hest, htraffic⟩ := node_announce_then_keyInit stub stillEnv stillEnv n alphaAddr sid wire
    _ (repeated 0) _ (started_wellFormed bravo n hn) hwire (stub_kemDecapsulate (repeated 0) _ _ _)
  have hoffline : n.transport.sessions.get? "alpha" = none := by
    rw [hn.1.sessions]
    rfl
  have hconnected : Runs.run (nodeStep stub) n [(stillEnv, announce), (stillEnv, keyInit)] =
    nodeStep stub (nodeStep stub n (stillEnv, announce)) (stillEnv, keyInit) := rfl
  rw [hconnected] at hest htraffic
  generalize hpeer : nodeStep stub (nodeStep stub n (stillEnv, announce)) (stillEnv, keyInit) = n₂
    at hest htraffic
  obtain ⟨session, hholds, _⟩ := holds_of_established hest
  have hcounter : n₂.transport.msgIdCounter = 1 := htraffic.msgIdCounter.trans hn.1.msgIdCounter
  have hraised : (send stub stillEnv n₂.transport "alpha" shortMessage).raised = none :=
    (send_raised_iff stub stillEnv n₂.transport "alpha" shortMessage session hholds.session).mpr
      (sendable_first stub stillEnv session.sessionKey hcounter (by decide))
  -- sending leaves the session as it is, and alpha acknowledges in it
  have hkept := send_same stub stillEnv n₂.transport "alpha" shortMessage
  let n₃ := nodeStep stub n₂ (stillEnv, .send "alpha" shortMessage)
  have hest₃ : Established n₃.transport alphaAddr _ (getPublicBundle stub alpha) :=
    ⟨(congrArg (·.get? alphaAddr) hkept.sessionsByAddr).trans hest.byAddr,
      (hkept.bound _).trans hest.session⟩
  obtain ⟨session₃, hholds₃, _⟩ := holds_of_established hest₃
  have hack := ackedBy_ackPacket stub hholds₃ sid 1 (by decide)
  refine ⟨⟨n, emptyQueue, []⟩, [.sendOrQueue stillEnv "alpha" shortMessage,
    .transport stillEnv announce, .transport stillEnv keyInit,
    .flushPeer stillEnv.time (fun _ => stillEnv) "alpha",
    .transport stillEnv (.datagram (ackPacket stub sid session₃.sessionKey 1) alphaAddr)],
    ⟨hn, rfl⟩, ?_, ?_⟩
  · rw [Runs.run_cons, step_greeting n hoffline, Runs.run_cons, step_waiting, Runs.run_cons,
      step_waiting, hpeer, Runs.run_cons, step_flushed n₂ hcounter hraised, Runs.run_cons,
      step_acked n₃ _ hack, Runs.run_nil]
  · refine (kept_iff_spared stub_aeadCorrect bravo ⟨n, emptyQueue, []⟩ ⟨hn, rfl⟩ _).mpr
      ⟨trivial, ?_⟩
    rw [step_greeting n hoffline]
    refine ⟨spared_waiting n announce, ?_⟩
    rw [step_waiting]
    refine ⟨spared_waiting _ keyInit, ?_⟩
    rw [step_waiting, hpeer]
    refine ⟨trivial, ?_⟩
    rw [step_flushed n₂ hcounter hraised]
    exact ⟨spared_acked n₃ _ hack, trivial⟩

end Stub

end Mesim.Custody
