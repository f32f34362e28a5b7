import Mesim.PeerHistory
import Mesim.PeerNames
import Mesim.QueueRuns

/-!
What comes of a message that the command line has queued.
`_cmd_send` looks for a session that the argument starts and otherwise hands the
argument on as it was typed. The queue knows a whole id, with or without hyphens; a
part of one it takes for another peer, whose connection never comes. Whatever happens
later, a message is only ever handed over for a session that the argument denotes.
-/
namespace Mesim.QueuedDelivery

open Octets TextCodec Crypto Identity Packet Transport Operations Dispatch Nodes ForwardQueue
open FifoQueue Flush StoreForward SendOrder PeerHistory QueueEntries QueueRuns
open OriginatorSignatures MessageLog Reassembly

section Model

/-- What `_cmd_send` prints, or the exception that it lets through. -/
inductive Report where
  | ambiguous
  | error (e : PyError)
  | delivered
  | queued
  | raised (e : PyError)
  deriving DecidableEq

/-- What it leaves behind, with the number of its call of send_or_queue(). -/
structure Sent where
  system : SendOrder.System
  store : MessageStore
  call : Option ℕ
  report : Report

variable (C : Suite) (cb : Callback)

def cmdSend (env : Env) (s : SendOrder.System) (store : MessageStore) (now : ℚ) (nonce : Nonce)
    (peerId message : String) : Sent :=
  let payload := encodeUtf8 message
  match resolve s.node.transport.sessions.keys peerId with
  | none => ⟨s, store, none, .ambiguous⟩
  | some peerId =>
    let s' := SendOrder.step C cb s (.sendOrQueue env peerId payload)
    match (sendOrQueue C env s.node.transport s.queue peerId payload).ended with
    | .error e => ⟨s', store, some s.calls, .error e⟩
    | .ok delivered =>
      let saved := store.saveMessage C now nonce peerId "sent" payload none
      match saved.1 with
      | .error e => ⟨s', saved.2, some s.calls, .raised e⟩
      | .ok _ => ⟨s', saved.2, some s.calls, if delivered then .delivered else .queued⟩

/-- The argument is an id of the peer, or the first eight characters or more of one. -/
def Denotes (peerId deviceId : String) : Prop :=
  ∃ name, normalizePeerId name = normalizePeerId deviceId ∧
    (name = peerId ∨ 8 ≤ peerId.length ∧ peerId.toList <+: name.toList)

/-- The argument is a whole id, or the start of the id of a session that goes by the device id
without its hyphens. -/
def Addresses (sessions : List String) (peerId deviceId : String) : Prop :=
  normalizePeerId peerId = deviceId ∨
    peerId ∉ sessions ∧ 8 ≤ peerId.length ∧
      ∃ pid ∈ sessions, peerId.toList <+: pid.toList ∧ normalizePeerId pid = deviceId

/-- The peer's queue is not flushed, and nothing is purged at or after this time. -/
def Spares (deviceId : String) (expiresAt : ℚ) : SendOrder.System → Happening → Prop :=
  Allows (fun now => now < expiresAt) (fun pid => normalizePeerId pid ≠ deviceId)

/-- How many of the peer's rows come before this one. -/
def ahead (q : ForwardQueue) (now : ℚ) (peerId : String) (id : ℕ) : ℕ :=
  (q.table.select Row.queuedAt (isLive peerId now)).findIdx fun row => row.id = id

/-- flush_peer() sends the row. -/
def FlushSends (s : SendOrder.System) (now : ℚ) (envs : ℕ → Env) (peerId : String) (id : ℕ) : Prop :=
  ∃ sent, (flushPeer C now envs s.node.transport s.queue peerId).ended = .ok sent ∧
    id ∈ sent.map Prod.fst

variable {C} {cb}

/-- The same command as in the history of a peer. -/
theorem cmdSend_history (env : Env) (s : SendOrder.System) (h : PeerHistory.System)
    (hnode : s.node = h.node) (hqueue : s.queue = h.queue) (now : ℚ) (nonce : Nonce)
    (peerId message : String) :
    let out := cmdSend C cb env s h.store now nonce peerId message
    let out' := PeerHistory.cmdSend C env h now nonce peerId message
    out.system.node = out'.node ∧ out.system.queue = out'.queue ∧ out.store = out'.store := by
  simp only [cmdSend, PeerHistory.cmdSend, hnode, hqueue]
  cases hresolve : resolve h.node.transport.sessions.keys peerId with
  | none => exact ⟨hnode, hqueue, rfl⟩
  | some pid =>
    simp only [sendAndSave, filedUnder, hresolve, Option.getD_some]
    cases hended : (sendOrQueue C env h.node.transport h.queue pid (encodeUtf8 message)).ended with
    | error e => simp only [SendOrder.step, hnode, hqueue, and_self]
    | ok delivered =>
      simp only [save, filedUnder, hresolve, Option.getD_some]
      cases hsaved : (h.store.saveMessage C now nonce pid "sent" (encodeUtf8 message) none).1 with
      | error e => simp only [SendOrder.step, hnode, hqueue, and_self]
      | ok id => simp only [SendOrder.step, hnode, hqueue, and_self]

end Model

section Resolving

variable {sessions : List String} {peerId pid : String}

theorem resolve_cases (h : resolve sessions peerId = some pid) :
    (pid = peerId ∧ (peerId ∈ sessions ∨
      ∀ other ∈ sessions, 8 ≤ peerId.length → ¬ peerId.toList <+: other.toList)) ∨
    (peerId ∉ sessions ∧ 8 ≤ peerId.length ∧ pid ∈ sessions ∧ peerId.toList <+: pid.toList ∧
      ∀ other ∈ sessions, peerId.toList <+: other.toList → other = pid) := by
  unfold resolve at h
  split at h
  · rename_i hmem
    exact Or.inl ⟨(Option.some.inj h).symm, Or.inl (List.contains_iff_mem.mp hmem)⟩
  · rename_i hmem
    have hnot : peerId ∉ sessions := fun hin => hmem (List.contains_iff_mem.mpr hin)
    split at h
    · rename_i hlong
      have hstarts : ∀ other ∈ sessions, peerId.toList <+: other.toList →
          other ∈ sessions.filter fun pid => peerId.toList.isPrefixOf pid.toList :=
        fun other hother hstart => List.mem_filter.mpr ⟨hother, List.isPrefixOf_iff_prefix.mpr hstart⟩
      split at h
      · rename_i hnone
        refine Or.inl ⟨(Option.some.inj h).symm, Or.inr fun other hother _ hstart => ?_⟩
        have hin := hstarts other hother hstart
        rw [hnone] at hin
        contradiction
      · rename_i match' hone
        cases h
        have hin : pid ∈ sessions.filter fun pid => peerId.toList.isPrefixOf pid.toList := by
          rw [hone]
          exact List.mem_cons_self
        obtain ⟨hmem', hstart⟩ := List.mem_filter.mp hin
        refine Or.inr ⟨hnot, hlong, hmem', List.isPrefixOf_iff_prefix.mp hstart, ?_⟩
        intro other hother hstart'
        have hin' := hstarts other hother hstart'
        rw [hone] at hin'
        exact List.mem_singleton.mp hin'
      · contradiction
    · rename_i hshort
      exact Or.inl ⟨(Option.some.inj h).symm, Or.inr fun _ _ hlong => absurd hlong hshort⟩

/-- Whatever the argument is taken for, it denotes. -/
theorem denotes_resolve (h : resolve sessions peerId = some pid) :
    Denotes peerId (normalizePeerId pid) := by
  refine ⟨pid, (normalizePeerId_idem pid).symm, ?_⟩
  rcases resolve_cases h with ⟨rfl, _⟩ | ⟨_, hlong, _, hstart, _⟩
  · exact Or.inl rfl
  · exact Or.inr ⟨hlong, hstart⟩

/-- Only a text of 32 characters has another normal form. -/
theorem length_of_normalizes {p : String} (h : normalizePeerId p ≠ p) : p.length = 32 := by
  by_contra hlen
  apply h
  rw [normalizePeerId]
  split
  · rfl
  · exact if_neg fun hboth => hlen hboth.1

/-- Of an argument that has come to a peer without a session, the queue knows a whole id only. -/
theorem resolve_addresses_iff (h : resolve sessions peerId = some pid)
    (hoffline : normalizePeerId pid ∉ sessions) {deviceId : String} (hdevice : UuidText deviceId) :
    normalizePeerId pid = deviceId ↔ Addresses sessions peerId deviceId := by
  rcases resolve_cases h with ⟨rfl, hnone⟩ | ⟨hnot, hlong, hpid, hstart, hone⟩
  · refine ⟨Or.inl, ?_⟩
    rintro (hwhole | ⟨hnot, hlong, other, hother, hstart, _⟩)
    · exact hwhole
    · rcases hnone with hin | hnone
      · exact absurd hin hnot
      · exact absurd hstart (hnone other hother hlong)
  · constructor
    · exact fun heq => Or.inr ⟨hnot, hlong, pid, hpid, hstart, heq⟩
    · rintro (hwhole | ⟨_, _, other, hother, hstart', heq⟩)
      · -- The session would have to go by a proper extension of a whole id, of 32 characters.
        have hchanged : normalizePeerId pid ≠ pid := fun heq => hoffline (heq.symm ▸ hpid)
        have hpidLength := length_of_normalizes hchanged
        have hne : peerId.length ≠ pid.length := by
          intro heq
          rw [← String.length_toList, ← String.length_toList] at heq
          have hsame := String.toList_injective (hstart.eq_of_length heq)
          exact hnot (hsame ▸ hpid)
        have hle : peerId.length ≤ pid.length := by
          rw [← String.length_toList, ← String.length_toList]
          exact hstart.length_le
        have hself : normalizePeerId peerId = peerId := by
          by_contra hother
          have hpeerLength := length_of_normalizes hother
          omega
        obtain ⟨digits, hdigits, _, hdevice⟩ := hdevice
        have hwide := length_uuidText hdigits
        rw [← hdevice, ← hwhole, hself, String.length_toList] at hwide
        omega
      · rw [← hone other hother hstart']
        exact heq

end Resolving

section Sending

variable {C : Suite} {cb : Callback} {s : SendOrder.System} {store : MessageStore}
variable {env : Env} {now : ℚ} {nonce : Nonce} {peerId pid message : String}

theorem cmdSend_ambiguous (h : resolve s.node.transport.sessions.keys peerId = none) :
    (cmdSend C cb env s store now nonce peerId message).system = s ∧
      (cmdSend C cb env s store now nonce peerId message).call = none ∧
      (cmdSend C cb env s store now nonce peerId message).report = .ambiguous := by
  simp only [cmdSend, h, and_self]

theorem cmdSend_resolved (h : resolve s.node.transport.sessions.keys peerId = some pid) :
    (cmdSend C cb env s store now nonce peerId message).system =
        SendOrder.step C cb s (.sendOrQueue env pid (encodeUtf8 message)) ∧
      (cmdSend C cb env s store now nonce peerId message).call = some s.calls ∧
      ((cmdSend C cb env s store now nonce peerId message).report = .queued →
        (sendOrQueue C env s.node.transport s.queue pid (encodeUtf8 message)).ended = .ok false) := by
  simp only [cmdSend, h]
  cases (sendOrQueue C env s.node.transport s.queue pid (encodeUtf8 message)).ended with
  | error e => exact ⟨rfl, rfl, fun h => by contradiction⟩
  | ok delivered =>
    cases (store.saveMessage C now nonce pid "sent" (encodeUtf8 message) none).1 with
    | error e => exact ⟨rfl, rfl, fun h => by contradiction⟩
    | ok id =>
      refine ⟨rfl, rfl, fun h => ?_⟩
      cases delivered with
      | true => contradiction
      | false => rfl

/-- A call that files its message has found no session, and room in an open queue. -/
theorem filed_of_queued {payload : Bytes}
    (h : (sendOrQueue C env s.node.transport s.queue pid payload).ended = .ok false) :
    s.node.transport.sessions.get? (normalizePeerId pid) = none ∧ s.queue.isOpen = true ∧
      (sendOrQueue C env s.node.transport s.queue pid payload).queue =
        ⟨s.queue.key, s.queue.isOpen, s.queue.table.insert (normalizePeerId pid)
          (encryptPayload C (env.nonce 0) s.queue.key payload) env.time (env.time + ttlSeconds)⟩ := by
  unfold sendOrQueue at h ⊢
  dsimp only at h ⊢
  split at h
  · split at h
    · cases h
    · cases h
  · rename_i hoffline
    rw [if_neg hoffline]
    cases henqueue : s.queue.enqueue C env.time (env.nonce 0) (normalizePeerId pid) payload with
    | error e =>
      rw [henqueue] at h
      cases h
    | ok out =>
      obtain ⟨q', id⟩ := out
      obtain ⟨_, rfl⟩ := enqueueAt_ok henqueue
      rw [normalizePeerId_idem]
      refine ⟨Option.not_isSome_iff_eq_none.mp hoffline, ?_, rfl⟩
      by_contra hclosed
      rw [enqueue, ForwardQueue.enqueueAt, assertOpen_closed (Bool.not_eq_true _ ▸ hclosed)] at henqueue
      cases henqueue

/-- Its rows and the messages handed over are numbered below the calls made. -/
structure Counted (s : SendOrder.System) : Prop where
  rows : ∀ row ∈ s.queue.table.rows, s.callOf row.id < s.calls
  handed : ∀ entry ∈ s.handed, entry.2 < s.calls

theorem counted_run {s₀ : SendOrder.System} (hinit : Initial s₀) (happenings : List Happening) :
    Counted (Runs.run (happen C cb) s₀ happenings) := by
  have hstepped : Stepped s₀ (Runs.run (happen C cb) s₀ happenings) := stepped_run s₀ happenings
  have hnone : ∀ row, row ∉ s₀.queue.table.rows := by
    rw [hinit.1]
    exact fun row => List.not_mem_nil
  constructor
  · intro row hrow
    rcases hstepped.rows row hrow with ⟨old, hold, _⟩ | ⟨_, _, hlt⟩
    · exact absurd hold (hnone old)
    · exact hlt
  · intro entry hentry
    rcases hstepped.handed entry hentry with hold | ⟨_, hlt⟩ | ⟨row, hrow, _⟩
    · rw [hinit.2] at hold
      contradiction
    · exact hlt
    · exact absurd hrow (hnone row)

/-- What a call of send_or_queue() files or hands over under its own number is for its peer. -/
structure OwnPeer (s s' : SendOrder.System) (peerId : String) : Prop where
  row : ∀ row ∈ s'.queue.table.rows, row.id = s.queue.table.nextId → row.peerId = peerId
  call : ∀ row ∈ s'.queue.table.rows, s'.callOf row.id = s.calls → row.peerId = peerId
  handed : ∀ entry ∈ s'.handed, entry.2 = s.calls → entry.1 = peerId
  calls : s.calls < s'.calls

theorem ownPeer_sendOrQueue (h : Counted s) (payload : Bytes) :
    OwnPeer s (SendOrder.step C cb s (.sendOrQueue env pid payload)) (normalizePeerId pid) := by
  have hrow : ∀ row ∈ s.queue.table.rows, row.id = s.queue.table.nextId →
      row.peerId = normalizePeerId pid := fun row hrow hid =>
    absurd hid (Nat.ne_of_lt (s.queue.table.below row hrow))
  have hcall : ∀ row ∈ s.queue.table.rows, s.callOf row.id = s.calls →
      row.peerId = normalizePeerId pid := fun row hrow hcall =>
    absurd hcall (Nat.ne_of_lt (h.rows row hrow))
  have hhanded : ∀ entry ∈ s.handed, entry.2 = s.calls → entry.1 = normalizePeerId pid :=
    fun entry hentry hcall => absurd hcall (Nat.ne_of_lt (h.handed entry hentry))
  simp only [SendOrder.step, sendOrQueue]
  by_cases hsession : (s.node.transport.sessions.get? (normalizePeerId pid)).isSome = true
  · simp only [if_pos hsession]
    have hhanded' : ∀ entry ∈ s.handed ++ [(normalizePeerId pid, s.calls)], entry.2 = s.calls →
        entry.1 = normalizePeerId pid := by
      intro entry hentry
      rcases List.mem_append.mp hentry with hold | hnew
      · exact hhanded entry hold
      · rw [List.mem_singleton.mp hnew]
        exact fun _ => rfl
    cases (send C env s.node.transport (normalizePeerId pid) payload).raised with
    | none => exact ⟨hrow, hcall, hhanded', Nat.lt_succ_self _⟩
    | some e => exact ⟨hrow, hcall, hhanded', Nat.lt_succ_self _⟩
  · simp only [if_neg hsession]
    cases henqueue : s.queue.enqueue C env.time (env.nonce 0) (normalizePeerId pid) payload with
    | error e => exact ⟨hrow, hcall, hhanded, Nat.lt_succ_self _⟩
    | ok out =>
      obtain ⟨q', id⟩ := out
      obtain ⟨_, rfl⟩ := enqueueAt_ok henqueue
      rw [normalizePeerId_idem]
      refine ⟨fun row hmem hid => ?_, fun row hmem hcalled => ?_, hhanded, Nat.lt_succ_self _⟩
      · rcases List.mem_append.mp hmem with hold | hnew
        · exact hrow row hold hid
        · rw [List.mem_singleton.mp hnew]
      · rcases List.mem_append.mp hmem with hold | hnew
        · refine hcall row hold ?_
          rw [← hcalled]
          exact (Function.update_of_ne (Nat.ne_of_lt (s.queue.table.below row hold)) _ _).symm
        · rw [List.mem_singleton.mp hnew]

end Sending

section Results

variable {C : Suite} {cb : Callback}

/-- A run hands the message of a call over for the peer of that call only. -/
theorem OwnPeer.handed_run {s s' : SendOrder.System} {peerId : String} (h : OwnPeer s s' peerId)
    (later : List Happening) :
    ∀ entry ∈ (Runs.run (happen C cb) s' later).handed, entry.2 = s.calls → entry.1 = peerId := by
  intro entry hentry hcall
  have hcalls := h.calls
  rcases (stepped_run s' later).handed entry hentry with hold | ⟨hle, _⟩ | ⟨row, hrow, rfl⟩
  · exact h.handed entry hold hcall
  · omega
  · exact h.call row hrow hcall

/-- The one row with the number that the call has filed is its own. -/
theorem OwnPeer.row_run {s s' : SendOrder.System} {peerId : String} (h : OwnPeer s s' peerId)
    (hissued : s.queue.table.nextId < s'.queue.table.nextId) (later : List Happening) :
    ∀ row ∈ (Runs.run (happen C cb) s' later).queue.table.rows,
      row.id = s.queue.table.nextId → row.peerId = peerId := by
  intro row hrow hid
  rcases (stepped_run s' later).rows row hrow with ⟨old, hold, hsame, hpeer, _⟩ | ⟨hle, _⟩
  · rw [hpeer]
    exact h.row old hold (hsame.symm.trans hid)
  · omega

/-- The messages of a flush, when every row decrypts. -/
theorem flushSends_iff {s : SendOrder.System} (hdecrypts : Decrypts C s.queue)
    (hopen : s.queue.isOpen = true) (now : ℚ) (envs : ℕ → Env) (peerId : String) (id : ℕ) :
    FlushSends C s now envs peerId id ↔
      ∃ k msg, ((s.queue.table.select Row.queuedAt (isLive (normalizePeerId peerId) now)).map
          (messageOf C s.queue.key))[k]? = some msg ∧ msg.id = id ∧
        GoesOut C s.node.transport (normalizePeerId peerId) k msg.payload := by
  have hpending := getPending_eq hdecrypts hopen now (normalizePeerId peerId)
  rw [normalizePeerId_idem] at hpending
  obtain ⟨sent, hended, hiff⟩ := flushEach_sent_iff (C := C) envs (normalizePeerId peerId)
    s.node.transport s.queue _ 0 hopen
  rw [← hiff]
  simp only [FlushSends, flushPeer, hpending]
  constructor
  · rintro ⟨sent', hended', hmem⟩
    cases Except.ok.inj (hended.symm.trans hended')
    exact hmem
  · exact fun hmem => ⟨sent, hended, hmem⟩

/-- The turn of a row among the rows of a peer. -/
theorem turn_iff {rows : List Row} (hids : (rows.map Row.id).Nodup) {row : Row} (hrow : row ∈ rows)
    (key : SessionKey) (P : ℕ → Bytes → Prop) :
    (∃ k msg, (rows.map (messageOf C key))[k]? = some msg ∧ msg.id = row.id ∧ P k msg.payload) ↔
      P (rows.findIdx fun r => r.id = row.id) (messageOf C key row).payload := by
  have hfound : rows.findIdx (fun r => r.id = row.id) < rows.length :=
    List.findIdx_lt_length_of_exists ⟨row, hrow, decide_eq_true rfl⟩
  have hat : rows[rows.findIdx fun r => r.id = row.id] = row := by
    have hid : (rows[rows.findIdx fun r => r.id = row.id]).id = row.id :=
      of_decide_eq_true (List.findIdx_getElem (w := hfound))
    exact List.inj_on_of_nodup_map hids (List.getElem_mem hfound) hrow hid
  constructor
  · rintro ⟨k, msg, hmsg, hid, hP⟩
    rw [List.getElem?_map] at hmsg
    obtain ⟨r, hr, rfl⟩ := Option.map_eq_some_iff.mp hmsg
    obtain ⟨hk, hget⟩ := List.getElem?_eq_some_iff.mp hr
    have hrow' : r = row :=
      List.inj_on_of_nodup_map hids (hget ▸ List.getElem_mem hk) hrow hid
    have hsame : k = rows.findIdx fun r => r.id = row.id := by
      have hnodup : rows.Nodup := hids.of_map Row.id
      have hsame : rows[k] = rows[rows.findIdx fun r => r.id = row.id] := by rw [hget, hrow', hat]
      exact hnodup.getElem_inj_iff.mp hsame
    rw [← hsame, ← hrow']
    exact hP
  · intro hP
    refine ⟨_, _, ?_, rfl, hP⟩
    rw [List.getElem?_map, List.getElem?_eq_getElem hfound, hat]
    rfl

/-- A message that waits for its peer is sent by a flush when its turn finds it sendable. -/
theorem flushSends_waiting_iff {s : SendOrder.System} (hdecrypts : Decrypts C s.queue)
    (hopen : s.queue.isOpen = true) {f : Filing} (hwaits : Waits C s.queue f)
    (hnormal : normalizePeerId f.peerId = f.peerId) (now : ℚ) (hlive : now < f.expiresAt)
    (envs : ℕ → Env) :
    FlushSends C s now envs f.peerId f.id ↔
      GoesOut C s.node.transport f.peerId (ahead s.queue now f.peerId f.id) f.payload := by
  obtain ⟨row, hrow, hid, hpeer, hend, hpayload⟩ := hwaits
  have hisLive : isLive f.peerId now row = true := by
    rw [isLive, hpeer, hend, decide_eq_true rfl, decide_eq_true hlive]
    rfl
  have hselected : row ∈ s.queue.table.select Row.queuedAt (isLive f.peerId now) :=
    (IdTable.mem_select _ _ _).mpr ⟨hrow, hisLive⟩
  rw [flushSends_iff hdecrypts hopen, hnormal, ← hid, ahead, ← messageOf_payload hpayload]
  exact turn_iff (s.queue.table.nodup_select _) hselected s.queue.key
    fun k payload => GoesOut C s.node.transport f.peerId k payload

/-- What a call leaves that has filed its message for a peer. -/
structure FiledFor (C : Suite) (s s' : SendOrder.System) (peerId : String) (payload : Bytes)
    (expiresAt : ℚ) : Prop where
  own : OwnPeer s s' peerId
  issued : s.queue.table.nextId < s'.queue.table.nextId
  waits : Waits C s'.queue ⟨s.queue.table.nextId, peerId, payload, expiresAt⟩
  decrypts : Decrypts C s'.queue
  isOpen : s'.queue.isOpen = true

theorem filedFor_insert (haead : C.AeadCorrect) {s s' : SendOrder.System} {peerId : String}
    (hown : OwnPeer s s' peerId) (hdecrypts : Decrypts C s.queue) (hopen : s.queue.isOpen = true)
    {nonce : Nonce} {payload : Bytes} {queuedAt expiresAt : ℚ}
    (hqueue : s'.queue = ⟨s.queue.key, s.queue.isOpen, s.queue.table.insert peerId
      (encryptPayload C nonce s.queue.key payload) queuedAt expiresAt⟩) :
    FiledFor C s s' peerId payload expiresAt := by
  have hpayload := decryptPayload_encryptPayload C haead nonce s.queue.key payload
  refine ⟨hown, ?_, ?_, ?_, ?_⟩
  · rw [hqueue]
    exact Nat.lt_succ_self _
  · rw [hqueue]
    exact ⟨_, List.mem_append_right _ List.mem_cons_self, rfl, rfl, rfl, hpayload⟩
  · rw [hqueue]
    intro row hrow
    rcases List.mem_append.mp hrow with hold | hnew
    · exact hdecrypts row hold
    · rw [List.mem_singleton.mp hnew]
      exact ⟨payload, hpayload⟩
  · rw [hqueue]
    exact hopen

/-- Its peer's next flush finds it, and no other peer's does. -/
theorem FiledFor.sends_iff (haead : C.AeadCorrect) {s s' : SendOrder.System} {peerId : String}
    {payload : Bytes} {expiresAt : ℚ} (h : FiledFor C s s' peerId payload expiresAt)
    (hnormal : normalizePeerId peerId = peerId) {deviceId : String}
    (hdevice : normalizePeerId deviceId = deviceId) (later : List Happening)
    (hspares : Runs.Always (happen C cb) (Spares deviceId expiresAt) s' later) (flushedAt : ℚ)
    (hlive : flushedAt < expiresAt) (envs : ℕ → Env) :
    FlushSends C (Runs.run (happen C cb) s' later) flushedAt envs deviceId s.queue.table.nextId ↔
      peerId = deviceId ∧ GoesOut C (Runs.run (happen C cb) s' later).node.transport deviceId
        (ahead (Runs.run (happen C cb) s' later).queue flushedAt deviceId s.queue.table.nextId)
        payload := by
  let f : Filing := ⟨s.queue.table.nextId, peerId, payload, expiresAt⟩
  have hdecrypts : Decrypts C (Runs.run (happen C cb) s' later).queue :=
    (stable_decrypts haead).run h.decrypts later
  have hopen : (Runs.run (happen C cb) s' later).queue.isOpen = true :=
    stable_isOpen.run h.isOpen later
  by_cases heq : peerId = deviceId
  · subst heq
    have hwaits : Waits C (Runs.run (happen C cb) s' later).queue f :=
      Runs.invariant (I := fun s => Waits C s.queue f) (stable_waits f).happen s' later h.waits hspares
    rw [eq_self_iff_true, true_and]
    exact flushSends_waiting_iff hdecrypts hopen hwaits hnormal flushedAt hlive envs
  · refine iff_of_false (fun hsends => ?_) fun hboth => heq hboth.1
    obtain ⟨k, msg, hmsg, hid, _⟩ := (flushSends_iff hdecrypts hopen _ _ _ _).mp hsends
    obtain ⟨row, hrow, rfl⟩ := List.mem_map.mp (List.mem_of_getElem? hmsg)
    obtain ⟨hmem, hisLive⟩ := (IdTable.mem_select _ _ _).mp hrow
    rw [isLive, Bool.and_eq_true, decide_eq_true_iff, hdevice] at hisLive
    exact heq ((h.own.row_run h.issued later row hmem hid).symm.trans hisLive.1)

/-- Whatever happens later, a message is handed over only for sessions that the argument of its
command denotes. One that was reported as queued is sent by the next flush for a device id, before
its time is up, exactly when the argument addresses that id and its turn finds it sendable. -/
theorem queued_sent_iff (C : Suite) (haead : C.AeadCorrect) (cb : Callback) (s₀ : SendOrder.System)
    (hinit : Initial s₀) (before : List Happening) (env : Env) (store : MessageStore) (now : ℚ)
    (nonce : Nonce) (peerId message : String) :
    let s := Runs.run (happen C cb) s₀ before
    let out := cmdSend C cb env s store now nonce peerId message
    (∀ call, out.call = some call → ∀ later,
      ∀ entry ∈ (Runs.run (happen C cb) out.system later).handed, entry.2 = call →
        Denotes peerId entry.1) ∧
    (out.report = .queued → ∀ deviceId, UuidText deviceId → ∀ later,
      Runs.Always (happen C cb) (Spares deviceId (env.time + ttlSeconds)) out.system later →
      ∀ flushedAt envs, flushedAt < env.time + ttlSeconds →
        let s' := Runs.run (happen C cb) out.system later
        (FlushSends C s' flushedAt envs deviceId s.queue.table.nextId ↔
          Addresses s.node.transport.sessions.keys peerId deviceId ∧
            GoesOut C s'.node.transport deviceId
              (ahead s'.queue flushedAt deviceId s.queue.table.nextId) (encodeUtf8 message))) := by
  intro s out
  have hcounted : Counted s := counted_run hinit before
  cases hresolve : resolve s.node.transport.sessions.keys peerId with
  | none =>
    obtain ⟨_, hcall, hreport⟩ := @cmdSend_ambiguous C cb s store env now nonce peerId message hresolve
    refine ⟨fun call h => ?_, fun h => ?_⟩
    · rw [hcall] at h
      cases h
    · rw [hreport] at h
      cases h
  | some pid =>
    obtain ⟨hsystem, hcall, hqueued⟩ :=
      @cmdSend_resolved C cb s store env now nonce peerId pid message hresolve
    have hown : OwnPeer s out.system (normalizePeerId pid) :=
      hsystem.symm ▸ ownPeer_sendOrQueue hcounted (encodeUtf8 message)
    constructor
    · intro call h later entry hentry hnumber
      cases Option.some.inj (hcall.symm.trans h)
      rw [hown.handed_run later entry hentry hnumber]
      exact denotes_resolve hresolve
    · intro hreport deviceId hdevice later hspares flushedAt envs hlive
      obtain ⟨hoffline, hopen, hqueue⟩ := filed_of_queued (hqueued hreport)
      have hsystem' : out.system.queue =
          (sendOrQueue C env s.node.transport s.queue pid (encodeUtf8 message)).queue :=
        congrArg SendOrder.System.queue hsystem
      rw [OrderedDict.get?_eq_none_iff] at hoffline
      rw [← hsystem'] at hqueue
      have hdecrypts : Decrypts C s.queue := (stable_decrypts haead).run (decrypts_new hinit.1) before
      have hfiled := filedFor_insert haead hown hdecrypts hopen hqueue
      obtain ⟨digits, hdigits, _, htext⟩ := id hdevice
      have hnormal : normalizePeerId deviceId = deviceId := by
        apply if_pos
        rw [← String.length_toList, htext, length_uuidText hdigits]
      rw [← resolve_addresses_iff hresolve hoffline hdevice]
      exact hfiled.sends_iff haead (normalizePeerId_idem pid) hnormal later hspares flushedAt hlive envs

end Results

section Stub

open Honest

def delta : DeviceIdentity := stubIdentity hyphenId "D" (List.Vector.replicate 32 4)

theorem honest_delta : HonestIdentity stub delta :=
  honest_stubIdentity hyphenId "D" _ (by decide +kernel) (by decide +kernel)
    ⟨[68], by decide, by decide, by decide⟩

theorem uuidText_hyphenId : UuidText hyphenId := by
  refine ⟨plainId.toList, by decide +kernel, fun c hc => ?_, by decide +kernel⟩
  have hall : plainId.toList.all (fun c => "0123456789abcdef".toList.contains c) = true := by
    decide +kernel
  exact List.contains_iff_mem.mp (List.all_eq_true.mp hall c hc)

theorem step_normalizePeerId (s : SendOrder.System) (env : Env) (peerId : String) (payload : Bytes) :
    SendOrder.step stub 0 s (.sendOrQueue env (normalizePeerId peerId) payload) =
      SendOrder.step stub 0 s (.sendOrQueue env peerId payload) := by
  simp only [SendOrder.step, sendOrQueue, normalizePeerId_idem]

/-- The queue with the one message. -/
def queueFor (peerId : String) : ForwardQueue :=
  ⟨sharedKey, true, Table.empty.insert peerId
    (ForwardQueue.encryptPayload stub (stillEnv.nonce 0) sharedKey [104, 105]) 0 (0 + ttlSeconds)⟩

/-- Queued at bravo's node under any argument, before delta connects. -/
theorem exists_queued (peerId : String) : ∃ (s₀ : SendOrder.System) (store : MessageStore)
    (later : List Happening), Initial s₀ ∧ s₀.node.transport.sessions.keys = [] ∧
      s₀.queue.table.nextId = 1 ∧
      let out := cmdSend stub 0 stillEnv s₀ store 5 stubNonce peerId "hi"
      let s' := Runs.run (happen stub 0) out.system later
      out.report = .queued ∧
        Runs.Always (happen stub 0) (Spares hyphenId (stillEnv.time + ttlSeconds)) out.system later ∧
        s'.queue = queueFor (normalizePeerId peerId) ∧ s'.node.transport.msgIdCounter = 1 ∧
        (s'.node.transport.sessions.get? hyphenId).isSome = true := by
  obtain ⟨n, announce, keyInit, hn, hcbs, hquiet, hconnected, hsession, hcounter⟩ :=
    exists_connection_to delta honest_delta
  let q₀ : ForwardQueue := ⟨sharedKey, true, .empty⟩
  let s₀ : SendOrder.System := ⟨n, q₀, [], true, 0, fun _ => 0, [], 0⟩
  let store : MessageStore :=
    ((MessageStore.init (.text "alpha") .new).openFile stubStore (List.Vector.replicate 32 0)).2
  obtain ⟨key, hfiled, _, hopen, _⟩ := @openFile_blank stub stubStore
    (MessageStore.init (.text "alpha") .new) ⟨rfl, rfl, rfl, rfl⟩ (derives_stub _)
    (List.Vector.replicate 32 0)
  have hkeys : n.transport.sessions.keys = [] := by
    rw [hn.1.sessions]
    rfl
  have hresolve : resolve n.transport.sessions.keys peerId = some peerId := by
    rw [hkeys]
    simp [resolve]
  have hname := normalizePeerId_idem peerId
  have hoffline : n.transport.sessions.get? (normalizePeerId peerId) = none := by
    rw [hn.1.sessions]
    rfl
  have hempty : q₀.queueSize 0 (normalizePeerId peerId) = .ok 0 := rfl
  have henqueue := enqueue_room (C := stub) 0 (normalizePeerId peerId) (q := q₀) rfl
    (hname.symm ▸ hempty) (by decide) (stillEnv.nonce 0) [104, 105]
  rw [hname] at henqueue
  have hbytes : encodeUtf8 "hi" = [104, 105] := by decide +kernel
  have hended : (sendOrQueue stub stillEnv n.transport q₀ peerId (encodeUtf8 "hi")).ended =
      .ok false := by
    rw [hbytes]
    have hclock : stillEnv.time = 0 := rfl
    simp only [sendOrQueue, hoffline, Option.isSome_none, Bool.false_eq_true, if_false, hclock,
      henqueue]
  obtain ⟨table, hsaved, _⟩ := saveMessage_open stub_aeadCorrect hfiled hopen 5 stubNonce peerId
    "sent" (encodeUtf8 "hi") none (Or.inl rfl)
  have hqueued : SendOrder.step stub 0 s₀ (.sendOrQueue stillEnv peerId [104, 105]) =
      { s₀ with
        queue := queueFor (normalizePeerId peerId)
        calls := 1
        callOf := Function.update s₀.callOf 1 0 } := by
    rw [← step_normalizePeerId]
    exact step_queued s₀ stillEnv (normalizePeerId peerId) [104, 105] 0 hname rfl hoffline hempty
      (by decide)
  have hsystem : (cmdSend stub 0 stillEnv s₀ store 5 stubNonce peerId "hi").system =
      { s₀ with
        queue := queueFor (normalizePeerId peerId)
        calls := 1
        callOf := Function.update s₀.callOf 1 0 } := by
    rw [(cmdSend_resolved hresolve).1, hbytes, hqueued]
  have hreport : (cmdSend stub 0 stillEnv s₀ store 5 stubNonce peerId "hi").report = .queued := by
    simp only [cmdSend, s₀, hresolve, hended, store, hsaved]
    rfl
  refine ⟨s₀, store, [.step (.transport stillEnv announce), .step (.transport stillEnv keyInit)],
    ⟨rfl, rfl⟩, hkeys, rfl, hreport, ⟨trivial, trivial, trivial⟩, ?_, ?_, ?_⟩
  · rw [hsystem]
    rfl
  · rw [hsystem]
    exact hcounter
  · rw [hsystem]
    exact hsession

/-- Queued under the first eight characters of delta's id, the message is not sent to him. -/
theorem prefix_never_sent : ∃ (s₀ : SendOrder.System) (store : MessageStore)
    (later : List Happening), Initial s₀ ∧ UuidText hyphenId ∧ Denotes "00112233" hyphenId ∧
      let out := cmdSend stub 0 stillEnv s₀ store 5 stubNonce "00112233" "hi"
      let s' := Runs.run (happen stub 0) out.system later
      out.report = .queued ∧
        Runs.Always (happen stub 0) (Spares hyphenId (stillEnv.time + ttlSeconds)) out.system later ∧
        (s'.node.transport.sessions.get? hyphenId).isSome = true ∧
        ¬ FlushSends stub s' 10 (fun _ => stillEnv) hyphenId s₀.queue.table.nextId := by
  obtain ⟨s₀, store, later, hinit, _, _, hreport, hspares, hqueue, _, hsession⟩ :=
    exists_queued "00112233"
  have hdenotes : Denotes "00112233" hyphenId :=
    ⟨hyphenId, rfl, Or.inr ⟨by decide, by decide +kernel⟩⟩
  refine ⟨s₀, store, later, hinit, uuidText_hyphenId, hdenotes, hreport, hspares, hsession, ?_⟩
  have hpending : (queueFor (normalizePeerId "00112233")).getPending stub 10
      (normalizePeerId hyphenId) = .ok [] := by
    decide +kernel
  rintro ⟨sent, hended, hmem⟩
  rw [hqueue, flushPeer] at hended
  simp only [hpending, flushEach] at hended
  cases Except.ok.inj hended
  cases hmem

/-- Queued under the whole id without its hyphens, it is; it is filed as in the history of a peer. -/
theorem queued_sent_iff_plain : ∃ (s₀ : SendOrder.System) (store : MessageStore)
    (later : List Happening), Initial s₀ ∧
      let out := cmdSend stub 0 stillEnv s₀ store 5 stubNonce plainId "hi"
      let s' := Runs.run (happen stub 0) out.system later
      out.report = .queued ∧
        out.store = (PeerHistory.cmdSend stub stillEnv ⟨s₀.node, s₀.queue, store, [], []⟩ 5 stubNonce
          plainId "hi").store ∧
        (s'.node.transport.sessions.get? hyphenId).isSome = true ∧
        FlushSends stub s' 10 (fun _ => stillEnv) hyphenId s₀.queue.table.nextId := by
  obtain ⟨s₀, store, later, hinit, _, hnext, hreport, hspares, hqueue, hcounter, hsession⟩ :=
    exists_queued plainId
  have hsent := (queued_sent_iff stub stub_aeadCorrect 0 s₀ hinit [] stillEnv store 5 stubNonce plainId
    "hi").2 hreport hyphenId uuidText_hyphenId later hspares 10 (fun _ => stillEnv) (by decide +kernel)
  have hfiled := (@cmdSend_history stub 0 stillEnv s₀ ⟨s₀.node, s₀.queue, store, [], []⟩ rfl rfl 5 stubNonce
    plainId "hi").2.2
  refine ⟨s₀, store, later, hinit, hreport, hfiled, hsession,
    hsent.mpr ⟨Or.inl normalizePeerId_plainId, hsession, ?_, ?_⟩⟩
  · have hfirst : ahead (queueFor (normalizePeerId plainId)) 10 hyphenId 1 = 0 := by decide +kernel
    rw [Runs.run_nil, hnext, hqueue, hfirst, hcounter]
    decide
  · have hbytes : encodeUtf8 "hi" = [104, 105] := by decide +kernel
    rw [splitFragments_single]
    · show 1 < 256
      decide
    · rw [List.length_append, List.Vector.toList_length, hbytes]
      decide
    · rw [List.length_append, List.Vector.toList_length, hbytes]
      decide

end Stub

end Mesim.QueuedDelivery
