import Mesim.SignedDelivery

/-!
The in-flight table.
send() files the last packet of its message under a msg_id no other message
has, an ACK removes it, and each sweep of the retry loop either sends it again or
gives it up. So every entry is filed under its own msg_id, which is also the one in
its packet, and nothing but send() and the retry loop emits a MESSAGE packet.
-/
namespace Mesim.InFlightTable

open Octets TextCodec Crypto Identity Packet Transport Operations Dispatch Nodes Fragments
open Honest Reassembly FragmentDelivery SignedDelivery MeshTransport Outcome

variable (C : Suite)

/-- The msg_id in the fragment header of a MESSAGE packet. -/
def messageId? (packet : Bytes) : Option ℕ :=
  match parsePacket packet with
  | .ok ⟨.message, _, payload⟩ => some (unpackFragHeader payload).msgId
  | _ => none

section Packets

theorem messageId?_messagePacket (senderId : Fixed 32) (key : SessionKey) (nonce : Nonce)
    (msgId fragIdx fragTotal : ℕ) (chunk : Bytes)
    (hfits : Fits msgId fragIdx fragTotal chunk.length) :
    messageId? (messagePacket C senderId key nonce msgId fragIdx fragTotal chunk) = some msgId := by
  simp only [messageId?,
    parsePacket_messagePacket C senderId key nonce msgId fragIdx fragTotal chunk hfits,
    unpackFragHeader_payload C senderId key nonce msgId fragIdx fragTotal chunk hfits]

theorem messageId?_packet (x : Sending) (hx : x.Sendable) {i : ℕ} {chunk : Bytes}
    (hchunk : x.chunks[i]? = some chunk) : messageId? (x.packet C i chunk) = some x.msgId :=
  messageId?_messagePacket C x.senderId x.key (x.nonce i) x.msgId i x.total chunk (hx i chunk hchunk)

theorem messageId?_of_ptype (packet : Bytes)
    (h : ∀ p, parsePacket packet = .ok p → p.ptype ≠ .message) : messageId? packet = none := by
  unfold messageId?
  split
  · rename_i sid payload hparse
    exact absurd rfl (h _ hparse)
  · rfl

theorem ptype_frame (ptype : PacketType) (senderId : Fixed 32) (payload mac : Bytes)
    (hlen : payload.length < 65536) (hmac : mac.length = macSize) (p : ParsedPacket)
    (h : parsePacket (frame ptype senderId payload mac) = .ok p) : p.ptype = ptype := by
  rw [parsePacket_frame ptype senderId payload mac hlen hmac] at h
  cases h
  rfl

end Packets

section Sending

/-- The in-flight entry of a packet that has just been sent for the first time. -/
def firstEntry (env : Env) (msgId : ℕ) (packet : Bytes) (dest : Addr) : InFlight where
  msgId := msgId
  packetBytes := packet
  peerAddr := dest
  attempt := 1
  nextRetryAt := env.monotonic + retryBackoffs.getD 0 0

theorem sendFragments_other (env : Env) (session : SessionInfo) (msgId fragTotal : ℕ)
    (t : MeshTransport) (fragIdx : ℕ) (chunks : List Bytes) (m : ℕ) (hm : m ≠ msgId) :
    (sendFragments C env session msgId fragTotal t fragIdx chunks).state.inFlight.get? m =
      t.inFlight.get? m := by
  induction chunks generalizing t fragIdx with
  | nil => rfl
  | cons chunk rest ih =>
    unfold sendFragments attempt
    split
    · rfl
    · exact (ih _ _).trans (OrderedDict.get?_set_of_ne _ _ (Ne.symm hm))

/-- The entry under the message's own id is the one before or that of a packet of the message. -/
theorem sendFragments_own (env : Env) (session : SessionInfo) (msgId fragTotal : ℕ)
    (t : MeshTransport) (fragIdx : ℕ) (chunks : List Bytes) :
    (sendFragments C env session msgId fragTotal t fragIdx chunks).state.inFlight.get? msgId =
        t.inFlight.get? msgId ∨
      ∃ packet, messageId? packet = some msgId ∧
        (sendFragments C env session msgId fragTotal t fragIdx chunks).state.inFlight.get? msgId =
          some (firstEntry env msgId packet session.peerAddr) := by
  induction chunks generalizing t fragIdx with
  | nil => exact Or.inl rfl
  | cons chunk rest ih =>
    unfold sendFragments attempt
    split
    · exact Or.inl rfl
    · rename_i packet hpacket
      rw [fragmentPacket_eq] at hpacket
      split at hpacket
      · rename_i hfits
        cases hpacket
        rcases ih _ _ with hkeep | hsent
        · exact Or.inr ⟨_, messageId?_messagePacket C _ _ _ _ _ _ _ hfits,
            hkeep.trans (OrderedDict.get?_set_self _ _ _)⟩
        · exact Or.inr hsent
      · contradiction

theorem sendFragments_emits (env : Env) (session : SessionInfo) (msgId fragTotal : ℕ)
    (t : MeshTransport) (fragIdx : ℕ) (chunks : List Bytes) (packet : Bytes) (dest : Addr)
    (h : .sendto packet dest ∈
      (sendFragments C env session msgId fragTotal t fragIdx chunks).effects) :
    messageId? packet = some msgId := by
  induction chunks generalizing t fragIdx with
  | nil => contradiction
  | cons chunk rest ih =>
    unfold sendFragments attempt at h
    split at h
    · contradiction
    · rename_i pkt hpacket
      rcases List.mem_append.mp h with hsent | hrest
      · rw [fragmentPacket_eq] at hpacket
        split at hpacket
        · rename_i hfits
          cases hpacket
          cases mem_sendRaw _ _ _ _ hsent
          exact messageId?_messagePacket C _ _ _ _ _ _ _ hfits
        · contradiction
      · exact ih _ _ hrest

/-- When every packet of a message can be built, the last one stays in flight. -/
theorem sendFragments_last (env : Env) (session : SessionInfo) (msgId fragTotal : ℕ)
    (t : MeshTransport) (fragIdx : ℕ) (chunks : List Bytes)
    (h : ∀ i chunk, chunks[i]? = some chunk → Fits msgId (fragIdx + i) fragTotal chunk.length)
    (i : ℕ) (chunk : Bytes) (hchunk : chunks[i]? = some chunk) (hlast : i + 1 = chunks.length) :
    (sendFragments C env session msgId fragTotal t fragIdx chunks).state.inFlight.get? msgId =
      some (firstEntry env msgId (messagePacket C t.senderId session.sessionKey
        (env.nonce (fragIdx + i)) msgId (fragIdx + i) fragTotal chunk) session.peerAddr) := by
  induction chunks generalizing t fragIdx i with
  | nil => contradiction
  | cons first rest ih =>
    have hfits : Fits msgId fragIdx fragTotal first.length := h 0 first rfl
    have hpacket := fragmentPacket_eq C t.senderId session.sessionKey (env.nonce fragIdx) msgId
      fragIdx fragTotal first
    rw [if_pos hfits] at hpacket
    simp only [sendFragments, attempt, hpacket]
    cases i with
    | zero =>
      have hnil : rest = [] := by
        rw [List.length_cons] at hlast
        exact List.length_eq_zero_iff.mp (by omega)
      cases Option.some.inj hchunk
      rw [hnil]
      exact OrderedDict.get?_set_self _ _ _
    | succ i =>
      have hrest := ih { t with inFlight := t.inFlight.set msgId (firstEntry env msgId
          (messagePacket C t.senderId session.sessionKey (env.nonce fragIdx) msgId fragIdx fragTotal
            first) session.peerAddr) } (fragIdx + 1)
        (fun j c hc => by
          have hfits' := h (j + 1) c hc
          rwa [Nat.add_comm j 1, ← Nat.add_assoc] at hfits') i hchunk (by simpa using hlast)
      rw [show fragIdx + (i + 1) = fragIdx + 1 + i by omega]
      exact hrest

theorem sendFragments_counter (env : Env) (session : SessionInfo) (msgId fragTotal : ℕ)
    (t : MeshTransport) (fragIdx : ℕ) (chunks : List Bytes) :
    (sendFragments C env session msgId fragTotal t fragIdx chunks).state.msgIdCounter =
      t.msgIdCounter := by
  induction chunks generalizing t fragIdx with
  | nil => rfl
  | cons chunk rest ih =>
    unfold sendFragments attempt
    split
    · rfl
    · exact ih _ _

/-- The loop that a call of send() runs. -/
def loop (env : Env) (t : MeshTransport) (session : SessionInfo) (message : Bytes) : Outcome :=
  sendFragments C env session t.msgIdCounter (sending C env t session.sessionKey message).total
    { t with msgIdCounter := t.msgIdCounter + 1 } 0
    (sending C env t session.sessionKey message).chunks

/-- send() adds nothing to its loop but the session's statistics. -/
theorem send_loop (env : Env) (t : MeshTransport) (peerId : String) (message : Bytes)
    (session : SessionInfo) (hsession : t.sessions.get? peerId = some session) :
    (send C env t peerId message).effects = (loop C env t session message).effects ∧
    (send C env t peerId message).raised = (loop C env t session message).raised ∧
    (send C env t peerId message).state.inFlight =
      (loop C env t session message).state.inFlight ∧
    (send C env t peerId message).state.msgIdCounter = t.msgIdCounter + 1 := by
  have hcounter := sendFragments_counter C env session t.msgIdCounter
    (sending C env t session.sessionKey message).total
    { t with msgIdCounter := t.msgIdCounter + 1 } 0
    (sending C env t session.sessionKey message).chunks
  simp only [send, hsession]
  split
  · exact ⟨rfl, rfl, rfl, hcounter⟩
  · exact ⟨rfl, rfl, rfl, hcounter⟩

theorem send_missing (env : Env) (t : MeshTransport) (peerId : String) (message : Bytes)
    (hsession : t.sessions.get? peerId = none) :
    send C env t peerId message = raise t .keyError := by
  simp only [send, hsession]

theorem send_other (env : Env) (t : MeshTransport) (peerId : String) (message : Bytes) (m : ℕ)
    (hm : m ≠ t.msgIdCounter) :
    (send C env t peerId message).state.inFlight.get? m = t.inFlight.get? m := by
  cases hsession : t.sessions.get? peerId with
  | none => rw [send_missing C env t peerId message hsession, raise]
  | some session =>
    rw [(send_loop C env t peerId message session hsession).2.2.1]
    exact sendFragments_other C env session t.msgIdCounter _ _ 0 _ m hm

theorem send_own (env : Env) (t : MeshTransport) (peerId : String) (message : Bytes) :
    (send C env t peerId message).state.inFlight.get? t.msgIdCounter =
        t.inFlight.get? t.msgIdCounter ∨
      ∃ packet dest, messageId? packet = some t.msgIdCounter ∧
        (send C env t peerId message).state.inFlight.get? t.msgIdCounter =
          some (firstEntry env t.msgIdCounter packet dest) := by
  cases hsession : t.sessions.get? peerId with
  | none =>
    rw [send_missing C env t peerId message hsession]
    exact Or.inl rfl
  | some session =>
    rw [(send_loop C env t peerId message session hsession).2.2.1]
    rcases sendFragments_own C env session t.msgIdCounter
      (sending C env t session.sessionKey message).total
      { t with msgIdCounter := t.msgIdCounter + 1 } 0
      (sending C env t session.sessionKey message).chunks with hkeep | ⟨packet, hid, hsent⟩
    · exact Or.inl hkeep
    · exact Or.inr ⟨packet, session.peerAddr, hid, hsent⟩

theorem send_counter (env : Env) (t : MeshTransport) (peerId : String) (message : Bytes) :
    t.msgIdCounter ≤ (send C env t peerId message).state.msgIdCounter ∧
      ((send C env t peerId message).state.msgIdCounter = t.msgIdCounter →
        (send C env t peerId message).state.inFlight = t.inFlight) := by
  cases hsession : t.sessions.get? peerId with
  | none =>
    rw [send_missing C env t peerId message hsession]
    exact ⟨le_rfl, fun _ => rfl⟩
  | some session =>
    rw [(send_loop C env t peerId message session hsession).2.2.2]
    exact ⟨Nat.le_succ _, fun h => absurd h (Nat.succ_ne_self _)⟩

theorem send_emits (env : Env) (t : MeshTransport) (peerId : String) (message packet : Bytes)
    (dest : Addr) (h : .sendto packet dest ∈ (send C env t peerId message).effects) :
    messageId? packet = some t.msgIdCounter := by
  cases hsession : t.sessions.get? peerId with
  | none =>
    rw [send_missing C env t peerId message hsession] at h
    contradiction
  | some session =>
    rw [(send_loop C env t peerId message session hsession).1] at h
    exact sendFragments_emits C env session t.msgIdCounter _ _ 0 _ packet dest h

/-- A call of send() that does not raise leaves the last packet of its message in flight. -/
theorem send_inFlight (env : Env) (t : MeshTransport) (peerId : String) (message : Bytes)
    (session : SessionInfo) (hsession : t.sessions.get? peerId = some session)
    (hsendable : (sending C env t session.sessionKey message).Sendable) (i : ℕ) (chunk : Bytes)
    (hchunk : (sending C env t session.sessionKey message).chunks[i]? = some chunk)
    (hlast : i + 1 = (sending C env t session.sessionKey message).total) :
    (send C env t peerId message).state.inFlight.get? t.msgIdCounter =
      some (firstEntry env t.msgIdCounter
        ((sending C env t session.sessionKey message).packet C i chunk) session.peerAddr) := by
  have hentry := sendFragments_last C env session t.msgIdCounter
    (sending C env t session.sessionKey message).total
    { t with msgIdCounter := t.msgIdCounter + 1 } 0
    (sending C env t session.sessionKey message).chunks
    (fun j c hc => by rw [Nat.zero_add]; exact hsendable j c hc) i chunk hchunk hlast
  rw [(send_loop C env t peerId message session hsession).2.2.1]
  simp only [Nat.zero_add] at hentry
  exact hentry

end Sending

section Sweeping

/-- The entry after one more transmission. -/
def retried (now : ℚ) (inf : InFlight) : InFlight :=
  { inf with
    nextRetryAt := now + retryBackoffs.getD inf.attempt 0
    attempt := inf.attempt + 1 }

/-- What a sweep does for a due entry. -/
def retryEffects (t : MeshTransport) (inf : InFlight) : List Effect :=
  if inf.attempt ≥ maxRetries then
    t.sendFailedCbs.map (fun cb => .sendFailed cb inf.msgId inf.peerAddr)
  else t.sendRaw inf.packetBytes inf.peerAddr

theorem retryEntry_effects (now : ℚ) (t : MeshTransport) (inf : InFlight) :
    (retryEntry now t inf).2 = retryEffects t inf := by
  unfold retryEntry retryEffects
  split <;> rfl

theorem retryEntry_same (now : ℚ) (t : MeshTransport) (inf : InFlight) :
    (retryEntry now t inf).1.udpTransport = t.udpTransport ∧
      (retryEntry now t inf).1.sendFailedCbs = t.sendFailedCbs ∧
      (retryEntry now t inf).1.msgIdCounter = t.msgIdCounter := by
  unfold retryEntry
  split <;> exact ⟨rfl, rfl, rfl⟩

theorem retryEntry_get? (now : ℚ) (t : MeshTransport) (inf : InFlight) (m : ℕ) :
    (retryEntry now t inf).1.inFlight.get? m =
      if inf.msgId = m then
        if inf.attempt ≥ maxRetries then none else some (retried now inf)
      else t.inFlight.get? m := by
  unfold retryEntry
  split
  · exact OrderedDict.get?_erase _ _ _
  · exact OrderedDict.get?_set _ _ _ _

theorem retryEntries_effects (now : ℚ) (t : MeshTransport) (entries : List InFlight) :
    (retryEntries now t entries).2 = entries.flatMap (retryEffects t) := by
  induction entries generalizing t with
  | nil => rfl
  | cons inf rest ih =>
    obtain ⟨hudp, hcbs, _⟩ := retryEntry_same now t inf
    have hsame : retryEffects (retryEntry now t inf).1 = retryEffects t := by
      funext x
      simp only [retryEffects, sendRaw, hudp, hcbs]
    show (retryEntry now t inf).2 ++ (retryEntries now (retryEntry now t inf).1 rest).2 = _
    rw [ih, retryEntry_effects, hsame, List.flatMap_cons]

theorem retryEntries_counter (now : ℚ) (t : MeshTransport) (entries : List InFlight) :
    (retryEntries now t entries).1.msgIdCounter = t.msgIdCounter := by
  induction entries generalizing t with
  | nil => rfl
  | cons inf rest ih => exact (ih _).trans (retryEntry_same now t inf).2.2

/-- An id of no handled entry keeps its entry. -/
theorem retryEntries_other (now : ℚ) (t : MeshTransport) (entries : List InFlight) (m : ℕ)
    (h : ∀ inf ∈ entries, inf.msgId ≠ m) :
    (retryEntries now t entries).1.inFlight.get? m = t.inFlight.get? m := by
  induction entries generalizing t with
  | nil => rfl
  | cons inf rest ih =>
    refine (ih (retryEntry now t inf).1 (fun x hx => h x (List.mem_cons_of_mem inf hx))).trans ?_
    rw [retryEntry_get?, if_neg (h inf List.mem_cons_self)]

theorem retryEntries_own (now : ℚ) (t : MeshTransport) (entries : List InFlight)
    (hnodup : (entries.map InFlight.msgId).Nodup) (inf : InFlight) (hmem : inf ∈ entries) :
    (retryEntries now t entries).1.inFlight.get? inf.msgId =
      if inf.attempt ≥ maxRetries then none else some (retried now inf) := by
  induction entries generalizing t with
  | nil => contradiction
  | cons first rest ih =>
    obtain ⟨hfirst, hrest⟩ := List.nodup_cons.mp hnodup
    rcases List.mem_cons.mp hmem with rfl | hmem
    · refine (retryEntries_other now (retryEntry now t inf).1 rest inf.msgId
        (fun x hx heq => hfirst ?_)).trans ?_
      · exact List.mem_map.mpr ⟨x, hx, heq⟩
      · rw [retryEntry_get?, if_pos rfl]
    · exact ih (retryEntry now t first).1 hrest hmem

end Sweeping

/-- Every entry is filed under its own msg_id, which is in use and which its packet carries. -/
structure Orderly (t : MeshTransport) : Prop where
  keyed : ∀ m inf, t.inFlight.get? m = some inf → inf.msgId = m
  used : ∀ m inf, t.inFlight.get? m = some inf → m < t.msgIdCounter
  header : ∀ m inf, t.inFlight.get? m = some inf → messageId? inf.packetBytes = some m

/-- The entries that a sweep at this time handles. -/
def due (env : Env) (t : MeshTransport) : List InFlight :=
  t.inFlight.values.filter (fun inf => env.monotonic ≥ inf.nextRetryAt)

section Sweep

variable {t : MeshTransport}

theorem mem_due_iff (h : Orderly t) (env : Env) (inf : InFlight) :
    inf ∈ due env t ↔
      t.inFlight.get? inf.msgId = some inf ∧ env.monotonic ≥ inf.nextRetryAt := by
  simp only [due, List.mem_filter, OrderedDict.mem_values_iff, decide_eq_true_eq]
  refine and_congr_left fun _ => ⟨?_, fun hget => ⟨_, hget⟩⟩
  rintro ⟨m, hget⟩
  rw [h.keyed m inf hget]
  exact hget

theorem nodup_due (h : Orderly t) (env : Env) : ((due env t).map InFlight.msgId).Nodup := by
  have hkeys : t.inFlight.values.map InFlight.msgId = t.inFlight.keys := by
    rw [OrderedDict.values, OrderedDict.keys, List.map_map]
    refine List.map_congr_left fun entry hentry => ?_
    exact h.keyed entry.1 entry.2 ((t.inFlight.mem_entries_iff _ _).mp hentry)
  have hnodup : (t.inFlight.values.map InFlight.msgId).Nodup := by
    rw [hkeys]
    exact t.inFlight.nodup
  exact hnodup.sublist (List.filter_sublist.map _)

/-- A sweep advances or drops the entries that are due and keeps the others. -/
theorem retrySweep_get? (h : Orderly t) (env : Env) (m : ℕ) :
    (retrySweep env t).state.inFlight.get? m =
      match t.inFlight.get? m with
      | none => none
      | some inf =>
        if env.monotonic ≥ inf.nextRetryAt then
          if inf.attempt ≥ maxRetries then none else some (retried env.monotonic inf)
        else some inf := by
  show (retryEntries env.monotonic t (due env t)).1.inFlight.get? m = _
  by_cases hmem : ∃ inf ∈ due env t, inf.msgId = m
  · obtain ⟨inf, hmem, rfl⟩ := hmem
    obtain ⟨hget, hdue⟩ := (mem_due_iff h env inf).mp hmem
    rw [retryEntries_own env.monotonic t _ (nodup_due h env) inf hmem, hget]
    exact (if_pos hdue).symm
  · rw [retryEntries_other env.monotonic t _ m (fun inf hinf heq => hmem ⟨inf, hinf, heq⟩)]
    cases hget : t.inFlight.get? m with
    | none => rfl
    | some inf =>
      have hkey := h.keyed m inf hget
      refine (if_neg fun hdue => hmem ⟨inf, ?_, hkey⟩).symm
      rw [mem_due_iff h env]
      exact ⟨by rw [hkey]; exact hget, hdue⟩

theorem retrySweep_effects (env : Env) (t : MeshTransport) :
    (retrySweep env t).effects = (due env t).flatMap (retryEffects t) :=
  retryEntries_effects env.monotonic t _

theorem retrySweep_emits (h : Orderly t) (env : Env) (packet : Bytes) (dest : Addr)
    (hsent : .sendto packet dest ∈ (retrySweep env t).effects) :
    ∃ m inf, t.inFlight.get? m = some inf ∧ messageId? packet = some m ∧
      inf.packetBytes = packet ∧ inf.peerAddr = dest := by
  rw [retrySweep_effects] at hsent
  obtain ⟨inf, hinf, heffect⟩ := List.mem_flatMap.mp hsent
  obtain ⟨hget, _⟩ := (mem_due_iff h env inf).mp hinf
  unfold retryEffects at heffect
  split at heffect
  · simp at heffect
  · cases mem_sendRaw _ _ _ _ heffect
    exact ⟨inf.msgId, inf, hget, h.header _ inf hget, rfl, rfl⟩

end Sweep

section Steps

theorem counter_dispatch (env : Env) (t : MeshTransport) (data : Bytes) (addr : Addr) :
    (dispatch C env t data addr).state.msgIdCounter = t.msgIdCounter := by
  unfold dispatch
  cases hparse : parsePacket data with
  | error e => rfl
  | ok packet =>
    obtain ⟨ptype, sid, payload⟩ := packet
    dsimp only
    split
    · by_cases hmessage : ptype = .message
      · subst hmessage
        exact (sent_handleMessage C env t payload addr data).2
      · by_cases hack : ptype = .ack
        · subst hack
          simp only [handle, handleAck]
          split <;> rfl
        · exact (sameTraffic_handle C env t ⟨ptype, sid, payload⟩ data addr hmessage
            hack).msgIdCounter
    · rfl

/-- The events of a connect() call. -/
def IsConnect : Event → Prop
  | .connect _ _ | .resume _ | .timeout _ => True
  | _ => False

/-- The sections of connect() touch neither the table nor the counter. -/
theorem inFlight_connecting (n : Node) (env : Env) (e : Event) (h : IsConnect e) :
    (nodeStep C n (env, e)).transport.inFlight = n.transport.inFlight ∧
      (nodeStep C n (env, e)).transport.msgIdCounter = n.transport.msgIdCounter := by
  cases e with
  | datagram _ _ | send _ _ | retry => exact h.elim
  | connect addr bundle =>
    show (connectBegin C n.transport addr bundle).state.inFlight = _ ∧
      (connectBegin C n.transport addr bundle).state.msgIdCounter = _
    have hbegun := connectBegin_begun C n.transport addr bundle
    generalize connectBegin C n.transport addr bundle = out at hbegun
    cases hbegun <;> exact ⟨rfl, rfl⟩
  | resume i =>
    show (n.resume C env i).1.transport.inFlight = _ ∧
      (n.resume C env i).1.transport.msgIdCounter = _
    have hresumed := resume_resumed C env n i
    generalize n.resume C env i = out at hresumed
    cases hresumed <;> exact ⟨rfl, rfl⟩
  | timeout i =>
    show (n.timeout i).transport.inFlight = _ ∧ (n.timeout i).transport.msgIdCounter = _
    rcases timeout_eq n i with heq | ⟨call, _, _, heq⟩ <;> rw [heq] <;> exact ⟨rfl, rfl⟩

theorem Orderly.of_same {t t' : MeshTransport} (h : Orderly t) (hinFlight : t'.inFlight = t.inFlight)
    (hcounter : t'.msgIdCounter = t.msgIdCounter) : Orderly t' where
  keyed := by rw [hinFlight]; exact h.keyed
  used := by rw [hinFlight, hcounter]; exact h.used
  header := by rw [hinFlight]; exact h.header

theorem orderly_send (env : Env) (t : MeshTransport) (peerId : String) (message : Bytes)
    (h : Orderly t) : Orderly (send C env t peerId message).state := by
  obtain ⟨hle, hkeep⟩ := send_counter C env t peerId message
  have hcases : ∀ m inf, (send C env t peerId message).state.inFlight.get? m = some inf →
      t.inFlight.get? m = some inf ∨ (m = t.msgIdCounter ∧ ∃ packet dest,
        messageId? packet = some m ∧ inf = firstEntry env m packet dest) := by
    intro m inf hget
    by_cases hm : m = t.msgIdCounter
    · rcases send_own C env t peerId message with hown | ⟨packet, dest, hid, hown⟩
      · rw [← hm] at hown
        exact Or.inl (hown.symm.trans hget)
      · rw [← hm] at hown hid
        exact Or.inr ⟨hm, packet, dest, hid, Option.some.inj (hget.symm.trans hown)⟩
    · rw [send_other C env t peerId message m hm] at hget
      exact Or.inl hget
  constructor
  · intro m inf hget
    rcases hcases m inf hget with hold | ⟨_, _, _, _, rfl⟩
    · exact h.keyed m inf hold
    · rfl
  · intro m inf hget
    rcases hcases m inf hget with hold | ⟨rfl, _⟩
    · exact Nat.lt_of_lt_of_le (h.used m inf hold) hle
    · refine Nat.lt_of_le_of_ne hle fun heq => ?_
      rw [hkeep heq.symm] at hget
      exact Nat.lt_irrefl _ (h.used _ inf hget)
  · intro m inf hget
    rcases hcases m inf hget with hold | ⟨_, packet, dest, hid, rfl⟩
    · exact h.header m inf hold
    · exact hid

theorem orderly_retrySweep (env : Env) (t : MeshTransport) (h : Orderly t) :
    Orderly (retrySweep env t).state := by
  have hcounter : (retrySweep env t).state.msgIdCounter = t.msgIdCounter :=
    retryEntries_counter env.monotonic t _
  have hcases : ∀ m inf, (retrySweep env t).state.inFlight.get? m = some inf →
      ∃ old, t.inFlight.get? m = some old ∧ inf.msgId = old.msgId ∧
        inf.packetBytes = old.packetBytes := by
    intro m inf hget
    rw [retrySweep_get? h] at hget
    split at hget
    · contradiction
    · rename_i old hold
      repeat' split at hget
      all_goals first
        | contradiction
        | cases hget
          exact ⟨_, hold, rfl, rfl⟩
  constructor
  · intro m inf hget
    obtain ⟨old, hold, hid, _⟩ := hcases m inf hget
    rw [hid, h.keyed m old hold]
  · intro m inf hget
    obtain ⟨old, hold, _⟩ := hcases m inf hget
    rw [hcounter]
    exact h.used m old hold
  · intro m inf hget
    obtain ⟨old, hold, _, hpacket⟩ := hcases m inf hget
    rw [hpacket]
    exact h.header m old hold

theorem orderly_dispatch (env : Env) (t : MeshTransport) (data : Bytes) (addr : Addr)
    (h : Orderly t) : Orderly (dispatch C env t data addr).state := by
  have hcounter := counter_dispatch C env t data addr
  have hold : ∀ m inf, (dispatch C env t data addr).state.inFlight.get? m = some inf →
      t.inFlight.get? m = some inf := by
    intro m inf hget
    rw [inFlight_dispatch] at hget
    split at hget
    · rw [OrderedDict.get?_erase] at hget
      split at hget
      · contradiction
      · exact hget
    · exact hget
  exact ⟨fun m inf hget => h.keyed m inf (hold m inf hget),
    fun m inf hget => by rw [hcounter]; exact h.used m inf (hold m inf hget),
    fun m inf hget => h.header m inf (hold m inf hget)⟩

theorem orderly_step (n : Node) (e : Env × Event) (h : Orderly n.transport) :
    Orderly (nodeStep C n e).transport := by
  obtain ⟨env, event⟩ := e
  by_cases hconnect : IsConnect event
  · obtain ⟨hinFlight, hcounter⟩ := inFlight_connecting C n env event hconnect
    exact h.of_same hinFlight hcounter
  · cases event with
    | datagram data addr => exact orderly_dispatch C env n.transport data addr h
    | send peerId message => exact orderly_send C env n.transport peerId message h
    | retry => exact orderly_retrySweep env n.transport h
    | connect _ _ | resume _ | timeout _ => exact absurd trivial hconnect

theorem reachable_orderly {owner : DeviceIdentity} {n : Node} (h : Reachable C owner n) :
    Orderly n.transport := by
  refine Runs.reachable_invariant (I := fun n : Node => Orderly n.transport) (fun n hn => ?_)
    (fun n e hn => orderly_step C n e hn) h
  constructor <;> intro m inf hget <;> rw [hn.1.inFlight] at hget <;> contradiction

end Steps

section Emissions

theorem messageId?_frame (ptype : PacketType) (senderId : Fixed 32) (payload mac : Bytes)
    (hne : ptype ≠ .message) (hlen : payload.length < 65536) (hmac : mac.length = macSize) :
    messageId? (frame ptype senderId payload mac) = none :=
  messageId?_of_ptype _ fun p hp => by
    rw [ptype_frame ptype senderId payload mac hlen hmac p hp]
    exact hne

theorem messageId?_reply (env : Env) (t : MeshTransport) (data : Bytes) (addr : Addr)
    (packet : Bytes) (dest : Addr) (h : .sendto packet dest ∈ (dispatch C env t data addr).effects) :
    messageId? packet = none := by
  cases dispatch_consequence C env t data addr _ h with
  | reply ptype payload key packet dest hne hbuild =>
    obtain ⟨hlen, mac, hmac, rfl, _⟩ := buildPacket_eq_frame C ptype t.senderId payload key packet
      hbuild
    exact messageId?_frame ptype t.senderId payload mac hne hlen hmac

theorem messageId?_connect (n : Node) (env : Env) (e : Event) (he : IsConnect e) (packet : Bytes)
    (dest : Addr) (h : .sendto packet dest ∈ (n.step C env e).2) : messageId? packet = none := by
  have hzero : zeroMac.length = macSize := List.length_replicate
  cases e with
  | datagram _ _ | send _ _ | retry => exact he.elim
  | connect addr bundle =>
    change .sendto packet dest ∈ (connectBegin C n.transport addr bundle).effects at h
    have hbegun := connectBegin_begun C n.transport addr bundle
    generalize connectBegin C n.transport addr bundle = out at hbegun h
    cases hbegun with
    | rejected | unsent => contradiction
    | sent wire _ hwire =>
      cases mem_sendRaw _ _ _ _ h
      exact messageId?_frame .handshake _ wire _ (by decide) (packBundle_fits C _ wire hwire) hzero
  | resume i =>
    change .sendto packet dest ∈ (n.resume C env i).2 at h
    have hresumed := resume_resumed C env n i
    generalize n.resume C env i = out at hresumed h
    cases hresumed with
    | idle | failed | returned => contradiction
    | encapsulated call hs result key =>
      cases mem_sendRaw _ _ _ _ h
      exact messageId?_frame .keyInit _ _ _ (by decide)
        (by rw [List.Vector.toList_length]; decide) hzero
  | timeout i => contradiction

/-- MESSAGE packets come from send(), under the next msg_id, or out of the table. -/
theorem step_emits (n : Node) (e : Env × Event) (h : Orderly n.transport) (packet : Bytes)
    (dest : Addr) (m : ℕ) (hsent : .sendto packet dest ∈ (n.step C e.1 e.2).2)
    (hid : messageId? packet = some m) :
    ((∃ peerId message, e.2 = .send peerId message) ∧ m = n.transport.msgIdCounter) ∨
      (e.2 = .retry ∧ ∃ inf, n.transport.inFlight.get? m = some inf ∧
        inf.packetBytes = packet ∧ inf.peerAddr = dest) := by
  obtain ⟨env, event⟩ := e
  by_cases hconnect : IsConnect event
  · rw [messageId?_connect C n env event hconnect packet dest hsent] at hid
    contradiction
  · cases event with
    | datagram data addr =>
      rw [messageId?_reply C env n.transport data addr packet dest hsent] at hid
      contradiction
    | send peerId message =>
      have hown := send_emits C env n.transport peerId message packet dest hsent
      exact Or.inl ⟨⟨peerId, message, rfl⟩, Option.some.inj (hid.symm.trans hown)⟩
    | retry =>
      obtain ⟨m', inf, hget, hid', hpacket, hdest⟩ := retrySweep_emits h env packet dest hsent
      cases Option.some.inj (hid.symm.trans hid')
      exact Or.inr ⟨rfl, inf, hget, hpacket, hdest⟩
    | connect _ _ | resume _ | timeout _ => exact absurd trivial hconnect

end Emissions

end Mesim.InFlightTable
