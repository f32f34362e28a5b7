import Mesim.InFlightTable

/-!
How often the packets of a message are transmitted.
While no ACK arrives, the retry loop sends the entry of a message twice more and
then gives it up. The entry is the last packet of the message: when the failure
callback fires, that packet has been transmitted MAX_RETRIES times and every other
one once.
-/
namespace Mesim.Retransmission

open Octets TextCodec Crypto Identity Packet Transport Operations Dispatch Nodes Fragments
open Honest Reassembly FragmentDelivery SignedDelivery InFlightTable MeshTransport Outcome

variable (C : Suite)

/-- What the events of a run cause, in order. -/
def trace (n : Node) : List (Env × Event) → List Effect
  | [] => []
  | e :: rest => (n.step C e.1 e.2).2 ++ trace (nodeStep C n e) rest

def isCopy (packet : Bytes) : Effect → Bool
  | .sendto sent _ => sent = packet
  | _ => false

/-- How often the packet is transmitted. -/
def transmissions (packet : Bytes) (effects : List Effect) : ℕ := effects.countP (isCopy packet)

/-- The event is no ACK for this msg_id. -/
def Unacknowledged (m : ℕ) (n : Node) : Env × Event → Prop
  | (_, .datagram data addr) => acknowledges C n.transport data addr ≠ some m
  | _ => True

/-- The packet waits under this msg_id, transmitted as often as its entry says. -/
def InCustody (m : ℕ) (packet : Bytes) (attempt : ℕ) (t : MeshTransport) : Prop :=
  ∃ inf, t.inFlight.get? m = some inf ∧ inf.packetBytes = packet ∧ inf.attempt = attempt

/-- The msg_id is used up: it has no entry and will get none. -/
def Gone (m : ℕ) (t : MeshTransport) : Prop :=
  t.inFlight.get? m = none ∧ m < t.msgIdCounter

section Counting

theorem transmissions_append (packet : Bytes) (l l' : List Effect) :
    transmissions packet (l ++ l') = transmissions packet l + transmissions packet l' :=
  List.countP_append

theorem transmissions_eq_zero (packet : Bytes) (effects : List Effect)
    (h : ∀ dest, .sendto packet dest ∉ effects) : transmissions packet effects = 0 := by
  rw [transmissions, List.countP_eq_zero]
  rintro e he hcopy
  cases e with
  | sendto sent dest =>
    have heq : sent = packet := of_decide_eq_true hcopy
    rw [heq] at he
    exact h dest he
  | message _ _ _ | connected _ _ | sendFailed _ _ _ | ackReceived _ _ | rawPacket _ _ _ _ =>
    contradiction

theorem transmissions_sendRaw (t : MeshTransport) (hudp : t.udpTransport = true)
    (packet sent : Bytes) (dest : Addr) :
    transmissions packet (t.sendRaw sent dest) = if sent = packet then 1 else 0 := by
  simp only [sendRaw, hudp, if_true, transmissions, List.countP_singleton, isCopy,
    decide_eq_true_eq]

variable {t : MeshTransport}

/-- Of the effects of a sweep, those that only one msg_id can have come from its entry. -/
theorem filter_sweep (h : Orderly t) (env : Env) (m : ℕ) (select : Effect → Bool)
    (hselect : ∀ x ∈ due env t, x.msgId ≠ m → (retryEffects t x).filter select = [])
    (inf : InFlight) (hget : t.inFlight.get? m = some inf) :
    (retrySweep env t).effects.filter select =
      if env.monotonic ≥ inf.nextRetryAt then (retryEffects t inf).filter select else [] := by
  have hkey := h.keyed m inf hget
  have hothers : ∀ entries : List InFlight, (∀ x ∈ entries, x ∈ due env t ∧ x.msgId ≠ m) →
      (entries.flatMap (retryEffects t)).filter select = [] := by
    intro entries hentries
    rw [List.filter_flatMap, List.flatMap_eq_nil_iff]
    exact fun x hx => hselect x (hentries x hx).1 (hentries x hx).2
  rw [retrySweep_effects]
  by_cases hdue : env.monotonic ≥ inf.nextRetryAt
  · have hmem : inf ∈ due env t := (mem_due_iff h env inf).mpr ⟨by rw [hkey]; exact hget, hdue⟩
    obtain ⟨pre, post, hsplit⟩ := List.append_of_mem hmem
    have hnodup := nodup_due h env
    rw [hsplit, List.map_append, List.map_cons] at hnodup
    obtain ⟨_, hcons, hdisjoint⟩ := List.nodup_append.mp hnodup
    have hpre : ∀ x ∈ pre, x ∈ due env t ∧ x.msgId ≠ m := by
      intro x hx
      rw [← hkey]
      exact ⟨by rw [hsplit]; simp [hx], hdisjoint _ (List.mem_map_of_mem hx) _ List.mem_cons_self⟩
    have hpost : ∀ x ∈ post, x ∈ due env t ∧ x.msgId ≠ m := by
      intro x hx
      refine ⟨by rw [hsplit]; simp [hx], fun heq => (List.nodup_cons.mp hcons).1 ?_⟩
      rw [hkey, ← heq]
      exact List.mem_map_of_mem hx
    rw [if_pos hdue, hsplit, List.flatMap_append, List.flatMap_cons, List.filter_append,
      List.filter_append, hothers pre hpre, hothers post hpost, List.nil_append, List.append_nil]
  · rw [if_neg hdue]
    refine hothers _ fun x hx => ⟨hx, fun heq => ?_⟩
    obtain ⟨hx, hxdue⟩ := (mem_due_iff h env x).mp hx
    rw [heq, hget] at hx
    cases hx
    exact hdue hxdue

theorem transmissions_eq_length (packet : Bytes) (effects : List Effect) :
    transmissions packet effects = (effects.filter (isCopy packet)).length :=
  List.countP_eq_length_filter

/-- A sweep transmits a packet as often as the entry under its msg_id makes it. -/
theorem transmissions_sweep (h : Orderly t) (env : Env) (m : ℕ) (packet : Bytes)
    (hid : messageId? packet = some m) (inf : InFlight) (hget : t.inFlight.get? m = some inf) :
    transmissions packet (retrySweep env t).effects =
      if env.monotonic ≥ inf.nextRetryAt then transmissions packet (retryEffects t inf) else 0 := by
  have hothers : ∀ x ∈ due env t, x.msgId ≠ m → (retryEffects t x).filter (isCopy packet) = [] := by
    intro x hx hne
    rw [← List.length_eq_zero_iff, ← transmissions_eq_length]
    refine transmissions_eq_zero packet _ fun dest heffect => ?_
    have hheader := h.header _ x ((mem_due_iff h env x).mp hx).1
    unfold retryEffects at heffect
    split at heffect
    · simp at heffect
    · cases mem_sendRaw _ _ _ _ heffect
      exact hne (Option.some.inj (hheader.symm.trans hid))
  rw [transmissions_eq_length, filter_sweep h env m _ hothers inf hget, transmissions_eq_length]
  split <;> rfl

end Counting

section Steps

/-- What one event does to a packet in custody, under the msg_id `m`. -/
inductive CustodyStep (m : ℕ) (packet : Bytes) (attempt : ℕ) (n : Node) (e : Env × Event) : Prop
  | kept (hcustody : InCustody m packet attempt (nodeStep C n e).transport)
      (hquiet : ∀ p, messageId? p = some m → transmissions p (n.step C e.1 e.2).2 = 0)
  | repeated (hcustody : InCustody m packet (attempt + 1) (nodeStep C n e).transport)
      (hlt : attempt < maxRetries)
      (hsent : ∀ p, messageId? p = some m →
        transmissions p (n.step C e.1 e.2).2 = if p = packet then 1 else 0)
  | dropped (hgone : Gone m (nodeStep C n e).transport) (hle : maxRetries ≤ attempt)
      (hquiet : ∀ p, messageId? p = some m → transmissions p (n.step C e.1 e.2).2 = 0)

theorem quiet_of_not_retry (n : Node) (e : Env × Event) (h : Orderly n.transport) (m : ℕ)
    (hused : m < n.transport.msgIdCounter) (hretry : e.2 ≠ .retry) (p : Bytes)
    (hid : messageId? p = some m) : transmissions p (n.step C e.1 e.2).2 = 0 := by
  refine transmissions_eq_zero p _ fun dest hsent => ?_
  rcases step_emits C n e h p dest m hsent hid with ⟨_, heq⟩ | ⟨heq, _⟩
  · exact absurd heq (Nat.ne_of_lt hused)
  · exact hretry heq

/-- Only an ACK and the retry loop change the entry of a msg_id in use. -/
theorem entry_kept (n : Node) (e : Env × Event) (m : ℕ) (hused : m < n.transport.msgIdCounter)
    (hretry : e.2 ≠ .retry) (hsilent : Unacknowledged C m n e) :
    (nodeStep C n e).transport.inFlight.get? m = n.transport.inFlight.get? m := by
  obtain ⟨env, event⟩ := e
  by_cases hconnect : IsConnect event
  · rw [(inFlight_connecting C n env event hconnect).1]
  · cases event with
    | datagram data addr =>
      show (dispatch C env n.transport data addr).state.inFlight.get? m = _
      rw [inFlight_dispatch]
      split
      · rename_i m' hack
        refine OrderedDict.get?_erase_of_ne _ fun heq => ?_
        rw [heq] at hack
        exact hsilent hack
      · rfl
    | send peerId message => exact send_other C env n.transport peerId message m (Nat.ne_of_lt hused)
    | retry => exact absurd rfl hretry
    | connect _ _ | resume _ | timeout _ => exact absurd trivial hconnect

theorem counter_step (n : Node) (e : Env × Event) :
    n.transport.msgIdCounter ≤ (nodeStep C n e).transport.msgIdCounter := by
  obtain ⟨env, event⟩ := e
  by_cases hconnect : IsConnect event
  · rw [(inFlight_connecting C n env event hconnect).2]
  · cases event with
    | datagram data addr => exact (counter_dispatch C env n.transport data addr).ge
    | send peerId message => exact (send_counter C env n.transport peerId message).1
    | retry => exact (retryEntries_counter env.monotonic n.transport _).ge
    | connect _ _ | resume _ | timeout _ => exact absurd trivial hconnect

theorem custody_step (n : Node) (e : Env × Event) (h : Orderly n.transport)
    (hudp : n.transport.udpTransport = true) (m : ℕ) (packet : Bytes) (attempt : ℕ)
    (hcustody : InCustody m packet attempt n.transport) (hsilent : Unacknowledged C m n e) :
    CustodyStep C m packet attempt n e := by
  obtain ⟨inf, hget, hpacket, hattempt⟩ := hcustody
  have hused := h.used m inf hget
  by_cases hretry : e.2 = .retry
  · obtain ⟨env, event⟩ := e
    cases hretry
    have hnext := retrySweep_get? h env m
    simp only [hget] at hnext
    have hcount := fun p hid => transmissions_sweep h env m p hid inf hget
    by_cases hdue : env.monotonic ≥ inf.nextRetryAt
    · simp only [if_pos hdue] at hnext hcount
      by_cases hspent : inf.attempt ≥ maxRetries
      · rw [if_pos hspent] at hnext
        refine .dropped ⟨hnext, Nat.lt_of_lt_of_le hused (counter_step C n (env, .retry))⟩
          (hattempt ▸ hspent) fun p hid => (hcount p hid).trans ?_
        rw [retryEffects, if_pos hspent]
        exact transmissions_eq_zero p _ (by simp)
      · rw [if_neg hspent] at hnext
        refine .repeated ⟨_, hnext, hpacket, congrArg (· + 1) hattempt⟩
          (hattempt ▸ Nat.not_le.mp hspent) fun p hid => (hcount p hid).trans ?_
        rw [retryEffects, if_neg hspent, transmissions_sendRaw n.transport hudp, hpacket]
        simp only [eq_comm]
    · simp only [if_neg hdue] at hnext hcount
      exact .kept ⟨inf, hnext, hpacket, hattempt⟩ hcount
  · refine .kept ⟨inf, ?_, hpacket, hattempt⟩
      fun p hid => quiet_of_not_retry C n e h m hused hretry p hid
    rw [entry_kept C n e m hused hretry hsilent, hget]

theorem gone_step (n : Node) (e : Env × Event) (h : Orderly n.transport) (m : ℕ)
    (hgone : Gone m n.transport) : Gone m (nodeStep C n e).transport := by
  refine ⟨?_, Nat.lt_of_lt_of_le hgone.2 (counter_step C n e)⟩
  obtain ⟨env, event⟩ := e
  by_cases hconnect : IsConnect event
  · rw [(inFlight_connecting C n env event hconnect).1]
    exact hgone.1
  · cases event with
    | datagram data addr =>
      show (dispatch C env n.transport data addr).state.inFlight.get? m = none
      rw [inFlight_dispatch]
      split
      · rw [OrderedDict.get?_erase]
        split
        · rfl
        · exact hgone.1
      · exact hgone.1
    | send peerId message =>
      exact (send_other C env n.transport peerId message m (Nat.ne_of_lt hgone.2)).trans hgone.1
    | retry =>
      show (retrySweep env n.transport).state.inFlight.get? m = none
      rw [retrySweep_get? h, hgone.1]
    | connect _ _ | resume _ | timeout _ => exact absurd trivial hconnect

/-- A sweep fires for an entry that is due and has no attempt left. -/
theorem fired_sweep {t : MeshTransport} (h : Orderly t) (env : Env) (m : ℕ) (cb : Callback)
    (addr : Addr) (hfired : .sendFailed cb m addr ∈ (retrySweep env t).effects) :
    ∃ inf, t.inFlight.get? m = some inf ∧ env.monotonic ≥ inf.nextRetryAt ∧
      maxRetries ≤ inf.attempt ∧ inf.peerAddr = addr := by
  rw [retrySweep_effects] at hfired
  obtain ⟨inf, hinf, heffect⟩ := List.mem_flatMap.mp hfired
  obtain ⟨hget, hdue⟩ := (mem_due_iff h env inf).mp hinf
  unfold retryEffects at heffect
  split at heffect
  · rename_i hspent
    obtain ⟨_, _, heq⟩ := List.mem_map.mp heffect
    cases heq
    exact ⟨inf, hget, hdue, hspent, rfl⟩
  · cases mem_sendRaw _ _ _ _ heffect

/-- The failure callback fires for an entry with no attempt left. -/
theorem fired_entry (n : Node) (e : Env × Event) (h : Orderly n.transport) (m : ℕ) (cb : Callback)
    (addr : Addr) (hfired : .sendFailed cb m addr ∈ (n.step C e.1 e.2).2) :
    e.2 = .retry ∧ ∃ inf, n.transport.inFlight.get? m = some inf ∧ maxRetries ≤ inf.attempt := by
  obtain ⟨env, event⟩ := e
  cases event with
  | datagram data addr' => cases dispatch_consequence C env n.transport data addr' _ hfired
  | connect addr' bundle =>
    have hmem : .sendFailed cb m addr ∈ (connectBegin C n.transport addr' bundle).effects := hfired
    have hbegun := connectBegin_begun C n.transport addr' bundle
    generalize connectBegin C n.transport addr' bundle = out at hbegun hmem
    cases hbegun with
    | rejected | unsent => contradiction
    | sent => cases mem_sendRaw _ _ _ _ hmem
  | resume i =>
    have hmem : .sendFailed cb m addr ∈ (n.resume C env i).2 := hfired
    have hresumed := resume_resumed C env n i
    generalize n.resume C env i = out at hresumed hmem
    cases hresumed with
    | idle | failed | returned => contradiction
    | encapsulated => cases mem_sendRaw _ _ _ _ hmem
  | timeout i => contradiction
  | send peer text =>
    obtain ⟨_, _, heq⟩ := send_sendto C env n.transport peer text _ hfired
    contradiction
  | retry =>
    obtain ⟨inf, hget, _, hspent, _⟩ := fired_sweep h env m cb addr hfired
    exact ⟨rfl, inf, hget, hspent⟩

/-- The sweep that gives a message up does not send it. -/
theorem quiet_of_fired (n : Node) (e : Env × Event) (h : Orderly n.transport) (m : ℕ)
    (cb : Callback) (addr : Addr) (hfired : .sendFailed cb m addr ∈ (n.step C e.1 e.2).2)
    (p : Bytes) (hid : messageId? p = some m) : transmissions p (n.step C e.1 e.2).2 = 0 := by
  obtain ⟨hretry, inf, hget, hspent⟩ := fired_entry C n e h m cb addr hfired
  obtain ⟨env, event⟩ := e
  cases hretry
  apply (transmissions_sweep h env m p hid inf hget).trans
  split
  · rw [retryEffects, if_pos hspent]
    exact transmissions_eq_zero p _ (by simp)
  · rfl

end Steps

section Runs

theorem udp_step (n : Node) (e : Env × Event) :
    (nodeStep C n e).transport.udpTransport = n.transport.udpTransport :=
  (nodeStep_sameDevice C n e).udpTransport

theorem gone_run (n : Node) (events : List (Env × Event)) (h : Orderly n.transport) (m : ℕ)
    (hgone : Gone m n.transport) : Gone m (Runs.run (nodeStep C) n events).transport :=
  (Runs.invariant_of_step (I := fun n : Node => Orderly n.transport ∧ Gone m n.transport)
    (fun n e hn => ⟨orderly_step C n e hn.1, gone_step C n e hn.1 m hn.2⟩) n events ⟨h, hgone⟩).2

/-- Until it is given up, a packet in custody is transmitted as its entry counts. -/
theorem custody_run (n : Node) (events : List (Env × Event)) (h : Orderly n.transport)
    (hudp : n.transport.udpTransport = true) (m : ℕ) (packet : Bytes) (attempt : ℕ)
    (hcustody : InCustody m packet attempt n.transport) (hle : attempt ≤ maxRetries)
    (hsilent : Runs.Always (nodeStep C) (Unacknowledged C m) n events) :
    Gone m (Runs.run (nodeStep C) n events).transport ∨
      ∃ reached, attempt ≤ reached ∧ reached ≤ maxRetries ∧
        InCustody m packet reached (Runs.run (nodeStep C) n events).transport ∧
        ∀ p, messageId? p = some m →
          transmissions p (trace C n events) = if p = packet then reached - attempt else 0 := by
  induction events generalizing n attempt with
  | nil =>
    refine Or.inr ⟨attempt, le_rfl, hle, hcustody, fun p _ => ?_⟩
    rw [Nat.sub_self, ite_self]
    rfl
  | cons e rest ih =>
    have hnext := orderly_step C n e h
    have hudp' := (udp_step C n e).trans hudp
    cases custody_step C n e h hudp m packet attempt hcustody hsilent.1 with
    | kept hcustody' hquiet =>
      rcases ih (nodeStep C n e) hnext hudp' attempt hcustody' hle hsilent.2 with
        hgone | ⟨reached, hlow, hhigh, hend, hcount⟩
      · exact Or.inl hgone
      · refine Or.inr ⟨reached, hlow, hhigh, hend, fun p hid => ?_⟩
        rw [trace, transmissions_append, hquiet p hid, hcount p hid, Nat.zero_add]
    | repeated hcustody' hlt hsent =>
      rcases ih (nodeStep C n e) hnext hudp' (attempt + 1) hcustody' hlt hsilent.2 with
        hgone | ⟨reached, hlow, hhigh, hend, hcount⟩
      · exact Or.inl hgone
      · refine Or.inr ⟨reached, by omega, hhigh, hend, fun p hid => ?_⟩
        rw [trace, transmissions_append, hsent p hid, hcount p hid]
        split <;> omega
    | dropped hgone _ _ => exact Or.inl (gone_run C (nodeStep C n e) rest hnext m hgone)

theorem trace_append (n : Node) (events more : List (Env × Event)) :
    trace C n (events ++ more) =
      trace C n events ++ trace C (Runs.run (nodeStep C) n events) more := by
  induction events generalizing n with
  | nil => rfl
  | cons e rest ih =>
    rw [List.cons_append, trace, trace, ih, List.append_assoc]
    rfl

end Runs

section Message

theorem nodup_packets (x : Sending) (hx : x.Sendable) : (x.packets C).Nodup := by
  rw [List.nodup_iff_injective_get]
  rintro ⟨i, hi⟩ ⟨j, hj⟩ heq
  have hlen : (x.packets C).length = x.chunks.length := List.length_mapIdx
  have hchunk : ∀ k (hk : k < (x.packets C).length), ∃ chunk, x.chunks[k]? = some chunk ∧
      (x.packets C).get ⟨k, hk⟩ = x.packet C k chunk := by
    intro k hk
    refine ⟨x.chunks.get ⟨k, hlen ▸ hk⟩, List.getElem?_eq_getElem (hlen ▸ hk), ?_⟩
    simp only [Sending.packets, List.get_eq_getElem, List.getElem_mapIdx]
  obtain ⟨chunk, hget, hpacket⟩ := hchunk i hi
  obtain ⟨chunk', hget', hpacket'⟩ := hchunk j hj
  rw [hpacket, hpacket'] at heq
  exact Fin.ext (packet_injective C x hx hget hget' heq)

theorem transmissions_once (t : MeshTransport) (hudp : t.udpTransport = true) (dest : Addr)
    (packets : List Bytes) (hnodup : packets.Nodup) (packet : Bytes) (hmem : packet ∈ packets) :
    transmissions packet (packets.flatMap (fun pkt => t.sendRaw pkt dest)) = 1 := by
  have hcount : ∀ l : List Bytes,
      transmissions packet (l.flatMap (fun pkt => t.sendRaw pkt dest)) = l.count packet := by
    intro l
    induction l with
    | nil => rfl
    | cons first rest ih =>
      rw [List.flatMap_cons, transmissions_append, ih, transmissions_sendRaw t hudp,
        List.count_cons, Nat.add_comm]
      simp only [beq_iff_eq]
  rw [hcount]
  exact List.count_eq_one_of_mem hnodup hmem

theorem one_lt_splitFragments (b : Bytes) (h : maxFragPt < b.length) :
    1 < (splitFragments b).length := by
  have hpos : 1 ≤ maxFragPt := by decide
  obtain ⟨n, hn⟩ : ∃ n, b.length = n + 2 := ⟨b.length - 2, by omega⟩
  have hfirst : b.isEmpty = false := by
    rw [List.isEmpty_eq_false_iff]
    rintro rfl
    simp at hn
  have hsecond : (b.drop maxFragPt).isEmpty = false := by
    rw [List.isEmpty_eq_false_iff]
    intro hnil
    have hdrop : (b.drop maxFragPt).length = b.length - maxFragPt := List.length_drop
    rw [hnil, List.length_nil] at hdrop
    omega
  rw [splitFragments, hn, chunks, hfirst, if_neg (by simp), chunks, hsecond, if_neg (by simp)]
  simp

/-- A message is sent in one packet when it fits one with its signature. -/
theorem total_eq_one_iff (env : Env) (t : MeshTransport) (key : SessionKey) (message : Bytes) :
    (sending C env t key message).total = 1 ↔ sigSize + message.length ≤ maxFragPt := by
  let whole := (C.signMessage message t.identity.signingKeypair.signingKey).toList ++ message
  have hwhole : whole.length = sigSize + message.length := by
    rw [List.length_append, List.Vector.toList_length]
  show (splitFragments whole).length = 1 ↔ _
  constructor
  · intro hone
    by_contra hlong
    have := one_lt_splitFragments whole (by omega)
    omega
  · intro hle
    have hpos : 0 < whole.length := by
      rw [hwhole]
      exact Nat.add_pos_left (by decide) _
    rw [splitFragments_single whole hpos (hwhole ▸ hle)]
    rfl

/-- When the failure callback fires for a message, its last packet has been transmitted
MAX_RETRIES times and the others once. -/
theorem transmissions_of_fired (owner : DeviceIdentity) (n : Node) (hn : Reachable C owner n)
    (env : Env) (peerId : String) (message : Bytes) (session : SessionInfo)
    (hsession : n.transport.sessions.get? peerId = some session)
    (hsendable : (sending C env n.transport session.sessionKey message).Sendable)
    (events : List (Env × Event))
    (hsilent : Runs.Always (nodeStep C) (Unacknowledged C n.transport.msgIdCounter)
      (nodeStep C n (env, .send peerId message)) events)
    (final : Env × Event) (cb : Callback) (addr : Addr)
    (hfired : .sendFailed cb n.transport.msgIdCounter addr ∈
      ((Runs.run (nodeStep C) (nodeStep C n (env, .send peerId message)) events).step C final.1
        final.2).2)
    (i : ℕ) (chunk : Bytes)
    (hchunk : (sending C env n.transport session.sessionKey message).chunks[i]? = some chunk) :
    transmissions ((sending C env n.transport session.sessionKey message).packet C i chunk)
        (trace C n ((env, .send peerId message) :: events ++ [final])) =
      if i + 1 = (sending C env n.transport session.sessionKey message).total then maxRetries
      else 1 := by
  let x := sending C env n.transport session.sessionKey message
  let next := nodeStep C n (env, .send peerId message)
  have horderly : Orderly next.transport := orderly_step C n _ (reachable_orderly C hn)
  have hudp : n.transport.udpTransport = true := (reachable_device C owner n hn).2
  have hi : i < x.total := (List.getElem?_eq_some_iff.mp hchunk).1
  obtain ⟨last, hlast⟩ : ∃ last, x.total = last + 1 := ⟨x.total - 1, by omega⟩
  obtain ⟨lastChunk, hlastChunk⟩ : ∃ c, x.chunks[last]? = some c :=
    ⟨_, List.getElem?_eq_getElem (by simp only [Sending.total] at hlast; omega)⟩
  have hcustody : InCustody n.transport.msgIdCounter (x.packet C last lastChunk) 1 next.transport :=
    ⟨_, send_inFlight C env n.transport peerId message session hsession hsendable last lastChunk
      hlastChunk hlast.symm, rfl, rfl⟩
  have hid : messageId? (x.packet C i chunk) = some n.transport.msgIdCounter :=
    messageId?_packet C x hsendable hchunk
  have hend : Orderly (Runs.run (nodeStep C) next events).transport :=
    Runs.invariant_of_step (I := fun n : Node => Orderly n.transport)
      (fun n e h => orderly_step C n e h) next events horderly
  obtain ⟨_, inf, hentry, hspent⟩ := fired_entry C _ final hend _ cb addr hfired
  have hquiet := quiet_of_fired C _ final hend _ cb addr hfired _ hid
  rcases custody_run C next events horderly ((udp_step C n _).trans hudp) _ _ 1 hcustody (by decide)
    hsilent with hgone | ⟨reached, _, hhigh, hlastEntry, hcount⟩
  · rw [hgone.1] at hentry
    contradiction
  · obtain ⟨inf', hentry', _, hattempt⟩ := hlastEntry
    cases Option.some.inj (hentry.symm.trans hentry')
    have hreached : reached = maxRetries := Nat.le_antisymm hhigh (hattempt ▸ hspent)
    have heffects : (n.step C env (.send peerId message)).2 =
        (x.packets C).flatMap (fun pkt => n.transport.sendRaw pkt session.peerAddr) :=
      (send_ok C env n.transport peerId message session hsession
        ((send_raised_iff C env n.transport peerId message session hsession).mpr hsendable)).2
    have honce := transmissions_once n.transport hudp session.peerAddr (x.packets C)
      (nodup_packets C x hsendable) _ ((x.mem_packets C _).mpr ⟨i, chunk, hchunk, rfl⟩)
    rw [List.cons_append, trace, trace_append, trace, trace, List.append_nil, transmissions_append,
      transmissions_append, heffects, honce, hcount _ hid, hquiet, hreached]
    by_cases heq : i = last
    · subst i
      cases Option.some.inj (hchunk.symm.trans hlastChunk)
      rw [if_pos rfl, if_pos hlast.symm]
      rfl
    · have hne : x.packet C i chunk ≠ x.packet C last lastChunk := fun hpacket =>
        heq (packet_injective C x hsendable hchunk hlastChunk hpacket)
      rw [if_neg hne, if_neg (fun htotal => heq (Nat.succ.inj (htotal.trans hlast)))]

/-- In every run in which no ACK for a message arrives: when the failure callback fires
for it, every packet that send() emitted has been transmitted MAX_RETRIES times exactly
when the message fits one fragment. -/
theorem retransmitted_iff (owner : DeviceIdentity) (n : Node) (hn : Reachable C owner n)
    (env : Env) (peerId : String) (message : Bytes)
    (hsent : (send C env n.transport peerId message).raised = none)
    (events : List (Env × Event))
    (hsilent : Runs.Always (nodeStep C) (Unacknowledged C n.transport.msgIdCounter)
      (nodeStep C n (env, .send peerId message)) events)
    (final : Env × Event) (cb : Callback) (addr : Addr)
    (hfired : .sendFailed cb n.transport.msgIdCounter addr ∈
      ((Runs.run (nodeStep C) (nodeStep C n (env, .send peerId message)) events).step C final.1
        final.2).2) :
    (∀ packet dest, .sendto packet dest ∈ (send C env n.transport peerId message).effects →
      transmissions packet (trace C n ((env, .send peerId message) :: events ++ [final])) =
        maxRetries) ↔ sigSize + message.length ≤ maxFragPt := by
  cases hsession : n.transport.sessions.get? peerId with
  | none =>
    rw [send_missing C env n.transport peerId message hsession] at hsent
    contradiction
  | some session =>
    obtain ⟨hsendable, heffects⟩ := send_ok C env n.transport peerId message session hsession hsent
    have hudp : n.transport.udpTransport = true := (reachable_device C owner n hn).2
    have hcount := transmissions_of_fired C owner n hn env peerId message session hsession hsendable
      events hsilent final cb addr hfired
    rw [← total_eq_one_iff C env n.transport session.sessionKey message]
    constructor
    · intro hall
      by_contra hne
      obtain ⟨chunk, hfirst⟩ := exists_first_chunk C env n.transport session.sessionKey message
      have honce := hcount 0 _ hfirst
      rw [if_neg (fun h => hne h.symm), hall _ session.peerAddr] at honce
      · exact absurd honce (by decide)
      · exact sendto_packet C env n.transport peerId message session hsession hsent hudp 0 chunk
          hfirst
    · intro hone packet dest hpacket
      rw [heffects] at hpacket
      obtain ⟨pkt, hpkt, hraw⟩ := List.mem_flatMap.mp hpacket
      cases mem_sendRaw _ _ _ _ hraw
      obtain ⟨i, chunk, hchunk, rfl⟩ := (Sending.mem_packets C _ _).mp hpkt
      have hi := (List.getElem?_eq_some_iff.mp hchunk).1
      rw [hcount i chunk hchunk, if_pos]
      simp only [Sending.total] at hone ⊢
      omega

end Message

section Stub

/-- The stub's environment at a later time. -/
def later (seconds : ℚ) : Env := { stillEnv with monotonic := seconds }

theorem callbacks_send (env : Env) (t : MeshTransport) (peerId : String) (message : Bytes) :
    (send C env t peerId message).state.sendFailedCbs = t.sendFailedCbs ∧
      (send C env t peerId message).state.ackCbs = t.ackCbs := by
  have hloop : ∀ (session : SessionInfo) (msgId fragTotal : ℕ) (u : MeshTransport) (fragIdx : ℕ)
      (l : List Bytes),
      (sendFragments C env session msgId fragTotal u fragIdx l).state.sendFailedCbs =
          u.sendFailedCbs ∧
        (sendFragments C env session msgId fragTotal u fragIdx l).state.ackCbs = u.ackCbs := by
    intro session msgId fragTotal u fragIdx l
    induction l generalizing u fragIdx with
    | nil => exact ⟨rfl, rfl⟩
    | cons chunk rest ih =>
      unfold sendFragments attempt
      split
      · exact ⟨rfl, rfl⟩
      · exact ih _ _
  unfold send
  dsimp only
  repeat' split
  · exact ⟨rfl, rfl⟩
  · exact hloop _ _ _ _ _ _
  · exact hloop _ _ _ _ _ _

theorem sendFailedCbs_retrySweep (env : Env) (t : MeshTransport) :
    (retrySweep env t).state.sendFailedCbs = t.sendFailedCbs := by
  show (retryEntries env.monotonic t _).1.sendFailedCbs = _
  generalize List.filter _ _ = entries
  induction entries generalizing t with
  | nil => rfl
  | cons inf rest ih =>
    exact (ih (retryEntry env.monotonic t inf).1).trans (retryEntry_same env.monotonic t inf).2.1

theorem fires_of_spent {t : MeshTransport} (h : Orderly t) (env : Env) (m : ℕ) (inf : InFlight)
    (hget : t.inFlight.get? m = some inf) (hdue : env.monotonic ≥ inf.nextRetryAt)
    (hspent : maxRetries ≤ inf.attempt) (cb : Callback) (hcb : cb ∈ t.sendFailedCbs) :
    .sendFailed cb m inf.peerAddr ∈ (retrySweep env t).effects := by
  have hkey := h.keyed m inf hget
  rw [retrySweep_effects]
  refine List.mem_flatMap.mpr ⟨inf, (mem_due_iff h env inf).mpr ⟨by rw [hkey]; exact hget, hdue⟩, ?_⟩
  rw [retryEffects, if_pos hspent, hkey]
  exact List.mem_map.mpr ⟨cb, hcb, rfl⟩

theorem effects_retry (n : Node) (env : Env) :
    (n.step C env .retry).2 = (retrySweep env n.transport).effects := rfl

theorem transport_retry (n : Node) (env : Env) :
    (nodeStep C n (env, .retry)).transport = (retrySweep env n.transport).state := rfl

theorem transport_send (n : Node) (env : Env) (peerId : String) (message : Bytes) :
    (nodeStep C n (env, .send peerId message)).transport =
      (send C env n.transport peerId message).state := rfl

theorem sweep_repeats {t : MeshTransport} (h : Orderly t) (env : Env) (m : ℕ) (inf : InFlight)
    (hget : t.inFlight.get? m = some inf) (hdue : env.monotonic ≥ inf.nextRetryAt)
    (hlt : inf.attempt < maxRetries) :
    (retrySweep env t).state.inFlight.get? m = some (retried env.monotonic inf) := by
  rw [retrySweep_get? h env m, hget]
  simp only [if_pos hdue, if_neg (Nat.not_le.mpr hlt)]

/-- Two sweeps transmit what alpha sends again, and the third gives it up. -/
theorem exists_fired (message : Bytes) (hlen : sigSize + message.length ≤ 2 * maxFragPt) :
    ∃ (a : Node) (session : SessionInfo) (events : List (Env × Event)) (addr : Addr),
      Reachable stub alpha a ∧ a.transport.sessions.get? "bravo" = some session ∧
      (sending stub stillEnv a.transport session.sessionKey message).Sendable ∧
      Runs.Always (nodeStep stub) (Unacknowledged stub a.transport.msgIdCounter)
        (nodeStep stub a (stillEnv, .send "bravo" message)) events ∧
      .sendFailed 0 a.transport.msgIdCounter addr ∈
        ((Runs.run (nodeStep stub) (nodeStep stub a (stillEnv, .send "bravo" message)) events).step
          stub (later 30) .retry).2 ∧
      events = [(later 10, .retry), (later 20, .retry)] := by
  obtain ⟨a, _, hreach, _, hest, _, ⟨ta, hta, _, _, hsame⟩, _, hcbs, _⟩ :=
    exists_established_with [] [0] [] .empty
  obtain ⟨session, hholds, _, _, _⟩ := holds_of_established hest
  let m := a.transport.msgIdCounter
  let x := sending stub stillEnv a.transport session.sessionKey message
  have hcounter : m = 1 := hsame.msgIdCounter.trans hta.msgIdCounter
  have hsendable : x.Sendable := sendable_first stub stillEnv session.sessionKey hcounter hlen
  obtain ⟨last, chunk, hchunk, hlast⟩ :=
    exists_last_chunk stub stillEnv a.transport session.sessionKey message
  let first := (send stub stillEnv a.transport "bravo" message).state
  let second := (retrySweep (later 10) first).state
  let third := (retrySweep (later 20) second).state
  have h₀ := reachable_orderly stub hreach
  have h₁ : Orderly first := orderly_step stub a (stillEnv, .send "bravo" message) h₀
  have h₂ : Orderly second := orderly_step stub ⟨first, a.calls⟩ (later 10, .retry) h₁
  have h₃ : Orderly third := orderly_step stub ⟨second, a.calls⟩ (later 20, .retry) h₂
  have hget₁ := send_inFlight stub stillEnv a.transport "bravo" message session hholds.session
    hsendable last chunk hchunk hlast
  have hget₂ := sweep_repeats h₁ (later 10) m _ hget₁
    (by norm_num [later, firstEntry, stillEnv, retryBackoffs]) (show 1 < maxRetries by decide)
  have hget₃ := sweep_repeats h₂ (later 20) m _ hget₂
    (by norm_num [later, firstEntry, retried, retryBackoffs]) (show 2 < maxRetries by decide)
  have hcbs₃ : (0 : Callback) ∈ third.sendFailedCbs := by
    have hall : third.sendFailedCbs = [0] :=
      (sendFailedCbs_retrySweep (later 20) second).trans
        ((sendFailedCbs_retrySweep (later 10) first).trans
          ((callbacks_send stub stillEnv a.transport "bravo" message).1.trans hcbs))
    rw [hall]
    exact List.mem_singleton_self 0
  have hfired := fires_of_spent h₃ (later 30) m _ hget₃
    (by norm_num [later, firstEntry, retried, retryBackoffs]) (show maxRetries ≤ 3 by decide) 0 hcbs₃
  refine ⟨a, session, [(later 10, .retry), (later 20, .retry)], session.peerAddr, hreach,
    hholds.session, hsendable, ⟨trivial, trivial, trivial⟩, ?_, rfl⟩
  rw [Runs.run_cons, Runs.run_cons, Runs.run_nil, effects_retry, transport_retry, transport_retry,
    transport_send]
  exact hfired

/-- Alpha gives up a message of one fragment. -/
theorem retransmitted_iff_short : ∃ (a : Node) (events : List (Env × Event)),
    Reachable stub alpha a ∧
    ((∀ packet dest, .sendto packet dest ∈
        (send stub stillEnv a.transport "bravo" shortMessage).effects →
      transmissions packet (trace stub a
        ((stillEnv, .send "bravo" shortMessage) :: events ++ [(later 30, .retry)])) = maxRetries) ↔
      sigSize + shortMessage.length ≤ maxFragPt) := by
  obtain ⟨a, session, events, addr, hreach, hsession, hsendable, hsilent, hfired, _⟩ :=
    exists_fired shortMessage (by decide)
  exact ⟨a, events, hreach, retransmitted_iff stub alpha a hreach stillEnv "bravo" shortMessage
    ((send_raised_iff stub stillEnv a.transport "bravo" shortMessage session hsession).mpr hsendable)
    events hsilent (later 30, .retry) 0 addr hfired⟩

/-- Of a message of two fragments the first is transmitted once. -/
theorem first_fragment_sent_once : ¬ ∀ (owner : DeviceIdentity) (n : Node),
    Reachable stub owner n → ∀ (env : Env) (peerId : String) (message : Bytes),
    (send stub env n.transport peerId message).raised = none → ∀ (events : List (Env × Event)),
    Runs.Always (nodeStep stub) (Unacknowledged stub n.transport.msgIdCounter)
      (nodeStep stub n (env, .send peerId message)) events →
    ∀ (final : Env × Event) (cb : Callback) (addr : Addr),
    .sendFailed cb n.transport.msgIdCounter addr ∈
      ((Runs.run (nodeStep stub) (nodeStep stub n (env, .send peerId message)) events).step stub
        final.1 final.2).2 →
    ∀ packet dest, .sendto packet dest ∈ (send stub env n.transport peerId message).effects →
      transmissions packet (trace stub n ((env, .send peerId message) :: events ++ [final])) =
        maxRetries := by
  intro hclaim
  have hlength : longMessage.length = 2000 := List.length_replicate
  obtain ⟨a, session, events, addr, hreach, hsession, hsendable, hsilent, hfired, _⟩ :=
    exists_fired longMessage (by rw [hlength]; decide)
  have hsent := (send_raised_iff stub stillEnv a.transport "bravo" longMessage session hsession).mpr
    hsendable
  have htotal : (sending stub stillEnv a.transport session.sessionKey longMessage).total ≠ 1 := by
    rw [ne_eq, total_eq_one_iff, hlength]
    decide
  obtain ⟨chunk, hchunk⟩ := exists_first_chunk stub stillEnv a.transport session.sessionKey longMessage
  have honce := transmissions_of_fired stub alpha a hreach stillEnv "bravo" longMessage session
    hsession hsendable events hsilent (later 30, .retry) 0 addr hfired 0 chunk hchunk
  rw [if_neg (fun h => htotal h.symm), hclaim alpha a hreach stillEnv "bravo" longMessage hsent events
    hsilent (later 30, .retry) 0 addr hfired _ session.peerAddr] at honce
  · exact absurd honce (by decide)
  · exact sendto_packet stub stillEnv a.transport "bravo" longMessage session hsession hsent
      (reachable_device stub alpha a hreach).2 0 chunk hchunk

end Stub

end Mesim.Retransmission
