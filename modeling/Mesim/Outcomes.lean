import Mesim.Custody
import Mesim.RetrySchedule

/-!
What the callbacks tell of a message.
The retry loop reports a message that it gives up, once, when it takes the entry out of
the in-flight table. An ACK reports the msg_id that it names whether the table has an
entry for it or not, and whoever it comes from. A message has one outcome in exactly the
runs whose ACKs come from its recipient while it is in flight.
-/
namespace Mesim.Outcomes

open Octets Crypto Identity Packet Transport Operations Dispatch Nodes Fragments Reassembly
open SignedDelivery InFlightTable Retransmission RetrySchedule Custody MeshTransport Outcome

section Outcomes

def isAck (m : ℕ) : Effect → Bool
  | .ackReceived _ msgId => msgId = m
  | _ => false

inductive Verdict
  | acked
  | failed

/-- What the effects of one step tell of the msg_id. -/
def verdict (m : ℕ) (effects : List Effect) : List Verdict :=
  (if effects.any (isAck m) then [.acked] else []) ++
    if effects.any (isFailure m) then [.failed] else []

variable (C : Suite)

/-- What a run tells of the msg_id, in order. -/
def verdicts (m : ℕ) (n : Node) (events : List (Env × Event)) : List Verdict :=
  (Runs.visits (nodeStep C) n events).flatMap fun visit =>
    verdict m (visit.1.step C visit.2.1 visit.2.2).2

/-- The recipient of a call of send() that takes the msg_id. -/
def recipient (m : ℕ) (n : Node) (e : Env × Event) : Option String :=
  match e.2 with
  | .send peerId _ =>
    if n.transport.msgIdCounter = m ∧ (nodeStep C n e).transport.msgIdCounter ≠ m then some peerId
    else none
  | _ => none

/-- The peers that a run has sent the msg_id to. -/
def sentTo (m : ℕ) (n : Node) (events : List (Env × Event)) : List String :=
  (Runs.visits (nodeStep C) n events).filterMap fun visit => recipient C m visit.1 visit.2

/-- After the run the msg_id is in flight to the peer that the event's ACK comes from. -/
def InFlightTo (m : ℕ) (n : Node) (events : List (Env × Event)) (e : Event) : Prop :=
  ∃ inf peerId, (Runs.run (nodeStep C) n events).transport.inFlight.get? m = some inf ∧
    ackedBy C (Runs.run (nodeStep C) n events).transport e = some (m, peerId) ∧
    peerId ∈ sentTo C m n events

/-- Every msg_id has one outcome at most, and only the peer that it is in flight to
acknowledges it. -/
structure OneOutcome (n : Node) (events : List (Env × Event)) : Prop where
  once : ∀ m, (verdicts C m n events).length ≤ 1
  inFlight : ∀ done e m, done ++ [e] <+: events →
    ((Runs.run (nodeStep C) n done).step C e.1 e.2).2.any (isAck m) = true →
    InFlightTo C m n done e.2

/-- An ACK for the msg_id is accepted, and someone is told. -/
def Reported (m : ℕ) (n : Node) : Event → Prop
  | .datagram data addr =>
    acknowledges C n.transport data addr = some m ∧ n.transport.ackCbs ≠ []
  | _ => False

end Outcomes

section Acks

variable (C : Suite)

theorem any_isAck {effects : List Effect} {m : ℕ} (h : effects.any (isAck m) = true) :
    ∃ cb, .ackReceived cb m ∈ effects := by
  obtain ⟨effect, hmem, hacks⟩ := List.any_eq_true.mp h
  cases effect with
  | ackReceived cb msgId =>
    have heq : msgId = m := of_decide_eq_true hacks
    rw [heq] at hmem
    exact ⟨cb, hmem⟩
  | sendto _ _ | message _ _ _ | connected _ _ | sendFailed _ _ _ | rawPacket _ _ _ _ => cases hacks

/-- The handlers of the other packets report no ACK. -/
theorem ack_handle (env : Env) (t : MeshTransport) (packet : ParsedPacket) (data : Bytes)
    (addr : Addr) (hack : packet.ptype ≠ .ack) (hmessage : packet.ptype ≠ .message) (cb : Callback)
    (m : ℕ) : .ackReceived cb m ∉ (handle C env t packet data addr).effects := by
  obtain ⟨ptype, sid, payload⟩ := packet
  intro h
  cases ptype with
  | ack => exact hack rfl
  | message => exact hmessage rfl
  | handshake =>
    obtain ⟨_, wire, _, heq⟩ := handshake_effects C t payload addr _ h
    contradiction
  | handshakeResp =>
    simp only [handle, handshakeResp_effects] at h
    contradiction
  | keyInit =>
    rcases keyInit_effects C env t payload addr _ h with ⟨key, heq⟩ | ⟨_, _, heq⟩
    · contradiction
    · contradiction
  | keyAck =>
    obtain ⟨_, _, heq⟩ := keyAck_effects C env t payload addr _ h
    contradiction
  | ping =>
    simp only [handle] at h
    split at h
    · contradiction
    · obtain ⟨pong, _, heq⟩ := ping_effects C env t addr _ _ _ h
      contradiction
  | pong => contradiction
  | storeForward | originator =>
    simp only [handle] at h
    split at h
    · contradiction
    · cases List.mem_singleton.mp h

/-- An accepted ACK drops the entry that it names, if there is one, and calls each callback
once, whether there was one or not. -/
theorem dispatch_acknowledged (env : Env) (t : MeshTransport) (data : Bytes) (addr : Addr) (m : ℕ)
    (h : acknowledges C t data addr = some m) :
    dispatch C env t data addr = ⟨{ t with inFlight := t.inFlight.erase m },
      t.ackCbs.map fun cb => .ackReceived cb m, none⟩ := by
  unfold acknowledges at h
  split at h
  · rename_i sid payload hparse
    split at h
    · rename_i haccepted
      obtain ⟨hgate, hlen⟩ := haccepted
      rw [← Option.some.inj h]
      simp only [dispatch, hparse, hgate, if_true, handle, handleAck, if_neg hlen,
        Option.filter_none]
    · cases h
  · cases h

/-- Nothing but an accepted ACK is reported as one. -/
theorem acknowledged_of_ack (env : Env) (t : MeshTransport) (data : Bytes) (addr : Addr)
    (cb : Callback) (m : ℕ) (h : .ackReceived cb m ∈ (dispatch C env t data addr).effects) :
    acknowledges C t data addr = some m := by
  cases hparse : parsePacket data with
  | error err =>
    simp only [dispatch, hparse] at h
    contradiction
  | ok packet =>
    obtain ⟨ptype, sid, payload⟩ := packet
    by_cases hmessage : ptype = .message
    · subst hmessage
      rcases effects_message C env t data sid payload addr hparse with
        hnone | ⟨_, _, _, _, _, heffects⟩
      · rw [hnone] at h
        contradiction
      · rw [heffects] at h
        rcases List.mem_append.mp h with hsent | hcb
        · cases mem_sendRaw _ _ _ _ hsent
        · simp at hcb
    · by_cases hack : ptype = .ack
      · subst hack
        simp only [dispatch, hparse] at h
        split at h
        · rename_i hgate
          simp only [handle, handleAck] at h
          split at h
          · contradiction
          · rename_i hlen
            obtain ⟨_, _, heq⟩ := List.mem_map.mp h
            cases heq
            simp only [acknowledges, hparse, hgate, true_and, hlen, not_false_eq_true, if_true]
        · contradiction
      · simp only [dispatch, hparse] at h
        split at h
        · exact absurd h (ack_handle C env t _ data addr hack hmessage cb m)
        · contradiction

/-- An ACK callback is called exactly when an ACK is accepted and there is one to call. -/
theorem any_isAck_iff (n : Node) (e : Env × Event) (m : ℕ) :
    (n.step C e.1 e.2).2.any (isAck m) = true ↔ Reported C m n e.2 := by
  obtain ⟨env, event⟩ := e
  constructor
  · intro h
    obtain ⟨cb, hmem⟩ := any_isAck h
    cases event with
    | datagram data addr =>
      have hack := acknowledged_of_ack C env n.transport data addr cb m hmem
      refine ⟨hack, fun hnone => ?_⟩
      have hcbs : .ackReceived cb m ∈ (dispatch C env n.transport data addr).effects := hmem
      rw [dispatch_acknowledged C env n.transport data addr m hack, hnone] at hcbs
      contradiction
    | connect addr bundle =>
      have hbegun := connectBegin_begun C n.transport addr bundle
      have hconnect : .ackReceived cb m ∈ (connectBegin C n.transport addr bundle).effects := hmem
      generalize connectBegin C n.transport addr bundle = out at hbegun hconnect
      cases hbegun with
      | rejected | unsent => contradiction
      | sent => cases mem_sendRaw _ _ _ _ hconnect
    | resume i =>
      have hresumed := resume_resumed C env n i
      have hresume : .ackReceived cb m ∈ (n.resume C env i).2 := hmem
      generalize n.resume C env i = out at hresumed hresume
      cases hresumed with
      | idle | failed | returned => contradiction
      | encapsulated => cases mem_sendRaw _ _ _ _ hresume
    | timeout i => contradiction
    | send peerId message =>
      obtain ⟨_, _, heq⟩ := SignedDelivery.send_sendto C env n.transport peerId message _ hmem
      contradiction
    | retry =>
      have hsweep : .ackReceived cb m ∈ (retrySweep env n.transport).effects := hmem
      rw [retrySweep_effects] at hsweep
      obtain ⟨inf, _, heffect⟩ := List.mem_flatMap.mp hsweep
      unfold retryEffects at heffect
      split at heffect
      · simp at heffect
      · cases mem_sendRaw _ _ _ _ heffect
  · intro h
    cases event with
    | datagram data addr =>
      obtain ⟨hack, hcbs⟩ := h
      obtain ⟨cb, hcb⟩ := List.exists_mem_of_ne_nil _ hcbs
      show (dispatch C env n.transport data addr).effects.any (isAck m) = true
      rw [dispatch_acknowledged C env n.transport data addr m hack, List.any_eq_true]
      exact ⟨_, List.mem_map_of_mem hcb, decide_eq_true rfl⟩
    | connect _ _ | resume _ | timeout _ | send _ _ | retry => exact h.elim

/-- A step calls each ACK callback once for the msg_id, or none. -/
theorem acks_of_step (n : Node) (e : Env × Event) (m : ℕ) :
    (n.step C e.1 e.2).2.filter (isAck m) = [] ∨
      (n.step C e.1 e.2).2.filter (isAck m) =
        n.transport.ackCbs.map fun cb => .ackReceived cb m := by
  by_cases hacks : (n.step C e.1 e.2).2.any (isAck m) = true
  · have hreported := (any_isAck_iff C n e m).mp hacks
    obtain ⟨env, event⟩ := e
    cases event with
    | datagram data addr =>
      apply Or.inr
      show (dispatch C env n.transport data addr).effects.filter (isAck m) = _
      rw [dispatch_acknowledged C env n.transport data addr m hreported.1, List.filter_eq_self]
      intro effect heffect
      obtain ⟨cb, _, rfl⟩ := List.mem_map.mp heffect
      exact decide_eq_true rfl
    | connect _ _ | resume _ | timeout _ | send _ _ | retry => exact hreported.elim
  · refine Or.inl (List.filter_eq_nil_iff.mpr fun effect heffect hack => hacks ?_)
    exact List.any_eq_true.mpr ⟨effect, heffect, hack⟩

end Acks

section Runs

variable (C : Suite) {m : ℕ}

theorem verdict_quiet {effects : List Effect} (hack : effects.any (isAck m) = false)
    (hfails : effects.any (isFailure m) = false) : verdict m effects = [] := by
  rw [verdict, hack, hfails]
  rfl

/-- The last step adds what it tells. -/
theorem verdicts_concat (n : Node) (events : List (Env × Event)) (e : Env × Event) :
    verdicts C m n (events ++ [e]) =
      verdicts C m n events ++ verdict m ((Runs.run (nodeStep C) n events).step C e.1 e.2).2 := by
  rw [verdicts, Runs.visits_concat, List.flatMap_append, List.flatMap_singleton]
  rfl

/-- Nothing has been told of the msg_id, or it has one outcome and has left the table. -/
inductive Told (m : ℕ) (t : MeshTransport) (told : List Verdict) : Prop
  | nothing (htold : told = [])
  | outcome (v : Verdict) (htold : told = [v]) (hgone : Gone m t)

/-- An ACK takes the entry of the msg_id away. -/
theorem gone_of_ack (n : Node) (e : Env × Event) (hused : m < n.transport.msgIdCounter)
    (hreported : Reported C m n e.2) : Gone m (nodeStep C n e).transport := by
  refine ⟨?_, hused.trans_le (counter_step C n e)⟩
  obtain ⟨env, event⟩ := e
  cases event with
  | datagram data addr =>
    show (dispatch C env n.transport data addr).state.inFlight.get? m = none
    rw [inFlight_dispatch, hreported.1]
    exact OrderedDict.get?_erase_self _ _
  | connect _ _ | resume _ | timeout _ | send _ _ | retry => exact hreported.elim

theorem not_retry_of_reported (n : Node) (e : Env × Event) (hreported : Reported C m n e.2) :
    e.2 ≠ .retry := by
  intro hretry
  rw [hretry] at hreported
  exact hreported

/-- Of a msg_id in flight a step tells nothing, or one outcome as it takes the entry away. -/
theorem told_entry (n : Node) (e : Env × Event) (h : Orderly n.transport)
    (hudp : n.transport.udpTransport = true) (inf : InFlight)
    (hget : n.transport.inFlight.get? m = some inf) :
    Told m (nodeStep C n e).transport (verdict m (n.step C e.1 e.2).2) := by
  by_cases hacks : (n.step C e.1 e.2).2.any (isAck m) = true
  · have hreported := (any_isAck_iff C n e m).mp hacks
    have hsilent := silent_of_not_retry C n e h m (not_retry_of_reported C n e hreported)
    refine .outcome .acked ?_ (gone_of_ack C n e (h.used m inf hget) hreported)
    rw [verdict, if_pos hacks, hsilent]
    rfl
  · have hquiet := Bool.eq_false_of_not_eq_true hacks
    by_cases hfails : (n.step C e.1 e.2).2.any (isFailure m) = true
    · have hverdict : verdict m (n.step C e.1 e.2).2 = [.failed] := by
        rw [verdict, hquiet, if_pos hfails]
        rfl
      cases entry_step C n e h hudp m inf hget with
      | failed _ _ hgone _ => exact .outcome .failed hverdict hgone
      | kept _ _ hsilent | repeated _ _ _ _ hsilent | acked _ _ hsilent =>
        rw [hsilent] at hfails
        cases hfails
    · exact .nothing (verdict_quiet hquiet (Bool.eq_false_of_not_eq_true hfails))

/-- Of a msg_id that is not in flight a step tells nothing, unless it reports an ACK. -/
theorem verdict_absent (n : Node) (e : Env × Event) (h : Orderly n.transport)
    (habsent : n.transport.inFlight.get? m = none) (hunreported : ¬ Reported C m n e.2) :
    verdict m (n.step C e.1 e.2).2 = [] := by
  have hack : (n.step C e.1 e.2).2.any (isAck m) = false :=
    Bool.eq_false_of_not_eq_true fun hacks => hunreported ((any_isAck_iff C n e m).mp hacks)
  refine verdict_quiet hack (Bool.eq_false_of_not_eq_true fun hfails => ?_)
  obtain ⟨cb, addr, hfired⟩ := any_isFailure hfails
  obtain ⟨_, inf, hget, _⟩ := fired_entry C n e h m cb addr hfired
  rw [habsent] at hget
  cases hget

/-- Every report so far names a msg_id that was in flight to the peer it came from. -/
def Sound (n : Node) (events : List (Env × Event)) : Prop :=
  ∀ done e m, done ++ [e] <+: events →
    Reported C m (Runs.run (nodeStep C) n done) e.2 → InFlightTo C m n done e.2

/-- In a run whose reports are sound, what is told of a msg_id is one outcome at most. -/
theorem told_run (owner : DeviceIdentity) (n : Node) (hn : Started owner n)
    (events : List (Env × Event)) (hsound : Sound C n events) :
    Told m (Runs.run (nodeStep C) n events).transport (verdicts C m n events) := by
  have hreach : Reachable C owner n := .of_initial hn
  induction events using List.reverseRecOn with
  | nil => exact .nothing rfl
  | append_singleton events e ih =>
    have hprev := ih fun done e' m' hdone => hsound done e' m'
      (hdone.trans (List.prefix_append events [e]))
    have horderly := run_orderly C n events (reachable_orderly C hreach)
    have hudp := (run_udp C n events).trans (reachable_device C owner n hreach).2
    rw [verdicts_concat, Runs.run_concat]
    cases hget : (Runs.run (nodeStep C) n events).transport.inFlight.get? m with
    | none =>
      have hunreported : ¬ Reported C m (Runs.run (nodeStep C) n events) e.2 := by
        intro hreported
        obtain ⟨inf, _, hentry, _⟩ := hsound events e m (List.prefix_refl _) hreported
        rw [hget] at hentry
        cases hentry
      rw [verdict_absent C _ e horderly hget hunreported, List.append_nil]
      cases hprev with
      | nothing htold => exact .nothing htold
      | outcome v htold hgone => exact .outcome v htold (gone_step C _ e horderly m hgone)
    | some inf =>
      cases hprev with
      | nothing htold =>
        rw [htold, List.nil_append]
        exact told_entry C _ e horderly hudp inf hget
      | outcome v _ hgone =>
        rw [hgone.1] at hget
        cases hget

/-- A run has one outcome for each msg_id exactly when every ACK that it reports comes from
the peer that the msg_id is in flight to; each step calls each callback once or not at all. -/
theorem one_outcome_iff (owner : DeviceIdentity) (n : Node) (hn : Started owner n)
    (events : List (Env × Event)) :
    (OneOutcome C n events ↔ ∀ done e m, done ++ [e] <+: events →
      Reported C m (Runs.run (nodeStep C) n done) e.2 → InFlightTo C m n done e.2) ∧
    (∀ m, (failureTimes C m n events).length ≤ 1) ∧
    ∀ (m : ℕ) (e : Env × Event),
      (((Runs.run (nodeStep C) n events).step C e.1 e.2).2.filter (isAck m) = [] ∨
        ((Runs.run (nodeStep C) n events).step C e.1 e.2).2.filter (isAck m) =
          (Runs.run (nodeStep C) n events).transport.ackCbs.map fun cb => .ackReceived cb m) ∧
      (((Runs.run (nodeStep C) n events).step C e.1 e.2).2.filter (isFailure m) = [] ∨ ∃ addr,
        ((Runs.run (nodeStep C) n events).step C e.1 e.2).2.filter (isFailure m) =
          (Runs.run (nodeStep C) n events).transport.sendFailedCbs.map
            fun cb => .sendFailed cb m addr) := by
  have horderly := reachable_orderly C (show Reachable C owner n from .of_initial hn)
  refine ⟨⟨fun h done e m hdone hreported => ?_, fun hsound => ⟨fun m => ?_, ?_⟩⟩, ?_,
    fun m e => ⟨acks_of_step C _ e m, failures_of_step C _ e (run_orderly C n events horderly) m⟩⟩
  · exact h.inFlight done e m hdone ((any_isAck_iff C _ e m).mpr hreported)
  · cases told_run C owner n hn events hsound (m := m) with
    | nothing htold => rw [htold]; exact Nat.zero_le 1
    | outcome v htold _ => rw [htold]; exact le_rfl
  · intro done e m hdone hacks
    exact hsound done e m hdone ((any_isAck_iff C _ e m).mp hacks)
  · exact fun m => (failures_of_run C owner n hn events m).1

end Runs

section Stub

open Honest FragmentDelivery

/-- An accepted ACK that is told of is a verdict of its own. -/
theorem verdict_ack {C : Suite} {n : Node} {e : Env × Event} {m : ℕ} {peerId : String}
    (h : ackedBy C n.transport e.2 = some (m, peerId)) (hcbs : n.transport.ackCbs ≠ []) :
    1 ≤ (verdict m (n.step C e.1 e.2).2).length := by
  have hacks := (any_isAck_iff C n e m).mpr (by
    obtain ⟨env, event⟩ := e
    cases event with
    | datagram data addr => exact ⟨acknowledges_of_ackedBy h, hcbs⟩
    | connect _ _ | resume _ | timeout _ | send _ _ | retry => cases h)
  rw [verdict, if_pos hacks, List.length_append]
  exact Nat.le_add_right 1 _

def greet : Env × Event := (stillEnv, .send "bravo" [104, 105])

def arrive (ack : Bytes) : Env × Event := (stillEnv, .datagram ack bravoAddr)

/-- Alpha has sent a message to bravo, and bravo's ACK for it arrives twice. -/
theorem exists_duplicate_ack : ∃ (n : Node) (before : List (Env × Event)) (ack : Bytes) (m : ℕ),
    Started alpha n ∧
    ackedBy stub (Runs.run (nodeStep stub) n (before ++ [greet])).transport (arrive ack).2 =
      some (m, "bravo") ∧
    ackedBy stub (Runs.run (nodeStep stub) n (before ++ [greet, arrive ack])).transport
      (arrive ack).2 = some (m, "bravo") ∧
    (Runs.run (nodeStep stub) n (before ++ [greet])).transport.ackCbs ≠ [] ∧
    (Runs.run (nodeStep stub) n (before ++ [greet, arrive ack])).transport.ackCbs ≠ [] := by
  obtain ⟨a, _, ⟨n, before, hn, hrun⟩, _, hest, _, _, _, _, hcbs⟩ :=
    exists_established_with [] [] [0] .empty
  let t := (send stub stillEnv a.transport "bravo" [104, 105]).state
  have hsent : (Runs.run (nodeStep stub) n (before ++ [greet])).transport = t := by
    rw [Runs.run_append, hrun]
    rfl
  have hkept : SameHandshakes a.transport t := send_same stub stillEnv a.transport "bravo" [104, 105]
  have hest' : Established t bravoAddr sharedKey (getPublicBundle stub bravo) :=
    ⟨(congrArg (·.get? bravoAddr) hkept.sessionsByAddr).trans hest.byAddr,
      (hkept.bound _).trans hest.session⟩
  obtain ⟨session, hholds, _, _, _⟩ := holds_of_established hest'
  let ack := ackPacket stub sid session.sessionKey 1
  have hack : ackedBy stub t (arrive ack).2 = some (1, "bravo") :=
    ackedBy_ackPacket stub hholds sid 1 (by decide)
  have hcbs' : t.ackCbs = [0] :=
    (callbacks_send stub stillEnv a.transport "bravo" [104, 105]).2.trans hcbs
  have hacked : (Runs.run (nodeStep stub) n (before ++ [greet, arrive ack])).transport =
      { t with inFlight := t.inFlight.erase 1 } := by
    rw [Runs.run_append, hrun]
    show (dispatch stub stillEnv t ack bravoAddr).state = _
    rw [dispatch_acknowledged stub stillEnv t ack bravoAddr 1 (acknowledges_of_ackedBy hack)]
  refine ⟨n, before, ack, 1, hn, ?_, ?_, ?_, ?_⟩
  · rw [hsent]
    exact hack
  · rw [hacked]
    exact ackedBy_ackPacket stub ⟨hholds.byAddr, hholds.session⟩ sid 1 (by decide)
  · rw [hsent, hcbs']
    exact List.cons_ne_nil 0 []
  · rw [hacked]
    exact ne_of_eq_of_ne hcbs' (List.cons_ne_nil 0 [])

/-- A run of alpha in which an ACK is reported. -/
theorem one_outcome_iff_alpha : ∃ (n : Node) (events : List (Env × Event)) (m : ℕ),
    Started alpha n ∧ verdicts stub m n events ≠ [] ∧
    (OneOutcome stub n events ↔ ∀ done e m, done ++ [e] <+: events →
      Reported stub m (Runs.run (nodeStep stub) n done) e.2 → InFlightTo stub m n done e.2) := by
  obtain ⟨n, before, ack, m, hn, hfirst, _, hcbs, _⟩ := exists_duplicate_ack
  have hverdict := verdict_ack hfirst hcbs
  refine ⟨n, before ++ [greet] ++ [arrive ack], m, hn, ?_, (one_outcome_iff stub alpha n hn _).1⟩
  rw [verdicts_concat]
  exact List.append_ne_nil_of_right_ne_nil _ (List.ne_nil_of_length_pos hverdict)

/-- The second copy of an ACK fires the callback again. -/
theorem duplicate_ack_fires : ∃ (n : Node) (before : List (Env × Event)) (ack : Bytes) (m : ℕ),
    Started alpha n ∧
    ackedBy stub (Runs.run (nodeStep stub) n (before ++ [greet])).transport (arrive ack).2 =
      some (m, "bravo") ∧
    ackedBy stub (Runs.run (nodeStep stub) n (before ++ [greet, arrive ack])).transport
      (arrive ack).2 = some (m, "bravo") ∧
    ¬ OneOutcome stub n (before ++ [greet, arrive ack, arrive ack]) := by
  obtain ⟨n, before, ack, m, hn, hfirst, hsecond, hcbs, hcbs'⟩ := exists_duplicate_ack
  refine ⟨n, before, ack, m, hn, hfirst, hsecond, fun hone => ?_⟩
  have htwice : before ++ [greet, arrive ack, arrive ack] =
      before ++ [greet, arrive ack] ++ [arrive ack] := by
    rw [List.append_assoc]
    rfl
  have honce : before ++ [greet, arrive ack] = before ++ [greet] ++ [arrive ack] := by
    rw [List.append_assoc]
    rfl
  have hlen := hone.once m
  rw [htwice, verdicts_concat, honce, verdicts_concat, ← honce, List.length_append,
    List.length_append] at hlen
  have h₁ := verdict_ack hfirst hcbs
  have h₂ := verdict_ack hsecond hcbs'
  omega

end Stub

end Mesim.Outcomes
