import Mesim.Framing
import Mesim.Retransmission

/-!
When the retry loop acts.
An in-flight entry is transmitted when it is filed and at most twice more, not before
the time it waits for, and given up after a third wait. Along any run the times of its
transmissions are therefore apart by the backoffs, in their order, and the failure
callback comes after the sum of all three. Nothing comes of an id that has left the table.
-/
namespace Mesim.RetrySchedule

open Octets Crypto Identity Packet Transport Operations Dispatch Nodes Fragments Reassembly
open InFlightTable Retransmission Framing MeshTransport Outcome

section Spacing

/-- Consecutive times are apart by the gaps, in their order. -/
def Spaced (gaps : List ℚ) (times : List ℚ) : Prop :=
  ∀ i s t, times[i]? = some s → times[i + 1]? = some t → s + gaps.getD i 0 ≤ t

theorem spaced_nil (gaps : List ℚ) : Spaced gaps [] := by
  intro i s t hs
  cases hs

theorem spaced_singleton (gaps : List ℚ) (t : ℚ) : Spaced gaps [t] := by
  intro i s u _ hu
  cases hu

theorem Spaced.concat {gaps times : List ℚ} {t : ℚ} (h : Spaced gaps times)
    (hlast : ∀ last, times.getLast? = some last → last + gaps.getD (times.length - 1) 0 ≤ t) :
    Spaced gaps (times ++ [t]) := by
  intro i s u hs hu
  have hi : i + 1 ≤ times.length := by
    have hlt := (List.getElem?_eq_some_iff.mp hu).1
    rw [List.length_append, List.length_singleton] at hlt
    omega
  rw [List.getElem?_append_left (by omega)] at hs
  rcases hi.lt_or_eq with hlt | heq
  · rw [List.getElem?_append_left hlt] at hu
    exact h i s u hs hu
  · rw [heq, List.getElem?_concat_length] at hu
    rw [← Option.some.inj hu]
    have hindex : i = times.length - 1 := by omega
    rw [hindex, ← List.getLast?_eq_getElem?] at hs
    rw [hindex]
    exact hlast s hs

/-- The waits before the given number of attempts has been used up. -/
def waited (attempt : ℕ) : ℚ := (retryBackoffs.take attempt).sum

theorem waited_succ {attempt : ℕ} (h : attempt < maxRetries) :
    waited (attempt + 1) = waited attempt + retryBackoffs.getD attempt 0 := by
  have hlt : attempt < retryBackoffs.length := h
  rw [waited, waited, List.take_add_one, List.sum_append, List.getD_eq_getElem?_getD,
    List.getElem?_eq_getElem hlt]
  simp

theorem waited_all {attempt : ℕ} (h : maxRetries ≤ attempt) : waited attempt = 7 / 2 := by
  have hall : retryBackoffs.take attempt = retryBackoffs := List.take_of_length_le h
  rw [waited, hall, retryBackoffs]
  norm_num

end Spacing

section Events

variable (C : Suite)

def isFailure (m : ℕ) : Effect → Bool
  | .sendFailed _ msgId _ => msgId = m
  | _ => false

/-- When copies of the packet are transmitted. -/
def transmissionTimes (packet : Bytes) : Node → List (Env × Event) → List ℚ :=
  Runs.stamps (nodeStep C) (fun n e => transmissions packet (n.step C e.1 e.2).2)
    fun e => e.1.monotonic

/-- When on_send_failed is fired for the msg_id. -/
def failureTimes (m : ℕ) : Node → List (Env × Event) → List ℚ :=
  Runs.stamps (nodeStep C) (fun n e => if (n.step C e.1 e.2).2.any (isFailure m) then 1 else 0)
    fun e => e.1.monotonic

/-- When send() takes the msg_id. -/
def sendTimes (m : ℕ) : Node → List (Env × Event) → List ℚ :=
  Runs.stamps (nodeStep C)
    (fun n e => if n.transport.msgIdCounter = m ∧ (nodeStep C n e).transport.msgIdCounter ≠ m
      then 1 else 0)
    fun e => e.1.monotonic

theorem any_isFailure {effects : List Effect} {m : ℕ} (h : effects.any (isFailure m) = true) :
    ∃ cb addr, .sendFailed cb m addr ∈ effects := by
  obtain ⟨effect, hmem, hfails⟩ := List.any_eq_true.mp h
  cases effect with
  | sendFailed cb msgId addr =>
    have heq : msgId = m := of_decide_eq_true hfails
    rw [heq] at hmem
    exact ⟨cb, addr, hmem⟩
  | sendto _ _ | message _ _ _ | connected _ _ | ackReceived _ _ | rawPacket _ _ _ _ => cases hfails

/-- Only send() moves the counter. -/
theorem counter_of_not_send (n : Node) (e : Env × Event)
    (h : ∀ peerId message, e.2 ≠ .send peerId message) :
    (nodeStep C n e).transport.msgIdCounter = n.transport.msgIdCounter := by
  obtain ⟨env, event⟩ := e
  by_cases hconnect : IsConnect event
  · exact (inFlight_connecting C n env event hconnect).2
  · cases event with
    | datagram data addr => exact counter_dispatch C env n.transport data addr
    | send peerId message => exact absurd rfl (h peerId message)
    | retry => exact retryEntries_counter env.monotonic n.transport _
    | connect _ _ | resume _ | timeout _ => exact absurd trivial hconnect

theorem counter_step_le (n : Node) (e : Env × Event) :
    (nodeStep C n e).transport.msgIdCounter ≤ n.transport.msgIdCounter + 1 := by
  obtain ⟨env, event⟩ := e
  by_cases hsend : ∃ peerId message, event = .send peerId message
  · obtain ⟨peerId, message, rfl⟩ := hsend
    rw [transport_send]
    cases hsession : n.transport.sessions.get? peerId with
    | none =>
      rw [send_missing C env n.transport peerId message hsession]
      exact Nat.le_succ _
    | some session => exact (send_loop C env n.transport peerId message session hsession).2.2.2.le
  · rw [counter_of_not_send C n _ fun peerId message heq => hsend ⟨peerId, message, heq⟩]
    exact Nat.le_succ _

theorem effects_send (n : Node) (env : Env) (peerId : String) (message : Bytes) :
    (n.step C env (.send peerId message)).2 = (send C env n.transport peerId message).effects := rfl

/-- An id without an entry is neither transmitted nor given up, unless send() takes it. -/
theorem nothing_of_absent (n : Node) (e : Env × Event) (h : Orderly n.transport) (m : ℕ)
    (habsent : n.transport.inFlight.get? m = none)
    (htaken : (∃ peerId message, e.2 = .send peerId message) → m ≠ n.transport.msgIdCounter) :
    (∀ p, messageId? p = some m → transmissions p (n.step C e.1 e.2).2 = 0) ∧
      (n.step C e.1 e.2).2.any (isFailure m) = false := by
  constructor
  · intro p hid
    refine transmissions_eq_zero p _ fun dest hsent => ?_
    rcases step_emits C n e h p dest m hsent hid with ⟨hsend, heq⟩ | ⟨_, inf, hget, _⟩
    · exact htaken hsend heq
    · rw [habsent] at hget
      cases hget
  · rw [Bool.eq_false_iff]
    intro hfails
    obtain ⟨cb, addr, hfired⟩ := any_isFailure hfails
    obtain ⟨_, inf, hget, _⟩ := fired_entry C n e h m cb addr hfired
    rw [habsent] at hget
    cases hget

/-- What one event does to an entry. -/
inductive EntryStep (m : ℕ) (inf : InFlight) (n : Node) (e : Env × Event) : Prop
  | kept (hget : (nodeStep C n e).transport.inFlight.get? m = some inf)
      (hquiet : ∀ p, messageId? p = some m → transmissions p (n.step C e.1 e.2).2 = 0)
      (hsilent : (n.step C e.1 e.2).2.any (isFailure m) = false)
  | repeated (hdue : inf.nextRetryAt ≤ e.1.monotonic) (hlt : inf.attempt < maxRetries)
      (hget : (nodeStep C n e).transport.inFlight.get? m = some (retried e.1.monotonic inf))
      (hsent : ∀ p, messageId? p = some m →
        transmissions p (n.step C e.1 e.2).2 = if p = inf.packetBytes then 1 else 0)
      (hsilent : (n.step C e.1 e.2).2.any (isFailure m) = false)
  | failed (hdue : inf.nextRetryAt ≤ e.1.monotonic) (hspent : maxRetries ≤ inf.attempt)
      (hgone : Gone m (nodeStep C n e).transport)
      (hquiet : ∀ p, messageId? p = some m → transmissions p (n.step C e.1 e.2).2 = 0)
  | acked (hgone : Gone m (nodeStep C n e).transport)
      (hquiet : ∀ p, messageId? p = some m → transmissions p (n.step C e.1 e.2).2 = 0)
      (hsilent : (n.step C e.1 e.2).2.any (isFailure m) = false)

theorem silent_of_not_retry (n : Node) (e : Env × Event) (h : Orderly n.transport) (m : ℕ)
    (hretry : e.2 ≠ .retry) : (n.step C e.1 e.2).2.any (isFailure m) = false := by
  rw [Bool.eq_false_iff]
  intro hfails
  obtain ⟨cb, addr, hfired⟩ := any_isFailure hfails
  exact hretry (fired_entry C n e h m cb addr hfired).1

theorem sweep_step (n : Node) (env : Env) (h : Orderly n.transport)
    (hudp : n.transport.udpTransport = true) (m : ℕ) (inf : InFlight)
    (hget : n.transport.inFlight.get? m = some inf) :
    EntryStep C m inf n (env, .retry) := by
  have hused := h.used m inf hget
  have hnext := retrySweep_get? h env m
  simp only [hget] at hnext
  have hcount := fun p hid => transmissions_sweep h env m p hid inf hget
  have hsilent : ¬ (env.monotonic ≥ inf.nextRetryAt ∧ maxRetries ≤ inf.attempt) →
      (n.step C env .retry).2.any (isFailure m) = false := by
    intro hnot
    rw [Bool.eq_false_iff]
    intro hfails
    obtain ⟨cb, addr, hfired⟩ := any_isFailure hfails
    obtain ⟨other, hother, hdue, hspent, _⟩ := fired_sweep h env m cb addr hfired
    cases Option.some.inj (hget.symm.trans hother)
    exact hnot ⟨hdue, hspent⟩
  by_cases hdue : env.monotonic ≥ inf.nextRetryAt
  · simp only [if_pos hdue] at hnext hcount
    by_cases hspent : inf.attempt ≥ maxRetries
    · rw [if_pos hspent] at hnext
      refine .failed hdue hspent ⟨hnext, hused.trans_le (counter_step C n (env, .retry))⟩
        fun p hid => (hcount p hid).trans ?_
      rw [retryEffects, if_pos hspent]
      exact transmissions_eq_zero p _ (by simp)
    · rw [if_neg hspent] at hnext
      refine .repeated hdue (Nat.not_le.mp hspent) hnext (fun p hid => (hcount p hid).trans ?_)
        (hsilent fun hboth => hspent hboth.2)
      rw [retryEffects, if_neg hspent, transmissions_sendRaw n.transport hudp]
      simp only [eq_comm]
  · simp only [if_neg hdue] at hnext hcount
    exact .kept hnext hcount (hsilent fun hboth => hdue hboth.1)

theorem entry_step (n : Node) (e : Env × Event) (h : Orderly n.transport)
    (hudp : n.transport.udpTransport = true) (m : ℕ) (inf : InFlight)
    (hget : n.transport.inFlight.get? m = some inf) : EntryStep C m inf n e := by
  have hused := h.used m inf hget
  by_cases hretry : e.2 = .retry
  · obtain ⟨env, event⟩ := e
    cases hretry
    exact sweep_step C n env h hudp m inf hget
  · have hquiet := quiet_of_not_retry C n e h m hused hretry
    have hsilent := silent_of_not_retry C n e h m hretry
    by_cases hack : Unacknowledged C m n e
    · exact .kept ((entry_kept C n e m hused hretry hack).trans hget) hquiet hsilent
    · refine .acked ⟨?_, hused.trans_le (counter_step C n e)⟩ hquiet hsilent
      obtain ⟨env, event⟩ := e
      cases event with
      | datagram data addr =>
        have hacked : acknowledges C n.transport data addr = some m := not_not.mp hack
        show (dispatch C env n.transport data addr).state.inFlight.get? m = none
        rw [inFlight_dispatch, hacked]
        exact OrderedDict.get?_erase_self _ _
      | send _ _ | retry | connect _ _ | resume _ | timeout _ => exact absurd trivial hack

/-- What a call of send() does to the msg_id that is next. -/
inductive SendStep (n : Node) (env : Env) (peerId : String) (message : Bytes) : Prop
  | missing (hstate : (send C env n.transport peerId message).state = n.transport)
      (heffects : (send C env n.transport peerId message).effects = [])
  | refused (hgone : Gone n.transport.msgIdCounter (send C env n.transport peerId message).state)
      (heffects : (send C env n.transport peerId message).effects = [])
  | sent (packet : Bytes) (dest : Addr)
      (hget : (send C env n.transport peerId message).state.inFlight.get? n.transport.msgIdCounter =
        some (firstEntry env n.transport.msgIdCounter packet dest))
      (hcounter : n.transport.msgIdCounter ≠
        (send C env n.transport peerId message).state.msgIdCounter)
      (hcopy : transmissions packet (send C env n.transport peerId message).effects = 1)
      (honce : ∀ p, transmissions p (send C env n.transport peerId message).effects ≤ 1)

theorem transmissions_le_one (t : MeshTransport) (hudp : t.udpTransport = true) (dest : Addr)
    (packets : List Bytes) (hnodup : packets.Nodup) (packet : Bytes) :
    transmissions packet (packets.flatMap fun pkt => t.sendRaw pkt dest) ≤ 1 := by
  by_cases hmem : packet ∈ packets
  · exact (transmissions_once t hudp dest packets hnodup packet hmem).le
  · refine (transmissions_eq_zero packet _ fun target hsent => ?_).le.trans (Nat.zero_le 1)
    obtain ⟨pkt, hpkt, hraw⟩ := List.mem_flatMap.mp hsent
    cases mem_sendRaw _ _ _ _ hraw
    exact hmem hpkt

theorem send_step (n : Node) (h : Orderly n.transport) (hudp : n.transport.udpTransport = true)
    (env : Env) (peerId : String) (message : Bytes) : SendStep C n env peerId message := by
  cases hsession : n.transport.sessions.get? peerId with
  | none =>
    have hmissing := send_missing C env n.transport peerId message hsession
    exact .missing (by rw [hmissing]; rfl) (by rw [hmissing]; rfl)
  | some session =>
    have habsent : n.transport.inFlight.get? n.transport.msgIdCounter = none := by
      cases hget : n.transport.inFlight.get? n.transport.msgIdCounter with
      | none => rfl
      | some inf => exact absurd (h.used _ inf hget) (Nat.lt_irrefl _)
    by_cases hfits : n.transport.msgIdCounter < 256 ^ 4 ∧ packetCount message < 256
    · let x := sending C env n.transport session.sessionKey message
      have hsendable : x.Sendable := (sendable_iff C env n.transport session.sessionKey message).mpr
        ⟨hfits.1, by rw [sending_total]; exact hfits.2⟩
      have hok := (send_raised_iff C env n.transport peerId message session hsession).mpr hsendable
      have heffects := (send_ok C env n.transport peerId message session hsession hok).2
      have hnodup := nodup_packets C x hsendable
      obtain ⟨i, chunk, hchunk, hlast⟩ :=
        exists_last_chunk C env n.transport session.sessionKey message
      refine .sent (x.packet C i chunk) session.peerAddr (send_inFlight C env n.transport peerId
        message session hsession hsendable i chunk hchunk hlast) ?_ ?_ fun p => ?_
      · rw [(send_loop C env n.transport peerId message session hsession).2.2.2]
        exact (Nat.succ_ne_self _).symm
      · rw [heffects]
        exact transmissions_once n.transport hudp session.peerAddr _ hnodup _
          ((x.mem_packets C _).mpr ⟨i, chunk, hchunk, rfl⟩)
      · rw [heffects]
        exact transmissions_le_one n.transport hudp session.peerAddr _ hnodup p
    · have hrefused := send_refused C env n.transport peerId message session hsession hfits
      refine .refused ⟨?_, ?_⟩ (by rw [hrefused]; rfl)
      · rw [hrefused]
        exact habsent
      · rw [hrefused]
        exact Nat.lt_succ_self _

end Events

section Tracking

variable (C : Suite)

/-- What the past says of an entry: its packet has been transmitted as often as it counts,
and it waits until the backoff after the last time is over. -/
structure Waiting (p : Bytes) (inf : InFlight) (times sent failures : List ℚ) : Prop where
  low : 1 ≤ inf.attempt
  high : inf.attempt ≤ maxRetries
  silent : failures = []
  since : ∀ s ∈ sent, s + waited inf.attempt ≤ inf.nextRetryAt
  own : p = inf.packetBytes → times.length = inf.attempt ∧ ∀ last, times.getLast? = some last →
    last + retryBackoffs.getD (inf.attempt - 1) 0 ≤ inf.nextRetryAt
  other : p ≠ inf.packetBytes → times.length ≤ 1
  spaced : Spaced retryBackoffs times

/-- What the past says of an id that has left the table. -/
structure Over (times sent failures : List ℚ) : Prop where
  count : times.length ≤ maxRetries
  spaced : Spaced retryBackoffs times
  once : failures.length ≤ 1
  late : ∀ f ∈ failures, ∀ s ∈ sent, s + 7 / 2 ≤ f

/-- The entry is new. -/
theorem waiting_first (env : Env) (m : ℕ) {p : Bytes} {sent : List ℚ} {count : ℕ} (packet : Bytes)
    (dest : Addr) (hcopy : p = packet → count = 1) (honce : count ≤ 1)
    (hsent : ∀ s ∈ sent, s = env.monotonic) :
    Waiting p (firstEntry env m packet dest) (List.replicate count env.monotonic) sent [] where
  low := le_rfl
  high := (by decide : 1 ≤ maxRetries)
  silent := rfl
  since := by
    intro s hs
    have hwaited : waited 1 = retryBackoffs.getD 0 0 := by
      norm_num [waited, retryBackoffs]
    show s + waited 1 ≤ env.monotonic + retryBackoffs.getD 0 0
    rw [hsent s hs, hwaited]
  own := by
    intro (hp : p = packet)
    rw [hcopy hp]
    refine ⟨rfl, fun last hlast => ?_⟩
    have heq : env.monotonic = last := Option.some.inj hlast
    rw [← heq]
    exact le_rfl
  other := by
    intro _
    rw [List.length_replicate]
    exact honce
  spaced := by
    rcases Nat.le_one_iff_eq_zero_or_eq_one.mp honce with rfl | rfl
    · exact spaced_nil _
    · exact spaced_singleton _ _

/-- Where a msg_id and a packet of it stand after their past. -/
inductive Tracked (m : ℕ) (p : Bytes) (t : MeshTransport) (times sent failures : List ℚ) : Prop
  | unused (hunused : t.msgIdCounter ≤ m) (htimes : times = []) (hsent : sent = [])
      (hfailures : failures = [])
  | waiting (inf : InFlight) (hget : t.inFlight.get? m = some inf)
      (hwaiting : Waiting p inf times sent failures)
  | ended (hgone : Gone m t) (hover : Over times sent failures)

variable {p : Bytes} {inf : InFlight} {times sent failures : List ℚ}

theorem over_nil (sent : List ℚ) : Over [] sent [] where
  count := Nat.zero_le _
  spaced := spaced_nil _
  once := Nat.zero_le _
  late := fun _ hf => absurd hf List.not_mem_nil

theorem Waiting.count (h : Waiting p inf times sent failures) : times.length ≤ maxRetries := by
  by_cases hp : p = inf.packetBytes
  · exact (h.own hp).1.le.trans h.high
  · exact (h.other hp).trans (by decide)

theorem Waiting.ended (h : Waiting p inf times sent failures) : Over times sent failures where
  count := h.count
  spaced := h.spaced
  once := by
    rw [h.silent]
    exact Nat.zero_le _
  late := by
    rw [h.silent]
    exact fun f hf => absurd hf List.not_mem_nil

/-- The entry is given up after all three waits. -/
theorem Waiting.failed (h : Waiting p inf times sent failures) {now : ℚ}
    (hdue : inf.nextRetryAt ≤ now) (hspent : maxRetries ≤ inf.attempt) (fired : Bool) :
    Over times sent (failures ++ List.replicate (if fired then 1 else 0) now) where
  count := h.count
  spaced := h.spaced
  once := by
    rw [h.silent, List.nil_append, List.length_replicate]
    split <;> omega
  late := by
    intro f hf s hs
    rw [h.silent, List.nil_append] at hf
    have hwait := h.since s hs
    rw [waited_all hspent] at hwait
    rw [List.eq_of_mem_replicate hf]
    exact hwait.trans hdue

/-- The entry is transmitted once more. -/
theorem Waiting.repeated (h : Waiting p inf times sent failures) {now : ℚ}
    (hdue : inf.nextRetryAt ≤ now) (hlt : inf.attempt < maxRetries) :
    Waiting p (retried now inf)
      (times ++ List.replicate (if p = inf.packetBytes then 1 else 0) now) sent failures where
  low := Nat.le_succ_of_le h.low
  high := hlt
  silent := h.silent
  since := by
    intro s hs
    have hwait := (h.since s hs).trans hdue
    show s + waited (inf.attempt + 1) ≤ now + retryBackoffs.getD inf.attempt 0
    rw [waited_succ hlt]
    linarith
  own := by
    intro (hp : p = inf.packetBytes)
    obtain ⟨hlen, _⟩ := h.own hp
    rw [if_pos hp]
    refine ⟨?_, fun last hlast => ?_⟩
    · rw [List.length_append, hlen, List.length_replicate]
      rfl
    · rw [List.replicate_one, List.getLast?_concat] at hlast
      rw [← Option.some.inj hlast]
      exact le_rfl
  other := by
    intro (hp : ¬ p = inf.packetBytes)
    rw [if_neg hp, List.replicate_zero, List.append_nil]
    exact h.other hp
  spaced := by
    split
    · rename_i hp
      obtain ⟨hlen, hnext⟩ := h.own hp
      refine h.spaced.concat fun last hlast => ?_
      rw [hlen]
      exact (hnext last hlast).trans hdue
    · rw [List.replicate_zero, List.append_nil]
      exact h.spaced

variable {m : ℕ} {t : MeshTransport}

/-- A step that shows nothing of the id adds no times. -/
theorem append_zero {count : ℕ} (h : count = 0) (l : List ℚ) (now : ℚ) :
    l ++ List.replicate count now = l := by
  rw [h, List.replicate_zero, List.append_nil]

theorem append_false {fired : Bool} (h : fired = false) (l : List ℚ) (now : ℚ) :
    l ++ List.replicate (if fired then 1 else 0) now = l := by
  rw [h]
  exact List.append_nil l

/-- The id stands so after the step, with the times that the step adds to those of the past. -/
def TrackedAfter (C : Suite) (m : ℕ) (p : Bytes) (n : Node) (e : Env × Event)
    (times sent failures : List ℚ) : Prop :=
  Tracked m p (nodeStep C n e).transport
    (times ++ List.replicate (transmissions p (n.step C e.1 e.2).2) e.1.monotonic)
    (sent ++ List.replicate (if n.transport.msgIdCounter = m ∧
      (nodeStep C n e).transport.msgIdCounter ≠ m then 1 else 0) e.1.monotonic)
    (failures ++ List.replicate (if (n.step C e.1 e.2).2.any (isFailure m) then 1 else 0)
      e.1.monotonic)

theorem tracked_waiting (hid : messageId? p = some m) (n : Node) (e : Env × Event)
    (h : Orderly n.transport) (hudp : n.transport.udpTransport = true)
    (hget : n.transport.inFlight.get? m = some inf) (hwaiting : Waiting p inf times sent failures) :
    TrackedAfter C m p n e times sent failures := by
  have hne : n.transport.msgIdCounter ≠ m := (h.used m inf hget).ne'
  rw [TrackedAfter, append_zero (if_neg fun hboth => hne hboth.1)]
  cases entry_step C n e h hudp m inf hget with
  | kept hget' hquiet hsilent =>
    rw [append_zero (hquiet p hid), append_false hsilent]
    exact .waiting inf hget' hwaiting
  | repeated hdue hlt hget' hsent hsilent =>
    rw [hsent p hid, append_false hsilent]
    exact .waiting _ hget' (hwaiting.repeated hdue hlt)
  | failed hdue hspent hgone hquiet =>
    rw [append_zero (hquiet p hid)]
    exact .ended hgone (hwaiting.failed hdue hspent _)
  | acked hgone hquiet hsilent =>
    rw [append_zero (hquiet p hid), append_false hsilent]
    exact .ended hgone hwaiting.ended

theorem quiet_send {n : Node} {env : Env} {peerId : String} {message : Bytes} (p : Bytes)
    (heffects : (send C env n.transport peerId message).effects = []) :
    transmissions p (n.step C env (.send peerId message)).2 = 0 := by
  rw [effects_send, heffects]
  rfl

/-- The call of send() that is about to take the id. -/
theorem tracked_send (n : Node) (env : Env) (peerId : String) (message : Bytes)
    (h : Orderly n.transport) (hudp : n.transport.udpTransport = true) :
    TrackedAfter C n.transport.msgIdCounter p n (env, .send peerId message) [] [] [] := by
  have hsilent := silent_of_not_retry C n (env, .send peerId message) h n.transport.msgIdCounter
    (by simp)
  rw [TrackedAfter, append_false hsilent]
  cases send_step C n h hudp env peerId message with
  | missing hstate heffects =>
    have hsame : (nodeStep C n (env, .send peerId message)).transport = n.transport := hstate
    rw [append_zero (quiet_send C p heffects), hsame, append_zero (if_neg fun hboth => hboth.2 rfl)]
    exact .unused le_rfl rfl rfl rfl
  | refused hgone heffects =>
    rw [append_zero (quiet_send C p heffects)]
    exact .ended hgone (over_nil _)
  | sent packet dest hget hcounter hcopy honce =>
    refine .waiting _ hget (waiting_first env _ packet dest ?_ (honce p) fun s hs => ?_)
    · rintro rfl
      exact hcopy
    · exact List.eq_of_mem_replicate hs

/-- Any other step leaves an unused id unused. -/
theorem tracked_unused (hid : messageId? p = some m) (n : Node) (e : Env × Event)
    (h : Orderly n.transport) (hunused : n.transport.msgIdCounter ≤ m)
    (hother : (∃ peerId message, e.2 = .send peerId message) → m ≠ n.transport.msgIdCounter) :
    TrackedAfter C m p n e [] [] [] := by
  have habsent : n.transport.inFlight.get? m = none := by
    cases hget : n.transport.inFlight.get? m with
    | none => rfl
    | some inf => exact absurd (h.used m inf hget) (Nat.not_lt.mpr hunused)
  obtain ⟨hquiet, hsilent⟩ := nothing_of_absent C n e h m habsent hother
  have hnext : (nodeStep C n e).transport.msgIdCounter ≤ m := by
    by_cases hevent : ∃ peerId message, e.2 = .send peerId message
    · have hlt : n.transport.msgIdCounter < m :=
        Nat.lt_of_le_of_ne hunused (hother hevent).symm
      exact (counter_step_le C n e).trans hlt
    · rw [counter_of_not_send C n e fun peerId message heq => hevent ⟨peerId, message, heq⟩]
      exact hunused
  have htaken : ¬ (n.transport.msgIdCounter = m ∧
      (nodeStep C n e).transport.msgIdCounter ≠ m) := by
    rintro ⟨heq, hne⟩
    exact hne (Nat.le_antisymm hnext (heq ▸ counter_step C n e))
  rw [TrackedAfter, append_zero (hquiet p hid), append_false hsilent, append_zero (if_neg htaken)]
  exact .unused hnext rfl rfl rfl

theorem tracked_step (hid : messageId? p = some m) (n : Node) (e : Env × Event)
    (h : Orderly n.transport) (hudp : n.transport.udpTransport = true)
    (htracked : Tracked m p n.transport times sent failures) :
    TrackedAfter C m p n e times sent failures := by
  cases htracked with
  | ended hgone hover =>
    have hne : m ≠ n.transport.msgIdCounter := hgone.2.ne
    obtain ⟨hquiet, hsilent⟩ := nothing_of_absent C n e h m hgone.1 fun _ => hne
    rw [TrackedAfter, append_zero (hquiet p hid), append_false hsilent,
      append_zero (if_neg fun hboth => hne hboth.1.symm)]
    exact .ended (gone_step C n e h m hgone) hover
  | waiting inf hget hwaiting => exact tracked_waiting C hid n e h hudp hget hwaiting
  | unused hunused htimes hsent hfailures =>
    subst htimes hsent hfailures
    by_cases hsend : (∃ peerId message, e.2 = .send peerId message) ∧
        m = n.transport.msgIdCounter
    · obtain ⟨⟨peerId, message, hevent⟩, rfl⟩ := hsend
      obtain ⟨env, event⟩ := e
      cases hevent
      exact tracked_send C n env peerId message h hudp
    · exact tracked_unused C hid n e h hunused fun hevent heq => hsend ⟨hevent, heq⟩

theorem run_orderly (n : Node) (events : List (Env × Event)) (h : Orderly n.transport) :
    Orderly (Runs.run (nodeStep C) n events).transport :=
  Runs.invariant_of_step (I := fun n : Node => Orderly n.transport)
    (fun n e h => orderly_step C n e h) n events h

theorem run_udp (n : Node) (events : List (Env × Event)) :
    (Runs.run (nodeStep C) n events).transport.udpTransport = n.transport.udpTransport :=
  Runs.invariant_of_step
    (I := fun n' : Node => n'.transport.udpTransport = n.transport.udpTransport)
    (fun n' e h => (udp_step C n' e).trans h) n events rfl

/-- The past of every run accounts for every id. -/
theorem tracked_run (owner : DeviceIdentity) (n : Node) (hn : Started owner n) (m : ℕ) (p : Bytes)
    (hid : messageId? p = some m) (events : List (Env × Event)) :
    Tracked m p (Runs.run (nodeStep C) n events).transport (transmissionTimes C p n events)
      (sendTimes C m n events) (failureTimes C m n events) := by
  have hreach : Reachable C owner n := .of_initial hn
  have horderly := reachable_orderly C hreach
  induction events using List.reverseRecOn with
  | nil =>
    by_cases hunused : n.transport.msgIdCounter ≤ m
    · exact .unused hunused rfl rfl rfl
    · refine .ended ⟨?_, Nat.not_le.mp hunused⟩ (over_nil _)
      rw [Runs.run_nil, hn.1.inFlight]
      rfl
  | append_singleton events e ih =>
    rw [Runs.run_concat, transmissionTimes, sendTimes, failureTimes, Runs.stamps_concat,
      Runs.stamps_concat, Runs.stamps_concat]
    exact tracked_step C hid _ e (run_orderly C n events horderly)
      ((run_udp C n events).trans (reachable_device C owner n hreach).2) ih

end Tracking

section Schedule

variable (C : Suite)

/-- A sweep calls each failure callback once for an id that it gives up. -/
theorem failures_of_step (n : Node) (e : Env × Event) (h : Orderly n.transport) (m : ℕ) :
    (n.step C e.1 e.2).2.filter (isFailure m) = [] ∨ ∃ addr,
      (n.step C e.1 e.2).2.filter (isFailure m) =
        n.transport.sendFailedCbs.map fun cb => .sendFailed cb m addr := by
  by_cases hfails : (n.step C e.1 e.2).2.any (isFailure m) = true
  · obtain ⟨cb, addr, hfired⟩ := any_isFailure hfails
    obtain ⟨hretry, inf, hget, hspent⟩ := fired_entry C n e h m cb addr hfired
    obtain ⟨env, event⟩ := e
    cases hretry
    have hkey := h.keyed m inf hget
    have hothers : ∀ x ∈ due env n.transport, x.msgId ≠ m →
        (retryEffects n.transport x).filter (isFailure m) = [] := by
      intro x _ hne
      rw [List.filter_eq_nil_iff]
      intro effect heffect hfailure
      unfold retryEffects at heffect
      split at heffect
      · obtain ⟨cb', _, rfl⟩ := List.mem_map.mp heffect
        exact hne (of_decide_eq_true hfailure)
      · unfold sendRaw at heffect
        split at heffect
        · rw [List.mem_singleton.mp heffect] at hfailure
          cases hfailure
        · cases heffect
    have hall : (retryEffects n.transport inf).filter (isFailure m) =
        n.transport.sendFailedCbs.map fun cb => .sendFailed cb m inf.peerAddr := by
      rw [retryEffects, if_pos hspent, hkey, List.filter_eq_self]
      intro effect heffect
      obtain ⟨cb', _, rfl⟩ := List.mem_map.mp heffect
      exact decide_eq_true rfl
    rw [effects_retry, filter_sweep h env m _ hothers inf hget, hall]
    split
    · exact Or.inr ⟨inf.peerAddr, rfl⟩
    · exact Or.inl rfl
  · refine Or.inl (List.filter_eq_nil_iff.mpr fun effect heffect hfailure => hfails ?_)
    exact List.any_eq_true.mpr ⟨effect, heffect, hfailure⟩

/-- Nothing comes of an id that has left the table. -/
theorem nothing_of_gone (n : Node) (h : Orderly n.transport) (m : ℕ) (hgone : Gone m n.transport)
    (events : List (Env × Event)) :
    (∀ p, messageId? p = some m → transmissionTimes C p n events = []) ∧
      failureTimes C m n events = [] := by
  have hstep : ∀ (n : Node) (e : Env × Event), Orderly n.transport ∧ Gone m n.transport →
      Orderly (nodeStep C n e).transport ∧ Gone m (nodeStep C n e).transport :=
    fun n e hn => ⟨orderly_step C n e hn.1, gone_step C n e hn.1 m hn.2⟩
  have hnothing := fun (n : Node) (e : Env × Event) (hn : Orderly n.transport ∧ Gone m n.transport) =>
    nothing_of_absent C n e hn.1 m hn.2.1 fun _ => hn.2.2.ne
  constructor
  · intro p hid
    exact Runs.stamps_eq_nil (I := fun n : Node => Orderly n.transport ∧ Gone m n.transport) hstep
      (fun n e hn => (hnothing n e hn).1 p hid) n events ⟨h, hgone⟩
  · refine Runs.stamps_eq_nil (I := fun n : Node => Orderly n.transport ∧ Gone m n.transport) hstep
      (fun n e hn => ?_) n events ⟨h, hgone⟩
    rw [(hnothing n e hn).2]
    rfl

/-- An id that no packet can carry is never given up. -/
theorem failureTimes_of_no_packet (n : Node) (h : Orderly n.transport) (m : ℕ)
    (hid : ∀ p, messageId? p ≠ some m) (events : List (Env × Event)) :
    failureTimes C m n events = [] := by
  refine Runs.stamps_eq_nil (I := fun n : Node => Orderly n.transport)
    (fun n e hn => orderly_step C n e hn) (fun n e hn => if_neg fun hfails => ?_) n events h
  obtain ⟨cb, addr, hfired⟩ := any_isFailure hfails
  obtain ⟨_, inf, hget, _⟩ := fired_entry C n e hn m cb addr hfired
  exact hid _ (hn.header m inf hget)

/-- Along a run a message is given up once at most, not before the backoffs are over. -/
theorem failures_of_run (owner : DeviceIdentity) (n : Node) (hn : Started owner n)
    (events : List (Env × Event)) (m : ℕ) :
    (failureTimes C m n events).length ≤ 1 ∧
      ∀ f ∈ failureTimes C m n events, ∀ s ∈ sendTimes C m n events, s + 7 / 2 ≤ f := by
  by_cases hid : ∃ p, messageId? p = some m
  · obtain ⟨p, hid⟩ := hid
    cases tracked_run C owner n hn m p hid events with
    | unused _ _ _ hfailures =>
      rw [hfailures]
      exact ⟨Nat.zero_le _, fun _ hf => absurd hf List.not_mem_nil⟩
    | waiting inf _ hwaiting => exact ⟨hwaiting.ended.once, hwaiting.ended.late⟩
    | ended _ hover => exact ⟨hover.once, hover.late⟩
  · have horderly := reachable_orderly C (show Reachable C owner n from .of_initial hn)
    rw [failureTimes_of_no_packet C n horderly m (not_exists.mp hid) events]
    exact ⟨Nat.zero_le _, fun _ hf => absurd hf List.not_mem_nil⟩

/-- The retry schedule of every run of a transport from its start. -/
theorem retry_schedule (owner : DeviceIdentity) (n : Node) (hn : Started owner n)
    (events : List (Env × Event)) :
    (∀ m inf, (Runs.run (nodeStep C) n events).transport.inFlight.get? m = some inf →
      1 ≤ inf.attempt ∧ inf.attempt ≤ maxRetries ∧
      (inf.attempt < maxRetries → inf.attempt < retryBackoffs.length)) ∧
    (∀ m p, messageId? p = some m → (transmissionTimes C p n events).length ≤ maxRetries ∧
      Spaced retryBackoffs (transmissionTimes C p n events)) ∧
    (∀ m, (failureTimes C m n events).length ≤ 1 ∧
      ∀ f ∈ failureTimes C m n events, ∀ s ∈ sendTimes C m n events, s + 7 / 2 ≤ f) ∧
    (∀ (m : ℕ) (e : Env × Event), ((Runs.run (nodeStep C) n events).step C e.1 e.2).2.filter
        (isFailure m) = [] ∨ ∃ addr, ((Runs.run (nodeStep C) n events).step C e.1 e.2).2.filter (isFailure m) =
        (Runs.run (nodeStep C) n events).transport.sendFailedCbs.map
          fun cb => .sendFailed cb m addr) ∧
    ∀ m inf more later, (Runs.run (nodeStep C) n events).transport.inFlight.get? m = some inf →
      (Runs.run (nodeStep C) n (events ++ more)).transport.inFlight.get? m = none →
      (∀ p, messageId? p = some m →
        transmissionTimes C p (Runs.run (nodeStep C) n (events ++ more)) later = []) ∧
      failureTimes C m (Runs.run (nodeStep C) n (events ++ more)) later = [] := by
  have horderly := reachable_orderly C (show Reachable C owner n from .of_initial hn)
  have hall := run_orderly C n events horderly
  refine ⟨fun m inf hget => ?_, fun m p hid => ?_, fun m => ?_,
    fun m e => failures_of_step C _ e hall m, fun m inf more later hget hleft => ?_⟩
  · cases tracked_run C owner n hn m inf.packetBytes (hall.header m inf hget) events with
    | unused hunused => exact absurd (hall.used m inf hget) (Nat.not_lt.mpr hunused)
    | waiting inf' hget' hwaiting =>
      cases Option.some.inj (hget.symm.trans hget')
      exact ⟨hwaiting.low, hwaiting.high, id⟩
    | ended hgone =>
      rw [hgone.1] at hget
      cases hget
  · cases tracked_run C owner n hn m p hid events with
    | unused _ htimes =>
      rw [htimes]
      exact ⟨Nat.zero_le _, spaced_nil _⟩
    | waiting inf _ hwaiting => exact ⟨hwaiting.count, hwaiting.spaced⟩
    | ended _ hover => exact ⟨hover.count, hover.spaced⟩
  · exact failures_of_run C owner n hn events m
  · have hused := hall.used m inf hget
    have hgone : Gone m (Runs.run (nodeStep C) n (events ++ more)).transport := by
      refine ⟨hleft, ?_⟩
      rw [Runs.run_append]
      exact Runs.invariant_of_step (I := fun n' : Node => m < n'.transport.msgIdCounter)
        (fun n' e h => h.trans_le (counter_step C n' e)) _ more hused
    exact nothing_of_gone C _ (run_orderly C n _ horderly) m hgone later

end Schedule

section Stub

open Honest

/-- A run of alpha in which a message is given up. -/
theorem retry_schedule_alpha : ∃ (n : Node) (events : List (Env × Event)) (m : ℕ),
    Started alpha n ∧ failureTimes stub m n events ≠ [] ∧
    (failureTimes stub m n events).length ≤ 1 ∧
    ∀ f ∈ failureTimes stub m n events, ∀ s ∈ sendTimes stub m n events, s + 7 / 2 ≤ f := by
  obtain ⟨a, _, events, addr, ⟨n, before, hn, rfl⟩, _, _, _, hfired, _⟩ :=
    exists_fired [104, 105] (by decide)
  let m := (Runs.run (nodeStep stub) n before).transport.msgIdCounter
  let all := before ++ ((stillEnv, .send "bravo" [104, 105]) :: events)
  have hend : Runs.run (nodeStep stub) n all = Runs.run (nodeStep stub)
      (nodeStep stub (Runs.run (nodeStep stub) n before) (stillEnv, .send "bravo" [104, 105]))
      events := by
    rw [Runs.run_append, Runs.run_cons]
  have hfails : ((Runs.run (nodeStep stub) n all).step stub (later 30) .retry).2.any
      (isFailure m) = true := by
    rw [hend]
    exact List.any_eq_true.mpr ⟨_, hfired, decide_eq_true rfl⟩
  have hne : failureTimes stub m n (all ++ [(later 30, .retry)]) ≠ [] := by
    rw [failureTimes, Runs.stamps_concat, if_pos hfails]
    simp
  obtain ⟨hlen, hlate⟩ :=
    (retry_schedule stub alpha n hn (all ++ [(later 30, .retry)])).2.2.1 m
  exact ⟨n, _, m, hn, hne, hlen, hlate⟩

end Stub

end Mesim.RetrySchedule
