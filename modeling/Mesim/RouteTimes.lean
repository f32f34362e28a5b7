import Mesim.Flooding
import Mesim.RouteLearning

/-!
Route tables in time.
A router admits an announcement that is not its own, that no bundle rejects and that is
newer than what it has seen of the originator; no other changes anything. No entry is
newer than what has been seen, so an admitted announcement becomes the entry whether the
table has an older one or a purge has removed it.
-/
namespace Mesim.RouteTimes

open Octets TextCodec Crypto Identity Packet Transport Router RouterPackets RouteTables
open OriginatorSignatures Forwarding RouteLearning MeshTransport RouterOutcome

/-- The key under which an originator is remembered. -/
abbrev oidStr (o : Originator) : String := decodeAsciiReplace o.oidBytes.toList

variable (C : Suite)

/-- The announcement passes every check. -/
structure Admits (r : MeshRouter) (t : MeshTransport) (o : Originator) : Prop where
  foreign : o.oidBytes ≠ t.senderId
  signature : signatureAccepted C r o = .ok ()
  unseen : ¬ SeenBefore r (oidStr o) o

instance (r : MeshRouter) (t : MeshTransport) (o : Originator) : Decidable (Admits C r t o) :=
  decidable_of_iff (o.oidBytes ≠ t.senderId ∧ signatureAccepted C r o = .ok () ∧
      ¬ (r.seenSeq.get? (oidStr o)).any (fun seen => o.seqNum ≤ seen) = true) <| by
    rw [any_seen_iff]
    exact ⟨fun h => ⟨h.1, h.2.1, h.2.2⟩, fun h => ⟨h.foreign, h.signature, h.unseen⟩⟩

/-- No entry is newer than what has been seen of its originator. -/
def Behind (r : MeshRouter) : Prop :=
  ∀ key e, r.routes.get? key = some e → ∃ seen, r.seenSeq.get? key = some seen ∧ e.seqNum ≤ seen

/-- The entry that an admitted announcement becomes. -/
def entryOf (o : Originator) (nextHopId : String) (fromAddr : Addr) : RouteEntry where
  originatorId := oidStr o
  nextHopId := nextHopId
  nextHopAddr := fromAddr
  hopCount := o.hopCount + 1
  lastSeen := o.timestamp
  seqNum := o.seqNum

section Handling

variable (r : MeshRouter) (t : MeshTransport) (payload : Bytes) (fromAddr : Addr)
  (senderId : Bytes) (o : Originator)

theorem handle_malformed (e : PyError) (h : unpackOriginator payload = .error e) :
    handleOriginator C r t payload fromAddr senderId = done r := by
  simp only [handleOriginator, h]

theorem handle_admitted (h : unpackOriginator payload = .ok o) (hadmits : Admits C r t o) :
    handleOriginator C r t payload fromAddr senderId = accepted C r t o fromAddr senderId :=
  handleOriginator_accepted C r t payload fromAddr senderId o h hadmits.foreign hadmits.signature
    hadmits.unseen

theorem handle_refused (h : unpackOriginator payload = .ok o) (hrefused : ¬ Admits C r t o) :
    handleOriginator C r t payload fromAddr senderId = done r := by
  by_cases hown : o.oidBytes = t.senderId
  · simp only [handleOriginator, h, if_pos hown]
  · rcases signatureAccepted_eq C r payload o h with ⟨hok, _⟩ | ⟨herror, _⟩
    · have hseen : SeenBefore r (oidStr o) o := by
        by_contra hunseen
        exact hrefused ⟨hown, hok, hunseen⟩
      obtain ⟨seen, hget, hle⟩ := hseen
      simp only [handleOriginator, h, if_neg hown, hok, hget, Option.any_some, decide_eq_true hle,
        if_true]
    · simp only [handleOriginator, h, if_neg hown, herror]

/-- An admitted announcement whose sender id is not ASCII is remembered and nothing else. -/
theorem accepted_unroutable (e : PyError) (h : deviceIdFromBytes senderId = .error e) :
    accepted C r t o fromAddr senderId = ⟨noted r o, [], some e⟩ := by
  simp only [accepted, h, attempt]

theorem accepted_routed (nextHopId : String) (h : deviceIdFromBytes senderId = .ok nextHopId) :
    accepted C r t o fromAddr senderId = forwardOriginator C ((noted r o).updateRoute (oidStr o)
      nextHopId fromAddr (o.hopCount + 1) o.seqNum o.timestamp) t o fromAddr := by
  simp only [accepted, h, attempt]

variable {r o}

theorem newer_of_unseen (hbehind : Behind r) (hunseen : ¬ SeenBefore r (oidStr o) o)
    (e : RouteEntry) (he : r.routes.get? (oidStr o) = some e) : e.seqNum < o.seqNum := by
  obtain ⟨seen, hget, hle⟩ := hbehind _ e he
  exact hle.trans_lt (Nat.lt_of_not_le fun hseen => hunseen ⟨seen, hget, hseen⟩)

/-- An admitted announcement becomes the entry of its originator. -/
theorem updateRoute_unseen (hbehind : Behind r) (hunseen : ¬ SeenBefore r (oidStr o) o)
    (nextHopId : String) :
    (noted r o).updateRoute (oidStr o) nextHopId fromAddr (o.hopCount + 1) o.seqNum o.timestamp =
      { noted r o with routes := r.routes.set (oidStr o) (entryOf o nextHopId fromAddr) } := by
  have hnewer : ∀ e, (noted r o).routes.get? (oidStr o) = some e → e.seqNum < o.seqNum :=
    newer_of_unseen (r := r) hbehind hunseen
  unfold MeshRouter.updateRoute
  cases hget : (noted r o).routes.get? (oidStr o) with
  | none => rfl
  | some existing =>
    have hlt := hnewer existing hget
    dsimp only
    rw [if_neg (by omega), if_neg (by omega)]
    rfl

/-- What an admitted announcement leaves behind. -/
theorem state_accepted (hbehind : Behind r) (hunseen : ¬ SeenBefore r (oidStr o) o)
    (nextHopId : String) (h : deviceIdFromBytes senderId = .ok nextHopId) :
    (accepted C r t o fromAddr senderId).state =
      { noted r o with routes := r.routes.set (oidStr o) (entryOf o nextHopId fromAddr) } := by
  rw [accepted_routed C r t fromAddr senderId o nextHopId h,
    (sendsOnly_forward C _ t o fromAddr _ rfl).1, updateRoute_unseen fromAddr hbehind hunseen]

end Handling

section Invariant

variable {C}

theorem Behind.noted {r : MeshRouter} (hbehind : Behind r) {o : Originator}
    (hunseen : ¬ SeenBefore r (oidStr o) o) : Behind (noted r o) := by
  intro key e he
  by_cases hkey : oidStr o = key
  · subst hkey
    exact ⟨o.seqNum, OrderedDict.get?_set_self _ _ _, (newer_of_unseen hbehind hunseen e he).le⟩
  · obtain ⟨seen, hget, hle⟩ := hbehind key e he
    exact ⟨seen, (OrderedDict.get?_set_of_ne _ _ hkey).trans hget, hle⟩

theorem behind_handle (r : MeshRouter) (hbehind : Behind r) (t : MeshTransport) (payload : Bytes)
    (fromAddr : Addr) (senderId : Bytes) :
    Behind (handleOriginator C r t payload fromAddr senderId).state := by
  cases hunpack : unpackOriginator payload with
  | error e =>
    rw [handle_malformed C r t payload fromAddr senderId e hunpack]
    exact hbehind
  | ok o =>
    by_cases hadmits : Admits C r t o
    · rw [handle_admitted C r t payload fromAddr senderId o hunpack hadmits]
      have hnoted := hbehind.noted hadmits.unseen
      cases hsender : deviceIdFromBytes senderId with
      | error e =>
        rw [accepted_unroutable C r t fromAddr senderId o e hsender]
        exact hnoted
      | ok nextHopId =>
        rw [state_accepted C t fromAddr senderId hbehind hadmits.unseen nextHopId hsender]
        intro key e he
        by_cases hkey : oidStr o = key
        · subst hkey
          cases Option.some.inj ((OrderedDict.get?_set_self _ _ _).symm.trans he)
          exact ⟨o.seqNum, OrderedDict.get?_set_self _ _ _, le_rfl⟩
        · exact hnoted key e ((OrderedDict.get?_set_of_ne _ _ hkey).symm.trans he)
    · rw [handle_refused C r t payload fromAddr senderId o hunpack hadmits]
      exact hbehind

theorem behind_step (r : MeshRouter) (event : RouterEvent) (hbehind : Behind r) :
    Behind (routerStep C r event) := by
  cases event with
  | broadcast t timestamp =>
    rw [routerStep, (sendsOnly_broadcast C r t timestamp _ rfl).1]
    exact hbehind
  | originator t payload fromAddr senderId =>
    exact behind_handle r hbehind t payload fromAddr senderId
  | purge now => exact fun key e he => hbehind key e (purgeStale_routes r now key e he)
  | register peerId bundle => exact hbehind

theorem behind_init (identity : DeviceIdentity) (maxHops : ℕ) :
    Behind (MeshRouter.init identity maxHops) := fun key e he => by contradiction

/-- No entry of a running router is newer than what it has seen. -/
theorem behind_run (identity : DeviceIdentity) (maxHops : ℕ) (events : List RouterEvent) :
    Behind (Runs.run (routerStep C) (MeshRouter.init identity maxHops) events) :=
  Runs.invariant_of_step behind_step _ events (behind_init identity maxHops)

end Invariant

section Staleness

/-- `now - value`, on floats. -/
def FloatValue.since (now : ℚ) : FloatValue → FloatValue
  | .finite value => .finite (now - value)
  | .infinite negative => .infinite (!negative)
  | .notANumber => .notANumber

/-- `value > bound`, on floats. -/
def FloatValue.exceeds (bound : ℚ) : FloatValue → Bool
  | .finite value => bound < value
  | .infinite negative => !negative
  | .notANumber => false

/-- The two ways of the source to ask whether an entry is stale agree. -/
theorem before_eq_exceeds (t : Timestamp) (now : ℚ) :
    t.before (now - staleRouteSeconds) = FloatValue.exceeds staleRouteSeconds
      (FloatValue.since now t.value) := by
  unfold Timestamp.before
  cases t.value with
  | finite value =>
    have hiff : value < now - staleRouteSeconds ↔ staleRouteSeconds < now - value :=
      ⟨fun h => by linarith, fun h => by linarith⟩
    exact decide_eq_decide.mpr hiff
  | infinite negative => exact (Bool.not_not negative).symm
  | notANumber => rfl

/-- What is stale stays stale. -/
theorem before_mono (t : Timestamp) {bound later : ℚ} (hle : bound ≤ later)
    (h : t.before bound = true) : t.before later = true := by
  unfold Timestamp.before at h ⊢
  cases hvalue : t.value with
  | finite value =>
    rw [hvalue] at h
    exact decide_eq_true ((of_decide_eq_true h).trans_le hle)
  | infinite negative =>
    rw [hvalue] at h
    exact h
  | notANumber =>
    rw [hvalue] at h
    exact h

/-- A purge removes the stale entries and keeps the others. -/
theorem purgeStale_get? (r : MeshRouter) (now : ℚ) (key : String) :
    (r.purgeStale now).routes.get? key =
      (r.routes.get? key).filter fun e => !e.lastSeen.before (now - staleRouteSeconds) := by
  have hmem : key ∈ (r.routes.entries.filter fun e =>
      e.2.lastSeen.before (now - staleRouteSeconds)).map Prod.fst ↔
      ∃ e, r.routes.get? key = some e ∧ e.lastSeen.before (now - staleRouteSeconds) = true := by
    constructor
    · intro h
      obtain ⟨e, he, rfl⟩ := List.mem_map.mp h
      obtain ⟨hentry, hstale⟩ := List.mem_filter.mp he
      exact ⟨e.2, (r.routes.mem_entries_iff _ _).mp hentry, hstale⟩
    · rintro ⟨e, hget, hstale⟩
      exact List.mem_map.mpr ⟨(key, e), List.mem_filter.mpr
        ⟨(r.routes.mem_entries_iff _ _).mpr hget, hstale⟩, rfl⟩
  refine (OrderedDict.get?_foldl_erase _ _ key).trans ?_
  cases hget : r.routes.get? key with
  | none => rw [ite_self, Option.filter_none]
  | some e =>
    rw [hget] at hmem
    cases hstale : e.lastSeen.before (now - staleRouteSeconds) with
    | true =>
      rw [if_pos (hmem.mpr ⟨e, rfl, hstale⟩), Option.filter_some, hstale]
      rfl
    | false =>
      have hkept : key ∉ (r.routes.entries.filter fun e =>
          e.2.lastSeen.before (now - staleRouteSeconds)).map Prod.fst := by
        intro h
        obtain ⟨e', heq, hstale'⟩ := hmem.mp h
        cases heq
        rw [hstale] at hstale'
        cases hstale'
      rw [if_neg hkept, Option.filter_some, hstale]
      rfl

end Staleness

section Calls

/-- A call at a router, without the time at which it is made. -/
inductive Call where
  | broadcastOriginator (t : MeshTransport) (timestamp : Timestamp)
  | handleOriginator (t : MeshTransport) (payload : Bytes) (fromAddr : Addr) (senderId : Bytes)
  | purgeStale
  | registerBundle (peerId : String) (bundle : PublicBundle)

def Call.isPurge : Call → Bool
  | .purgeStale => true
  | _ => false

/-- The call at this local time. -/
def Call.event (now : ℚ) : Call → RouterEvent
  | .broadcastOriginator t timestamp => .broadcast t timestamp
  | .handleOriginator t payload fromAddr senderId => .originator t payload fromAddr senderId
  | .purgeStale => .purge now
  | .registerBundle peerId bundle => .register peerId bundle

/-- What one call does, with the local time it is made at. -/
def callOutcome (r : MeshRouter) (c : ℚ × Call) : RouterOutcome :=
  match c.2 with
  | .broadcastOriginator t timestamp => Router.broadcastOriginator C r t timestamp
  | .handleOriginator t payload fromAddr senderId =>
    Router.handleOriginator C r t payload fromAddr senderId
  | .purgeStale => done (r.purgeStale c.1)
  | .registerBundle peerId bundle => done (r.registerBundle peerId bundle)

def callStep (r : MeshRouter) (c : ℚ × Call) : MeshRouter := (callOutcome C r c).state

theorem callStep_handle (r : MeshRouter) (now : ℚ) (t : MeshTransport) (payload : Bytes)
    (fromAddr : Addr) (senderId : Bytes) :
    callStep C r (now, .handleOriginator t payload fromAddr senderId) =
      (Router.handleOriginator C r t payload fromAddr senderId).state := rfl

theorem callStep_broadcast (r : MeshRouter) (now : ℚ) (t : MeshTransport) (timestamp : Timestamp) :
    callStep C r (now, .broadcastOriginator t timestamp) = { r with seqNum := r.seqNum + 1 } :=
  (sendsOnly_broadcast C r t timestamp _ rfl).1

theorem callStep_eq (r : MeshRouter) (c : ℚ × Call) :
    callStep C r c = routerStep C r (c.2.event c.1) := by
  obtain ⟨now, call⟩ := c
  cases call <;> rfl

theorem behind_callStep (r : MeshRouter) (c : ℚ × Call) (h : Behind r) : Behind (callStep C r c) := by
  rw [callStep_eq]
  exact behind_step r _ h

/-- The announcement that the call makes the router take into its table. -/
def takesIn (r : MeshRouter) (c : ℚ × Call) : Option Originator :=
  match c.2 with
  | .handleOriginator t payload _ senderId =>
    match unpackOriginator payload, deviceIdFromBytes senderId with
    | .ok o, .ok _ => if Admits C r t o then some o else none
    | _, _ => none
  | _ => none

variable {C}

/-- What is taken in becomes the entry of its originator. -/
theorem routes_taken {r : MeshRouter} (hbehind : Behind r) {c : ℚ × Call} {o : Originator}
    (h : takesIn C r c = some o) :
    ∃ nextHopId fromAddr, (callStep C r c).routes =
      r.routes.set (oidStr o) (entryOf o nextHopId fromAddr) := by
  obtain ⟨now, call⟩ := c
  cases call with
  | handleOriginator t payload fromAddr senderId =>
    simp only [takesIn] at h
    split at h
    · rename_i o' nextHopId hunpack hsender
      split at h
      · rename_i hadmits
        cases h
        refine ⟨nextHopId, fromAddr, ?_⟩
        rw [callStep_handle, handle_admitted C r t payload fromAddr senderId o hunpack hadmits,
          state_accepted C t fromAddr senderId hbehind hadmits.unseen nextHopId hsender]
      · cases h
    · cases h
  | broadcastOriginator _ _ | purgeStale | registerBundle _ _ => cases h

/-- A call that takes nothing in changes the table only by purging it. -/
theorem routes_untaken {r : MeshRouter} {c : ℚ × Call} (h : takesIn C r c = none)
    (hc : c.2.isPurge = false) : (callStep C r c).routes = r.routes := by
  obtain ⟨now, call⟩ := c
  cases call with
  | handleOriginator t payload fromAddr senderId =>
    rw [callStep_handle]
    cases hunpack : unpackOriginator payload with
    | error e => rw [handle_malformed C r t payload fromAddr senderId e hunpack, done]
    | ok o =>
      by_cases hadmits : Admits C r t o
      · rw [handle_admitted C r t payload fromAddr senderId o hunpack hadmits]
        cases hsender : deviceIdFromBytes senderId with
        | error e =>
          rw [accepted_unroutable C r t fromAddr senderId o e hsender]
          rfl
        | ok nextHopId =>
          simp only [takesIn, hunpack, hsender, if_pos hadmits] at h
          cases h
      · rw [handle_refused C r t payload fromAddr senderId o hunpack hadmits, done]
  | broadcastOriginator t timestamp =>
    rw [callStep_broadcast]
  | purgeStale => cases hc
  | registerBundle peerId bundle => rfl

end Calls

end Mesim.RouteTimes
