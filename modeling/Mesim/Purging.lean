import Mesim.RouteTimes

/-!
A purge makes no difference.
Two routers make the same calls at the same times, but one of them purges its table now
and then. Its table is the other's without entries that were stale at a purge and are
stale ever after: route_to() shows none of them, and the announcement that would replace
one of them is admitted by what has been seen, which no purge touches.
-/
namespace Mesim.Purging

open Octets TextCodec Crypto Identity Packet Transport Router RouterPackets OriginatorSignatures
open Forwarding RouteTables RouteLearning RouteTimes MeshTransport RouterOutcome

/-- The first router is the second without some entries, all of which are dispensable. -/
inductive Thinned (gone : RouteEntry → Prop) : MeshRouter → MeshRouter → Prop
  | mk (full : MeshRouter) (thin : OrderedDict String RouteEntry)
      (hkept : ∀ key e, thin.get? key = some e → full.routes.get? key = some e)
      (hgone : ∀ key e, full.routes.get? key = some e → thin.get? key = none → gone e)
      (hbehind : Behind full) : Thinned gone { full with routes := thin } full

/-- The calls other than purges. -/
def unpurged (calls : List (ℚ × Call)) : List (ℚ × Call) := calls.filter fun c => !c.2.isPurge

variable (C : Suite) {gone : RouteEntry → Prop} {r full : MeshRouter}

theorem thinned_refl (h : Behind r) : Thinned gone r r :=
  .mk r r.routes (fun _ _ he => he) (fun key e he hnone => by rw [he] at hnone; cases hnone) h

/-- Forwarding does not look at the table. -/
theorem forward_routes (full : MeshRouter) (thin : OrderedDict String RouteEntry)
    (t : MeshTransport) (o : Originator) (fromAddr : Addr) :
    (forwardOriginator C { full with routes := thin } t o fromAddr).effects =
        (forwardOriginator C full t o fromAddr).effects ∧
      (forwardOriginator C { full with routes := thin } t o fromAddr).raised =
        (forwardOriginator C full t o fromAddr).raised := by
  have hdata : forwardData C { full with routes := thin } o = forwardData C full o := rfl
  unfold forwardOriginator attempt
  rw [hdata]
  split
  · exact ⟨rfl, rfl⟩
  · cases forwardData C full o with
    | error e => exact ⟨rfl, rfl⟩
    | ok data =>
      dsimp only
      cases originatorPacket t data with
      | error e => exact ⟨rfl, rfl⟩
      | ok pkt => exact ⟨rfl, rfl⟩

/-- Nor does broadcasting. -/
theorem broadcast_routes (full : MeshRouter) (thin : OrderedDict String RouteEntry)
    (t : MeshTransport) (timestamp : Timestamp) :
    (broadcastOriginator C { full with routes := thin } t timestamp).effects =
        (broadcastOriginator C full t timestamp).effects ∧
      (broadcastOriginator C { full with routes := thin } t timestamp).raised =
        (broadcastOriginator C full t timestamp).raised := by
  unfold broadcastOriginator attempt
  dsimp only
  cases packOriginator C full.identity.deviceId (full.seqNum + 1) 0 full.maxHops timestamp
      full.identity.signingKeypair.signingKey with
  | error e => exact ⟨rfl, rfl⟩
  | ok data =>
    dsimp only
    cases originatorPacket t data with
    | error e => exact ⟨rfl, rfl⟩
    | ok pkt => exact ⟨rfl, rfl⟩

/-- Both tables take the same entry in. -/
theorem thinned_set {thin : OrderedDict String RouteEntry}
    (hkept : ∀ key e, thin.get? key = some e → full.routes.get? key = some e)
    (hgone : ∀ key e, full.routes.get? key = some e → thin.get? key = none → gone e)
    (new : String) (entry : RouteEntry) (s : MeshRouter)
    (hroutes : s.routes = full.routes.set new entry) (hbehind : Behind s) :
    Thinned gone { s with routes := thin.set new entry } s := by
  refine .mk s _ (fun key e he => ?_) (fun key e he hnone => ?_) hbehind
  · rw [hroutes]
    by_cases hkey : new = key
    · subst hkey
      rw [OrderedDict.get?_set_self] at he ⊢
      exact he
    · rw [OrderedDict.get?_set_of_ne _ _ hkey] at he ⊢
      exact hkept key e he
  · rw [hroutes] at he
    by_cases hkey : new = key
    · subst hkey
      rw [OrderedDict.get?_set_self] at hnone
      cases hnone
    · rw [OrderedDict.get?_set_of_ne _ _ hkey] at he hnone
      exact hgone key e he hnone

/-- Handling an announcement emits and raises the same on both sides, and brings back an entry
that it replaces. -/
theorem thinned_handle (h : Thinned gone r full) (t : MeshTransport) (payload : Bytes)
    (fromAddr : Addr) (senderId : Bytes) :
    Thinned gone (handleOriginator C r t payload fromAddr senderId).state
        (handleOriginator C full t payload fromAddr senderId).state ∧
      (handleOriginator C r t payload fromAddr senderId).effects =
        (handleOriginator C full t payload fromAddr senderId).effects ∧
      (handleOriginator C r t payload fromAddr senderId).raised =
        (handleOriginator C full t payload fromAddr senderId).raised := by
  cases hunpack : unpackOriginator payload with
  | error e =>
    rw [handle_malformed C r t payload fromAddr senderId e hunpack,
      handle_malformed C full t payload fromAddr senderId e hunpack]
    exact ⟨h, rfl, rfl⟩
  | ok o =>
    obtain ⟨_, thin, hkept, hgone, hbehind⟩ := h
    have hsame : Admits C { full with routes := thin } t o ↔ Admits C full t o :=
      ⟨fun h => ⟨h.foreign, h.signature, h.unseen⟩, fun h => ⟨h.foreign, h.signature, h.unseen⟩⟩
    by_cases hadmits : Admits C full t o
    · rw [handle_admitted C _ t payload fromAddr senderId o hunpack (hsame.mpr hadmits),
        handle_admitted C full t payload fromAddr senderId o hunpack hadmits]
      cases hsender : deviceIdFromBytes senderId with
      | error e =>
        rw [accepted_unroutable C _ t fromAddr senderId o e hsender,
          accepted_unroutable C full t fromAddr senderId o e hsender]
        exact ⟨.mk (noted full o) thin hkept hgone (hbehind.noted hadmits.unseen), rfl, rfl⟩
      | ok nextHopId =>
        have hthin : Behind { full with routes := thin } := fun key e he =>
          hbehind key e (hkept key e he)
        let full' : MeshRouter :=
          { noted full o with routes := full.routes.set (oidStr o) (entryOf o nextHopId fromAddr) }
        have hbehind' : Behind full' := by
          have hnext := behind_handle (C := C) full hbehind t payload fromAddr senderId
          rwa [handle_admitted C full t payload fromAddr senderId o hunpack hadmits,
            state_accepted C t fromAddr senderId hbehind hadmits.unseen nextHopId hsender] at hnext
        rw [accepted_routed C _ t fromAddr senderId o nextHopId hsender,
          accepted_routed C full t fromAddr senderId o nextHopId hsender,
          updateRoute_unseen fromAddr hthin hadmits.unseen,
          updateRoute_unseen fromAddr hbehind hadmits.unseen,
          (sendsOnly_forward C _ t o fromAddr _ rfl).1, (sendsOnly_forward C _ t o fromAddr _ rfl).1]
        exact ⟨thinned_set hkept hgone _ _ full' rfl hbehind', forward_routes C full' _ t o fromAddr⟩
    · rw [handle_refused C _ t payload fromAddr senderId o hunpack (mt hsame.mp hadmits),
        handle_refused C full t payload fromAddr senderId o hunpack hadmits]
      exact ⟨.mk full thin hkept hgone hbehind, rfl, rfl⟩

/-- A call that both routers make. -/
theorem thinned_call (h : Thinned gone r full) (c : ℚ × Call) (hc : c.2.isPurge = false) :
    Thinned gone (callStep C r c) (callStep C full c) ∧
      (callOutcome C r c).effects = (callOutcome C full c).effects ∧
      (callOutcome C r c).raised = (callOutcome C full c).raised := by
  obtain ⟨now, call⟩ := c
  cases call with
  | handleOriginator t payload fromAddr senderId =>
    exact thinned_handle C h t payload fromAddr senderId
  | purgeStale => cases hc
  | registerBundle peerId bundle =>
    obtain ⟨_, thin, hkept, hgone, hbehind⟩ := h
    exact ⟨.mk (full.registerBundle peerId bundle) thin hkept hgone hbehind, rfl, rfl⟩
  | broadcastOriginator t timestamp =>
    obtain ⟨_, thin, hkept, hgone, hbehind⟩ := h
    rw [callStep_broadcast, callStep_broadcast]
    exact ⟨.mk { full with seqNum := full.seqNum + 1 } thin hkept hgone hbehind,
      broadcast_routes C full thin t timestamp⟩

/-- A purge of the first router takes out only what is stale. -/
theorem thinned_purge (now : ℚ)
    (hstale : ∀ e : RouteEntry, e.lastSeen.before (now - staleRouteSeconds) = true → gone e)
    (h : Thinned gone r full) : Thinned gone (r.purgeStale now) full := by
  obtain ⟨_, thin, hkept, hgone, hbehind⟩ := h
  refine .mk full (MeshRouter.purgeStale { full with routes := thin } now).routes
    (fun key e he => hkept key e (purgeStale_routes _ now key e he)) (fun key e he hnone => ?_) hbehind
  rw [purgeStale_get?] at hnone
  cases hget : thin.get? key with
  | none => exact hgone key e he hget
  | some e' =>
    have heq : e' = e := Option.some.inj ((hkept key e' hget).symm.trans he)
    subst heq
    apply hstale e'
    change (thin.get? key).filter _ = none at hnone
    rw [hget, Option.filter_some] at hnone
    by_contra hfresh
    rw [Bool.eq_false_of_not_eq_true hfresh] at hnone
    cases hnone

/-- A purged run is the other run without some dispensable entries, when whatever is stale at
one of its calls is dispensable. -/
theorem thinned_run (calls : List (ℚ × Call))
    (hstale : ∀ c ∈ calls, ∀ e : RouteEntry,
      e.lastSeen.before (c.1 - staleRouteSeconds) = true → gone e) (h : Thinned gone r full) :
    Thinned gone (Runs.run (callStep C) r calls) (Runs.run (callStep C) full (unpurged calls)) := by
  refine Runs.related_filter r full calls (fun r full c _ hvisible h => ?_)
    (fun r full c hc hhidden h => ?_) h
  · exact (thinned_call C h c ((Bool.not_eq_true' _).mp hvisible)).1
  · obtain ⟨now, call⟩ := c
    cases call with
    | purgeStale => exact thinned_purge now (hstale _ hc) h
    | broadcastOriginator _ _ | handleOriginator _ _ _ _ | registerBundle _ _ => cases hhidden

/-- Entries that are stale now make no difference to route_to(). -/
theorem routeTo_thinned (now : ℚ) (peerId : String)
    (h : Thinned (fun e => e.lastSeen.before (now - staleRouteSeconds) = true) r full) :
    r.routeTo now peerId = full.routeTo now peerId := by
  obtain ⟨_, thin, hkept, hgone, hbehind⟩ := h
  unfold MeshRouter.routeTo
  dsimp only
  cases hthin : thin.get? peerId with
  | some e => rw [hkept peerId e hthin]
  | none =>
    cases hfull : full.routes.get? peerId with
    | none => rfl
    | some e => exact (if_pos (hgone peerId e hfull hthin)).symm

/-- Whatever a router has done before, purges among its further calls make no difference: each
call emits and raises the same without them, and at any time that is not before one of the
calls route_to() gives the same entry for everyone. The two tests of staleness that this
rests on are the same test. -/
theorem purging_invisible (identity : DeviceIdentity) (maxHops : ℕ) (past : List RouterEvent)
    (calls : List (ℚ × Call)) :
    let r := Runs.run (routerStep C) (MeshRouter.init identity maxHops) past
    (∀ c : ℚ × Call, c.2.isPurge = false →
      (callOutcome C (Runs.run (callStep C) r calls) c).effects =
          (callOutcome C (Runs.run (callStep C) r (unpurged calls)) c).effects ∧
        (callOutcome C (Runs.run (callStep C) r calls) c).raised =
          (callOutcome C (Runs.run (callStep C) r (unpurged calls)) c).raised) ∧
    (∀ now : ℚ, (∀ c ∈ calls, c.1 ≤ now) → ∀ peerId,
      (Runs.run (callStep C) r calls).routeTo now peerId =
        (Runs.run (callStep C) r (unpurged calls)).routeTo now peerId) ∧
    ∀ (t : Timestamp) (now : ℚ), t.before (now - staleRouteSeconds) =
      FloatValue.exceeds staleRouteSeconds (FloatValue.since now t.value) := by
  intro r
  have hbehind : Behind r := behind_run identity maxHops past
  refine ⟨fun c hc => ?_, fun now hnow peerId => ?_, before_eq_exceeds⟩
  · have h : Thinned (fun _ => True) (Runs.run (callStep C) r calls)
        (Runs.run (callStep C) r (unpurged calls)) :=
      thinned_run C calls (fun _ _ _ _ => trivial) (thinned_refl hbehind)
    exact (thinned_call C h c hc).2
  · refine routeTo_thinned now peerId (thinned_run C calls (fun c hc e hstale => ?_)
      (thinned_refl hbehind))
    exact before_mono e.lastSeen (sub_le_sub_right (hnow c hc) _) hstale

end Mesim.Purging
