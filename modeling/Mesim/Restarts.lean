import Mesim.OriginatorTraces

/-!
Two lives of one originator.
A router counts its announcements from its start, and what a neighbour has remembered of an
originator lasts as long as the neighbour does: neither the age of the route nor a purge
takes it back. So the first announcement of a restarted node becomes a route only where no
announcement of its former life has been remembered.
-/
namespace Mesim.Restarts

open Octets TextCodec Crypto Identity Packet Transport Router RouterPackets RouterNetwork
open OriginatorSignatures RouteTables RouteLearning Flooding RouteTimes MeshTransport RouterOutcome

variable (C : Suite)

section Sender

def isBroadcast : RouterEvent → Bool
  | .broadcast _ _ => true
  | _ => false

/-- The packet carries this announcement, fresh from the node with this sender id. -/
structure Announces (packet : Bytes) (senderId : Fixed 32) (seqNum : ℕ) (timestamp : Timestamp)
    (o : Originator) : Prop where
  parse : ∃ payload, parsePacket packet = .ok ⟨.originator, senderId.toList, payload⟩ ∧
    unpackOriginator payload = .ok o
  oid : o.oidBytes = senderId
  seq : o.seqNum = seqNum
  hops : o.hopCount = 0
  time : o.timestamp = timestamp

theorem identity_handle (r : MeshRouter) (t : MeshTransport) (payload : Bytes) (fromAddr : Addr)
    (senderId : Bytes) :
    (handleOriginator C r t payload fromAddr senderId).state.identity = r.identity := by
  have hhandled := handleOriginator_handled C r t payload fromAddr senderId
  generalize handleOriginator C r t payload fromAddr senderId = out at hhandled
  cases hhandled with
  | dropped e => rfl
  | unroutable o e _ _ => rfl
  | routed o nextHopId out _ _ _ _ hstate _ =>
    rw [hstate]
    exact (updateRoute_frame _ _ _ _ _ _ _).1

/-- A router is its node's from its start on, and has counted its broadcasts. -/
theorem counted_run (identity : DeviceIdentity) (maxHops : ℕ) (events : List RouterEvent) :
    (Runs.run (routerStep C) (MeshRouter.init identity maxHops) events).identity = identity ∧
      (Runs.run (routerStep C) (MeshRouter.init identity maxHops) events).seqNum =
        events.countP isBroadcast := by
  induction events using List.reverseRecOn with
  | nil => exact ⟨rfl, rfl⟩
  | append_singleton events event ih =>
    obtain ⟨hidentity, hseq⟩ := ih
    rw [Runs.run_concat, List.countP_append]
    generalize Runs.run (routerStep C) (MeshRouter.init identity maxHops) events = r at *
    cases event with
    | broadcast t timestamp =>
      rw [routerStep, (sendsOnly_broadcast C r t timestamp _ rfl).1]
      exact ⟨hidentity, congrArg (· + 1) hseq⟩
    | originator t payload fromAddr senderId =>
      exact ⟨(identity_handle C r t payload fromAddr senderId).trans hidentity,
        (seqNum_handleOriginator r t payload fromAddr senderId).trans hseq⟩
    | purge now => exact ⟨hidentity, hseq⟩
    | register peerId bundle => exact ⟨hidentity, hseq⟩

/-- What a router broadcasts is its next announcement. -/
theorem announces_broadcast (r : MeshRouter) (t : MeshTransport) (timestamp : Timestamp)
    (packet : Bytes) (dest : Addr) (hsender : senderIdBytes r.identity.deviceId = .ok t.senderId)
    (hsent : .sendto packet dest ∈ (broadcastOriginator C r t timestamp).effects) :
    ∃ o, Announces packet t.senderId (r.seqNum + 1) timestamp o := by
  rcases (sendsOnly_broadcast C r t timestamp _ rfl).2 with hnone | ⟨data, hpack, hall⟩
  · rw [hnone] at hsent
    exact absurd hsent List.not_mem_nil
  · obtain ⟨session, -, hlen, heq⟩ := hall _ hsent
    cases heq
    obtain ⟨sig, hunpack⟩ := unpackOriginator_packOriginator C _ _ _ _ _ _ _ _ hsender hpack
    exact ⟨_, ⟨data, Honest.parsePacket_unkeyed .originator t.senderId data hlen, hunpack⟩, rfl, rfl,
      rfl, rfl⟩

end Sender

section Memory

variable {C} {r : MeshRouter} {calls : List (ℚ × Call)} {key : String}

/-- The sequence number that the call makes the router remember of this originator. -/
def rememberedAt (C : Suite) (key : String) (visit : MeshRouter × ℚ × Call) : Option ℕ :=
  acceptedSeq C key (visit.1, visit.2.2.event visit.2.1)

def remembered (C : Suite) (key : String) (r : MeshRouter) (calls : List (ℚ × Call)) : List ℕ :=
  (Runs.visits (callStep C) r calls).filterMap (rememberedAt C key)

theorem not_seenBefore_iff (r : MeshRouter) (key : String) (o : Originator) :
    ¬ SeenBefore r key o ↔ nextSeq key r ≤ o.seqNum := by
  unfold SeenBefore nextSeq
  cases r.seenSeq.get? key with
  | none => simp
  | some seen =>
    simp only [Option.some.injEq, exists_eq_left', not_le, Option.map_some, Option.getD_some]
    exact Nat.lt_iff_add_one_le

theorem admits_iff (r : MeshRouter) (t : MeshTransport) (payload : Bytes) (o : Originator)
    (hunpack : unpackOriginator payload = .ok o) :
    Admits C r t o ↔ o.oidBytes ≠ t.senderId ∧ ¬ RejectedBy C r (oidStr o) o ∧
      nextSeq (oidStr o) r ≤ o.seqNum := by
  have hsig : signatureAccepted C r o = .ok () ↔ ¬ RejectedBy C r (oidStr o) o := by
    rcases signatureAccepted_eq C r payload o hunpack with ⟨hok, hnot⟩ | ⟨herror, hrejected⟩
    · exact iff_of_true hok hnot
    · refine iff_of_false (fun hok => ?_) (not_not_intro hrejected)
      cases herror.symm.trans hok
  rw [← not_seenBefore_iff, ← hsig]
  exact ⟨fun h => ⟨h.foreign, h.signature, h.unseen⟩, fun h => ⟨h.1, h.2.1, h.2.2⟩⟩

/-- Only an announcement that is admitted is remembered. -/
theorem acceptedSeq_handle (r : MeshRouter) (t : MeshTransport) (payload : Bytes) (fromAddr : Addr)
    (senderId : Bytes) (o : Originator) (hunpack : unpackOriginator payload = .ok o) :
    acceptedSeq C key (r, .originator t payload fromAddr senderId) =
      if Admits C r t o ∧ oidStr o = key then some o.seqNum else none := by
  have hany := any_seen_iff r (oidStr o) o
  simp only [acceptedSeq, hunpack]
  refine if_congr ⟨fun h => ?_, fun h => ?_⟩ rfl rfl
  · exact ⟨⟨h.1, h.2.1, fun hseen => h.2.2.1 (hany.mpr hseen)⟩, h.2.2.2⟩
  · exact ⟨h.1.foreign, h.1.signature, fun hseen => h.1.unseen (hany.mp hseen), h.2⟩

/-- A call moves the memory of an originator to what it makes the router remember. -/
theorem nextSeq_callStep (r : MeshRouter) (c : ℚ × Call) :
    nextSeq key (callStep C r c) =
      ((rememberedAt C key (r, c)).map (· + 1)).getD (nextSeq key r) := by
  obtain ⟨now, call⟩ := c
  cases call with
  | broadcastOriginator t timestamp =>
    rw [callStep_broadcast]
    rfl
  | purgeStale => rfl
  | registerBundle peerId bundle => rfl
  | handleOriginator t payload fromAddr senderId =>
    rw [callStep_handle, rememberedAt, Call.event]
    cases hunpack : unpackOriginator payload with
    | error e =>
      rw [handle_malformed C r t payload fromAddr senderId e hunpack, acceptedSeq, hunpack]
      rfl
    | ok o =>
      rw [acceptedSeq_handle r t payload fromAddr senderId o hunpack]
      by_cases hadmits : Admits C r t o
      · rw [handle_admitted C r t payload fromAddr senderId o hunpack hadmits,
          nextSeq_set key r _ _ _ (seenSeq_accepted C r t o fromAddr senderId)]
        by_cases hkey : oidStr o = key
        · rw [if_pos hkey, if_pos ⟨hadmits, hkey⟩]
          rfl
        · rw [if_neg hkey, if_neg fun h => hkey h.2]
          rfl
      · rw [handle_refused C r t payload fromAddr senderId o hunpack hadmits,
          if_neg fun h => hadmits h.1]
        rfl

theorem nextSeq_le_accepted (r : MeshRouter) (c : ℚ × Call) (n : ℕ)
    (h : rememberedAt C key (r, c) = some n) : nextSeq key r ≤ n :=
  (acceptedSeq_bounds C key r _ n h).1

/-- The memory of an originator stands above all that the calls have made the router remember. -/
theorem nextSeq_calls_le_iff (r : MeshRouter) (hr : nextSeq key r = 0) (calls : List (ℚ × Call))
    (m : ℕ) :
    nextSeq key (Runs.run (callStep C) r calls) ≤ m ↔ ∀ n ∈ remembered C key r calls, n < m := by
  induction calls using List.reverseRecOn generalizing m with
  | nil =>
    rw [Runs.run_nil, hr]
    exact iff_of_true (Nat.zero_le m) fun n hn => absurd hn List.not_mem_nil
  | append_singleton calls c ih =>
    rw [Runs.run_concat, nextSeq_callStep, remembered, Runs.visits_concat, List.filterMap_append]
    cases haccepted : rememberedAt C key (Runs.run (callStep C) r calls, c) with
    | none =>
      rw [List.filterMap_cons_none haccepted, List.filterMap_nil,
        List.append_nil]
      exact ih m
    | some n =>
      rw [List.filterMap_cons_some haccepted, List.filterMap_nil,
        List.forall_mem_append, List.forall_mem_singleton]
      have hbefore := nextSeq_le_accepted _ c n haccepted
      exact ⟨fun hlt => ⟨(ih m).mp (hbefore.trans (Nat.le_of_succ_le hlt)), hlt⟩, fun h => h.2⟩

end Memory

section Restart

/-- The id under which a node is filed. -/
def wireId (senderId : Fixed 32) : String := decodeAsciiReplace senderId.toList

/-- The entry for a node one hop away, made from its first announcement. -/
def firstEntry (senderId : Fixed 32) (fromAddr : Addr) (timestamp : Timestamp) : RouteEntry where
  originatorId := wireId senderId
  nextHopId := wireId senderId
  nextHopAddr := fromAddr
  hopCount := 1
  lastSeen := timestamp
  seqNum := 1

variable {C}

theorem deviceIdFromBytes_sender {deviceId : String} {senderId : Fixed 32}
    (h : senderIdBytes deviceId = .ok senderId) :
    deviceIdFromBytes senderId.toList = .ok (wireId senderId) :=
  OriginatorTraces.deviceIdFromBytes_ascii _ ((OriginatorTraces.senderIdBytes_replace_iff senderId).mp
    ⟨senderId, Forwarding.senderIdBytes_decode deviceId senderId h⟩)

/-- The table after a first announcement, at a router that has seen what its entries say. -/
theorem routes_receive {r : MeshRouter} (hbehind : Behind r) (t : MeshTransport) (packet : Bytes)
    (fromAddr : Addr) {deviceId : String} {senderId : Fixed 32} {timestamp : Timestamp}
    {o : Originator} (hsender : senderIdBytes deviceId = .ok senderId)
    (hannounces : Announces packet senderId 1 timestamp o) :
    (receive C r t packet fromAddr).state.routes.get? (wireId senderId) =
      if Admits C r t o then some (firstEntry senderId fromAddr timestamp)
      else r.routes.get? (wireId senderId) := by
  obtain ⟨⟨payload, hparse, hunpack⟩, rfl, hseq, hhops, rfl⟩ := hannounces
  have hreceive : receive C r t packet fromAddr =
      handleOriginator C r t payload fromAddr o.oidBytes.toList := by
    rw [receive, hparse]
  rw [hreceive]
  by_cases hadmits : Admits C r t o
  · rw [if_pos hadmits, handle_admitted C r t payload fromAddr _ o hunpack hadmits,
      state_accepted C t fromAddr _ hbehind hadmits.unseen _ (deviceIdFromBytes_sender hsender)]
    refine (OrderedDict.get?_set_self _ _ _).trans ?_
    rw [entryOf, hhops, hseq]
    rfl
  · rw [if_neg hadmits, handle_refused C r t payload fromAddr _ o hunpack hadmits]
    rfl

variable (C)

/-- The first broadcast of an instance, received in any state that a neighbour can be in, leaves
it with a fresh route made from that broadcast exactly when the broadcast is not stale on arrival
and the route is there from an earlier copy, or the broadcast is not the receiver's own, no
bundle rejects it and nothing later than number zero has been remembered of its sender. -/
theorem recovers_iff (D : DeviceIdentity) (maxHops : ℕ) (events : List RouterEvent)
    (hfirst : events.countP isBroadcast = 0) (tO : MeshTransport)
    (hsender : senderIdBytes D.deviceId = .ok tO.senderId) (timestamp : Timestamp) (packet : Bytes)
    (dest : Addr)
    (hsent : .sendto packet dest ∈ (broadcastOriginator C
      (Runs.run (routerStep C) (MeshRouter.init D maxHops) events) tO timestamp).effects) :
    ∃ o, Announces packet tO.senderId 1 timestamp o ∧
      ∀ (N : DeviceIdentity) (hops : ℕ) (calls : List (ℚ × Call)) (now : ℚ) (t : MeshTransport)
        (fromAddr : Addr),
        let r := Runs.run (callStep C) (MeshRouter.init N hops) calls
        (receive C r t packet fromAddr).state.routeTo now (wireId tO.senderId) =
            some (firstEntry tO.senderId fromAddr timestamp) ↔
          timestamp.before (now - staleRouteSeconds) = false ∧
            (r.routes.get? (wireId tO.senderId) = some (firstEntry tO.senderId fromAddr timestamp) ∨
              tO.senderId ≠ t.senderId ∧ ¬ RejectedBy C r (wireId tO.senderId) o ∧
                ∀ n ∈ remembered C (wireId tO.senderId) (MeshRouter.init N hops) calls, n = 0) := by
  obtain ⟨hidentity, hcount⟩ := counted_run C D maxHops events
  rw [← hidentity] at hsender
  obtain ⟨o, hannounces⟩ := announces_broadcast C _ tO timestamp packet dest hsender hsent
  rw [hcount, hfirst] at hannounces
  refine ⟨o, hannounces, fun N hops calls now t fromAddr => ?_⟩
  intro r
  have hbehind : Behind r := Runs.invariant_of_step (behind_callStep C) _ calls (behind_init N hops)
  have hmemory : nextSeq (wireId tO.senderId) r ≤ 1 ↔
      ∀ n ∈ remembered C (wireId tO.senderId) (MeshRouter.init N hops) calls, n = 0 := by
    simp only [← Nat.lt_one_iff]
    exact nextSeq_calls_le_iff _ rfl calls 1
  have hadmits : Admits C r t o ↔ tO.senderId ≠ t.senderId ∧
      ¬ RejectedBy C r (wireId tO.senderId) o ∧ nextSeq (wireId tO.senderId) r ≤ 1 := by
    obtain ⟨⟨payload, -, hunpack⟩, hoid, hseq, -, -⟩ := hannounces
    rw [admits_iff r t payload o hunpack, oidStr, hoid, hseq, wireId]
  rw [routeTo_eq_some_iff, routes_receive hbehind t packet fromAddr hsender hannounces, and_comm,
    ← hmemory, ← hadmits]
  refine and_congr_right fun _ => ?_
  by_cases h : Admits C r t o
  · rw [if_pos h]
    exact iff_of_true rfl (Or.inr h)
  · rw [if_neg h, or_iff_left h]

end Restart

section Stub

open Honest Forwarding

/-- A thousand seconds after the epoch. -/
def stamp : Timestamp := ⟨⟨[0x40, 0x8F, 0x40, 0, 0, 0, 0, 0], rfl⟩⟩

/-- The first router's first announcement at this time. -/
def payloadAt (timestamp : Timestamp) : Bytes :=
  originatorFields (duo.senderId false) 1 0 defaultMaxHops timestamp ++
    (stub.signMessage ((duo.senderId false).toList ++ packBE 4 1 ++ timestamp.raw.toList ++
      packBE 1 defaultMaxHops) (duo.identity false).signingKeypair.signingKey).toList

def packetAt (timestamp : Timestamp) : Bytes :=
  frame .originator (duo.senderId false) (payloadAt timestamp) zeroMac

/-- An instance of the first router. -/
def originator : MeshRouter := MeshRouter.init (duo.identity false) defaultMaxHops

/-- The second router hears the first announcement of the instance that starts at zero. -/
def formerLife : ℚ × Call :=
  (0, .handleOriginator (duoTransport true) (payloadAt epoch) alphaAddr (duo.senderId false).toList)

/-- A neighbour that has heard nothing of the former life finds the restarted node. -/
theorem recovers_iff_duo :
    (receive stub unknowing (duoTransport true) (packetAt stamp) alphaAddr).state.routeTo 1000
      (wireId (duo.senderId false)) = some (firstEntry (duo.senderId false) alphaAddr stamp) := by
  obtain ⟨o, -, hiff⟩ := recovers_iff stub (duo.identity false) defaultMaxHops [] rfl
    (duoTransport false) (duo.senderIdBytes_deviceId false) stamp (packetAt stamp) bravoAddr
    (by decide +kernel)
  refine (hiff (duo.identity true) defaultMaxHops [] 1000 (duoTransport true) alphaAddr).mpr
    ⟨by decide +kernel, Or.inr ⟨by decide, ?_, fun n hn => absurd hn List.not_mem_nil⟩⟩
  rintro ⟨bundle, hbundle, -⟩
  cases hbundle

/-- A neighbour that has heard one announcement of the former life does not, a thousand seconds
later and with a purge in between as without. -/
theorem restarted_not_found :
    Effect.sendto (packetAt epoch) bravoAddr ∈
        (broadcastOriginator stub originator (duoTransport false) epoch).effects ∧
      Effect.sendto (packetAt stamp) bravoAddr ∈
        (broadcastOriginator stub originator (duoTransport false) stamp).effects ∧
      epoch.value = .finite 0 ∧ stamp.value = .finite 1000 ∧
      ∀ purges ∈ [[], [((500 : ℚ), Call.purgeStale)]],
        (receive stub (Runs.run (callStep stub) unknowing (formerLife :: purges))
          (duoTransport true) (packetAt stamp) alphaAddr).state.routeTo 1000
            (wireId (duo.senderId false)) = none := by
  refine ⟨by decide +kernel, by decide +kernel, by decide +kernel, by decide +kernel, ?_⟩
  rw [List.forall_mem_cons, List.forall_mem_singleton]
  exact ⟨by decide +kernel, by decide +kernel⟩

end Stub

end Mesim.Restarts
