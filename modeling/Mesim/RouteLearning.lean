import Mathlib.Data.List.MinMax
import Mesim.Forwarding

/-!
What a router knows of one originator.
Routes are filed under the 32 digits on the wire, and nothing else is. Among the
announcements of one originator the router keeps the first that has the largest
sequence number: a second path to an equally new one is a duplicate to it, so the
shorter path is only found when it comes first.
-/
namespace Mesim.RouteLearning

open Octets TextCodec Crypto Identity Packet Transport Router RouterPackets RouterNetwork
open Honest RouteTables OriginatorSignatures Forwarding MeshTransport RouterOutcome

variable (C : Suite)

section Tables

theorem updateRoute_other (r : MeshRouter) (originatorId nextHopId : String) (nextHopAddr : Addr)
    (hopCount seqNum : ℕ) (timestamp : Timestamp) (key : String) (hkey : key ≠ originatorId) :
    (r.updateRoute originatorId nextHopId nextHopAddr hopCount seqNum timestamp).routes.get? key =
      r.routes.get? key := by
  have hset : ∀ e, (r.routes.set originatorId e).get? key = r.routes.get? key :=
    fun e => OrderedDict.get?_set_of_ne _ _ hkey.symm
  unfold MeshRouter.updateRoute
  cases r.routes.get? originatorId with
  | none => exact hset _
  | some existing =>
    dsimp only
    split
    · rfl
    · split
      · rfl
      · exact hset _

/-- An announcement can only change the route filed under its own originator id. -/
theorem routes_other (r : MeshRouter) (t : MeshTransport) (payload : Bytes) (fromAddr : Addr)
    (senderId : Bytes) (key : String)
    (hkey : ∀ o, unpackOriginator payload = .ok o → key ≠ decodeAsciiReplace o.oidBytes.toList) :
    (handleOriginator C r t payload fromAddr senderId).state.routes.get? key = r.routes.get? key := by
  have hhandled := handleOriginator_handled C r t payload fromAddr senderId
  generalize handleOriginator C r t payload fromAddr senderId = out at hhandled
  cases hhandled with
  | dropped e => rfl
  | unroutable o e _ _ => rfl
  | routed o nextHopId out hunpack _ _ _ hstate _ =>
    rw [hstate, updateRoute_other _ _ _ _ _ _ _ _ (hkey o hunpack)]

theorem decodeAsciiReplace_length (b : Fixed 32) : (decodeAsciiReplace b.toList).length = 32 := by
  rw [decodeAsciiReplace, String.length_ofList, List.length_map, b.toList_length]

theorem uuidText_length {deviceId : String} (h : UuidText deviceId) : deviceId.length = 36 := by
  obtain ⟨digits, hlen, _, rfl⟩ := h
  rw [← String.length_toList, length_uuidText hlen]

theorem routeTo_eq_some_iff (r : MeshRouter) (now : ℚ) (peerId : String) (e : RouteEntry) :
    r.routeTo now peerId = some e ↔
      r.routes.get? peerId = some e ∧ e.lastSeen.before (now - staleRouteSeconds) = false := by
  unfold MeshRouter.routeTo
  cases r.routes.get? peerId with
  | none => simp
  | some entry =>
    dsimp only
    split
    · rename_i hstale
      apply iff_of_false (by simp)
      rintro ⟨heq, hfresh⟩
      cases heq
      rw [hstale] at hfresh
      contradiction
    · rename_i hfresh
      constructor
      · intro heq
        cases heq
        exact ⟨rfl, Bool.eq_false_iff.mpr hfresh⟩
      · exact fun h => h.1

end Tables

section Lookup

/-- The keys of a route table are strings of 32 characters. -/
def WireKeyed (r : MeshRouter) : Prop := ∀ key e, r.routes.get? key = some e → key.length = 32

theorem wireKeyed_step (r : MeshRouter) (event : RouterEvent) (h : WireKeyed r) :
    WireKeyed (routerStep C r event) := by
  intro key e he
  cases event with
  | broadcast t timestamp =>
    have hstate := (sendsOnly_broadcast C r t timestamp _ rfl).1
    rw [routerStep, hstate] at he
    exact h key e he
  | originator t payload fromAddr senderId =>
    by_cases hkey : ∀ o, unpackOriginator payload = .ok o →
        key ≠ decodeAsciiReplace o.oidBytes.toList
    · rw [routerStep, routes_other C r t payload fromAddr senderId key hkey] at he
      exact h key e he
    · push Not at hkey
      obtain ⟨o, _, rfl⟩ := hkey
      exact decodeAsciiReplace_length o.oidBytes
  | purge now => exact h key e (purgeStale_routes r now key e he)
  | register peerId bundle => exact h key e he

/-- A running router never finds a route by a device id with its dashes. -/
theorem routeTo_dashed (identity : DeviceIdentity) (maxHops : ℕ) (events : List RouterEvent)
    (now : ℚ) (deviceId : String) (hid : UuidText deviceId) :
    (Runs.run (routerStep C) (MeshRouter.init identity maxHops) events).routeTo now deviceId =
      none := by
  have hkeyed := Runs.invariant_of_step (wireKeyed_step C) (MeshRouter.init identity maxHops) events
    (fun key e he => by contradiction)
  cases hroute : (Runs.run (routerStep C) (MeshRouter.init identity maxHops) events).routeTo now
      deviceId with
  | none => rfl
  | some e =>
    have hlen := hkeyed deviceId e ((routeTo_eq_some_iff _ _ _ _).mp hroute).1
    rw [uuidText_length hid] at hlen
    contradiction

/-- An announcement packed for a device gives route_to() no entry under the device id: what it
finds there is what it would have found before. -/
theorem found_by_device_id_iff (D : DeviceIdentity) (hD : UuidText D.deviceId) (r : MeshRouter)
    (t : MeshTransport) (seqNum hopCount maxHops : ℕ) (timestamp : Timestamp)
    (key : Ed25519SigningKey) (payload : Bytes)
    (hpack : packOriginator C D.deviceId seqNum hopCount maxHops timestamp key = .ok payload)
    (fromAddr : Addr) (senderId : Bytes) (now : ℚ) :
    (∃ e, (handleOriginator C r t payload fromAddr senderId).state.routeTo now D.deviceId = some e ∧
        e.nextHopAddr = fromAddr ∧ e.hopCount = hopCount + 1) ↔
      ∃ e, r.routes.get? D.deviceId = some e ∧
        e.lastSeen.before (now - staleRouteSeconds) = false ∧
        e.nextHopAddr = fromAddr ∧ e.hopCount = hopCount + 1 := by
  obtain ⟨oidBytes, hoid, _⟩ := senderIdBytes_hex (hexId_of_uuidText hD)
  obtain ⟨sig, hunpack⟩ := unpackOriginator_packOriginator C D.deviceId oidBytes seqNum hopCount
    maxHops timestamp key payload hoid hpack
  have hroutes := routes_other C r t payload fromAddr senderId D.deviceId (by
    intro o ho heq
    cases Except.ok.inj (hunpack.symm.trans ho)
    rw [decode_senderIdBytes (hexId_of_uuidText hD) oidBytes hoid] at heq
    exact hexId_ne hD heq)
  refine exists_congr fun e => ?_
  rw [routeTo_eq_some_iff, hroutes, and_assoc]

end Lookup

section Newest

/-- An announcement of one originator, from a neighbour, that the router takes for authentic. -/
structure Announcement (r : MeshRouter) (oidBytes : Fixed 32) where
  transport : MeshTransport
  payload : Bytes
  fromAddr : Addr
  senderId : Bytes
  originator : Originator
  neighbour : String
  unpacked : unpackOriginator payload = .ok originator
  oid : originator.oidBytes = oidBytes
  foreign : oidBytes ≠ transport.senderId
  sender : deviceIdFromBytes senderId = .ok neighbour
  authentic : ¬ RejectedBy C r (decodeAsciiReplace oidBytes.toList) originator

variable {C} {r₀ : MeshRouter} {oidBytes : Fixed 32}

namespace Announcement

def seqNum (a : Announcement C r₀ oidBytes) : ℕ := a.originator.seqNum

def hopCount (a : Announcement C r₀ oidBytes) : ℕ := a.originator.hopCount

end Announcement

def hear (r : MeshRouter) (a : Announcement C r₀ oidBytes) : MeshRouter :=
  (handleOriginator C r a.transport a.payload a.fromAddr a.senderId).state

/-- The largest sequence number that was heard, and with it the smallest hop count, plus one. -/
def IsBest (heard : List (Announcement C r₀ oidBytes)) (seqNum hopCount : ℕ) : Prop :=
  (∃ a ∈ heard, a.seqNum = seqNum ∧ a.hopCount + 1 = hopCount) ∧
    ∀ a ∈ heard, a.seqNum ≤ seqNum ∧ (a.seqNum = seqNum → hopCount ≤ a.hopCount + 1)

/-- The route and the memory of the originator are those of this announcement. -/
structure Holds (r₀ r : MeshRouter) (oidBytes : Fixed 32)
    (best : Option (Announcement C r₀ oidBytes)) : Prop where
  bundles : r.knownBundles = r₀.knownBundles
  seen : r.seenSeq.get? (decodeAsciiReplace oidBytes.toList) = best.map (·.seqNum)
  route : (r.routes.get? (decodeAsciiReplace oidBytes.toList)).map (fun e => (e.seqNum, e.hopCount)) =
    best.map fun a => (a.seqNum, a.hopCount + 1)

/-- The announcement that is kept of two: the newer one, the first of two equally new ones. -/
def keep (best : Option (Announcement C r₀ oidBytes)) (a : Announcement C r₀ oidBytes) :
    Option (Announcement C r₀ oidBytes) :=
  match best with
  | none => some a
  | some b => if b.seqNum < a.seqNum then some a else some b

theorem updateRoute_bundles (r : MeshRouter) (originatorId nextHopId : String) (nextHopAddr : Addr)
    (hopCount seqNum : ℕ) (timestamp : Timestamp) :
    (r.updateRoute originatorId nextHopId nextHopAddr hopCount seqNum timestamp).knownBundles =
      r.knownBundles := by
  unfold MeshRouter.updateRoute
  dsimp only
  repeat' split
  all_goals rfl

/-- It passes the two checks in front of the duplicate check. -/
theorem Announcement.admitted (a : Announcement C r₀ oidBytes) (r : MeshRouter)
    (hbundles : r.knownBundles = r₀.knownBundles) :
    a.originator.oidBytes ≠ a.transport.senderId ∧ signatureAccepted C r a.originator = .ok () := by
  have hoid := a.oid
  have hauthentic : ¬ RejectedBy C r (decodeAsciiReplace a.originator.oidBytes.toList)
      a.originator := by
    rw [hoid, RejectedBy, hbundles]
    exact a.authentic
  refine ⟨by rw [hoid]; exact a.foreign, ?_⟩
  exact ((signatureAccepted_eq C r a.payload a.originator a.unpacked).resolve_right
    fun h => hauthentic h.2).1

theorem hear_duplicate (r : MeshRouter) (a : Announcement C r₀ oidBytes)
    (hseen : SeenBefore r (decodeAsciiReplace oidBytes.toList) a.originator)
    (hbundles : r.knownBundles = r₀.knownBundles) : hear r a = r := by
  obtain ⟨hown, haccepted⟩ := a.admitted r hbundles
  have hoid := a.oid
  obtain ⟨seen, hget, hle⟩ := hseen
  rw [← hoid] at hget
  simp only [hear, handleOriginator, a.unpacked, if_neg hown, haccepted, hget, Option.any_some,
    decide_eq_true hle, if_true]
  rfl

theorem hear_newer (r : MeshRouter) (a : Announcement C r₀ oidBytes)
    (hnew : ¬ SeenBefore r (decodeAsciiReplace oidBytes.toList) a.originator)
    (hbundles : r.knownBundles = r₀.knownBundles) :
    hear r a = (noted r a.originator).updateRoute (decodeAsciiReplace oidBytes.toList) a.neighbour
      a.fromAddr (a.hopCount + 1) a.seqNum a.originator.timestamp := by
  obtain ⟨hown, haccepted⟩ := a.admitted r hbundles
  have hoid := a.oid
  rw [hear, handleOriginator_accepted C r a.transport a.payload a.fromAddr a.senderId a.originator
    a.unpacked hown haccepted (by rw [hoid]; exact hnew), accepted, a.sender, attempt]
  rw [(sendsOnly_forward C _ a.transport a.originator a.fromAddr _ rfl).1, hoid]
  rfl

theorem holds_hear (r : MeshRouter) (best : Option (Announcement C r₀ oidBytes))
    (h : Holds r₀ r oidBytes best) (a : Announcement C r₀ oidBytes) :
    Holds r₀ (hear r a) oidBytes (keep best a) := by
  by_cases hseen : SeenBefore r (decodeAsciiReplace oidBytes.toList) a.originator
  · rw [hear_duplicate r a hseen h.bundles]
    obtain ⟨seen, hget, hle⟩ := hseen
    cases best with
    | none =>
      rw [h.seen] at hget
      contradiction
    | some b =>
      have hb : some b.seqNum = some seen := h.seen.symm.trans hget
      have hkeep : keep (some b) a = some b :=
        if_neg (Nat.not_lt.mpr (hle.trans (Nat.le_of_eq (Option.some.inj hb).symm)))
      rw [hkeep]
      exact h
  · have hkeep : keep best a = some a := by
      cases best with
      | none => rfl
      | some b =>
        refine if_pos (Nat.lt_of_not_le fun hle => hseen ⟨b.seqNum, ?_, hle⟩)
        rw [h.seen]
        rfl
    rw [hkeep, hear_newer r a hseen h.bundles]
    obtain ⟨_, _, hseenSeq⟩ := updateRoute_frame (noted r a.originator)
      (decodeAsciiReplace oidBytes.toList) a.neighbour a.fromAddr (a.hopCount + 1) a.seqNum
      a.originator.timestamp
    have hroutes := updateRoute_newer (noted r a.originator) (decodeAsciiReplace oidBytes.toList)
      a.neighbour a.fromAddr (a.hopCount + 1) a.seqNum a.originator.timestamp (by
        intro e he
        -- the entry there is of the announcement kept so far
        have hroute := h.route
        have hget : r.routes.get? (decodeAsciiReplace oidBytes.toList) = some e := he
        rw [hget] at hroute
        cases best with
        | none => contradiction
        | some b =>
          simp only [Option.map_some, Option.some.injEq, Prod.mk.injEq] at hroute
          rw [hroute.1]
          exact Nat.lt_of_not_le fun hle => hseen ⟨b.seqNum, by rw [h.seen]; rfl, hle⟩)
    refine ⟨(updateRoute_bundles _ _ _ _ _ _ _).trans h.bundles, ?_, ?_⟩
    · rw [hseenSeq, noted, a.oid]
      exact OrderedDict.get?_set_self _ _ _
    · rw [hroutes, OrderedDict.get?_set_self]
      rfl

/-- In the end the router holds the first of the newest announcements. -/
theorem holds_run (hseen : r₀.seenSeq.get? (decodeAsciiReplace oidBytes.toList) = none)
    (hroute : r₀.routes.get? (decodeAsciiReplace oidBytes.toList) = none)
    (heard : List (Announcement C r₀ oidBytes)) :
    Holds r₀ (Runs.run hear r₀ heard) oidBytes (heard.argmax (·.seqNum)) := by
  induction heard using List.reverseRecOn with
  | nil => exact ⟨rfl, hseen, by rw [Runs.run_nil, hroute]; rfl⟩
  | append_singleton rest a ih =>
    rw [Runs.run_concat, List.argmax_concat]
    have hnext := holds_hear _ _ ih a
    cases hbest : rest.argmax (·.seqNum) with
    | none =>
      rw [hbest] at hnext
      exact hnext
    | some b =>
      rw [hbest] at hnext
      exact hnext

/-- Whatever the order, the route has the largest sequence number; it has the smallest hop count
of those with that number exactly when the first of them to arrive does. -/
theorem best_path_iff (r : MeshRouter) (oidBytes : Fixed 32)
    (hseen : r.seenSeq.get? (decodeAsciiReplace oidBytes.toList) = none)
    (hroute : r.routes.get? (decodeAsciiReplace oidBytes.toList) = none)
    (heard : List (Announcement C r oidBytes)) (hsome : heard ≠ []) :
    (∃ e, (Runs.run hear r heard).routes.get? (decodeAsciiReplace oidBytes.toList) = some e ∧
        IsBest heard e.seqNum e.hopCount) ↔
      ∀ first ∈ heard.argmax (·.seqNum), ∀ a ∈ heard, a.seqNum = first.seqNum →
        first.hopCount ≤ a.hopCount := by
  have hholds := holds_run hseen hroute heard
  obtain ⟨first, hfirst⟩ : ∃ first, heard.argmax (·.seqNum) = some first :=
    Option.ne_none_iff_exists'.mp fun hnone => hsome (List.argmax_eq_none.mp hnone)
  have hmem := List.argmax_mem hfirst
  rw [hfirst] at hholds ⊢
  obtain ⟨e, he, hroute'⟩ := Option.map_eq_some_iff.mp hholds.route
  simp only [Prod.mk.injEq] at hroute'
  obtain ⟨hseq, hhops⟩ := hroute'
  constructor
  · rintro ⟨e', he', _, hbest⟩ f hf a ha hnewest
    cases Option.some.inj (he.symm.trans he')
    cases Option.some.inj hf
    have hle := (hbest a ha).2 (hnewest.trans hseq.symm)
    omega
  · intro hle
    refine ⟨e, he, ⟨first, hmem, hseq.symm, hhops.symm⟩, fun a ha => ⟨?_, fun hnewest => ?_⟩⟩
    · rw [hseq]
      exact List.le_of_mem_argmax ha hfirst
    · have hshorter := hle first rfl a ha (hnewest.trans hseq)
      omega

end Newest

section Stub

theorem pack_announced (hopCount : ℕ) (h : hopCount < 256) :
    packOriginator stub (duo.identity false).deviceId 1 hopCount defaultMaxHops epoch
      (duo.identity false).signingKeypair.signingKey =
        .ok (announcementBytes hopCount announcement.sig) := by
  have hheader : originatorHeader (duo.senderId false) 1 hopCount defaultMaxHops epoch =
      .ok (originatorFields (duo.senderId false) 1 hopCount defaultMaxHops epoch) :=
    if_pos ⟨by decide, h, by decide⟩
  have hsigned : originatorSignedBytes (duo.senderId false) 1 defaultMaxHops epoch =
      .ok ((duo.senderId false).toList ++ packBE 4 1 ++ epoch.raw.toList ++
        packBE 1 defaultMaxHops) := rfl
  simp only [packOriginator, duo.senderIdBytes_deviceId, hheader, hsigned, bind, Except.bind, pure,
    Except.pure]
  rfl

/-- The announcement as it reaches the second router from this neighbour. -/
def heardFrom (hopCount : ℕ) (h : hopCount < 256) (fromAddr : Addr) (neighbour : String)
    (hneighbour : HexId neighbour) : Announcement stub unknowing (duo.senderId false) where
  transport := duoTransport true
  payload := announcementBytes hopCount announcement.sig
  fromAddr := fromAddr
  senderId := (hexDigits neighbour).map (fun c => UInt8.ofNat c.toNat)
  originator := { announcement with hopCount := hopCount }
  neighbour := hexId neighbour
  unpacked := unpackOriginator_fields _ _ _ _ _ _ ⟨by decide, h, by decide⟩
    (List.Vector.toList_length _)
  oid := rfl
  foreign := fun heq => absurd (duo.senderId_inj heq) (by decide)
  sender := deviceIdFromBytes_hex hneighbour
  authentic := fun ⟨_, hget, _⟩ => by contradiction

def direct : Announcement stub unknowing (duo.senderId false) :=
  heardFrom 0 (by decide) alphaAddr (duo.identity false).deviceId (duo.hex false)

/-- The copy that a third node has passed on. -/
def relayed : Announcement stub unknowing (duo.senderId false) :=
  heardFrom 1 (by decide) ("10.0.0.3", 7000) "00000000-0000-4000-8000-00000000000c" (by decide)

/-- The announcement is accepted and its route is fresh, but not found by the device id. -/
theorem learned_but_not_found : ∃ (D : DeviceIdentity) (r : MeshRouter) (t : MeshTransport)
    (payload : Bytes) (fromAddr : Addr) (senderId : Bytes) (now : ℚ), UuidText D.deviceId ∧
    packOriginator stub D.deviceId 1 0 defaultMaxHops epoch D.signingKeypair.signingKey =
      .ok payload ∧
    (∃ e, (handleOriginator stub r t payload fromAddr senderId).state.routeTo now
      (hexId D.deviceId) = some e ∧ e.nextHopAddr = fromAddr ∧ e.hopCount = 1) ∧
    (handleOriginator stub r t payload fromAddr senderId).state.routeTo now D.deviceId = none := by
  have hnew : ¬ SeenBefore unknowing (decodeAsciiReplace (duo.senderId false).toList)
      direct.originator := fun ⟨_, hget, _⟩ => by contradiction
  have hheard := hear_newer unknowing direct hnew rfl
  rw [duo.decode_senderId] at hheard
  refine ⟨duo.identity false, unknowing, direct.transport, direct.payload, direct.fromAddr,
    direct.senderId, 0, uuidText_duo false, pack_announced 0 (by decide),
    ⟨⟨duo.id false, duo.id false, alphaAddr, 1, epoch, 1⟩, ?_, rfl, rfl⟩, ?_⟩
  · rw [routeTo_eq_some_iff]
    refine ⟨?_, by decide +kernel⟩
    rw [← hear, hheard]
    exact OrderedDict.get?_set_self _ _ _
  · exact routeTo_dashed stub (duo.identity true) defaultMaxHops
      [.originator direct.transport direct.payload direct.fromAddr direct.senderId] 0 _
      (uuidText_duo false)

theorem found_by_device_id_iff_duo :
    (∃ e, (handleOriginator stub unknowing (duoTransport true)
        (announcementBytes 0 announcement.sig) alphaAddr (duo.senderId false).toList).state.routeTo 0
          (duo.identity false).deviceId = some e ∧ e.nextHopAddr = alphaAddr ∧ e.hopCount = 0 + 1) ↔
      ∃ e, unknowing.routes.get? (duo.identity false).deviceId = some e ∧
        e.lastSeen.before (0 - staleRouteSeconds) = false ∧
        e.nextHopAddr = alphaAddr ∧ e.hopCount = 0 + 1 :=
  found_by_device_id_iff stub (duo.identity false) (uuidText_duo false) unknowing (duoTransport true)
    1 0 defaultMaxHops epoch (duo.identity false).signingKeypair.signingKey
    (announcementBytes 0 announcement.sig) (pack_announced 0 (by decide)) alphaAddr
    (duo.senderId false).toList 0

/-- The relayed announcement comes first, and the direct one is a duplicate. -/
theorem longer_path_stays : ¬ ∀ (r : MeshRouter) (oidBytes : Fixed 32),
    r.seenSeq.get? (decodeAsciiReplace oidBytes.toList) = none →
    r.routes.get? (decodeAsciiReplace oidBytes.toList) = none →
    ∀ heard : List (Announcement stub r oidBytes), heard ≠ [] →
      ∃ e, (Runs.run hear r heard).routes.get? (decodeAsciiReplace oidBytes.toList) = some e ∧
        IsBest heard e.seqNum e.hopCount := by
  intro hclaim
  obtain ⟨e, he, _, hbest⟩ := hclaim unknowing (duo.senderId false) rfl rfl [relayed, direct]
    (List.cons_ne_nil _ _)
  have hholds : Holds unknowing (Runs.run hear unknowing [relayed, direct]) (duo.senderId false)
      ([relayed, direct].argmax (·.seqNum)) := holds_run rfl rfl [relayed, direct]
  have hfirst : [relayed, direct].argmax (·.seqNum) = some relayed := rfl
  have hroute := hholds.route
  rw [hfirst, he] at hroute
  simp only [Option.map_some, Option.some.injEq, Prod.mk.injEq] at hroute
  have hnewest : direct.seqNum = 1 := rfl
  have hfirstSeq : relayed.seqNum = 1 := rfl
  have hle := (hbest direct (by simp)).2 (by rw [hroute.1, hnewest, hfirstSeq])
  have hnear : direct.hopCount = 0 := rfl
  have hfar : relayed.hopCount = 1 := rfl
  rw [hroute.2, hnear, hfar] at hle
  exact absurd hle (by decide)

theorem best_path_iff_direct : ∃ e,
    (Runs.run hear unknowing [direct, relayed]).routes.get?
      (decodeAsciiReplace (duo.senderId false).toList) = some e ∧
    IsBest [direct, relayed] e.seqNum e.hopCount := by
  apply (best_path_iff unknowing (duo.senderId false) rfl rfl [direct, relayed] (by simp)).mpr
  have hfirst : [direct, relayed].argmax (·.seqNum) = some direct := rfl
  rw [hfirst]
  rintro first hmem a _ _
  cases Option.some.inj hmem
  exact Nat.zero_le _

end Stub

end Mesim.RouteLearning
