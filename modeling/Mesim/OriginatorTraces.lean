import Mesim.RouteTimes

/-!
What a failed announcement leaves behind.
An announcement is remembered before its sender id is decoded, and routed before its own
id is encoded again to forward it. Either can fail on a byte that is not ASCII, and then
the call raises with the memory, or the memory and the table, already changed. Only the
first comes between them: the entry that the table has is older than what has been seen.
-/
namespace Mesim.OriginatorTraces

open Octets TextCodec Crypto Identity Packet Transport Router RouterPackets OriginatorSignatures
open RouteTables RouteLearning Forwarding RouteTimes MeshTransport RouterOutcome

variable (C : Suite)

/-- The router drops the announcement, or the call raises. -/
def Rejected (r : MeshRouter) (t : MeshTransport) (payload : Bytes) (fromAddr : Addr)
    (senderId : Bytes) : Prop :=
  (∀ o, unpackOriginator payload = .ok o → ¬ Admits C r t o) ∨
    (handleOriginator C r t payload fromAddr senderId).raised ≠ none

/-- If the announcement is rejected, the call changes neither table. -/
def LeavesNoTrace (r : MeshRouter) (t : MeshTransport) (payload : Bytes) (fromAddr : Addr)
    (senderId : Bytes) : Prop :=
  Rejected C r t payload fromAddr senderId →
    (handleOriginator C r t payload fromAddr senderId).state.routes = r.routes ∧
      (handleOriginator C r t payload fromAddr senderId).state.seenSeq = r.seenSeq

/-- The sender id is not ASCII, or the announcement is to be signed anew and its own id is not. -/
def Undecodable (r : MeshRouter) (o : Originator) (senderId : Bytes) : Prop :=
  ¬ AsciiBytes senderId ∨
    o.hopCount < o.maxHops ∧ r.knownBundles.get? (oidStr o) = none ∧ ¬ AsciiBytes o.oidBytes.toList

/-- Every entry is as new as what has been seen of its originator. -/
def Synced (r : MeshRouter) : Prop :=
  ∀ key e, r.routes.get? key = some e → r.seenSeq.get? key = some e.seqNum

/-- An admitted announcement of someone in the table comes with a sender id that is ASCII. -/
def Resolvable (r : MeshRouter) : RouterEvent → Prop
  | .originator t payload _ senderId => ∀ o, unpackOriginator payload = .ok o → Admits C r t o →
      (r.routes.get? (oidStr o)).isSome = true → AsciiBytes senderId
  | _ => True

section Ids

theorem deviceIdFromBytes_ascii (raw : Bytes) (h : AsciiBytes raw) :
    deviceIdFromBytes raw = .ok (decodeAsciiReplace raw) := by
  have hchars : raw.map (fun x => Char.ofNat x.toNat) =
      raw.map (fun x => if x.toNat < 128 then Char.ofNat x.toNat else '\uFFFD') :=
    List.map_congr_left fun x hx => (if_pos (h x hx)).symm
  rw [deviceIdFromBytes, decodeAscii, if_pos h, decodeAsciiReplace, hchars]

theorem deviceIdFromBytes_iff (raw : Bytes) :
    (∃ deviceId, deviceIdFromBytes raw = .ok deviceId) ↔ AsciiBytes raw := by
  constructor
  · rintro ⟨deviceId, h⟩
    by_contra hascii
    rw [deviceIdFromBytes, decodeAscii, if_neg hascii] at h
    cases h
  · exact fun h => ⟨_, deviceIdFromBytes_ascii raw h⟩

theorem deviceIdFromBytes_error (raw : Bytes) (h : ¬ AsciiBytes raw) :
    ∃ e, deviceIdFromBytes raw = .error e := by
  cases hdecode : deviceIdFromBytes raw with
  | error e => exact ⟨e, rfl⟩
  | ok deviceId => exact absurd ((deviceIdFromBytes_iff raw).mp ⟨deviceId, hdecode⟩) h

/-- The replacement for a byte that is not ASCII cannot be encoded again. -/
theorem isAscii_decodeAsciiReplace (raw : Bytes) :
    IsAscii (decodeAsciiReplace raw) ↔ AsciiBytes raw := by
  simp only [IsAscii, decodeAsciiReplace, String.toList_ofList, List.forall_mem_map, AsciiBytes]
  refine forall₂_congr fun x _ => ?_
  by_cases hx : x.toNat < 128
  · rw [if_pos hx]
    refine iff_of_true ?_ hx
    rw [ascii_char_roundtrip x hx]
    exact hx
  · rw [if_neg hx]
    exact iff_of_false (by decide) hx

theorem senderIdBytes_replace_iff (oidBytes : Fixed 32) :
    (∃ b, senderIdBytes (decodeAsciiReplace oidBytes.toList) = .ok b) ↔
      AsciiBytes oidBytes.toList := by
  let chars := (decodeAsciiReplace oidBytes.toList).toList
  have hlen : (chars.filter (· ≠ '-')).length ≤ 32 := by
    refine (List.length_filter_le _ _).trans (Nat.le_of_eq ?_)
    rw [String.length_toList]
    exact decodeAsciiReplace_length oidBytes
  have htrimmed : IsAscii (String.ofList ((chars.filter (· ≠ '-')).take 32)) ↔
      IsAscii (decodeAsciiReplace oidBytes.toList) := by
    rw [List.take_of_length_le hlen, IsAscii, String.toList_ofList]
    refine ⟨fun h c hc => ?_, fun h c hc => h c (List.mem_of_mem_filter hc)⟩
    by_cases hdash : c = '-'
    · rw [hdash]
      decide
    · exact h c (List.mem_filter.mpr ⟨hc, decide_eq_true hdash⟩)
  rw [← isAscii_decodeAsciiReplace, ← htrimmed]
  unfold senderIdBytes
  dsimp only
  split
  · rename_i b hencode
    exact iff_of_true ⟨_, rfl⟩ (encodeAscii_eq_some _ b hencode).1
  · rename_i hencode
    constructor
    · rintro ⟨_, h⟩
      cases h
    · intro hascii
      rw [encodeAscii, if_pos hascii] at hencode
      cases hencode

end Ids

section Calls

variable {C} {r : MeshRouter} {t : MeshTransport} {payload : Bytes} {fromAddr : Addr}
  {senderId : Bytes} {o : Originator}

theorem unpackOriginator_length (h : unpackOriginator payload = .ok o) :
    payload.length = originatorWireLen := by
  unfold unpackOriginator at h
  split at h
  · assumption
  · cases h

/-- Within the hop budget, only the id of an unknown originator can keep it from being packed. -/
theorem forwardData_ok_iff (r : MeshRouter) (hunpack : unpackOriginator payload = .ok o)
    (hbudget : o.hopCount < o.maxHops) :
    (∃ data, forwardData C r o = .ok data) ↔
      ¬ (r.knownBundles.get? (oidStr o) = none ∧ ¬ AsciiBytes o.oidBytes.toList) := by
  obtain ⟨hseq, _, hmax⟩ := unpackOriginator_fits payload o hunpack
  have hheader : ∀ oidBytes : Fixed 32, ∃ header,
      originatorHeader oidBytes o.seqNum (o.hopCount + 1) o.maxHops o.timestamp = .ok header :=
    fun oidBytes => ⟨_, if_pos ⟨hseq, by omega, hmax⟩⟩
  unfold forwardData
  cases hbundle : r.knownBundles.get? (oidStr o) with
  | none =>
    rw [eq_self_iff_true, true_and, not_not, ← senderIdBytes_replace_iff]
    constructor
    · rintro ⟨data, hdata⟩
      cases hoid : senderIdBytes (oidStr o) with
      | error e =>
        simp only [packOriginator, hoid, bind, Except.bind] at hdata
        cases hdata
      | ok oidBytes => exact ⟨oidBytes, rfl⟩
    · rintro ⟨oidBytes, hoid⟩
      obtain ⟨header, hheader⟩ := hheader oidBytes
      have hsigned : originatorSignedBytes oidBytes o.seqNum o.maxHops o.timestamp = .ok
          (oidBytes.toList ++ packBE 4 o.seqNum ++ o.timestamp.raw.toList ++ packBE 1 o.maxHops) := by
        rw [originatorSignedBytes, if_pos hseq, if_pos hmax]
      simp only [packOriginator, hoid, hheader, hsigned, bind, Except.bind]
      exact ⟨_, rfl⟩
  | some bundle =>
    obtain ⟨header, hheader⟩ := hheader o.oidBytes
    simp only [repackOriginator, hheader, bind, Except.bind]
    exact iff_of_true ⟨_, rfl⟩ (by simp)

theorem raised_forward_iff (r : MeshRouter) (hunpack : unpackOriginator payload = .ok o) :
    (forwardOriginator C r t o fromAddr).raised ≠ none ↔ o.hopCount < o.maxHops ∧
      r.knownBundles.get? (oidStr o) = none ∧ ¬ AsciiBytes o.oidBytes.toList := by
  unfold forwardOriginator attempt
  by_cases hbudget : o.hopCount ≥ o.maxHops
  · rw [if_pos hbudget]
    exact iff_of_false (fun h => h rfl) fun h => absurd h.1 (Nat.not_lt.mpr hbudget)
  · have hlt : o.hopCount < o.maxHops := Nat.not_le.mp hbudget
    have hok := forwardData_ok_iff (C := C) r hunpack hlt
    rw [if_neg hbudget]
    cases hdata : forwardData C r o with
    | error e =>
      rw [hdata] at hok
      refine iff_of_true (Option.some_ne_none e) ⟨hlt, ?_⟩
      by_contra hnot
      obtain ⟨_, h⟩ := hok.mpr hnot
      cases h
    | ok data =>
      obtain ⟨o', hunpack', _⟩ := Flooding.unpack_forwarded r payload data o hunpack hdata
      obtain ⟨pkt, hpkt⟩ : ∃ pkt, originatorPacket t data = .ok pkt := by
        have hlen : data.length < 65536 := by
          rw [unpackOriginator_length hunpack']
          decide
        rw [originatorPacket, packHeader_ok .originator t.senderId _ hlen]
        exact ⟨_, rfl⟩
      dsimp only
      rw [hpkt]
      exact iff_of_false (fun h => h rfl) fun h => hok.mp ⟨data, hdata⟩ h.2

theorem raised_accepted_iff (hunpack : unpackOriginator payload = .ok o) :
    (accepted C r t o fromAddr senderId).raised ≠ none ↔ Undecodable r o senderId := by
  by_cases hascii : AsciiBytes senderId
  · obtain ⟨nextHopId, hsender⟩ := (deviceIdFromBytes_iff senderId).mpr hascii
    have hbundles := updateRoute_bundles (noted r o) (oidStr o) nextHopId fromAddr (o.hopCount + 1)
      o.seqNum o.timestamp
    rw [accepted_routed C r t fromAddr senderId o nextHopId hsender, raised_forward_iff _ hunpack,
      hbundles, Undecodable, or_iff_right (not_not.mpr hascii)]
    rfl
  · obtain ⟨e, hsender⟩ := deviceIdFromBytes_error senderId hascii
    rw [accepted_unroutable C r t fromAddr senderId o e hsender]
    exact iff_of_true (Option.some_ne_none e) (Or.inl hascii)

/-- An admitted announcement is remembered, so a rejected one leaves a trace exactly when it
has been admitted. -/
theorem leavesNoTrace_iff (r : MeshRouter) (t : MeshTransport) (payload : Bytes) (fromAddr : Addr)
    (senderId : Bytes) :
    LeavesNoTrace C r t payload fromAddr senderId ↔ ∀ o, unpackOriginator payload = .ok o →
      Admits C r t o → ¬ Undecodable r o senderId := by
  constructor
  · intro h o hunpack hadmits hundecodable
    have hhandle := handle_admitted C r t payload fromAddr senderId o hunpack hadmits
    have hraised : (handleOriginator C r t payload fromAddr senderId).raised ≠ none := by
      rw [hhandle]
      exact (raised_accepted_iff hunpack).mpr hundecodable
    have hseen := (h (Or.inr hraised)).2
    rw [hhandle, seenSeq_accepted] at hseen
    exact hadmits.unseen ⟨o.seqNum, OrderedDict.eq_of_set_eq_self _ _ _ hseen, le_rfl⟩
  · intro h hrejected
    have hdone : handleOriginator C r t payload fromAddr senderId = done r := by
      cases hunpack : unpackOriginator payload with
      | error e => exact handle_malformed C r t payload fromAddr senderId e hunpack
      | ok o =>
        by_cases hadmits : Admits C r t o
        · rcases hrejected with hdropped | hraised
          · exact absurd hadmits (hdropped o hunpack)
          · rw [handle_admitted C r t payload fromAddr senderId o hunpack hadmits] at hraised
            exact absurd ((raised_accepted_iff hunpack).mp hraised) (h o hunpack hadmits)
        · exact handle_refused C r t payload fromAddr senderId o hunpack hadmits
    rw [hdone]
    exact ⟨rfl, rfl⟩

end Calls

section Runs

variable {C} {r : MeshRouter} {o : Originator}

theorem Synced.behind (h : Synced r) : Behind r :=
  fun key e he => ⟨e.seqNum, h key e he, le_rfl⟩

/-- Remembering an announcement without routing it outdates the entry of its originator. -/
theorem synced_noted_iff (h : Synced r) (hunseen : ¬ SeenBefore r (oidStr o) o) :
    Synced (noted r o) ↔ r.routes.get? (oidStr o) = none := by
  constructor
  · intro hnoted
    cases hget : r.routes.get? (oidStr o) with
    | none => rfl
    | some e =>
      have hseen := hnoted (oidStr o) e hget
      rw [noted, OrderedDict.get?_set_self] at hseen
      have hlt := newer_of_unseen h.behind hunseen e hget
      exact absurd (Option.some.inj hseen) hlt.ne'
  · intro hnone key e he
    have hkey : oidStr o ≠ key := by
      rintro rfl
      rw [noted, hnone] at he
      cases he
    rw [noted, OrderedDict.get?_set_of_ne _ _ hkey]
    exact h key e he

theorem synced_routed (h : Synced r) (nextHopId : String) (fromAddr : Addr) :
    Synced { noted r o with routes := r.routes.set (oidStr o) (entryOf o nextHopId fromAddr) } := by
  intro key e he
  by_cases hkey : oidStr o = key
  · subst hkey
    cases Option.some.inj ((OrderedDict.get?_set_self _ _ _).symm.trans he)
    exact OrderedDict.get?_set_self _ _ _
  · rw [noted, OrderedDict.get?_set_of_ne _ _ hkey] at *
    exact h key e he

/-- One event keeps the table in step with what has been seen exactly when it is resolvable. -/
theorem synced_step_iff (r : MeshRouter) (event : RouterEvent) (h : Synced r) :
    Synced (routerStep C r event) ↔ Resolvable C r event := by
  cases event with
  | broadcast t timestamp =>
    rw [routerStep, (sendsOnly_broadcast C r t timestamp _ rfl).1]
    exact iff_of_true h trivial
  | purge now => exact iff_of_true (fun key e he => h key e (purgeStale_routes r now key e he)) trivial
  | register peerId bundle => exact iff_of_true h trivial
  | originator t payload fromAddr senderId =>
    have hquiet : (∀ o, unpackOriginator payload = .ok o → ¬ Admits C r t o) →
        Resolvable C r (.originator t payload fromAddr senderId) :=
      fun hnone o hunpack hadmits => absurd hadmits (hnone o hunpack)
    rw [routerStep]
    cases hunpack : unpackOriginator payload with
    | error e =>
      rw [handle_malformed C r t payload fromAddr senderId e hunpack]
      refine iff_of_true h (hquiet fun o hok => ?_)
      rw [hunpack] at hok
      cases hok
    | ok o =>
      by_cases hadmits : Admits C r t o
      · rw [handle_admitted C r t payload fromAddr senderId o hunpack hadmits]
        by_cases hascii : AsciiBytes senderId
        · obtain ⟨nextHopId, hsender⟩ := (deviceIdFromBytes_iff senderId).mpr hascii
          rw [state_accepted C t fromAddr senderId h.behind hadmits.unseen nextHopId hsender]
          exact iff_of_true (synced_routed h nextHopId fromAddr) fun _ _ _ _ => hascii
        · obtain ⟨e, hsender⟩ := deviceIdFromBytes_error senderId hascii
          rw [accepted_unroutable C r t fromAddr senderId o e hsender]
          refine (synced_noted_iff h hadmits.unseen).trans ⟨fun hnone o' hunpack' _ hroute => ?_,
            fun hresolvable => ?_⟩
          · cases hunpack.symm.trans hunpack'
            rw [hnone] at hroute
            cases hroute
          · rw [← Option.not_isSome_iff_eq_none]
            exact fun hroute => hascii (hresolvable o hunpack hadmits hroute)
      · rw [handle_refused C r t payload fromAddr senderId o hunpack hadmits]
        refine iff_of_true h (hquiet fun o' hok => ?_)
        cases hunpack.symm.trans hok
        exact hadmits

theorem synced_init (identity : DeviceIdentity) (maxHops : ℕ) :
    Synced (MeshRouter.init identity maxHops) := fun key e he => by contradiction

end Runs

section Traces

/-- In every state, a rejected announcement leaves no trace exactly when it is not admitted, or
both ids can be decoded; and along a run the table stays in step with what has been seen
exactly when every admitted announcement of someone in the table can be decoded. -/
theorem no_trace_iff :
    (∀ (r : MeshRouter) (t : MeshTransport) (payload : Bytes) (fromAddr : Addr) (senderId : Bytes),
      LeavesNoTrace C r t payload fromAddr senderId ↔ ∀ o, unpackOriginator payload = .ok o →
        Admits C r t o → ¬ Undecodable r o senderId) ∧
    ∀ (identity : DeviceIdentity) (maxHops : ℕ) (events : List RouterEvent),
      (∀ done, done <+: events →
          Synced (Runs.run (routerStep C) (MeshRouter.init identity maxHops) done)) ↔
        Runs.Always (routerStep C) (Resolvable C) (MeshRouter.init identity maxHops) events :=
  ⟨leavesNoTrace_iff, fun identity maxHops events => Runs.invariant_prefixes_iff synced_step_iff
    (MeshRouter.init identity maxHops) events (synced_init identity maxHops)⟩

end Traces

section Stub

open Honest RouterNetwork

/-- The same originator's next announcement. -/
def nextPayload : Bytes :=
  originatorFields (duo.senderId false) 2 0 defaultMaxHops epoch ++ List.replicate 64 0

/-- A sender id that is not ASCII. -/
def garbled : Bytes := List.replicate 32 255

def hearer : MeshRouter := MeshRouter.init (duo.identity true) defaultMaxHops

/-- The announcement as it should be heard, and the next one with a garbled sender id. -/
def heard : RouterEvent :=
  .originator (duoTransport true) forgedPayload alphaAddr (duo.senderId false).toList

def heardGarbled : RouterEvent :=
  .originator (duoTransport true) nextPayload alphaAddr garbled

/-- What the two calls leave of the originator. -/
theorem garbled_facts :
    (handleOriginator stub (routerStep stub hearer heard) (duoTransport true) nextPayload alphaAddr
      garbled).raised ≠ none ∧
    (routerStep stub hearer heard).seenSeq.get? (oidStr forged) = some 1 ∧
    (handleOriginator stub (routerStep stub hearer heard) (duoTransport true) nextPayload alphaAddr
      garbled).state.seenSeq.get? (oidStr forged) = some 2 ∧
    ((handleOriginator stub (routerStep stub hearer heard) (duoTransport true) nextPayload alphaAddr
      garbled).state.routes.get? (oidStr forged)).map RouteEntry.seqNum = some 1 := by
  decide +kernel

/-- The call that cannot decode its sender id raises, and has outdated the entry of the
announcement before it. -/
theorem undecodable_leaves_trace : nextPayload.length = 110 ∧ garbled.length = 32 ∧
    ¬ LeavesNoTrace stub (routerStep stub hearer heard) (duoTransport true) nextPayload alphaAddr
      garbled ∧ ¬ Synced (Runs.run (routerStep stub) hearer [heard, heardGarbled]) := by
  obtain ⟨hraised, hbefore, hafter, hentry⟩ := garbled_facts
  refine ⟨rfl, rfl, fun htrace => ?_, fun hsynced => ?_⟩
  · obtain ⟨_, hsame⟩ := htrace (Or.inr hraised)
    rw [hsame, hbefore] at hafter
    cases hafter
  · obtain ⟨e, hget, hseq⟩ := Option.map_eq_some_iff.mp hentry
    rw [Runs.run_cons, Runs.run_cons, Runs.run_nil, heardGarbled, routerStep] at hsynced
    have hsame := (hsynced _ e hget).symm.trans hafter
    rw [hseq] at hsame
    cases hsame

end Stub

end Mesim.OriginatorTraces
