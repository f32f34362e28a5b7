import Mesim.Forwarding

/-!
How far one announcement can spread.
What a router has seen of an originator only grows, and it forwards an announcement
only when it makes that grow, so it forwards each sequence number at most once, one
hop further and not back. In a network of such routers one announcement therefore
crosses each session at most once in each direction.
-/
namespace Mesim.Flooding

open Octets TextCodec Crypto Identity Packet Transport Router RouterPackets RouterNetwork
open RouteTables OriginatorSignatures Forwarding MeshTransport RouterOutcome

variable (C : Suite)

section Router

/-- The least sequence number that is not yet too old of this originator. -/
def nextSeq (oid : String) (r : MeshRouter) : ℕ := ((r.seenSeq.get? oid).map (· + 1)).getD 0

/-- The sequence number of this originator's announcement that passes the router's checks. -/
def acceptedSeq (oid : String) : MeshRouter × RouterEvent → Option ℕ
  | (r, .originator t payload _ _) =>
    match unpackOriginator payload with
    | .ok o =>
      if o.oidBytes ≠ t.senderId ∧ signatureAccepted C r o = .ok () ∧
          ¬ (r.seenSeq.get? (decodeAsciiReplace o.oidBytes.toList)).any
            (fun seen => o.seqNum ≤ seen) ∧
          decodeAsciiReplace o.oidBytes.toList = oid then some o.seqNum
      else none
    | .error _ => none
  | _ => none

/-- The sequence number of this originator's announcement that the event makes the router forward. -/
def forwardedSeq (oid : String) : MeshRouter × RouterEvent → Option ℕ
  | (r, .originator t payload fromAddr senderId) =>
    if (handleOriginator C r t payload fromAddr senderId).effects = [] then none
    else match unpackOriginator payload with
      | .ok o => if decodeAsciiReplace o.oidBytes.toList = oid then some o.seqNum else none
      | .error _ => none
  | _ => none

theorem nextSeq_le_of_unseen (oid : String) (r : MeshRouter) (seqNum : ℕ)
    (h : ¬ (r.seenSeq.get? oid).any (fun seen => seqNum ≤ seen)) : nextSeq oid r ≤ seqNum := by
  unfold nextSeq
  cases hget : r.seenSeq.get? oid with
  | none => exact Nat.zero_le _
  | some seen =>
    simp only [hget, Option.any_some, decide_eq_true_eq] at h
    exact Nat.lt_of_not_le h

/-- What one announcement can do to the memory of a router. -/
theorem seenSeq_handleOriginator (r : MeshRouter) (t : MeshTransport) (payload : Bytes)
    (fromAddr : Addr) (senderId : Bytes) :
    (handleOriginator C r t payload fromAddr senderId).state.seenSeq = r.seenSeq ∧
        (handleOriginator C r t payload fromAddr senderId).effects = [] ∨
      ∃ o, unpackOriginator payload = .ok o ∧
        (handleOriginator C r t payload fromAddr senderId).state.seenSeq =
          r.seenSeq.set (decodeAsciiReplace o.oidBytes.toList) o.seqNum ∧
        nextSeq (decodeAsciiReplace o.oidBytes.toList) r ≤ o.seqNum := by
  unfold handleOriginator
  cases hunpack : unpackOriginator payload with
  | error e => exact Or.inl ⟨rfl, rfl⟩
  | ok o =>
    dsimp only
    by_cases hown : o.oidBytes = t.senderId
    · rw [if_pos hown]
      exact Or.inl ⟨rfl, rfl⟩
    · rw [if_neg hown]
      split
      · exact Or.inl ⟨rfl, rfl⟩
      · exact Or.inl ⟨rfl, rfl⟩
      · split
        · exact Or.inl ⟨rfl, rfl⟩
        · rename_i hseen
          exact Or.inr ⟨o, rfl, seenSeq_accepted C r t o fromAddr senderId,
            nextSeq_le_of_unseen _ r _ hseen⟩

theorem nextSeq_set (oid : String) (r : MeshRouter) (key : String) (seqNum : ℕ) (r' : MeshRouter)
    (h : r'.seenSeq = r.seenSeq.set key seqNum) :
    nextSeq oid r' = if key = oid then seqNum + 1 else nextSeq oid r := by
  unfold nextSeq
  rw [h]
  split
  · rename_i hkey
    rw [hkey, OrderedDict.get?_set_self]
    rfl
  · rename_i hkey
    rw [OrderedDict.get?_set_of_ne _ _ hkey]

/-- Other events leave what the router has seen as it was. -/
theorem seenSeq_step (r : MeshRouter) (event : RouterEvent) :
    (routerStep C r event).seenSeq = r.seenSeq ∧ (∀ oid, forwardedSeq C oid (r, event) = none) ∨
      ∃ oid seqNum, (routerStep C r event).seenSeq = r.seenSeq.set oid seqNum ∧
        nextSeq oid r ≤ seqNum ∧
        ∀ oid' n, forwardedSeq C oid' (r, event) = some n → oid' = oid ∧ n = seqNum := by
  cases event with
  | broadcast t timestamp =>
    have hstate := (sendsOnly_broadcast C r t timestamp _ rfl).1
    exact Or.inl ⟨by rw [routerStep, hstate], fun _ => rfl⟩
  | purge now => exact Or.inl ⟨rfl, fun _ => rfl⟩
  | register peerId bundle => exact Or.inl ⟨rfl, fun _ => rfl⟩
  | originator t payload fromAddr senderId =>
    rcases seenSeq_handleOriginator C r t payload fromAddr senderId with
      ⟨hsame, hsilent⟩ | ⟨o, hunpack, hset, hnext⟩
    · exact Or.inl ⟨hsame, fun oid => by simp only [forwardedSeq, hsilent, if_true]⟩
    · refine Or.inr ⟨_, _, hset, hnext, fun oid' n hforwarded => ?_⟩
      simp only [forwardedSeq, hunpack] at hforwarded
      split at hforwarded
      · contradiction
      · split at hforwarded
        · rename_i hoid
          exact ⟨hoid.symm, (Option.some.inj hforwarded).symm⟩
        · contradiction

theorem nextSeq_mono (oid : String) (r : MeshRouter) (event : RouterEvent) :
    nextSeq oid r ≤ nextSeq oid (routerStep C r event) := by
  rcases seenSeq_step C r event with ⟨hsame, _⟩ | ⟨key, seqNum, hset, hnext, _⟩
  · rw [nextSeq, nextSeq, hsame]
  · rw [nextSeq_set oid r key seqNum _ hset]
    split
    · rename_i hkey
      rw [← hkey]
      exact hnext.trans (Nat.le_succ _)
    · exact le_rfl

/-- A forwarded announcement is an accepted one. -/
theorem acceptedSeq_of_forwarded (oid : String) (r : MeshRouter) (event : RouterEvent) (n : ℕ)
    (h : forwardedSeq C oid (r, event) = some n) : nextSeq oid r ≤ n ∧
      n < nextSeq oid (routerStep C r event) := by
  rcases seenSeq_step C r event with ⟨_, hnone⟩ | ⟨key, seqNum, hset, hnext, honly⟩
  · rw [hnone oid] at h
    contradiction
  · obtain ⟨rfl, rfl⟩ := honly oid n h
    rw [nextSeq_set _ r _ _ _ hset, if_pos rfl]
    exact ⟨hnext, Nat.lt_succ_self _⟩

/-- A passed announcement is remembered. -/
theorem acceptedSeq_bounds (oid : String) (r : MeshRouter) (event : RouterEvent) (n : ℕ)
    (h : acceptedSeq C oid (r, event) = some n) : nextSeq oid r ≤ n ∧
      n < nextSeq oid (routerStep C r event) := by
  cases event with
  | broadcast t timestamp => cases h
  | purge now => cases h
  | register peerId bundle => cases h
  | originator t payload fromAddr senderId =>
    cases hunpack : unpackOriginator payload with
    | error e =>
      simp only [acceptedSeq, hunpack] at h
      cases h
    | ok o =>
      simp only [acceptedSeq, hunpack] at h
      split at h
      · rename_i hpasses
        obtain ⟨hforeign, hsig, hseen, rfl⟩ := hpasses
        cases h
        have hset : (routerStep C r (.originator t payload fromAddr senderId)).seenSeq =
            r.seenSeq.set (decodeAsciiReplace o.oidBytes.toList) o.seqNum := by
          simp only [routerStep, handleOriginator, hunpack, if_neg hforeign, hsig, if_neg hseen]
          exact seenSeq_accepted C r t o fromAddr senderId
        rw [nextSeq_set _ r _ _ _ hset, if_pos rfl]
        exact ⟨nextSeq_le_of_unseen _ r _ hseen, Nat.lt_succ_self _⟩
      · cases h

theorem acceptedSeqs_increasing (oid : String) (r : MeshRouter) (events : List RouterEvent) :
    ((Runs.visits (routerStep C) r events).filterMap (acceptedSeq C oid)).Pairwise (· < ·) :=
  (Runs.pairwise_lt_visits (nextSeq_mono C oid) (acceptedSeq_bounds C oid) r events).1

theorem forwardedSeqs_increasing (oid : String) (r : MeshRouter) (events : List RouterEvent) :
    ((Runs.visits (routerStep C) r events).filterMap (forwardedSeq C oid)).Pairwise (· < ·) :=
  (Runs.pairwise_lt_visits (nextSeq_mono C oid) (acceptedSeq_of_forwarded C oid) r events).1

end Router

section Packets

variable {C}

/-- A forwarded announcement goes to every session but those at the address it came from. -/
theorem forward_effects (r : MeshRouter) (t : MeshTransport) (o : Originator) (fromAddr : Addr) :
    (forwardOriginator C r t o fromAddr).effects = [] ∨ ∃ data, o.hopCount < o.maxHops ∧
      forwardData C r o = .ok data ∧ data.length < 65536 ∧
      (forwardOriginator C r t o fromAddr).effects = t.sessions.values.flatMap fun session =>
        if session.peerAddr ≠ fromAddr then
          t.sendRaw (frame .originator t.senderId data zeroMac) session.peerAddr
        else [] := by
  unfold forwardOriginator attempt
  by_cases hbudget : o.hopCount ≥ o.maxHops
  · rw [if_pos hbudget]
    exact Or.inl rfl
  · rw [if_neg hbudget]
    cases hdata : forwardData C r o with
    | error e => exact Or.inl rfl
    | ok data =>
      dsimp only
      cases hpkt : originatorPacket t data with
      | error e => exact Or.inl rfl
      | ok pkt =>
        obtain ⟨hlen, rfl⟩ := originatorPacket_eq t data pkt hpkt
        exact Or.inr ⟨data, by omega, rfl, hlen, rfl⟩

/-- Whatever a router sends on receiving an announcement is that announcement, forwarded. -/
theorem handle_effects (r : MeshRouter) (t : MeshTransport) (payload : Bytes) (fromAddr : Addr)
    (senderId : Bytes) :
    (handleOriginator C r t payload fromAddr senderId).effects = [] ∨
      ∃ o r', unpackOriginator payload = .ok o ∧ o.oidBytes ≠ t.senderId ∧
        nextSeq (decodeAsciiReplace o.oidBytes.toList) r ≤ o.seqNum ∧
        (handleOriginator C r t payload fromAddr senderId).effects =
          (forwardOriginator C r' t o fromAddr).effects := by
  unfold handleOriginator
  cases hunpack : unpackOriginator payload with
  | error e => exact Or.inl rfl
  | ok o =>
    dsimp only
    by_cases hown : o.oidBytes = t.senderId
    · rw [if_pos hown]
      exact Or.inl rfl
    · rw [if_neg hown]
      split
      · exact Or.inl rfl
      · exact Or.inl rfl
      · split
        · exact Or.inl rfl
        · rename_i hseen
          unfold attempt
          split
          · exact Or.inl rfl
          · exact Or.inr ⟨o, _, rfl, hown, nextSeq_le_of_unseen _ r _ hseen, rfl⟩

/-- Forwarding adds one hop and changes neither the sequence number nor the hop budget. -/
theorem unpack_forwarded (r : MeshRouter) (payload data : Bytes) (o : Originator)
    (hunpack : unpackOriginator payload = .ok o) (h : forwardData C r o = .ok data) :
    ∃ o', unpackOriginator data = .ok o' ∧ o'.seqNum = o.seqNum ∧ o'.hopCount = o.hopCount + 1 ∧
      o'.maxHops = o.maxHops := by
  unfold forwardData at h
  split at h
  · cases hoid : senderIdBytes (decodeAsciiReplace o.oidBytes.toList) with
    | error e =>
      simp only [packOriginator, hoid, bind, Except.bind] at h
      cases h
    | ok oidBytes =>
      obtain ⟨sig, hdata⟩ := unpackOriginator_packOriginator C _ _ _ _ _ _ _ _ hoid h
      exact ⟨_, hdata, rfl, rfl, rfl⟩
  · exact ⟨_, unpackOriginator_repackOriginator _ _ _ _ _ _ _
      (unpackOriginator_sig payload o hunpack) h, rfl, rfl, rfl⟩

/-- A forwarded packet carries one hop more, within the budget of one byte, and not back. -/
structure OneHopOn (payload : Bytes) (fromAddr : Addr) (pkt : Bytes) (addr : Addr) : Prop where
  away : addr ≠ fromAddr
  hop : ∃ senderId data o o', parsePacket pkt = .ok ⟨.originator, senderId, data⟩ ∧
    unpackOriginator payload = .ok o ∧ unpackOriginator data = .ok o' ∧ o'.seqNum = o.seqNum ∧
    o'.hopCount = o.hopCount + 1 ∧ o'.hopCount ≤ o.maxHops ∧ o'.hopCount < 256

theorem oneHopOn (r : MeshRouter) (t : MeshTransport) (payload : Bytes) (fromAddr : Addr)
    (senderId : Bytes) (pkt : Bytes) (addr : Addr)
    (h : .sendto pkt addr ∈ (handleOriginator C r t payload fromAddr senderId).effects) :
    OneHopOn payload fromAddr pkt addr := by
  rcases handle_effects (C := C) r t payload fromAddr senderId with
    hnone | ⟨o, r', hunpack, _, _, heffects⟩
  · rw [hnone] at h
    exact absurd h List.not_mem_nil
  · rw [heffects] at h
    rcases forward_effects (C := C) r' t o fromAddr with hnone | ⟨data, hbudget, hdata, hlen, hall⟩
    · rw [hnone] at h
      exact absurd h List.not_mem_nil
    · rw [hall] at h
      obtain ⟨session, _, hsent⟩ := List.mem_flatMap.mp h
      split at hsent
      · rename_i haway
        cases Dispatch.mem_sendRaw _ _ _ _ hsent
        obtain ⟨o', hunpack', hseq, hhop, hmax⟩ := unpack_forwarded r' payload data o hunpack hdata
        have hfits := unpackOriginator_fits data o' hunpack'
        have hparse := Honest.parsePacket_unkeyed .originator t.senderId data hlen
        exact ⟨haway, _, _, o, o', hparse, hunpack, hunpack', hseq, hhop, by omega, hfits.2.1⟩
      · exact absurd hsent List.not_mem_nil

end Packets

section Network

variable {C} {N : Type} {F : Fleet N}

/-- The originator and the sequence number that the packet announces. -/
def announced (packet : Bytes) : Option (Fixed 32 × ℕ) :=
  match parsePacket packet with
  | .ok ⟨.originator, _, payload⟩ =>
    match unpackOriginator payload with
    | .ok o => some (o.oidBytes, o.seqNum)
    | .error _ => none
  | _ => none

variable [DecidableEq N]

/-- The addresses to which `i` has sent the announcement of `origin` with this number. -/
def transmissions (wire : List (N × Addr × Bytes)) (i : N) (oidBytes : Fixed 32) (seqNum : ℕ) :
    List Addr :=
  wire.filterMap fun entry =>
    if entry.1 = i ∧ announced entry.2.2 = some (oidBytes, seqNum) then some entry.2.1 else none

def peerAddrs (t : MeshTransport) : List Addr := t.sessions.values.map (·.peerAddr)

/-- All that is sent is one announcement, at most once to each session. -/
def Burst (t : MeshTransport) (i : N) (oidBytes : Fixed 32) (seqNum : ℕ) (out : RouterOutcome) :
    Prop :=
  ∃ packet, announced packet = some (oidBytes, seqNum) ∧
    (posted i out.effects).Sublist ((peerAddrs t).map fun addr => (i, addr, packet))

variable {s : Network F} {i : N} {oidBytes : Fixed 32} {seqNum : ℕ}

omit [DecidableEq N] in
theorem announced_frame (senderId : Fixed 32) (data : Bytes) (o : Originator)
    (hlen : data.length < 65536) (hunpack : unpackOriginator data = .ok o) :
    announced (frame .originator senderId data zeroMac) = some (o.oidBytes, o.seqNum) := by
  simp only [announced, Honest.parsePacket_unkeyed .originator senderId data hlen, hunpack]

omit [DecidableEq N] in
theorem posted_sublist (packet : Bytes) (sessions : List SessionInfo)
    (send : SessionInfo → List Effect)
    (hsend : ∀ session, (send session).Sublist [.sendto packet session.peerAddr]) :
    (posted i (sessions.flatMap send)).Sublist
      ((sessions.map (·.peerAddr)).map fun addr => (i, addr, packet)) := by
  induction sessions with
  | nil => exact List.Sublist.refl _
  | cons session rest ih =>
    have hone : (posted i (send session)).Sublist [(i, session.peerAddr, packet)] :=
      (hsend session).filterMap _
    rw [List.flatMap_cons, posted, List.filterMap_append, List.map_cons, List.map_cons]
    exact hone.append ih

omit [DecidableEq N] in
theorem sendRaw_sublist (t : MeshTransport) (packet : Bytes) (addr : Addr) :
    (t.sendRaw packet addr).Sublist [.sendto packet addr] := by
  unfold sendRaw
  split
  · exact List.Sublist.refl _
  · exact List.nil_sublist _

theorem transmissions_append (wire new : List (N × Addr × Bytes)) (j : N) :
    transmissions (wire ++ new) j oidBytes seqNum =
      transmissions wire j oidBytes seqNum ++ transmissions new j oidBytes seqNum :=
  List.filterMap_append

theorem transmissions_eq_nil (wire : List (N × Addr × Bytes)) (j : N)
    (h : ∀ addr packet, (j, addr, packet) ∈ wire → announced packet ≠ some (oidBytes, seqNum)) :
    transmissions wire j oidBytes seqNum = [] := by
  refine List.filterMap_eq_nil_iff.mpr fun entry hentry => if_neg ?_
  obtain ⟨j', addr, packet⟩ := entry
  rintro ⟨rfl, hannounced⟩
  exact h addr packet hentry hannounced

theorem transmissions_burst {t : MeshTransport} {out : RouterOutcome}
    (h : Burst t i oidBytes seqNum out) (j : N) (oidBytes' : Fixed 32) (seqNum' : ℕ) :
    (transmissions (posted i out.effects) j oidBytes' seqNum').Sublist (peerAddrs t) ∧
      (transmissions (posted i out.effects) j oidBytes' seqNum' ≠ [] →
        j = i ∧ oidBytes' = oidBytes ∧ seqNum' = seqNum) := by
  obtain ⟨packet, hannounced, hposted⟩ := h
  constructor
  · apply (hposted.filterMap _).trans
    rw [List.filterMap_map]
    generalize peerAddrs t = addrs
    induction addrs with
    | nil => exact List.Sublist.refl _
    | cons addr rest ih =>
      rw [List.filterMap_cons]
      split
      · exact ih.trans (List.sublist_cons_self _ _)
      · rename_i addr' haddr
        simp only [Function.comp_apply, Option.ite_none_right_eq_some, Option.some.injEq] at haddr
        rw [← haddr.2]
        exact ih.cons_cons _
  · intro hsome
    by_contra hother
    refine hsome (transmissions_eq_nil _ j fun addr sent hsent hsame => hother ?_)
    obtain ⟨addr', -, heq⟩ := List.mem_map.mp (hposted.subset hsent)
    cases heq
    rw [hannounced] at hsame
    cases hsame
    exact ⟨rfl, rfl, rfl⟩

/-- What a node has announced of itself is what it has counted. -/
def OwnCounted (s : Network F) : Prop :=
  ∀ i addr packet seqNum, (i, addr, packet) ∈ s.wire →
    announced packet = some (F.senderId i, seqNum) → seqNum ≤ (s.router i).seqNum

/-- The node `i` sends a burst that announces what it has not announced before. -/
structure Emits (s : Network F) (i origin : N) (seqNum : ℕ) (out : RouterOutcome) : Prop where
  burst : Burst (s.attachment i).transport i (F.senderId origin) seqNum out
  fresh : ∀ addr packet, (i, addr, packet) ∈ s.wire →
    announced packet ≠ some (F.senderId origin, seqNum)
  counted : origin = i → seqNum ≤ out.state.seqNum

omit [DecidableEq N] in
theorem announced_sound (hs : Sound s) {addr : Addr} {packet : Bytes}
    (h : (i, addr, packet) ∈ s.wire) : ∃ origin o, announced packet =
      some (F.senderId origin, o.seqNum) ∧ Valid s i addr origin o := by
  obtain ⟨origin, o, hcarries, hvalid⟩ := hs.wire i addr packet h
  obtain ⟨payload, hparse, hunpack⟩ := hcarries.parse
  refine ⟨origin, o, ?_, hvalid⟩
  simp only [announced, hparse, hunpack, hcarries.oid]

theorem updateRoute_seqNum (r : MeshRouter) (originatorId nextHopId : String) (nextHopAddr : Addr)
    (hopCount seqNum : ℕ) (timestamp : Timestamp) :
    (r.updateRoute originatorId nextHopId nextHopAddr hopCount seqNum timestamp).seqNum =
      r.seqNum := by
  unfold MeshRouter.updateRoute
  dsimp only
  repeat' split
  all_goals rfl

theorem seqNum_handleOriginator (r : MeshRouter) (t : MeshTransport) (payload : Bytes)
    (fromAddr : Addr) (senderId : Bytes) :
    (handleOriginator C r t payload fromAddr senderId).state.seqNum = r.seqNum := by
  have hhandled := handleOriginator_handled C r t payload fromAddr senderId
  generalize handleOriginator C r t payload fromAddr senderId = out at hhandled
  cases hhandled with
  | dropped e => rfl
  | unroutable o e _ _ => rfl
  | routed o nextHopId out _ _ _ _ hstate _ => rw [hstate, updateRoute_seqNum]

omit [DecidableEq N] in
/-- A broadcast announces the next number. -/
theorem emits_broadcast (hs : Sound s) (hown : OwnCounted s) (i : N) (timestamp : Timestamp)
    (out : RouterOutcome)
    (hout : broadcastOriginator C (s.router i) (s.attachment i).transport timestamp = out) :
    out.effects = [] ∨ Emits s i i ((s.router i).seqNum + 1) out := by
  subst out
  unfold broadcastOriginator attempt
  cases hdata : packOriginator C (s.router i).identity.deviceId ((s.router i).seqNum + 1) 0
      (s.router i).maxHops timestamp (s.router i).identity.signingKeypair.signingKey with
  | error e => exact Or.inl (by simp only [hdata])
  | ok data =>
    cases hpkt : originatorPacket (s.attachment i).transport data with
    | error e => exact Or.inl (by simp only [hdata, hpkt])
    | ok pkt =>
      obtain ⟨hlen, rfl⟩ := originatorPacket_eq _ data pkt hpkt
      simp only [hdata, hpkt]
      rw [hs.identity i] at hdata
      obtain ⟨sig, hunpack⟩ := unpackOriginator_packOriginator C _ _ _ _ _ _ _ _
        (F.senderIdBytes_deviceId i) hdata
      refine Or.inr ⟨⟨_, announced_frame (s.attachment i).transport.senderId data _ hlen hunpack,
        posted_sublist _ _ _ fun session => sendRaw_sublist _ _ _⟩, fun addr packet hmem hsame => ?_,
        fun _ => le_rfl⟩
      · have hle := hown i addr packet _ hmem hsame
        omega

omit [DecidableEq N] in
/-- A node forwards an announcement of another node that it has not seen before. -/
theorem emits_handle (hs : Sound s) (source receiver : N) (packet : Bytes) (out : RouterOutcome)
    (hmem : (source, F.addr receiver, packet) ∈ s.wire)
    (hout : receive C (s.router receiver) (s.attachment receiver).transport packet
      (F.addr source) = out) :
    out.effects = [] ∨ ∃ origin seqNum, origin ≠ receiver ∧ Emits s receiver origin seqNum out := by
  obtain ⟨origin, o, hcarries, hvalid⟩ := hs.wire _ _ _ hmem
  obtain ⟨payload, hparse, hunpack⟩ := hcarries.parse
  rw [receive_eq C _ _ packet _ source payload hparse] at hout
  subst out
  rcases handle_effects (C := C) (s.router receiver) (s.attachment receiver).transport payload
    (F.addr source) (F.senderId source).toList with
    hnone | ⟨o', r', hunpack', hforeign, hnext, heffects⟩
  · exact Or.inl hnone
  cases hunpack.symm.trans hunpack'
  rw [heffects]
  rcases forward_effects (C := C) r' (s.attachment receiver).transport o (F.addr source) with
    hnone | ⟨data, _, hdata, hlen, hall⟩
  · exact Or.inl hnone
  obtain ⟨sig, hunpacked⟩ :=
    unpackOriginator_forwardData C r' payload data o hunpack hcarries.oid hdata
  have hannounced := announced_frame (s.attachment receiver).transport.senderId data _ hlen hunpacked
  rw [hcarries.oid] at hannounced hforeign hnext
  rw [(s.attachment receiver).senderId] at hforeign
  rw [F.decode_senderId] at hnext
  have hne : origin ≠ receiver := fun h => hforeign (by rw [h])
  refine Or.inr ⟨origin, o.seqNum, hne, ⟨_, hannounced, ?_⟩, fun addr sent hsent hsame => ?_,
    fun h => absurd h hne⟩
  · rw [heffects, hall]
    refine posted_sublist _ _ _ fun session => ?_
    split
    · exact sendRaw_sublist _ _ _
    · exact List.nil_sublist _
  · -- what the node has sent of this origin, it has seen
    obtain ⟨origin', o', hcarried, hvalid'⟩ := announced_sound hs hsent
    obtain ⟨hoid, hseq⟩ := Prod.mk.inj (Option.some.inj (hcarried.symm.trans hsame))
    cases F.senderId_inj hoid
    obtain ⟨m, hm, hle⟩ := hvalid'.seen hne.symm
    rw [seenAt] at hm
    rw [nextSeq, hm] at hnext
    exact absurd hnext (Nat.not_le.mpr (by change o.seqNum < m + 1; omega))

theorem transmissions_advance {out : RouterOutcome} {origin : N} (h : Emits s i origin seqNum out)
    (j k : N) (n : ℕ) :
    transmissions (advance s i out).wire j (F.senderId k) n =
        transmissions s.wire j (F.senderId k) n ∨
      transmissions s.wire j (F.senderId k) n = [] ∧
        (transmissions (advance s i out).wire j (F.senderId k) n).Sublist
          (peerAddrs (s.attachment j).transport) := by
  obtain ⟨hsublist, hwhich⟩ := transmissions_burst h.burst j (F.senderId k) n
  rw [advance, transmissions_append]
  by_cases hnone : transmissions (posted i out.effects) j (F.senderId k) n = []
  · exact Or.inl (by rw [hnone, List.append_nil])
  · obtain ⟨rfl, hoid, rfl⟩ := hwhich hnone
    rw [hoid, transmissions_eq_nil s.wire j h.fresh, List.nil_append, ← hoid]
    exact Or.inr ⟨rfl, hsublist⟩

theorem advance_other {out : RouterOutcome} {j : N} (hj : j ≠ i) :
    (advance s i out).router j = s.router j := Function.update_of_ne hj _ _

/-- What a step sends, and what it counts. -/
inductive Sends (s : Network F) : Network F → Prop
  | silent {s' : Network F} (hwire : s'.wire = s.wire)
      (hseq : ∀ i, (s.router i).seqNum ≤ (s'.router i).seqNum) : Sends s s'
  | burst {i origin : N} {seqNum : ℕ} {out : RouterOutcome} (h : Emits s i origin seqNum out)
      (hseq : (s.router i).seqNum ≤ out.state.seqNum) : Sends s (advance s i out)

theorem sends_advance (i : N) (out : RouterOutcome) (hseq : (s.router i).seqNum ≤ out.state.seqNum)
    (h : out.effects = [] ∨ ∃ origin seqNum, Emits s i origin seqNum out) :
    Sends s (advance s i out) := by
  rcases h with hnone | ⟨origin, seqNum, hemits⟩
  · refine .silent (by rw [advance, hnone]; exact List.append_nil _) fun j => ?_
    by_cases hj : j = i
    · subst j
      rw [advance_self]
      exact hseq
    · rw [advance_other hj]
  · exact .burst hemits hseq

theorem sends_step (hs : Sound s) (hown : OwnCounted s) (l : Label F) : Sends s (step C s l) := by
  cases l with
  | broadcast i timestamp =>
    refine sends_advance i _ ?_ ?_
    · rw [(sendsOnly_broadcast C _ _ timestamp _ rfl).1]
      exact Nat.le_succ _
    · exact (emits_broadcast hs hown i timestamp _ rfl).imp_right fun h => ⟨_, _, h⟩
  | deliver source receiver packet =>
    simp only [step]
    split
    case isFalse => exact .silent rfl fun i => le_rfl
    case isTrue hpassed =>
      have hmem := hpassed.1
      refine sends_advance receiver _ ?_ ?_
      · obtain ⟨origin, o, hcarries, _⟩ := hs.wire _ _ _ hmem
        obtain ⟨payload, hparse, _⟩ := hcarries.parse
        rw [receive_eq C _ _ packet _ source payload hparse, seqNum_handleOriginator]
      · apply (emits_handle hs source receiver packet _ hmem rfl).imp_right
        rintro ⟨origin, seqNum, _, h⟩
        exact ⟨origin, seqNum, h⟩
  | purge i now =>
    refine .silent rfl fun j => ?_
    by_cases hj : j = i
    · subst j
      simp [step, MeshRouter.purgeStale]
    · simp [step, Function.update_of_ne hj]
  | register i peerId bundle =>
    refine .silent rfl fun j => ?_
    by_cases hj : j = i
    · subst j
      simp [step, MeshRouter.registerBundle]
    · simp [step, Function.update_of_ne hj]
  | reconnect i attachment => exact .silent rfl fun j => le_rfl

theorem ownCounted_step (hs : Sound s) (hown : OwnCounted s) (l : Label F) :
    OwnCounted (step C s l) := by
  have hsends := sends_step (C := C) hs hown l
  generalize step C s l = s' at hsends
  cases hsends with
  | silent hwire hseq =>
    intro i addr packet seqNum hmem hsame
    rw [hwire] at hmem
    exact (hown i addr packet seqNum hmem hsame).trans (hseq i)
  | burst h hseq =>
    rename_i k origin seqNum out
    intro i addr packet n hmem hsame
    rcases List.mem_append.mp hmem with hold | hnew
    · have hle := hown i addr packet n hold hsame
      by_cases hi : i = k
      · subst i
        rw [advance_self]
        exact hle.trans hseq
      · rw [advance_other hi]
        exact hle
    · obtain ⟨announcement, hannounced, hposted⟩ := h.burst
      obtain ⟨addr', -, heq⟩ := List.mem_map.mp (hposted.subset hnew)
      cases heq
      obtain ⟨hoid, rfl⟩ := Prod.mk.inj (Option.some.inj (hannounced.symm.trans hsame))
      rw [advance_self]
      exact h.counted (F.senderId_inj hoid)

omit [DecidableEq N] in
theorem initial_counted (s : Network F) (h : Initial s) : OwnCounted s := by
  intro i addr packet seqNum hmem
  rw [h.2] at hmem
  exact absurd hmem List.not_mem_nil

/-- All that a node sends of one announcement, it sends at one moment of the run. -/
theorem transmissions_run (s₀ : Network F) (h₀ : Initial s₀) (labels : List (Label F)) (i origin : N)
    (seqNum : ℕ) : ∃ done, done <+: labels ∧
      (transmissions (Runs.run (step C) s₀ labels).wire i (F.senderId origin) seqNum).Sublist
        (peerAddrs ((Runs.run (step C) s₀ done).attachment i).transport) := by
  induction labels using List.reverseRecOn with
  | nil =>
    refine ⟨[], List.prefix_rfl, ?_⟩
    rw [Runs.run_nil, h₀.2]
    exact List.nil_sublist _
  | append_singleton labels l ih =>
    obtain ⟨done, hprefix, hsublist⟩ := ih
    obtain ⟨hs, hown⟩ : Sound (Runs.run (step C) s₀ labels) ∧
        OwnCounted (Runs.run (step C) s₀ labels) :=
      Runs.invariant_of_step (I := fun s => Sound s ∧ OwnCounted s)
        (fun s l h => ⟨step_sound C h.1 l, ownCounted_step h.1 h.2 l⟩) s₀ labels
        ⟨initial_sound s₀ h₀, initial_counted s₀ h₀⟩
    have hsends := sends_step (C := C) hs hown l
    rw [Runs.run_concat]
    generalize step C (Runs.run (step C) s₀ labels) l = s' at hsends
    cases hsends with
    | silent hwire _ =>
      rw [hwire]
      exact ⟨done, hprefix.trans (List.prefix_append _ _), hsublist⟩
    | burst h _ =>
      rcases transmissions_advance h i origin seqNum with hsame | ⟨_, hnow⟩
      · rw [hsame]
        exact ⟨done, hprefix.trans (List.prefix_append _ _), hsublist⟩
      · exact ⟨labels, List.prefix_append _ _, hnow⟩

end Network

section Results

/-- What one router forwards in a run: each sequence number of an originator once, one hop
further, within the hop budget, and not back. -/
structure BoundedForwarding (r : MeshRouter) (events : List RouterEvent) : Prop where
  accepted : ∀ oid, ((Runs.visits (routerStep C) r events).filterMap
    (acceptedSeq C oid)).Pairwise (· < ·)
  forwarded : ∀ oid, ((Runs.visits (routerStep C) r events).filterMap
    (forwardedSeq C oid)).Pairwise (· < ·)
  copies : ∀ r' t payload fromAddr senderId packet addr,
    (r', .originator t payload fromAddr senderId) ∈ Runs.visits (routerStep C) r events →
    .sendto packet addr ∈ (handleOriginator C r' t payload fromAddr senderId).effects →
    OneHopOn payload fromAddr packet addr

/-- Every router forwards an announcement at most once, and in a network of honest routers a node
sends it at most once over each session, all at one moment of the run. -/
theorem flooding_bounded : (∀ r events, BoundedForwarding C r events) ∧
    ∀ {N : Type} [DecidableEq N] (F : Fleet N) (s₀ : Network F) (labels : List (Label F)),
      Initial s₀ → ∀ i origin seqNum, ∃ done, done <+: labels ∧
        (transmissions (Runs.run (step C) s₀ labels).wire i (F.senderId origin) seqNum).Sublist
          (peerAddrs ((Runs.run (step C) s₀ done).attachment i).transport) :=
  ⟨fun r events =>
    ⟨fun oid => acceptedSeqs_increasing C oid r events,
      fun oid => forwardedSeqs_increasing C oid r events,
      fun r' t payload fromAddr senderId packet addr _ h =>
        oneHopOn r' t payload fromAddr senderId packet addr h⟩,
    fun _ s₀ labels h₀ => transmissions_run s₀ h₀ labels⟩

/-- Sending its first announcement, the first router reaches its one session once. -/
theorem flooding_bounded_duo :
    transmissions duoRun.wire false (duo.senderId false) 1 = [duo.addr true] ∧
      ∃ done, (transmissions duoRun.wire false (duo.senderId false) 1).Sublist
        (peerAddrs ((Runs.run (step stub) duoNetwork done).attachment false).transport) := by
  obtain ⟨done, _, hsublist⟩ := (flooding_bounded stub).2 duo duoNetwork
    [.broadcast false epoch, .deliver false true duoPacket] ⟨fun _ => rfl, rfl⟩ false false 1
  exact ⟨by decide +kernel, done, hsublist⟩

end Results

end Mesim.Flooding
