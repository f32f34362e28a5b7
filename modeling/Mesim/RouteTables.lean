import Mesim.FreshRoutes
import Mesim.RouterNetwork

/-!
Routes of a network of honest routers.
Every entry of a route table was made from an announcement on the wire, and no
announcement on the wire is fresher than what its sender has seen. So next hops
never form a cycle, and an entry's hop count is the length of a walk along
sessions from the origin.
-/
namespace Mesim.RouteTables

open Octets TextCodec Crypto Identity Packet Transport Honest Router RouterPackets RouterNetwork
open MeshTransport RouterOutcome FreshRoutes

section Tables

theorem purgeStale_routes (r : MeshRouter) (now : ℚ) (key : String) (e : RouteEntry)
    (h : (r.purgeStale now).routes.get? key = some e) : r.routes.get? key = some e := by
  have hfold : ∀ (stale : List (String × RouteEntry)) (routes : OrderedDict String RouteEntry),
      (stale.foldl (fun routes e => routes.erase e.1) routes).get? key = some e →
      routes.get? key = some e := by
    intro stale
    induction stale with
    | nil => exact fun routes hget => hget
    | cons first rest ih =>
      intro routes hget
      have hrest := ih _ hget
      rw [OrderedDict.get?_erase] at hrest
      split at hrest
      · contradiction
      · exact hrest
  exact hfold _ _ h

theorem updateRoute_frame (r : MeshRouter) (originatorId nextHopId : String) (nextHopAddr : Addr)
    (hopCount seqNum : ℕ) (timestamp : Timestamp) :
    (r.updateRoute originatorId nextHopId nextHopAddr hopCount seqNum timestamp).identity =
      r.identity ∧
    (r.updateRoute originatorId nextHopId nextHopAddr hopCount seqNum timestamp).maxHops =
      r.maxHops ∧
    (r.updateRoute originatorId nextHopId nextHopAddr hopCount seqNum timestamp).seenSeq =
      r.seenSeq := by
  unfold MeshRouter.updateRoute
  dsimp only
  repeat' split
  all_goals exact ⟨rfl, rfl, rfl⟩

/-- A newer announcement always gets its entry. -/
theorem updateRoute_newer (r : MeshRouter) (originatorId nextHopId : String) (nextHopAddr : Addr)
    (hopCount seqNum : ℕ) (timestamp : Timestamp)
    (hnew : ∀ e, r.routes.get? originatorId = some e → e.seqNum < seqNum) :
    (r.updateRoute originatorId nextHopId nextHopAddr hopCount seqNum timestamp).routes =
      r.routes.set originatorId
        ⟨originatorId, nextHopId, nextHopAddr, hopCount, timestamp, seqNum⟩ := by
  unfold MeshRouter.updateRoute
  cases hget : r.routes.get? originatorId with
  | none => rfl
  | some existing =>
    have hlt := hnew existing hget
    dsimp only
    rw [if_neg (by omega), if_neg (by omega)]

end Tables

section Invariant

variable {N : Type} {F : Fleet N}

/-- The node's route to an origin, and the freshest announcement of it seen there. -/
def routeAt (s : Network F) (i origin : N) : Option RouteEntry :=
  (s.router i).routes.get? (F.id origin)

def seenAt (s : Network F) (i origin : N) : Option ℕ := (s.router i).seenSeq.get? (F.id origin)

/-- The packet is an announcement of `origin` as `source` would send it. -/
structure Carries (F : Fleet N) (packet : Bytes) (source origin : N) (o : Originator) : Prop where
  parse : ∃ payload, parsePacket packet = .ok ⟨.originator, (F.senderId source).toList, payload⟩ ∧
    unpackOriginator payload = .ok o
  oid : o.oidBytes = F.senderId origin
  maxHops : o.maxHops = F.maxHops origin

/-- The origin itself has sent an announcement with this sequence number. -/
def Broadcast (s : Network F) (origin : N) (seqNum : ℕ) : Prop :=
  ∃ addr packet o, (origin, addr, packet) ∈ s.wire ∧ Carries F packet origin origin o ∧
    o.hopCount = 0 ∧ o.seqNum = seqNum

/-- What is true of an announcement on the wire: its hop count is the length of a walk
to its sender, and its sender has seen nothing less fresh and holds no longer route. -/
structure Valid (s : Network F) (source : N) (addr : Addr) (origin : N) (o : Originator) : Prop where
  link : ∀ j, F.addr j = addr → F.link source j
  walk : Walk F.link o.hopCount origin source
  budget : o.hopCount ≤ F.maxHops origin
  broadcast : Broadcast s origin o.seqNum
  own : source = origin → o.hopCount = 0
  seen : source ≠ origin → ∃ m, seenAt s source origin = some m ∧ o.seqNum ≤ m
  route : source ≠ origin → ∀ e, routeAt s source origin = some e → e.seqNum = o.seqNum →
    e.hopCount = o.hopCount

/-- The entry was made from an announcement that `source` has sent to the node. -/
structure MadeFrom (s : Network F) (i : N) (e : RouteEntry) (source origin : N) (packet : Bytes)
    (o : Originator) : Prop where
  sent : (source, F.addr i, packet) ∈ s.wire
  carries : Carries F packet source origin o
  next : e.nextHopId = F.id source
  hops : e.hopCount = o.hopCount + 1
  seq : e.seqNum = o.seqNum

structure Sound (s : Network F) : Prop where
  identity : ∀ i, (s.router i).identity = F.identity i
  maxHops : ∀ i, (s.router i).maxHops = F.maxHops i
  wire : ∀ source addr packet, (source, addr, packet) ∈ s.wire →
    ∃ origin o, Carries F packet source origin o ∧ Valid s source addr origin o
  entry : ∀ i key e, (s.router i).routes.get? key = some e → ∃ origin, key = F.id origin ∧
    origin ≠ i ∧ seenAt s i origin = some e.seqNum ∧
    ∃ source packet o, MadeFrom s i e source origin packet o

variable {s s' : Network F} {i source origin : N} {addr : Addr} {o : Originator}

theorem Broadcast.mono {seqNum : ℕ} (h : Broadcast s origin seqNum) (hwire : s.wire ⊆ s'.wire) :
    Broadcast s' origin seqNum := by
  obtain ⟨addr, packet, o, hmem, hrest⟩ := h
  exact ⟨addr, packet, o, hwire hmem, hrest⟩

/-- Seeing something fresher, or losing a route, keeps an announcement valid. -/
theorem Valid.mono (h : Valid s source addr origin o) (hwire : s.wire ⊆ s'.wire)
    (hseen : ∀ m, seenAt s source origin = some m →
      ∃ m', seenAt s' source origin = some m' ∧ m ≤ m')
    (hroute : source ≠ origin → ∀ e, routeAt s' source origin = some e → e.seqNum = o.seqNum →
      routeAt s source origin = some e) :
    Valid s' source addr origin o where
  link := h.link
  walk := h.walk
  budget := h.budget
  broadcast := h.broadcast.mono hwire
  own := h.own
  seen hne := by
    obtain ⟨m, hm, hle⟩ := h.seen hne
    obtain ⟨m', hm', hle'⟩ := hseen m hm
    exact ⟨m', hm', by omega⟩
  route hne e he hseq := h.route hne e (hroute hne e he hseq) hseq

theorem MadeFrom.mono {e : RouteEntry} {packet : Bytes} (h : MadeFrom s i e source origin packet o)
    (hwire : s.wire ⊆ s'.wire) : MadeFrom s' i e source origin packet o :=
  ⟨hwire h.sent, h.carries, h.next, h.hops, h.seq⟩

/-- Steps that send nothing, see nothing and add no route keep the invariant. -/
theorem Sound.shrink (h : Sound s) (hwire : s'.wire = s.wire)
    (hrouter : ∀ i, (s'.router i).identity = (s.router i).identity ∧
      (s'.router i).maxHops = (s.router i).maxHops ∧
      (s'.router i).seenSeq = (s.router i).seenSeq)
    (hroutes : ∀ i key e, (s'.router i).routes.get? key = some e →
      (s.router i).routes.get? key = some e) : Sound s' where
  identity i := (hrouter i).1.trans (h.identity i)
  maxHops i := (hrouter i).2.1.trans (h.maxHops i)
  wire source addr packet hmem := by
    rw [hwire] at hmem
    obtain ⟨origin, o, hcarries, hvalid⟩ := h.wire source addr packet hmem
    refine ⟨origin, o, hcarries, hvalid.mono (by rw [hwire]; exact List.Subset.refl _) ?_ ?_⟩
    · intro m hm
      exact ⟨m, by rw [seenAt, (hrouter source).2.2]; exact hm, le_rfl⟩
    · exact fun _ e he _ => hroutes source _ e he
  entry i key e he := by
    obtain ⟨origin, hkey, hne, hseen, source, packet, o, hmade⟩ := h.entry i key e (hroutes i key e he)
    refine ⟨origin, hkey, hne, ?_, source, packet, o,
      hmade.mono (by rw [hwire]; exact List.Subset.refl _)⟩
    rw [seenAt, (hrouter i).2.2]
    exact hseen

theorem Carries.unique {packet : Bytes} {origin' : N} {o' : Originator}
    (h : Carries F packet source origin o) (h' : Carries F packet source origin' o') :
    origin = origin' ∧ o = o' := by
  obtain ⟨payload, hparse, hunpack⟩ := h.parse
  obtain ⟨payload', hparse', hunpack'⟩ := h'.parse
  have hsame := Except.ok.inj (hparse.symm.trans hparse')
  simp only [ParsedPacket.mk.injEq, true_and] at hsame
  subst payload'
  have ho := Except.ok.inj (hunpack.symm.trans hunpack')
  subst o'
  exact ⟨F.senderId_inj (h.oid.symm.trans h'.oid), rfl⟩

/-- Where an entry comes from, and what is true of the announcement behind it. -/
theorem Sound.origin_of_entry (hs : Sound s) (i : N) (key : String) (e : RouteEntry)
    (he : (s.router i).routes.get? key = some e) :
    ∃ origin source packet o, key = F.id origin ∧ origin ≠ i ∧ seenAt s i origin = some e.seqNum ∧
      MadeFrom s i e source origin packet o ∧ Valid s source (F.addr i) origin o := by
  obtain ⟨origin, hkey, hne, hseen, source, packet, o, hmade⟩ := hs.entry i key e he
  obtain ⟨origin', o', hcarries, hvalid⟩ := hs.wire _ _ _ hmade.sent
  obtain ⟨rfl, rfl⟩ := hmade.carries.unique hcarries
  exact ⟨origin, source, packet, o, hkey, hne, hseen, hmade, hvalid⟩

end Invariant

section Steps

variable {N : Type} {F : Fleet N} {s : Network F} {i origin : N}

theorem mem_posted (i j : N) (addr : Addr) (packet : Bytes) (effects : List Effect) :
    (j, addr, packet) ∈ posted i effects ↔ j = i ∧ .sendto packet addr ∈ effects := by
  unfold posted
  rw [List.mem_filterMap]
  constructor
  · rintro ⟨e, he, heq⟩
    cases e with
    | sendto packet' addr' =>
      cases heq
      exact ⟨rfl, he⟩
    | message _ _ _ | connected _ _ | sendFailed _ _ _ | ackReceived _ _ | rawPacket _ _ _ _ =>
      contradiction
  · rintro ⟨rfl, he⟩
    exact ⟨_, he, rfl⟩

/-- What a router sends is an announcement, along the node's links. -/
theorem posted_carries (attachment : F.Attachment i) (data : Bytes) (out : RouterOutcome)
    (o : Originator) (hsends : SendsOnly attachment.transport data out)
    (hunpack : unpackOriginator data = .ok o) (hoid : o.oidBytes = F.senderId origin)
    (hmax : o.maxHops = F.maxHops origin) (j : N) (addr : Addr) (packet : Bytes)
    (hmem : (j, addr, packet) ∈ posted i out.effects) :
    j = i ∧ Carries F packet i origin o ∧ ∀ k, F.addr k = addr → F.link i k := by
  obtain ⟨rfl, hsent⟩ := (mem_posted _ _ _ _ _).mp hmem
  obtain ⟨session, hsession, hlen, heq⟩ := hsends _ hsent
  cases heq
  have hparse := Honest.parsePacket_unkeyed .originator attachment.transport.senderId data hlen
  rw [attachment.senderId] at hparse ⊢
  exact ⟨rfl, ⟨⟨data, hparse, hunpack⟩, hoid, hmax⟩, attachment.linked session hsession⟩

variable (C : Suite)

/-- Forwarding changes the hop count and possibly the signature, nothing else. -/
theorem unpackOriginator_forwardData (r : MeshRouter) (payload data : Bytes) (o : Originator)
    (hunpack : unpackOriginator payload = .ok o) (hoid : o.oidBytes = F.senderId origin)
    (h : forwardData C r o = .ok data) :
    ∃ sig, unpackOriginator data =
      .ok ⟨o.oidBytes, o.seqNum, o.hopCount + 1, o.maxHops, o.timestamp, sig⟩ := by
  unfold forwardData at h
  split at h
  · rw [hoid, F.decode_senderId] at h
    obtain ⟨sig, hdata⟩ := unpackOriginator_packOriginator C _ _ _ _ _ _ _ _
      (F.senderIdBytes_id origin) h
    exact ⟨sig, by rw [hdata, hoid]⟩
  · exact ⟨o.sig, unpackOriginator_repackOriginator _ _ _ _ _ _ _
      (unpackOriginator_sig payload o hunpack) h⟩

theorem receive_eq (r : MeshRouter) (t : MeshTransport) (packet : Bytes) (fromAddr : Addr)
    (source : N) (payload : Bytes)
    (hparse : parsePacket packet = .ok ⟨.originator, (F.senderId source).toList, payload⟩) :
    receive C r t packet fromAddr =
      handleOriginator C r t payload fromAddr (F.senderId source).toList := by
  simp only [receive, hparse]

/-- The tables of a node that accepts an announcement: what it has seen and the new entry. -/
structure Accepts (s : Network F) (receiver source origin : N) (o : Originator)
    (r : MeshRouter) : Prop where
  identity : r.identity = (s.router receiver).identity
  maxHops : r.maxHops = (s.router receiver).maxHops
  fresh : ∀ m, seenAt s receiver origin = some m → m < o.seqNum
  seenSeq : r.seenSeq = (s.router receiver).seenSeq.set (F.id origin) o.seqNum
  entry : ∃ e, r.routes = (s.router receiver).routes.set (F.id origin) e ∧
    e.nextHopId = F.id source ∧ e.hopCount = o.hopCount + 1 ∧ e.seqNum = o.seqNum

theorem accepts_of_routed (hs : Sound s) (receiver source origin : N) (o : Originator)
    (hfresh : ∀ seen, (s.router receiver).seenSeq.get? (F.id origin) = some seen → seen < o.seqNum) :
    Accepts s receiver source origin o ({ s.router receiver with
      seenSeq := (s.router receiver).seenSeq.set (F.id origin) o.seqNum }.updateRoute (F.id origin)
        (F.id source) (F.addr source) (o.hopCount + 1) o.seqNum o.timestamp) := by
  have hnew : ∀ e, (s.router receiver).routes.get? (F.id origin) = some e →
      e.seqNum < o.seqNum := by
    intro e he
    obtain ⟨origin', hkey, _, hseen, _⟩ := hs.entry receiver _ e he
    have heq : origin = origin' := F.id_inj hkey
    subst origin'
    exact hfresh _ hseen
  obtain ⟨hidentity, hmax, hseen⟩ := updateRoute_frame { s.router receiver with
    seenSeq := (s.router receiver).seenSeq.set (F.id origin) o.seqNum } (F.id origin) (F.id source)
    (F.addr source) (o.hopCount + 1) o.seqNum o.timestamp
  exact ⟨hidentity, hmax, hfresh, hseen, _, updateRoute_newer _ _ _ _ _ _ _ hnew, rfl, rfl, rfl⟩

variable [DecidableEq N]

theorem subset_advance (s : Network F) (i : N) (out : RouterOutcome) :
    s.wire ⊆ (advance s i out).wire := List.subset_append_left _ _

theorem broadcast_sound (hs : Sound s) (i : N) (timestamp : Timestamp) :
    Sound (step C s (.broadcast i timestamp)) := by
  let t := (s.attachment i).transport
  let out := broadcastOriginator C (s.router i) t timestamp
  obtain ⟨hstate, heffects⟩ := sendsOnly_broadcast C (s.router i) t timestamp out rfl
  have hrouter : ∀ j, ((advance s i out).router j).identity = (s.router j).identity ∧
      ((advance s i out).router j).maxHops = (s.router j).maxHops ∧
      ((advance s i out).router j).seenSeq = (s.router j).seenSeq ∧
      ((advance s i out).router j).routes = (s.router j).routes := by
    intro j
    by_cases hj : j = i
    · subst j
      simp only [advance, Function.update_self, hstate]
      exact ⟨trivial, trivial, trivial, trivial⟩
    · simp only [advance, Function.update_of_ne hj]
      exact ⟨trivial, trivial, trivial, trivial⟩
  have hvalid : ∀ source addr origin o, Valid s source addr origin o →
      Valid (advance s i out) source addr origin o := by
    intro source addr origin o h
    refine h.mono (subset_advance s i out) (fun m hm => ⟨m, ?_, le_rfl⟩) (fun _ e he _ => ?_)
    · rw [seenAt, (hrouter source).2.2.1]
      exact hm
    · rw [routeAt, (hrouter source).2.2.2] at he
      exact he
  show Sound (advance s i out)
  refine ⟨fun j => (hrouter j).1.trans (hs.identity j), fun j => (hrouter j).2.1.trans
    (hs.maxHops j), ?_, ?_⟩
  · intro source addr packet hmem
    rcases List.mem_append.mp hmem with hold | hnew
    · obtain ⟨origin, o, hcarries, h⟩ := hs.wire source addr packet hold
      exact ⟨origin, o, hcarries, hvalid _ _ _ _ h⟩
    · rcases heffects with hnone | ⟨data, hdata, hsends⟩
      · rw [hnone] at hnew
        simp [posted] at hnew
      · rw [hs.identity i] at hdata
        obtain ⟨sig, hunpack⟩ := unpackOriginator_packOriginator C _ _ _ _ _ _ _ _
          (F.senderIdBytes_deviceId i) hdata
        obtain ⟨rfl, hcarries, hlink⟩ := posted_carries (s.attachment i) data out _ hsends hunpack
          rfl (hs.maxHops i) source addr packet hnew
        exact ⟨source, _, hcarries, hlink, .here source, Nat.zero_le _,
          ⟨addr, packet, _, hmem, hcarries, rfl, rfl⟩, fun _ => rfl, fun h => absurd rfl h,
          fun h => absurd rfl h⟩
  · intro j key e he
    rw [(hrouter j).2.2.2] at he
    obtain ⟨origin, hkey, hne, hseen, source, packet, o, hmade⟩ := hs.entry j key e he
    refine ⟨origin, hkey, hne, ?_, source, packet, o, hmade.mono (subset_advance s i out)⟩
    rw [seenAt, (hrouter j).2.2.1]
    exact hseen

/-- What an accepted announcement of `origin` leaves as it was. -/
structure Elsewhere (receiver origin : N) (s s' : Network F) : Prop where
  router : ∀ j, j ≠ receiver → s'.router j = s.router j
  seen : ∀ j k, j ≠ receiver ∨ k ≠ origin → seenAt s' j k = seenAt s j k
  route : ∀ j key, j ≠ receiver ∨ key ≠ F.id origin →
    (s'.router j).routes.get? key = (s.router j).routes.get? key

section Accepted

variable {receiver source : N} {o : Originator} {out : RouterOutcome}

theorem advance_self : (advance s receiver out).router receiver = out.state :=
  Function.update_self _ _ _

theorem Accepts.seen (h : Accepts s receiver source origin o out.state) :
    seenAt (advance s receiver out) receiver origin = some o.seqNum := by
  rw [seenAt, advance_self, h.seenSeq]
  exact OrderedDict.get?_set_self _ _ _

theorem Accepts.route (h : Accepts s receiver source origin o out.state) :
    ∃ e, routeAt (advance s receiver out) receiver origin = some e ∧ e.nextHopId = F.id source ∧
      e.hopCount = o.hopCount + 1 ∧ e.seqNum = o.seqNum := by
  obtain ⟨e, hroutes, he⟩ := h.entry
  refine ⟨e, ?_, he⟩
  rw [routeAt, advance_self, hroutes]
  exact OrderedDict.get?_set_self _ _ _

theorem Accepts.elsewhere (h : Accepts s receiver source origin o out.state) :
    Elsewhere receiver origin s (advance s receiver out) := by
  have hself : (advance s receiver out).router receiver = out.state := advance_self
  have hother : ∀ j, j ≠ receiver → (advance s receiver out).router j = s.router j :=
    fun j hj => Function.update_of_ne hj _ _
  refine ⟨hother, fun j k hjk => ?_, fun j key hjk => ?_⟩
  · by_cases hj : j = receiver
    · subst j
      have hk : F.id origin ≠ F.id k := fun hid =>
        hjk.resolve_left (fun hne => hne rfl) (F.id_inj hid).symm
      rw [seenAt, hself, h.seenSeq, OrderedDict.get?_set_of_ne _ _ hk, seenAt]
    · rw [seenAt, hother j hj, seenAt]
  · by_cases hj : j = receiver
    · subst j
      obtain ⟨e, hroutes, _⟩ := h.entry
      have hkey := hjk.resolve_left (fun hne => hne rfl)
      rw [hself, hroutes, OrderedDict.get?_set_of_ne _ _ (Ne.symm hkey)]
    · rw [hother j hj]

/-- What was valid stays valid: the new entry is fresher than all that the node has sent. -/
theorem Accepts.valid (h : Accepts s receiver source origin o out.state) {j k : N} {addr : Addr}
    {o' : Originator} (hvalid : Valid s j addr k o') : Valid (advance s receiver out) j addr k o' := by
  by_cases hjk : j = receiver ∧ k = origin
  · obtain ⟨rfl, rfl⟩ := hjk
    refine hvalid.mono (subset_advance s j out) (fun m hm => ⟨o.seqNum, h.seen, (h.fresh m hm).le⟩) ?_
    intro hne e' he' hseq'
    obtain ⟨e, hroute, _, _, hseq⟩ := h.route
    rw [hroute] at he'
    cases he'
    obtain ⟨m, hm, hle⟩ := hvalid.seen hne
    have hlt := h.fresh m hm
    omega
  · have hor : j ≠ receiver ∨ k ≠ origin := not_and_or.mp hjk
    refine hvalid.mono (subset_advance s receiver out) (fun m hm => ⟨m, ?_, le_rfl⟩)
      (fun _ e' he' _ => ?_)
    · rw [h.elsewhere.seen j k hor]
      exact hm
    · rw [routeAt, h.elsewhere.route j _ (hor.imp_right fun hk hid => hk (F.id_inj hid))] at he'
      exact he'

end Accepted

/-- A node accepts an announcement from the wire and forwards it, if at all, one hop on. -/
theorem accept_sound (hs : Sound s) (source receiver : N) (packet : Bytes) (o : Originator)
    (out : RouterOutcome) (hmem : (source, F.addr receiver, packet) ∈ s.wire)
    (hcarries : Carries F packet source origin o)
    (hvalid : Valid s source (F.addr receiver) origin o) (hne : origin ≠ receiver)
    (haccepts : Accepts s receiver source origin o out.state)
    (hposted : ∀ j addr pkt, (j, addr, pkt) ∈ posted receiver out.effects → j = receiver ∧
      o.hopCount < o.maxHops ∧ (∀ k, F.addr k = addr → F.link receiver k) ∧
      ∃ o', Carries F pkt receiver origin o' ∧ o'.hopCount = o.hopCount + 1 ∧
        o'.seqNum = o.seqNum) : Sound (advance s receiver out) := by
  have hwire := subset_advance s receiver out
  have hself : (advance s receiver out).router receiver = out.state := advance_self
  have helse := haccepts.elsewhere
  obtain ⟨e, hroute, hnext, hhops, hseq⟩ := haccepts.route
  constructor
  · intro j
    by_cases hj : j = receiver
    · subst j
      rw [hself, haccepts.identity, hs.identity]
    · rw [helse.router j hj, hs.identity]
  · intro j
    by_cases hj : j = receiver
    · subst j
      rw [hself, haccepts.maxHops, hs.maxHops]
    · rw [helse.router j hj, hs.maxHops]
  · intro j addr pkt hmem'
    rcases List.mem_append.mp hmem' with hold | hnew
    · obtain ⟨k, o', hcarries', h⟩ := hs.wire j addr pkt hold
      exact ⟨k, o', hcarries', haccepts.valid h⟩
    · obtain ⟨rfl, hbudget, hlink, o', hcarries', hhops', hseq'⟩ := hposted j addr pkt hnew
      refine ⟨origin, o', hcarries', hlink, ?_, ?_, ?_, fun h => absurd h.symm hne, ?_, ?_⟩
      · rw [hhops']
        exact .step hvalid.walk (hvalid.link j rfl)
      · rw [hcarries.maxHops] at hbudget
        omega
      · rw [hseq']
        exact hvalid.broadcast.mono hwire
      · exact fun _ => ⟨o.seqNum, haccepts.seen, Nat.le_of_eq hseq'⟩
      · intro _ e' he' _
        rw [hroute] at he'
        cases he'
        rw [hhops, hhops']
  · intro j key e' he'
    by_cases hjk : j = receiver ∧ key = F.id origin
    · obtain ⟨rfl, rfl⟩ := hjk
      have heq : some e = some e' := hroute.symm.trans he'
      cases heq
      refine ⟨origin, rfl, hne, ?_, source, packet, o, hwire hmem, hcarries, hnext, hhops, hseq⟩
      rw [haccepts.seen, hseq]
    · have hor : j ≠ receiver ∨ key ≠ F.id origin := not_and_or.mp hjk
      rw [helse.route j key hor] at he'
      obtain ⟨k, rfl, hkj, hseen, source', packet', o', hmade⟩ := hs.entry j key e' he'
      refine ⟨k, rfl, hkj, ?_, source', packet', o', hmade.mono hwire⟩
      rw [helse.seen j k (hor.imp_right fun h hk => h (by rw [hk]))]
      exact hseen

theorem sound_advance_same (hs : Sound s) (i : N) (e : Option PyError) :
    Sound (advance s i ⟨s.router i, [], e⟩) := by
  refine hs.shrink (by simp [advance, posted]) ?_ ?_
  · intro j
    by_cases hj : j = i
    · subst j
      simp [advance]
    · simp only [advance, Function.update_of_ne hj]
      exact ⟨trivial, trivial, trivial⟩
  · intro j key e' he'
    by_cases hj : j = i
    · subst j
      simpa [advance] using he'
    · simpa [advance, Function.update_of_ne hj] using he'

theorem deliver_sound (hs : Sound s) (source receiver : N) (packet : Bytes) :
    Sound (step C s (.deliver source receiver packet)) := by
  simp only [step]
  split
  case isFalse => exact hs
  case isTrue hpassed =>
    have hmem := hpassed.1
    obtain ⟨origin, o, hcarries, hvalid⟩ := hs.wire _ _ _ hmem
    obtain ⟨payload, hparse, hunpack⟩ := hcarries.parse
    rw [receive_eq C _ _ packet _ source payload hparse]
    have hhandled := handleOriginator_handled C (s.router receiver)
      (s.attachment receiver).transport payload (F.addr source) (F.senderId source).toList
    generalize handleOriginator C (s.router receiver) (s.attachment receiver).transport payload
      (F.addr source) (F.senderId source).toList = out at hhandled
    cases hhandled with
    | dropped e => exact sound_advance_same hs receiver e
    | unroutable o' e _ hsender =>
      rw [F.deviceId_senderId] at hsender
      contradiction
    | routed o' nextHopId out hunpack' hforeign hfresh hsender hstate heffects =>
      rw [hunpack] at hunpack'
      cases hunpack'
      rw [F.deviceId_senderId] at hsender
      cases hsender
      rw [hcarries.oid, (s.attachment receiver).senderId] at hforeign
      rw [hcarries.oid, F.decode_senderId] at hfresh hstate
      have hne : origin ≠ receiver := fun h => hforeign (by rw [h])
      refine accept_sound hs source receiver packet o out hmem hcarries hvalid hne ?_ ?_
      · rw [hstate]
        exact accepts_of_routed hs receiver source origin o hfresh
      · intro j addr pkt hposted
        rcases heffects with hnone | ⟨data, hbudget, hdata, hsends⟩
        · rw [hnone] at hposted
          simp [posted] at hposted
        · obtain ⟨sig, hunpack'⟩ := unpackOriginator_forwardData C _ payload data o hunpack
            hcarries.oid hdata
          obtain ⟨rfl, hcarries', hlink⟩ := posted_carries (s.attachment receiver) data out _ hsends
            hunpack' hcarries.oid hcarries.maxHops j addr pkt hposted
          exact ⟨rfl, hbudget, hlink, _, hcarries', rfl, rfl⟩

theorem step_sound (hs : Sound s) (l : Label F) : Sound (step C s l) := by
  cases l with
  | broadcast i timestamp => exact broadcast_sound C hs i timestamp
  | deliver source receiver packet => exact deliver_sound C hs source receiver packet
  | purge i now =>
    refine hs.shrink rfl (fun j => ?_) (fun j key e he => ?_)
    · by_cases hj : j = i
      · subst j
        simp [step, MeshRouter.purgeStale]
      · simp [step, Function.update_of_ne hj]
    · by_cases hj : j = i
      · subst j
        simp only [step, Function.update_self] at he
        exact purgeStale_routes _ now key e he
      · simpa [step, Function.update_of_ne hj] using he
  | register i peerId bundle =>
    refine hs.shrink rfl (fun j => ?_) (fun j key e he => ?_)
    · by_cases hj : j = i
      · subst j
        simp [step, MeshRouter.registerBundle]
      · simp [step, Function.update_of_ne hj]
    · by_cases hj : j = i
      · subst j
        simpa [step, MeshRouter.registerBundle] using he
      · simpa [step, Function.update_of_ne hj] using he
  | reconnect i attachment =>
    exact hs.shrink rfl (fun j => ⟨rfl, rfl, rfl⟩) (fun j key e he => he)

omit [DecidableEq N] in
theorem initial_sound (s : Network F) (h : Initial s) : Sound s where
  identity i := by rw [h.1 i]; rfl
  maxHops i := by rw [h.1 i]; rfl
  wire source addr packet hmem := by
    rw [h.2] at hmem
    contradiction
  entry i key e he := by
    rw [h.1 i] at he
    contradiction

theorem reachable_sound (h : Reachable C s) : Sound s :=
  Runs.reachable_invariant initial_sound (fun _ l hs => step_sound C hs l) h

end Steps

section Results

variable {N : Type} [DecidableEq N] {F : Fleet N} (C : Suite)

/-- `i` is the next hop of the route that `j` holds for `origin`. -/
def NextHopOf (s : Network F) (origin j i : N) : Prop :=
  ∃ e, routeAt s j origin = some e ∧ e.nextHopId = F.id i

/-- The routes to one origin, as the freshness argument sees them. -/
def snapshot (s : Network F) (origin : N) : Snapshot N where
  route i r := ∃ e, routeAt s i origin = some e ∧ e.nextHopId = F.id r.next ∧
    e.seqNum = r.seq ∧ e.hopCount = r.hops
  seen i := seenAt s i origin

theorem snapshot_ordered (s : Network F) (hs : Sound s) (origin : N) :
    Ordered origin (snapshot s origin) := by
  have hentry : ∀ i e, routeAt s i origin = some e → origin ≠ i ∧
      seenAt s i origin = some e.seqNum ∧ ∃ source packet o, MadeFrom s i e source origin packet o ∧
        Valid s source (F.addr i) origin o := by
    intro i e he
    obtain ⟨origin', source, packet, o, hkey, hne, hseen, hmade, hvalid⟩ :=
      hs.origin_of_entry i _ e he
    have heq : origin = origin' := F.id_inj hkey
    subst origin'
    exact ⟨hne, hseen, source, packet, o, hmade, hvalid⟩
  constructor
  · rintro r ⟨e, he, _⟩
    exact (hentry origin e he).1 rfl
  · rintro i r ⟨e, he, _, hseq, _⟩
    rw [← hseq]
    exact (hentry i e he).2.1
  · rintro j r ⟨e, he, hnext, hseq, _⟩
    obtain ⟨_, _, source, packet, o, hmade, hvalid⟩ := hentry j e he
    have hsource : source = r.next := F.id_inj (hmade.next.symm.trans hnext)
    subst source
    by_cases horigin : r.next = origin
    · exact Or.inl horigin
    · obtain ⟨m, hm, hle⟩ := hvalid.seen horigin
      exact Or.inr ⟨m, hm, by rw [← hseq, hmade.seq]; exact hle⟩
  · rintro j r r' ⟨e, he, hnext, hseq, hhops⟩ ⟨e', he', _, hseq', hhops'⟩ hsame
    obtain ⟨_, _, source, packet, o, hmade, hvalid⟩ := hentry j e he
    have hsource : source = r.next := F.id_inj (hmade.next.symm.trans hnext)
    subst source
    have hne : r.next ≠ origin := fun h => (hentry _ e' he').1 h.symm
    have hequal := hvalid.route hne e' he' (by rw [hseq', hsame, ← hseq, hmade.seq])
    have hstep := hmade.hops
    omega

/-- Following next hops never leads back to where one started. -/
theorem next_hops_acyclic (s : Network F) (h : Reachable C s) (origin i : N) :
    ¬ Relation.TransGen (NextHopOf s origin) i i := by
  intro hcycle
  refine (snapshot_ordered s (reachable_sound C h) origin).acyclic i
    (Relation.TransGen.mono ?_ _ _ hcycle)
  rintro j k ⟨e, he, hnext⟩
  exact ⟨⟨k, e.seqNum, e.hopCount⟩, ⟨e, he, hnext, rfl, rfl⟩, rfl⟩

/-- An entry's hop count is the length of a walk of session links from the origin,
whose last link is from the next hop. -/
theorem route_entry_walk (s : Network F) (h : Reachable C s) (i : N) (key : String) (e : RouteEntry)
    (he : (s.router i).routes.get? key = some e) :
    ∃ origin nextHop hops, key = F.id origin ∧ e.nextHopId = F.id nextHop ∧
      e.hopCount = hops + 1 ∧ Walk F.link hops origin nextHop ∧ F.link nextHop i ∧
      1 ≤ e.hopCount ∧ e.hopCount ≤ F.maxHops origin + 1 ∧ Broadcast s origin e.seqNum := by
  obtain ⟨origin, source, packet, o, hkey, _, _, hmade, hvalid⟩ :=
    (reachable_sound C h).origin_of_entry i key e he
  refine ⟨origin, source, o.hopCount, hkey, hmade.next, hmade.hops, hvalid.walk,
    hvalid.link i rfl, ?_, ?_, ?_⟩
  · rw [hmade.hops]
    exact Nat.le_add_left _ _
  · rw [hmade.hops]
    exact Nat.succ_le_succ hvalid.budget
  · rw [hmade.seq]
    exact hvalid.broadcast

end Results

section Stub

/-- Two routers that may have sessions with each other. -/
def duo : Fleet Bool where
  identity i :=
    if i then stubIdentity "00000000-0000-4000-8000-00000000000b" "B" (List.Vector.replicate 32 2)
    else stubIdentity "00000000-0000-4000-8000-00000000000a" "A" (List.Vector.replicate 32 1)
  maxHops _ := defaultMaxHops
  addr i := if i then bravoAddr else alphaAddr
  link i j := i ≠ j
  hex i := by cases i <;> decide
  distinct := by decide

def duoTransport (i : Bool) : MeshTransport where
  identity := duo.identity i
  senderId := duo.senderId i
  sessions := OrderedDict.empty.set (duo.identity !i).deviceId
    ⟨(duo.identity !i).deviceId, duo.addr !i, sharedKey,
      getPublicBundle stub (duo.identity !i), 0, 0, 0, 0⟩
  sessionsByAddr := OrderedDict.empty.set (duo.addr !i) (duo.identity !i).deviceId
  pending := .empty
  handshakes := []
  inFlight := .empty
  fragBufs := .empty
  msgIdCounter := 1
  udpTransport := true
  messageCbs := []
  connectedCbs := []
  sendFailedCbs := []
  ackCbs := []
  rawPacketCbs := .empty

theorem duoTransport_linked (i : Bool) : ∀ session ∈ (duoTransport i).sessions.values,
    ∀ j, duo.addr j = session.peerAddr → duo.link i j := by
  intro session hsession j hj
  rw [List.mem_singleton.mp hsession] at hj
  rintro rfl
  revert hj
  cases i <;> decide

/-- The second router's transport once it has lost its session. -/
def lapsedTransport : MeshTransport :=
  { duoTransport true with sessions := .empty, sessionsByAddr := .empty }

/-- Only the first router has a session. -/
def duoNetwork : Network duo where
  router i := MeshRouter.init (duo.identity i) (duo.maxHops i)
  attachment i :=
    match i with
    | false => ⟨duoTransport false, rfl, duoTransport_linked false⟩
    | true => ⟨lapsedTransport, rfl, fun _ h => absurd h List.not_mem_nil⟩
  wire := []

/-- The first router's first announcement. -/
def duoPacket : Bytes :=
  frame .originator (duo.senderId false)
    (originatorFields (duo.senderId false) 1 0 defaultMaxHops epoch ++
      (stub.signMessage ((duo.senderId false).toList ++ packBE 4 1 ++ epoch.raw.toList ++
        packBE 1 defaultMaxHops) (duo.identity false).signingKeypair.signingKey).toList) zeroMac

def duoRun : Network duo :=
  Runs.run (step stub) duoNetwork [.broadcast false epoch, .deliver false true duoPacket]

theorem duoRun_reachable : Reachable stub duoRun :=
  Runs.Reachable.run (Runs.Reachable.of_initial ⟨fun _ => rfl, rfl⟩) _

theorem duoRun_route : ∃ e, routeAt duoRun true false = some e :=
  Option.isSome_iff_exists.mp (by decide +kernel)

theorem next_hops_acyclic_duo : ∃ s : Network duo, Reachable stub s ∧
    (∃ e, routeAt s true false = some e) ∧ ¬ Relation.TransGen (NextHopOf s false) true true :=
  ⟨duoRun, duoRun_reachable, duoRun_route, next_hops_acyclic stub duoRun duoRun_reachable false true⟩

theorem route_entry_walk_duo : ∃ (s : Network duo) (e : RouteEntry), Reachable stub s ∧
    ∃ origin nextHop hops, duo.id false = duo.id origin ∧ e.nextHopId = duo.id nextHop ∧
      e.hopCount = hops + 1 ∧ Walk duo.link hops origin nextHop ∧ duo.link nextHop true ∧
      1 ≤ e.hopCount ∧ e.hopCount ≤ duo.maxHops origin + 1 ∧ Broadcast s origin e.seqNum := by
  obtain ⟨e, he⟩ := duoRun_route
  exact ⟨duoRun, e, duoRun_reachable,
    route_entry_walk stub duoRun duoRun_reachable true (duo.id false) e he⟩

end Stub

end Mesim.RouteTables
