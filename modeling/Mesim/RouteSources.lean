import Mesim.OriginatorSignatures

/-!
Whom a node's routes lead through.
The transport schedules the router's handler for every ORIGINATOR packet that it
lets pass, and from an address without a session it lets every one pass. The
handler takes the next hop from the datagram: its source address and the sender id
in its header. A route leads through a session's peer exactly when the datagram it
was learnt from came from there under that peer's id.
-/
namespace Mesim.RouteSources

open Octets TextCodec Crypto Identity Packet Transport Operations Nodes Router RouterPackets
open RouterNetwork OriginatorSignatures Honest RouteTables MeshTransport RouterOutcome

variable (C : Suite)

/-- A scheduled call of the router's handler: payload, source address and sender id. -/
abbrev Task := Bytes × Addr × Bytes

/-- A transport with a started router, whose callback is `routerCb`, and the handler
calls that have been scheduled and not yet run. -/
structure RoutedNode where
  node : Node
  router : MeshRouter
  routerCb : Callback
  tasks : List Task

inductive RoutedEvent where
  | node (env : Env) (event : Event)
  | handle
  | broadcast (timestamp : Timestamp)
  | purge (now : ℚ)
  | register (peerId : String) (bundle : PublicBundle)

/-- The calls that these effects schedule. -/
def scheduled (routerCb : Callback) (effects : List Effect) : List Task :=
  effects.filterMap fun e => match e with
    | .rawPacket cb payload addr senderId =>
      if cb = routerCb then some (payload, addr, senderId) else none
    | _ => none

/-- The event loop runs the scheduled calls in order, each to its end. -/
def routedStep (s : RoutedNode) : RoutedEvent → RoutedNode
  | .node env event =>
    { s with
      node := (s.node.step C env event).1
      tasks := s.tasks ++ scheduled s.routerCb (s.node.step C env event).2 }
  | .handle =>
    match s.tasks with
    | [] => s
    | (payload, addr, senderId) :: rest =>
      { s with
        router := (handleOriginator C s.router s.node.transport payload addr senderId).state
        tasks := rest }
  | .broadcast timestamp =>
    { s with router := (broadcastOriginator C s.router s.node.transport timestamp).state }
  | .purge now => { s with router := s.router.purgeStale now }
  | .register peerId bundle => { s with router := s.router.registerBundle peerId bundle }

/-- A started node whose router has been constructed and started. -/
def StartedRouter (owner : DeviceIdentity) (maxHops : ℕ) (s : RoutedNode) : Prop :=
  Started owner s.node ∧ s.node.transport.rawPacketCbs.get? .originator = some s.routerCb ∧
    s.router = MeshRouter.init owner maxHops ∧ s.tasks = []

/-- A session's peer is at this address, and this is its device id without dashes. -/
def SessionPeer (t : MeshTransport) (addr : Addr) (hopId : String) : Prop :=
  ∃ peerId session, t.sessions.get? peerId = some session ∧ session.peerAddr = addr ∧
    hopId = hexId session.peerBundle.deviceId

/-- The step puts this entry into the table. -/
def Installs (s : RoutedNode) (e : RoutedEvent) (key : String) (entry : RouteEntry) : Prop :=
  (routedStep C s e).router.routes.get? key = some entry ∧
    s.router.routes.get? key ≠ some entry

/-- In the run from `s₀` the entry is put into the table at `s`. -/
def InstalledAt (s₀ : RoutedNode) (events : List RoutedEvent) (key : String) (entry : RouteEntry)
    (s : RoutedNode) : Prop :=
  ∃ done e, done ++ [e] <+: events ∧ Runs.run (routedStep C) s₀ done = s ∧
    Installs C s e key entry

/-- Every entry there is after the run has been installed in it, and each time there was a
session with the entry's next hop. -/
def ThroughPeers (s₀ : RoutedNode) (events : List RoutedEvent) : Prop :=
  ∀ key entry, (Runs.run (routedStep C) s₀ events).router.routes.get? key = some entry →
    (∃ s, InstalledAt C s₀ events key entry s) ∧
      ∀ s, InstalledAt C s₀ events key entry s →
        SessionPeer s.node.transport entry.nextHopAddr entry.nextHopId

/-- The route is newer than the one there is, or as new and shorter. -/
def Improves (r : MeshRouter) (oid : String) (seqNum hopCount : ℕ) : Prop :=
  ∀ existing, r.routes.get? oid = some existing →
    existing.seqNum < seqNum ∨ (existing.seqNum = seqNum ∧ hopCount < existing.hopCount)

/-- The router will take a route from this announcement. -/
structure Taken (r : MeshRouter) (t : MeshTransport) (payload senderId : Bytes) (o : Originator)
    (hopId : String) : Prop where
  unpacked : unpackOriginator payload = .ok o
  foreign : o.oidBytes ≠ t.senderId
  unrejected : ¬ RejectedBy C r (decodeAsciiReplace o.oidBytes.toList) o
  fresh : ¬ SeenBefore r (decodeAsciiReplace o.oidBytes.toList) o
  sender : deviceIdFromBytes senderId = .ok hopId
  improves : Improves r (decodeAsciiReplace o.oidBytes.toList) o.seqNum (o.hopCount + 1)

/-- If the step handles an announcement from which a route is taken, it has come from a
session's address under the id of the session's peer. -/
def FromPeer (s : RoutedNode) : RoutedEvent → Prop
  | .handle => ∀ payload addr senderId rest o hopId, s.tasks = (payload, addr, senderId) :: rest →
      Taken C s.router s.node.transport payload senderId o hopId →
        SessionPeer s.node.transport addr hopId
  | _ => True

section Table

theorem routes_updateRoute_improves (r : MeshRouter) (oid hopId : String) (addr : Addr)
    (hopCount seqNum : ℕ) (timestamp : Timestamp) (h : Improves r oid seqNum hopCount) :
    (r.updateRoute oid hopId addr hopCount seqNum timestamp).routes =
      r.routes.set oid ⟨oid, hopId, addr, hopCount, timestamp, seqNum⟩ := by
  unfold MeshRouter.updateRoute
  dsimp only
  split
  · rfl
  · rename_i existing hget
    rcases h existing hget with hlt | ⟨heq, hshorter⟩
    · rw [if_neg (by omega), if_neg (by omega)]
    · rw [if_neg (by omega), if_neg (by omega)]

/-- Any other call returns early. -/
theorem updateRoute_not (r : MeshRouter) (oid hopId : String) (addr : Addr)
    (hopCount seqNum : ℕ) (timestamp : Timestamp) (h : ¬ Improves r oid seqNum hopCount) :
    r.updateRoute oid hopId addr hopCount seqNum timestamp = r := by
  cases hget : r.routes.get? oid with
  | none =>
    refine absurd (fun existing hsome => ?_) h
    exact absurd (hget.symm.trans hsome).symm (Option.some_ne_none existing)
  | some existing =>
    have hworse : ¬ (existing.seqNum < seqNum ∨
        (existing.seqNum = seqNum ∧ hopCount < existing.hopCount)) := by
      intro hbetter
      refine h fun existing' hsome => ?_
      cases Option.some.inj (hget.symm.trans hsome)
      exact hbetter
    simp only [MeshRouter.updateRoute, hget]
    by_cases holder : seqNum < existing.seqNum
    · rw [if_pos holder]
    · rw [if_neg holder, if_pos (by omega)]

theorem routes_accepted (r : MeshRouter) (t : MeshTransport) (o : Originator) (addr : Addr)
    (senderId : Bytes) (hopId : String) (hsender : deviceIdFromBytes senderId = .ok hopId) :
    (accepted C r t o addr senderId).state.routes =
      (r.updateRoute (decodeAsciiReplace o.oidBytes.toList) hopId addr (o.hopCount + 1) o.seqNum
        o.timestamp).routes := by
  unfold accepted attempt
  rw [hsender]
  dsimp only
  rw [(sendsOnly_forward C _ t o addr _ rfl).1]
  unfold noted MeshRouter.updateRoute
  dsimp only
  repeat' split
  all_goals rfl

/-- The handler puts the route of an announcement that is taken into the table. -/
theorem routes_of_taken (r : MeshRouter) (t : MeshTransport) (payload senderId : Bytes) (addr : Addr)
    (o : Originator) (hopId : String) (h : Taken C r t payload senderId o hopId) :
    (handleOriginator C r t payload addr senderId).state.routes =
      r.routes.set (decodeAsciiReplace o.oidBytes.toList)
        ⟨decodeAsciiReplace o.oidBytes.toList, hopId, addr, o.hopCount + 1, o.timestamp,
          o.seqNum⟩ := by
  rcases signatureAccepted_eq C r payload o h.unpacked with ⟨haccepted, _⟩ | ⟨_, hrejected⟩
  · rw [handleOriginator_accepted C r t payload addr senderId o h.unpacked h.foreign haccepted
      h.fresh, routes_accepted C r t o addr senderId hopId h.sender,
      routes_updateRoute_improves _ _ _ _ _ _ _ h.improves]
  · exact absurd hrejected h.unrejected

/-- No other datagram changes the table. -/
theorem routes_of_not_taken (r : MeshRouter) (t : MeshTransport) (payload senderId : Bytes)
    (addr : Addr) (h : ∀ o hopId, ¬ Taken C r t payload senderId o hopId) :
    (handleOriginator C r t payload addr senderId).state.routes = r.routes := by
  cases hunpack : unpackOriginator payload with
  | error e => simp only [handleOriginator, hunpack, done]
  | ok o =>
    by_cases hignored : Ignored r (handleOriginator C r t payload addr senderId)
    · exact hignored.1
    · rw [ignored_iff C r t payload addr senderId o hunpack, not_or, not_or] at hignored
      obtain ⟨hown, hunrejected, hfresh⟩ := hignored
      have haccepted : signatureAccepted C r o = .ok () := by
        rcases signatureAccepted_eq C r payload o hunpack with ⟨haccepted, _⟩ | ⟨_, hrejected⟩
        · exact haccepted
        · exact absurd hrejected hunrejected
      rw [handleOriginator_accepted C r t payload addr senderId o hunpack hown haccepted hfresh]
      cases hsender : deviceIdFromBytes senderId with
      | error e => simp only [accepted, attempt, hsender, noted]
      | ok hopId =>
        rw [routes_accepted C r t o addr senderId hopId hsender]
        refine congrArg MeshRouter.routes (updateRoute_not r _ hopId addr _ _ _ fun himproves => ?_)
        exact h o hopId ⟨hunpack, hown, hunrejected, hfresh, hsender, himproves⟩

end Table

section Runs

/-- Every entry that the step puts into the table leads through a session's peer. -/
def InstallsPeers (s : RoutedNode) (e : RoutedEvent) : Prop :=
  ∀ key entry, Installs C s e key entry →
    SessionPeer s.node.transport entry.nextHopAddr entry.nextHopId

/-- Only the handler puts entries into the table. -/
theorem installsPeers_of_kept (s : RoutedNode) (e : RoutedEvent)
    (h : ∀ key entry, (routedStep C s e).router.routes.get? key = some entry →
      s.router.routes.get? key = some entry) : InstallsPeers C s e :=
  fun key entry hinstalls => absurd (h key entry hinstalls.1) hinstalls.2

theorem installsPeers_iff (s : RoutedNode) (e : RoutedEvent) :
    InstallsPeers C s e ↔ FromPeer C s e := by
  cases e with
  | node env event => exact iff_of_true (installsPeers_of_kept C s _ fun _ _ h => h) trivial
  | register peerId bundle => exact iff_of_true (installsPeers_of_kept C s _ fun _ _ h => h) trivial
  | purge now =>
    exact iff_of_true (installsPeers_of_kept C s _ (purgeStale_routes s.router now)) trivial
  | broadcast timestamp =>
    refine iff_of_true (installsPeers_of_kept C s _ fun key entry hget => ?_) trivial
    have hstate := (sendsOnly_broadcast C s.router s.node.transport timestamp _ rfl).1
    simp only [routedStep, hstate] at hget
    exact hget
  | handle =>
    cases htasks : s.tasks with
    | nil =>
      refine iff_of_true (installsPeers_of_kept C s _ fun key entry hget => ?_) ?_
      · simp only [routedStep, htasks] at hget
        exact hget
      · intro payload addr senderId rest o hopId hcons
        exact absurd (htasks.symm.trans hcons).symm (List.cons_ne_nil _ _)
    | cons task rest =>
      obtain ⟨payload, addr, senderId⟩ := task
      have hrouter : (routedStep C s .handle).router =
          (handleOriginator C s.router s.node.transport payload addr senderId).state := by
        simp only [routedStep, htasks]
      constructor
      · intro hpeers payload' addr' senderId' rest' o hopId hcons htaken
        cases htasks.symm.trans hcons
        have hroutes := routes_of_taken C s.router s.node.transport payload senderId addr o hopId htaken
        have hnew := OrderedDict.get?_set_self s.router.routes (decodeAsciiReplace o.oidBytes.toList)
          ⟨decodeAsciiReplace o.oidBytes.toList, hopId, addr, o.hopCount + 1, o.timestamp, o.seqNum⟩
        rw [← hroutes, ← hrouter] at hnew
        refine hpeers _ _ ⟨hnew, fun hold => ?_⟩
        rcases htaken.improves _ hold with hlt | ⟨_, hlt⟩
        · exact absurd hlt (Nat.lt_irrefl _)
        · exact absurd hlt (Nat.lt_irrefl _)
      · rintro hfrom key entry ⟨hnew, hold⟩
        rw [hrouter] at hnew
        by_cases htaken : ∃ o hopId, Taken C s.router s.node.transport payload senderId o hopId
        · obtain ⟨o, hopId, htaken⟩ := htaken
          rw [routes_of_taken C s.router s.node.transport payload senderId addr o hopId htaken,
            OrderedDict.get?_set] at hnew
          split at hnew
          · cases Option.some.inj hnew
            exact hfrom payload addr senderId rest o hopId htasks htaken
          · exact absurd hnew hold
        · rw [routes_of_not_taken C s.router s.node.transport payload senderId addr
            fun o hopId h => htaken ⟨o, hopId, h⟩] at hnew
          exact absurd hnew hold

/-- From an address without a session every announcement goes to the router. -/
theorem scheduled_stranger (s : RoutedNode) (env : Env) (data payload senderId : Bytes) (addr : Addr)
    (hparse : parsePacket data = .ok ⟨.originator, senderId, payload⟩)
    (haddr : s.node.transport.sessionsByAddr.get? addr = none)
    (hcb : s.node.transport.rawPacketCbs.get? .originator = some s.routerCb) :
    routedStep C s (.node env (.datagram data addr)) =
      { s with tasks := s.tasks ++ [(payload, addr, senderId)] } := by
  have hpasses : passes C s.node.transport data addr = true :=
    passes_unbound C s.node.transport data addr hparse fun peerId h => by
      rw [haddr] at h
      contradiction
  have hdispatch : dispatch C env s.node.transport data addr =
      ⟨s.node.transport, [.rawPacket s.routerCb payload addr senderId], none⟩ := by
    rw [dispatch_rawPacket C env _ data addr hparse hcb, hpasses, if_pos rfl]
  simp only [routedStep, Node.step, hdispatch, scheduled, List.filterMap_cons, if_true,
    List.filterMap_nil]

/-- An entry that is there after a run and not before it has been installed on the way. -/
theorem installed_of_entry (s₀ : RoutedNode) (events : List RoutedEvent) (key : String)
    (entry : RouteEntry) (hbefore : s₀.router.routes.get? key ≠ some entry)
    (hafter : (Runs.run (routedStep C) s₀ events).router.routes.get? key = some entry) :
    ∃ s, InstalledAt C s₀ events key entry s := by
  induction events using List.reverseRecOn with
  | nil => exact absurd hafter hbefore
  | append_singleton done e ih =>
    by_cases hdone : (Runs.run (routedStep C) s₀ done).router.routes.get? key = some entry
    · obtain ⟨s, done', e', hearlier, hrun, hinstalls⟩ := ih hdone
      exact ⟨s, done', e', hearlier.trans (List.prefix_append _ _), hrun, hinstalls⟩
    · rw [Runs.run_concat] at hafter
      exact ⟨_, done, e, List.prefix_rfl, rfl, hafter, hdone⟩

/-- In a node's run every entry, in every state, leads through the peer of a session it had
when the entry was installed exactly when every announcement that a route is taken from has
come from a session's address under the id of that session's peer. -/
theorem routes_through_peers_iff (owner : DeviceIdentity) (maxHops : ℕ) (s₀ : RoutedNode)
    (hs₀ : StartedRouter owner maxHops s₀) (events : List RoutedEvent) :
    (∀ done, done <+: events → ThroughPeers C s₀ done) ↔
      Runs.Always (routedStep C) (FromPeer C) s₀ events := by
  rw [Runs.always_iff]
  constructor
  · intro hthrough done e hdone
    refine (installsPeers_iff C _ e).mp fun key entry hinstalls => ?_
    have hentry : (Runs.run (routedStep C) s₀ (done ++ [e])).router.routes.get? key =
        some entry := by
      rw [Runs.run_concat]
      exact hinstalls.1
    exact (hthrough (done ++ [e]) hdone key entry hentry).2 _
      ⟨done, e, List.prefix_rfl, rfl, hinstalls⟩
  · intro hfrom done hdone key entry hentry
    constructor
    · refine installed_of_entry C s₀ done key entry ?_ hentry
      rw [hs₀.2.2.1]
      exact (Option.some_ne_none entry).symm
    · rintro s ⟨before, e, hbefore, rfl, hinstalls⟩
      exact (installsPeers_iff C _ e).mpr (hfrom before e (hbefore.trans hdone)) key entry hinstalls

end Runs

section Stub

/-- The forged announcement in an ORIGINATOR packet. -/
def stray : Bytes := frame .originator (duo.senderId false) forgedPayload zeroMac

theorem parse_stray :
    parsePacket stray = .ok ⟨.originator, (duo.senderId false).toList, forgedPayload⟩ :=
  parsePacket_unkeyed .originator (duo.senderId false) forgedPayload (by decide)

/-- A node with a started router, which has no session at first. -/
theorem exists_startedRouter_of (owner : DeviceIdentity)
    (h : (senderIdBytes owner.deviceId).isOk = true) :
    ∃ s, StartedRouter owner defaultMaxHops s := by
  obtain ⟨t, ht⟩ := init_ok owner h
  exact ⟨⟨⟨startWith t [] [] [] [] (OrderedDict.empty.set .originator 7), []⟩,
    MeshRouter.init owner defaultMaxHops, 7, []⟩,
    ⟨fresh_startWith owner t ht [] [] [] [] _, rfl⟩, rfl, rfl, rfl⟩

theorem exists_startedRouter : ∃ s, StartedRouter (duo.identity true) defaultMaxHops s :=
  exists_startedRouter_of (duo.identity true) (by decide)

def strangerAddr : Addr := ("10.0.0.9", 7000)

def strayTask : Task := (forgedPayload, strangerAddr, (duo.senderId false).toList)

theorem scheduled_stray (s : RoutedNode) (hs : StartedRouter (duo.identity true) defaultMaxHops s) :
    routedStep stub s (.node stillEnv (.datagram stray strangerAddr)) =
      { s with tasks := [strayTask] } := by
  rw [scheduled_stranger stub s stillEnv stray forgedPayload (duo.senderId false).toList strangerAddr
    parse_stray (by rw [hs.1.1.sessionsByAddr]; rfl) hs.2.1, hs.2.2.2]
  rfl

theorem taken_stray (s : RoutedNode) (hs : StartedRouter (duo.identity true) defaultMaxHops s) :
    Taken stub s.router s.node.transport forgedPayload (duo.senderId false).toList forged
      (duo.id false) where
  unpacked := unpack_forgedPayload
  foreign heq := by
    have hsender := Except.ok.inj (hs.1.1.senderId.symm.trans (duo.senderIdBytes_deviceId true))
    exact absurd (duo.senderId_inj (heq.trans hsender)) (by decide)
  unrejected := by
    rintro ⟨bundle, hget, _⟩
    rw [hs.2.2.1] at hget
    exact absurd hget.symm (Option.some_ne_none bundle)
  fresh := by
    rintro ⟨seen, hget, _⟩
    rw [hs.2.2.1] at hget
    exact absurd hget.symm (Option.some_ne_none seen)
  sender := duo.deviceId_senderId false
  improves existing hget := by
    rw [hs.2.2.1] at hget
    exact absurd hget.symm (Option.some_ne_none existing)

theorem not_sessionPeer_started (s : RoutedNode)
    (hs : StartedRouter (duo.identity true) defaultMaxHops s) (addr : Addr) (hopId : String) :
    ¬ SessionPeer s.node.transport addr hopId := by
  rintro ⟨peerId, session, hget, _⟩
  rw [hs.1.1.sessions] at hget
  exact absurd hget.symm (Option.some_ne_none session)

def strayEvents : List RoutedEvent := [.node stillEnv (.datagram stray strangerAddr), .handle]

theorem routes_through_peers_iff_stray : ∃ s, StartedRouter (duo.identity true) defaultMaxHops s ∧
    ((∀ done, done <+: strayEvents → ThroughPeers stub s done) ↔
      Runs.Always (routedStep stub) (FromPeer stub) s strayEvents) := by
  obtain ⟨s, hs⟩ := exists_startedRouter
  exact ⟨s, hs, routes_through_peers_iff stub (duo.identity true) defaultMaxHops s hs strayEvents⟩

/-- A stranger's announcement becomes a route of a node without any session. -/
theorem stranger_becomes_next_hop : ¬ ∀ (owner : DeviceIdentity) (maxHops : ℕ) (s₀ : RoutedNode),
    StartedRouter owner maxHops s₀ → ∀ events : List RoutedEvent, ThroughPeers stub s₀ events := by
  intro hclaim
  obtain ⟨s, hs⟩ := exists_startedRouter
  have halways : Runs.Always (routedStep stub) (FromPeer stub) s strayEvents :=
    (routes_through_peers_iff stub (duo.identity true) defaultMaxHops s hs strayEvents).mp
      fun done _ => hclaim (duo.identity true) defaultMaxHops s hs done
  have hfrom := halways.2.1
  rw [scheduled_stray s hs] at hfrom
  exact not_sessionPeer_started s hs strangerAddr (duo.id false)
    (hfrom forgedPayload strangerAddr _ [] forged (duo.id false) rfl (taken_stray s hs))

end Stub

end Mesim.RouteSources
