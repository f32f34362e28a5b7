import Mesim.Honest
import Mesim.LiveNames
import Mesim.OrderedDict
import Mesim.Repl
import Mesim.Runs

/-!
Peer discovery.
A service announcement carries the first 16 digits of a device id. The cache has a
peer for each id that was announced, and a second table says which id each service
name stands for. An announcement replaces the id of its name without a look at the old
one, and a removal drops the id of its name without a look at the other names.
-/
namespace Mesim.Discovery

open Octets TextCodec Identity LiveNames

section Model

structure PeerInfo where
  deviceId : String
  callsign : Option String
  rank : Rank
  addr : String
  port : ℕ
  lastSeen : ℚ
  publicBundle : Option PublicBundle
  apiPort : ℤ
  deriving DecidableEq

def protocolVer : Bytes := [49]

/-- The digits of `int(text)`, which single underscores may separate. -/
def digits : Bool → ℕ → List Char → Option ℕ
  | afterDigit, n, [] => if afterDigit then some n else none
  | afterDigit, n, c :: rest =>
    if '0' ≤ c ∧ c ≤ '9' then digits true (10 * n + (c.toNat - '0'.toNat)) rest
    else if c = '_' ∧ afterDigit then digits false n rest
    else none

/-- What `int()` skips around the number in an ASCII text. -/
def isBlank (c : Char) : Bool := c == ' ' || (9 ≤ c.toNat && c.toNat ≤ 13)

def trim (text : List Char) : List Char :=
  ((text.dropWhile isBlank).reverse.dropWhile isBlank).reverse

/-- `int(text)` of an ASCII text. -/
def parseInt (text : String) : Option ℤ :=
  match trim text.toList with
  | '-' :: rest => (digits false 0 rest).map fun n => -(n : ℤ)
  | '+' :: rest => (digits false 0 rest).map fun n => (n : ℤ)
  | rest => (digits false 0 rest).map fun n => (n : ℤ)

example : parseInt " 1_0\n" = some 10 ∧ parseInt "-4" = some (-4) ∧ parseInt "1_" = none := by
  decide +kernel

def rankOf (value : ℤ) : Option Rank :=
  if value = 1 then some .command
  else if value = 2 then some .officer
  else if value = 3 then some .nco
  else if value = 4 then some .squad
  else none

/-- A TXT record; a key without a value is left out. -/
abbrev Properties := OrderedDict Bytes Bytes

def parseTxtProperties (props : Properties) : Option (String × Rank) := do
  if props.get? (encodeUtf8 "ver") ≠ some protocolVer then none
  let idRaw ← props.get? (encodeUtf8 "id")
  let rankRaw ← props.get? (encodeUtf8 "rank")
  let deviceIdPrefix ← decodeAscii idRaw
  let rankInt ← parseInt (← decodeAscii rankRaw)
  let rank ← rankOf rankInt
  return (deviceIdPrefix, rank)

/-- The API port defaults to 0. -/
def parseApiPort (props : Properties) : ℤ :=
  match props.get? (encodeUtf8 "api") with
  | none => 0
  | some [] => 0
  | some raw => ((decodeAscii raw).bind parseInt).getD 0

/-- What a request for a service resolves to. -/
structure ServiceInfo where
  properties : Properties
  addresses : List String
  port : ℕ

structure MeshDiscovery where
  ownIdPrefix : String
  peers : OrderedDict String PeerInfo
  svcNameToId : OrderedDict String String

def MeshDiscovery.init (identity : DeviceIdentity) : MeshDiscovery where
  ownIdPrefix := String.ofList ((identity.deviceId.toList.filter (· ≠ '-')).take 16)
  peers := .empty
  svcNameToId := .empty

/-- What a handler passes to each of the registered callbacks. -/
inductive Notice where
  | discovered (peer : PeerInfo)
  | lost (deviceId : String)
  deriving DecidableEq

/-- The identity, rank and address of a valid record of another node. -/
def resolved (d : MeshDiscovery) (reply : Option ServiceInfo) :
    Option (ServiceInfo × String × Rank × String) := do
  let info ← reply
  let (deviceIdPrefix, rank) ← parseTxtProperties info.properties
  if deviceIdPrefix = d.ownIdPrefix then none
  let addr ← info.addresses.head?
  return (info, deviceIdPrefix, rank, addr)

/-- `_on_service_added`, with the reply to its request; none when that has timed out. -/
def onServiceAdded (d : MeshDiscovery) (name : String) (reply : Option ServiceInfo) (now : ℚ) :
    MeshDiscovery × Option Notice :=
  match resolved d reply with
  | none => (d, none)
  | some (info, deviceIdPrefix, rank, addr) =>
    let known := d.peers.get? deviceIdPrefix
    let peer : PeerInfo :=
      { deviceId := deviceIdPrefix
        callsign := none
        rank := rank
        addr := addr
        port := info.port
        lastSeen := now
        publicBundle := known.bind (·.publicBundle)
        apiPort := parseApiPort info.properties }
    ({ d with
        peers := d.peers.set deviceIdPrefix peer
        svcNameToId := d.svcNameToId.set name deviceIdPrefix },
      if known.isNone then some (.discovered peer) else none)

def onServiceRemoved (d : MeshDiscovery) (name : String) : MeshDiscovery × Option Notice :=
  match d.svcNameToId.get? name with
  | none => (d, none)
  | some deviceIdPrefix =>
    ({ d with
        svcNameToId := d.svcNameToId.erase name
        peers := d.peers.erase deviceIdPrefix },
      some (.lost deviceIdPrefix))

def updatePeerBundle (d : MeshDiscovery) (deviceId : String) (bundle : PublicBundle) :
    MeshDiscovery :=
  match d.peers.get? deviceId with
  | none => d
  | some peer => { d with peers := d.peers.set deviceId { peer with publicBundle := some bundle } }

/-- A completed call of a handler, or of update_peer_bundle(). -/
inductive Event where
  | added (name : String) (reply : Option ServiceInfo) (now : ℚ)
  | removed (name : String)
  | bundle (deviceId : String) (bundle : PublicBundle)

def handle (d : MeshDiscovery) : Event → MeshDiscovery × Option Notice
  | .added name reply now => onServiceAdded d name reply now
  | .removed name => onServiceRemoved d name
  | .bundle deviceId bundle => (updatePeerBundle d deviceId bundle, none)

def step (d : MeshDiscovery) (e : Event) : MeshDiscovery := (handle d e).1

/-- True for a peer that was discovered, False for one that was lost; about this id only. -/
def Notice.about (deviceId : String) : Notice → Option Bool
  | .discovered peer => if peer.deviceId = deviceId then some true else none
  | .lost lostId => if lostId = deviceId then some false else none

/-- The notices about an id, in order. -/
def notices (d : MeshDiscovery) (events : List Event) (deviceId : String) : List Bool :=
  ((Runs.visits step d events).filterMap fun visit => (handle visit.1 visit.2).2).filterMap
    (Notice.about deviceId)

end Model

section Mirror

/-- The cache has the ids that some service name stands for. -/
def Mirror (d : MeshDiscovery) : Prop :=
  ∀ deviceId, (d.peers.get? deviceId).isSome = true ↔
    ∃ name, d.svcNameToId.get? name = some deviceId

/-- An announcement takes no id its only name, and a removal leaves its id no other name. -/
def Clean (d : MeshDiscovery) : Event → Prop
  | .added name reply _ => ∀ info deviceId rank addr,
      resolved d reply = some (info, deviceId, rank, addr) →
        ∀ old, d.svcNameToId.get? name = some old → old ≠ deviceId →
          Shared d.svcNameToId.get? name old
  | .removed name => ∀ deviceId, d.svcNameToId.get? name = some deviceId →
      ¬ Shared d.svcNameToId.get? name deviceId
  | .bundle _ _ => True

end Mirror

section Steps

/-- What a resolved announcement does to the tables. -/
theorem added_resolved (d : MeshDiscovery) (name : String) (reply : Option ServiceInfo) (now : ℚ)
    {info : ServiceInfo} {deviceId addr : String} {rank : Rank}
    (h : resolved d reply = some (info, deviceId, rank, addr)) :
    ∃ peer : PeerInfo, peer.deviceId = deviceId ∧
      (onServiceAdded d name reply now).1.peers = d.peers.set deviceId peer ∧
      (onServiceAdded d name reply now).1.svcNameToId = d.svcNameToId.set name deviceId ∧
      (onServiceAdded d name reply now).2 =
        if (d.peers.get? deviceId).isNone then some (.discovered peer) else none := by
  rw [onServiceAdded, h]
  exact ⟨_, rfl, rfl, rfl, rfl⟩

theorem added_unresolved (d : MeshDiscovery) (name : String) (reply : Option ServiceInfo) (now : ℚ)
    (h : resolved d reply = none) : onServiceAdded d name reply now = (d, none) := by
  rw [onServiceAdded, h]

theorem mirror_added_iff (d : MeshDiscovery) (name : String) (reply : Option ServiceInfo) (now : ℚ)
    (h : Mirror d) :
    Mirror (onServiceAdded d name reply now).1 ↔ Clean d (.added name reply now) := by
  cases hresolved : resolved d reply with
  | none =>
    rw [added_unresolved d name reply now hresolved]
    refine iff_of_true h fun info deviceId rank addr hsome => ?_
    rw [hresolved] at hsome
    cases hsome
  | some result =>
    obtain ⟨info, deviceId, rank, addr⟩ := result
    obtain ⟨peer, _, hpeers, hnames, _⟩ := added_resolved d name reply now hresolved
    have hlive : (fun id => ((d.peers.set deviceId peer).get? id).isSome = true) =
        fun id => id = deviceId ∨ (d.peers.get? id).isSome = true := by
      funext id
      rw [OrderedDict.get?_set]
      by_cases hid : deviceId = id
      · simp [hid]
      · simp [hid, Ne.symm hid]
    have hiff := mirrors_update_iff h name deviceId
    rw [← hlive, ← OrderedDict.get?_set_eq_update] at hiff
    have hmirror : Mirror (onServiceAdded d name reply now).1 ↔
        Mirrors (fun id => ((d.peers.set deviceId peer).get? id).isSome = true)
          (d.svcNameToId.set name deviceId).get? := by
      rw [Mirror, Mirrors, hpeers, hnames]
    rw [hmirror, hiff]
    constructor
    · intro hshared info' deviceId' rank' addr' hsome
      cases Option.some.inj (hresolved.symm.trans hsome)
      exact hshared
    · intro hclean
      exact hclean info deviceId rank addr hresolved

theorem mirror_removed_iff (d : MeshDiscovery) (name : String) (h : Mirror d) :
    Mirror (onServiceRemoved d name).1 ↔ Clean d (.removed name) := by
  rw [onServiceRemoved]
  cases hname : d.svcNameToId.get? name with
  | none =>
    refine iff_of_true h fun deviceId hsome => ?_
    rw [hname] at hsome
    cases hsome
  | some deviceId =>
    have hlive : (fun id => ((d.peers.erase deviceId).get? id).isSome = true) =
        fun id => id ≠ deviceId ∧ (d.peers.get? id).isSome = true := by
      funext id
      rw [OrderedDict.get?_erase]
      by_cases hid : deviceId = id
      · simp [hid]
      · simp [hid, Ne.symm hid]
    have hiff := mirrors_erase_iff h name deviceId hname
    rw [← hlive, ← OrderedDict.get?_erase_eq_update] at hiff
    apply hiff.trans
    constructor
    · intro hlast deviceId' hsome
      cases Option.some.inj (hname.symm.trans hsome)
      exact hlast
    · intro hclean
      exact hclean deviceId hname

theorem isSome_updatePeerBundle (d : MeshDiscovery) (deviceId id : String) (bundle : PublicBundle) :
    ((updatePeerBundle d deviceId bundle).peers.get? id).isSome = (d.peers.get? id).isSome := by
  rw [updatePeerBundle]
  cases hpeer : d.peers.get? deviceId with
  | none => rfl
  | some peer =>
    simp only
    rw [OrderedDict.get?_set]
    by_cases hid : deviceId = id
    · subst hid
      simp [hpeer]
    · simp [hid]

theorem svcNameToId_updatePeerBundle (d : MeshDiscovery) (deviceId : String)
    (bundle : PublicBundle) : (updatePeerBundle d deviceId bundle).svcNameToId = d.svcNameToId := by
  rw [updatePeerBundle]
  cases d.peers.get? deviceId <;> rfl

/-- A handler keeps the mirror exactly when its event is clean. -/
theorem mirror_step_iff (d : MeshDiscovery) (e : Event) (h : Mirror d) :
    Mirror (step d e) ↔ Clean d e := by
  cases e with
  | added name reply now => exact mirror_added_iff d name reply now h
  | removed name => exact mirror_removed_iff d name h
  | bundle deviceId bundle =>
    refine iff_of_true (fun id => ?_) trivial
    rw [step, handle, isSome_updatePeerBundle, svcNameToId_updatePeerBundle]
    exact h id

end Steps

section Alternation

/-- What one handler says about an id is that it came, if it was not there and now is, or that
it went, if a name stood for it and it is no longer there. -/
theorem about_handle (d : MeshDiscovery) (e : Event) (h : Mirror d) (id : String) :
    ((handle d e).2.bind (Notice.about id) = none ∧
      ((step d e).peers.get? id).isSome = (d.peers.get? id).isSome) ∨
    ((handle d e).2.bind (Notice.about id) = some (d.peers.get? id).isNone ∧
      ((step d e).peers.get? id).isSome = (d.peers.get? id).isNone) := by
  cases e with
  | bundle deviceId bundle => exact Or.inl ⟨rfl, isSome_updatePeerBundle d deviceId id bundle⟩
  | removed name =>
    rw [step, handle, onServiceRemoved]
    cases hname : d.svcNameToId.get? name with
    | none => exact Or.inl ⟨rfl, rfl⟩
    | some deviceId =>
      simp only [Option.bind_some, Notice.about]
      rw [OrderedDict.get?_erase]
      by_cases hid : deviceId = id
      · subst hid
        -- the mirror has the id of a name that is taken away
        have hthere : (d.peers.get? deviceId).isSome = true := (h deviceId).mpr ⟨name, hname⟩
        obtain ⟨peer, hpeer⟩ := Option.isSome_iff_exists.mp hthere
        exact Or.inr (by simp [hpeer])
      · exact Or.inl (by simp [hid])
  | added name reply now =>
    cases hresolved : resolved d reply with
    | none =>
      rw [step, handle, added_unresolved d name reply now hresolved]
      exact Or.inl ⟨rfl, rfl⟩
    | some result =>
      obtain ⟨info, deviceId, rank, addr⟩ := result
      obtain ⟨peer, hpeer, hpeers, _, hnotice⟩ := added_resolved d name reply now hresolved
      rw [step, handle, hpeers, hnotice, OrderedDict.get?_set]
      by_cases hid : deviceId = id
      · subst hid
        cases hknown : d.peers.get? deviceId with
        | none => exact Or.inr (by simp [Notice.about, hpeer])
        | some known => exact Or.inl (by simp)
      · refine Or.inl ?_
        cases d.peers.get? deviceId with
        | none => simp [Notice.about, hpeer, hid]
        | some known => simp [hid]

theorem notices_concat (d : MeshDiscovery) (events : List Event) (e : Event) (id : String) :
    notices d (events ++ [e]) id = notices d events id ++
      ((handle (Runs.run step d events) e).2.bind (Notice.about id)).toList := by
  simp only [notices, Runs.visits_concat, List.filterMap_append]
  congr 1
  cases hnotice : (handle (Runs.run step d events) e).2 with
  | none => simp [hnotice]
  | some notice =>
    cases habout : Notice.about id notice <;> simp [hnotice, habout]

/-- As long as the mirror holds, what was said about an id ends with where it is now. -/
theorem alternates_notices (d : MeshDiscovery) (events : List Event) (id : String)
    (habsent : d.peers.get? id = none)
    (h : ∀ done, done <+: events → Mirror (Runs.run step d done)) :
    Alternates true (notices d events id) ∧
      turnAfter true (notices d events id) =
        ((Runs.run step d events).peers.get? id).isNone := by
  induction events using List.reverseRecOn with
  | nil => exact ⟨trivial, by rw [Runs.run_nil, habsent]; rfl⟩
  | append_singleton events e ih =>
    have hbefore : ∀ done, done <+: events → Mirror (Runs.run step d done) :=
      fun done hdone => h done (hdone.trans (List.prefix_append _ _))
    obtain ⟨halternates, hturn⟩ := ih hbefore
    have hmirror := hbefore events List.prefix_rfl
    rw [notices_concat, Runs.run_concat]
    rcases about_handle (Runs.run step d events) e hmirror id with ⟨hsaid, hsame⟩ | ⟨hsaid, hturns⟩
    · rw [hsaid, Option.toList_none, List.append_nil, hturn]
      refine ⟨halternates, ?_⟩
      rw [← Option.not_isSome, ← Option.not_isSome, hsame]
    · rw [hsaid, Option.toList_some, alternates_concat, turnAfter_concat, hturn]
      refine ⟨⟨halternates, rfl⟩, ?_⟩
      rw [← hturns, Option.not_isSome]

end Alternation

theorem mirror_init (identity : DeviceIdentity) : Mirror (MeshDiscovery.init identity) := by
  intro deviceId
  simp [MeshDiscovery.init]

/-- The cache mirrors the live services all along, with notices that alternate, exactly when
every event is clean. -/
theorem mirrors_services_iff (identity : DeviceIdentity) (events : List Event) :
    (∀ done, done <+: events →
      Mirror (Runs.run step (MeshDiscovery.init identity) done) ∧
        ∀ deviceId, Alternates true (notices (MeshDiscovery.init identity) done deviceId)) ↔
      Runs.Always step Clean (MeshDiscovery.init identity) events := by
  have hmirrors := Runs.invariant_prefixes_iff mirror_step_iff (MeshDiscovery.init identity)
    events (mirror_init identity)
  constructor
  · intro h
    exact hmirrors.mp fun done hdone => (h done hdone).1
  · intro hclean done hdone
    have hall := hmirrors.mpr hclean
    refine ⟨hall done hdone, fun deviceId => ?_⟩
    exact (alternates_notices _ done deviceId rfl
      fun before hbefore => hall before (hbefore.trans hdone)).1

section Twins

/-- The record of a squad member. -/
def record (deviceId : String) : ServiceInfo where
  properties := ((OrderedDict.empty.set (encodeUtf8 "ver") protocolVer).set
    (encodeUtf8 "id") (encodeUtf8 deviceId)).set (encodeUtf8 "rank") [52]
  addresses := ["192.168.1.9"]
  port := 7777

def announced (name deviceId : String) : Event := .added name (some (record deviceId)) 0

/-- Two names with one id, of which one goes. -/
def twins : List Event :=
  [announced "A._mesim._udp.local." "aabbccdd11223344",
    announced "B._mesim._udp.local." "aabbccdd11223344", .removed "A._mesim._udp.local."]

/-- A name that comes back with another id. -/
def renamed : List Event :=
  [announced "A._mesim._udp.local." "aabbccdd11223344",
    announced "A._mesim._udp.local." "5566778899aabbcc"]

/-- The id of the name that stays is gone, and goes again with it; the id that was replaced
stays. -/
theorem twins_unmirrored :
    ¬ Mirror (Runs.run step (MeshDiscovery.init Honest.alpha) twins) ∧
      ¬ Alternates true (notices (MeshDiscovery.init Honest.alpha)
        (twins ++ [.removed "B._mesim._udp.local."]) "aabbccdd11223344") ∧
      ¬ Mirror (Runs.run step (MeshDiscovery.init Honest.alpha) renamed) := by
  refine ⟨fun h => ?_, ?_, fun h => ?_⟩
  · have hthere := (h "aabbccdd11223344").mpr ⟨"B._mesim._udp.local.", by decide +kernel⟩
    have hgone : ((Runs.run step (MeshDiscovery.init Honest.alpha) twins).peers.get?
        "aabbccdd11223344").isSome = false := by decide +kernel
    rw [hgone] at hthere
    cases hthere
  · have hnotices : notices (MeshDiscovery.init Honest.alpha)
        (twins ++ [.removed "B._mesim._udp.local."]) "aabbccdd11223344" =
          [true, false, false] := by decide +kernel
    rw [hnotices]
    exact fun h => absurd h.2.2.1 (by decide)
  · have hstays : ((Runs.run step (MeshDiscovery.init Honest.alpha) renamed).peers.get?
        "aabbccdd11223344").isSome = true := by decide +kernel
    obtain ⟨name, hname⟩ := (h "aabbccdd11223344").mp hstays
    have hmem := (OrderedDict.mem_entries_iff _ name _).mpr hname
    have hentries : (Runs.run step (MeshDiscovery.init Honest.alpha) renamed).svcNameToId.entries =
        [("A._mesim._udp.local.", "5566778899aabbcc")] := by decide +kernel
    rw [hentries] at hmem
    simp at hmem

end Twins

end Mesim.Discovery
