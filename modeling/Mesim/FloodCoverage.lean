import Mesim.Floods
import Mesim.Flooding
import Mesim.RouteTimes
import Mathlib.Algebra.Order.BigOperators.Group.Finset
import Mathlib.Data.Fintype.BigOperators

/-!
Announcements reach the whole network.
Routers that only broadcast and handle what arrives, over sessions that stay,
pass every announcement they accept on to all their peers while its hop budget
lasts. It gets through to those that have no session for the sender's address.
Once no delivery changes anything any more, every router that the origin's
announcements get through to, from one router to the next, holds a route made from
the newest of them, if the budget is at least the number of routers less two.
-/
namespace Mesim.FloodCoverage

open Octets TextCodec Crypto Identity Packet Transport Router RouterPackets RouterNetwork
open OriginatorSignatures RouteTimes RouteTables Flooding
open MeshTransport RouterOutcome

section Sending

variable (C : Suite)

/-- Fields that fit their widths are packed. -/
theorem packOriginator_ok (originatorId : String) (oidBytes : Fixed 32) (seqNum hopCount maxHops : ℕ)
    (timestamp : Timestamp) (key : Ed25519SigningKey)
    (hoid : senderIdBytes originatorId = .ok oidBytes) (hseq : seqNum < 256 ^ 4)
    (hhops : hopCount < 256) (hmax : maxHops < 256) :
    ∃ data, packOriginator C originatorId seqNum hopCount maxHops timestamp key = .ok data := by
  simp only [packOriginator, hoid, originatorHeader, originatorSignedBytes, if_pos hseq, if_pos hmax,
    if_pos (And.intro hseq (And.intro hhops hmax)), bind, Except.bind, pure, Except.pure]
  exact ⟨_, rfl⟩

theorem originatorPacket_ok (t : MeshTransport) (data : Bytes) (hlen : data.length < 65536) :
    originatorPacket t data = .ok (frame .originator t.senderId data zeroMac) := by
  simp only [originatorPacket, packHeader_ok .originator t.senderId _ hlen]
  rfl

/-- A router that knows no bundle forwards whatever is within its budget to every session
but those at the address it came from. -/
theorem forward_unknown (r : MeshRouter) (t : MeshTransport) (payload : Bytes) (o : Originator)
    (fromAddr : Addr) (session : SessionInfo) (hknown : r.knownBundles = .empty)
    (hoid : ∃ oidBytes, senderIdBytes (oidStr o) = .ok oidBytes)
    (hunpack : unpackOriginator payload = .ok o) (hbudget : o.hopCount < o.maxHops)
    (hudp : t.udpTransport = true) (hsession : session ∈ t.sessions.values)
    (haway : session.peerAddr ≠ fromAddr) :
    ∃ data, data.length < 65536 ∧ forwardData C r o = .ok data ∧
      .sendto (frame .originator t.senderId data zeroMac) session.peerAddr ∈
        (forwardOriginator C r t o fromAddr).effects := by
  obtain ⟨oidBytes, hoid⟩ := hoid
  obtain ⟨hseq, _, hmax⟩ := unpackOriginator_fits payload o hunpack
  have hforward : ∃ data, forwardData C r o = .ok data := by
    obtain ⟨data, hdata⟩ := packOriginator_ok C (oidStr o) oidBytes o.seqNum (o.hopCount + 1)
      o.maxHops o.timestamp r.identity.signingKeypair.signingKey hoid hseq (by omega) hmax
    exact ⟨data, by simp only [forwardData, hknown, OrderedDict.get?_empty, hdata]⟩
  obtain ⟨data, hdata⟩ := hforward
  have hlen : data.length < 65536 := by
    rw [forwardData_length C r payload o data hunpack hdata]
    decide
  refine ⟨data, hlen, hdata, ?_⟩
  rw [forwardOriginator, if_neg (by omega)]
  simp only [attempt, hdata, originatorPacket_ok t data hlen]
  exact List.mem_flatMap.mpr ⟨session, hsession, by simp [haway, sendRaw, hudp]⟩

end Sending

section Network

variable {N : Type} {F : Fleet N}

/-- The steps that a router takes by itself and on receiving. -/
def IsFlood : Label F → Prop
  | .broadcast _ _ | .deliver _ _ _ => True
  | _ => False

/-- `i` has a session to the address of `k`. -/
def Neighbours (s : Network F) (i k : N) : Prop :=
  ∃ session ∈ (s.attachment i).transport.sessions.values, session.peerAddr = F.addr k

/-- What `i` announces gets through to `k`: there is a session to its address, and `k` has none for the
address of `i`, under which a packet without a MAC would be dropped. -/
def Audible (s : Network F) (i k : N) : Prop :=
  Neighbours s i k ∧ ∀ peerId,
    (s.attachment k).transport.sessionsByAddr.get? (F.addr i) = some peerId → peerId = ""

/-- The node has seen an announcement of the origin with this number or a later one. -/
def Reached (s : Network F) (origin : N) (seqNum : ℕ) (i : N) : Prop :=
  ∃ m, seenAt s i origin = some m ∧ seqNum ≤ m

def Sent (s : Network F) (i k origin : N) (seqNum : ℕ) : Prop :=
  ∃ packet o, (i, F.addr k, packet) ∈ s.wire ∧ Carries F packet i origin o ∧ o.seqNum = seqNum

/-- The invariant of a network that only floods: how far each announcement has come, and
that whoever holds a route within the hop budget has passed it on. -/
structure Informed (s : Network F) : Prop where
  sound : Sound s
  counted : OwnCounted s
  connected : ∀ i, (s.attachment i).transport.udpTransport = true
  unknown : ∀ i, (s.router i).knownBundles = .empty
  kept : ∀ i origin n, seenAt s i origin = some n → ∃ e, routeAt s i origin = some e ∧ e.seqNum = n
  positive : ∀ source addr packet origin o, (source, addr, packet) ∈ s.wire →
    Carries F packet source origin o → 0 < o.seqNum
  wireTrail : ∀ source addr packet origin o, (source, addr, packet) ∈ s.wire →
    Carries F packet source origin o →
      ∃ S, Floods.Trail origin (Reached s origin o.seqNum) o.hopCount S
  routeTrail : ∀ i origin e, routeAt s i origin = some e →
    ∃ S, Floods.Trail origin (Reached s origin e.seqNum) e.hopCount S
  passed : ∀ i origin e, routeAt s i origin = some e → e.hopCount ≤ F.maxHops origin →
    ∃ source, (source = origin ∨ Reached s origin e.seqNum source) ∧
      ∀ k, Neighbours s i k → F.addr k ≠ F.addr source → Sent s i k origin e.seqNum
  own : ∀ origin, 0 < (s.router origin).seqNum → (s.router origin).seqNum < 256 ^ 4 →
    F.maxHops origin < 256 → ∀ k, Neighbours s origin k →
      Sent s origin k origin (s.router origin).seqNum

variable {s s' : Network F} {i source receiver origin : N} {o : Originator}

theorem Sent.mono {k : N} {seqNum : ℕ} (h : Sent s i k origin seqNum) (hwire : s.wire ⊆ s'.wire) :
    Sent s' i k origin seqNum := by
  obtain ⟨packet, o, hmem, hrest⟩ := h
  exact ⟨packet, o, hwire hmem, hrest⟩

/-- A node sees nothing that the origin has not counted. -/
theorem Informed.seen_le (h : Informed s) {n : ℕ} (hseen : seenAt s i origin = some n) :
    n ≤ (s.router origin).seqNum := by
  obtain ⟨e, he, rfl⟩ := h.kept i origin n hseen
  obtain ⟨origin', _, _, o, hkey, _, _, hmade, hvalid⟩ := h.sound.origin_of_entry i _ e he
  cases F.id_inj hkey
  obtain ⟨addr, packet, o', hmem, hcarries, _, hseq⟩ := hvalid.broadcast
  obtain ⟨payload, hparse, hunpack⟩ := hcarries.parse
  refine h.counted origin addr packet e.seqNum hmem ?_
  simp only [announced, hparse, hunpack, hcarries.oid, hseq, hmade.seq]

theorem initial_informed (s : Network F) (h : Initial s)
    (hopen : ∀ i, (s.attachment i).transport.udpTransport = true) : Informed s where
  sound := initial_sound s h
  counted := initial_counted s h
  connected := hopen
  unknown i := by
    rw [h.1 i]
    rfl
  kept i origin n hseen := by
    rw [seenAt, h.1 i] at hseen
    contradiction
  positive source addr packet origin o hmem _ := by
    rw [h.2] at hmem
    contradiction
  wireTrail source addr packet origin o hmem _ := by
    rw [h.2] at hmem
    contradiction
  routeTrail i origin e he := by
    rw [routeAt, h.1 i] at he
    contradiction
  passed i origin e he := by
    rw [routeAt, h.1 i] at he
    contradiction
  own origin hpos := by
    rw [h.1 origin] at hpos
    exact absurd hpos (Nat.lt_irrefl 0)

end Network

section Steps

variable {N : Type} [DecidableEq N] {F : Fleet N} (C : Suite)
variable {s s' : Network F} {i source receiver origin : N} {o : Originator}

/-- What one step of a flooding network can do: nothing, announce the node itself, or accept
an announcement and pass it on. -/
inductive Progress (s : Network F) : Network F → Prop
  | idle : Progress s s
  | announced (i : N) (out : RouterOutcome)
      (hstate : out.state = { s.router i with seqNum := (s.router i).seqNum + 1 })
      (hposted : ∀ j addr pkt, (j, addr, pkt) ∈ posted i out.effects → j = i ∧
        ∃ o, Carries F pkt i i o ∧ o.hopCount = 0 ∧ o.seqNum = (s.router i).seqNum + 1)
      (hsent : (s.router i).seqNum + 1 < 256 ^ 4 → F.maxHops i < 256 → ∀ k, Neighbours s i k →
        Sent (advance s i out) i k i ((s.router i).seqNum + 1)) :
      Progress s (advance s i out)
  | accepted (source receiver origin : N) (packet : Bytes) (o : Originator) (out : RouterOutcome)
      (hmem : (source, F.addr receiver, packet) ∈ s.wire)
      (hcarries : Carries F packet source origin o) (hne : receiver ≠ origin)
      (haccepts : Accepts s receiver source origin o out.state)
      (hkept : out.state.seqNum = (s.router receiver).seqNum ∧
        out.state.knownBundles = (s.router receiver).knownBundles)
      (hposted : ∀ j addr pkt, (j, addr, pkt) ∈ posted receiver out.effects → j = receiver ∧
        ∃ o', Carries F pkt receiver origin o' ∧ o'.hopCount = o.hopCount + 1 ∧
          o'.seqNum = o.seqNum)
      (hsent : o.hopCount < o.maxHops → ∀ k, Neighbours s receiver k → F.addr k ≠ F.addr source →
        Sent (advance s receiver out) receiver k origin o.seqNum) :
      Progress s (advance s receiver out)

theorem advance_done (s : Network F) (i : N) : advance s i (done (s.router i)) = s := by
  simp [advance, done, posted]

theorem knownBundles_updateRoute (r : MeshRouter) (originatorId nextHopId : String)
    (nextHopAddr : Addr) (hopCount seqNum : ℕ) (timestamp : Timestamp) :
    (r.updateRoute originatorId nextHopId nextHopAddr hopCount seqNum timestamp).knownBundles =
      r.knownBundles := by
  unfold MeshRouter.updateRoute
  dsimp only
  repeat' split
  all_goals rfl

theorem broadcast_progress (h : Informed s) (i : N) (timestamp : Timestamp) :
    Progress s (step C s (.broadcast i timestamp)) := by
  let t := (s.attachment i).transport
  let out := broadcastOriginator C (s.router i) t timestamp
  obtain ⟨hstate, heffects⟩ := sendsOnly_broadcast C (s.router i) t timestamp out rfl
  refine .announced i out hstate ?_ ?_
  · intro j addr pkt hmem
    rcases heffects with hnone | ⟨data, hdata, hsends⟩
    · rw [hnone] at hmem
      simp [posted] at hmem
    · rw [h.sound.identity i] at hdata
      obtain ⟨sig, hunpack⟩ := unpackOriginator_packOriginator C _ _ _ _ _ _ _ _
        (F.senderIdBytes_deviceId i) hdata
      obtain ⟨rfl, hcarries, _⟩ := posted_carries (s.attachment i) data out _ hsends hunpack rfl
        (h.sound.maxHops i) j addr pkt hmem
      exact ⟨rfl, _, hcarries, rfl, rfl⟩
  · rintro hseq hmax k ⟨session, hsession, haddr⟩
    have hid := F.senderIdBytes_deviceId i
    rw [← h.sound.identity i] at hid
    rw [← h.sound.maxHops i] at hmax
    obtain ⟨data, hdata⟩ := packOriginator_ok C (s.router i).identity.deviceId _
      ((s.router i).seqNum + 1) 0 (s.router i).maxHops timestamp
      (s.router i).identity.signingKeypair.signingKey hid hseq (by decide) hmax
    have hlen : data.length < 65536 := by
      rw [packOriginator_length C _ _ _ _ _ _ data hdata]
      decide
    have hsent := broadcast_sends C (s.router i) t timestamp session data (h.connected i) hsession
      hlen hdata
    obtain ⟨sig, hunpack⟩ := unpackOriginator_packOriginator C _ _ _ _ _ _ _ _ hid hdata
    have hparse := Honest.parsePacket_unkeyed .originator t.senderId data hlen
    rw [(s.attachment i).senderId] at hparse hsent
    rw [haddr] at hsent
    refine ⟨_, _, List.mem_append.mpr (Or.inr ((mem_posted _ _ _ _ _).mpr ⟨rfl, hsent⟩)),
      ⟨⟨data, hparse, hunpack⟩, rfl, h.sound.maxHops i⟩, rfl⟩

/-- What a router that knows no bundle does with an announcement from the wire. -/
theorem receive_cases (h : Informed s) (packet : Bytes)
    (hmem : (source, F.addr receiver, packet) ∈ s.wire) (hcarries : Carries F packet source origin o)
    (hpasses : passes C (s.attachment receiver).transport packet (F.addr source) = true) :
    ((receiver = origin ∨ Reached s origin o.seqNum receiver) ∧
      step C s (.deliver source receiver packet) = s) ∨
    (receiver ≠ origin ∧ ¬ Reached s origin o.seqNum receiver ∧ ∃ out,
      step C s (.deliver source receiver packet) = advance s receiver out ∧
      out = forwardOriginator C ((noted (s.router receiver) o).updateRoute (F.id origin)
        (F.id source) (F.addr source) (o.hopCount + 1) o.seqNum o.timestamp)
        (s.attachment receiver).transport o (F.addr source)) := by
  obtain ⟨payload, hparse, hunpack⟩ := hcarries.parse
  have hkey : oidStr o = F.id origin := by rw [oidStr, hcarries.oid, F.decode_senderId]
  have hstep : step C s (.deliver source receiver packet) = advance s receiver
      (handleOriginator C (s.router receiver) (s.attachment receiver).transport payload
        (F.addr source) (F.senderId source).toList) := by
    simp only [step, if_pos (And.intro hmem hpasses), receive_eq C _ _ packet _ source payload hparse]
  have hsignature : signatureAccepted C (s.router receiver) o = .ok () := by
    simp only [signatureAccepted, h.unknown receiver, OrderedDict.get?_empty]
  by_cases hadmits : Admits C (s.router receiver) (s.attachment receiver).transport o
  · refine Or.inr ⟨?_, ?_, _, ?_, rfl⟩
    · rintro rfl
      exact hadmits.foreign (hcarries.oid.trans (s.attachment receiver).senderId.symm)
    · rintro ⟨m, hm, hle⟩
      exact hadmits.unseen ⟨m, by rw [hkey]; exact hm, hle⟩
    · rw [hstep, handle_admitted C _ _ payload _ _ o hunpack hadmits,
        accepted_routed C _ _ _ _ o (F.id source) (F.deviceId_senderId source), hkey]
  · rw [handle_refused C _ _ payload _ _ o hunpack hadmits, advance_done] at hstep
    refine Or.inl ⟨or_iff_not_imp_left.mpr fun hne => ?_, hstep⟩
    by_contra hunseen
    refine hadmits ⟨fun hown => ?_, hsignature, ?_⟩
    · rw [hcarries.oid, (s.attachment receiver).senderId] at hown
      exact hne (F.senderId_inj hown).symm
    · rintro ⟨m, hm, hle⟩
      exact hunseen ⟨m, by rw [hkey] at hm; exact hm, hle⟩

theorem deliver_progress (h : Informed s) (source receiver : N) (packet : Bytes) :
    Progress s (step C s (.deliver source receiver packet)) := by
  by_cases hpassed : (source, F.addr receiver, packet) ∈ s.wire ∧
      passes C (s.attachment receiver).transport packet (F.addr source) = true
  swap
  · simp only [step, if_neg hpassed]
    exact .idle
  obtain ⟨hmem, hpasses⟩ := hpassed
  obtain ⟨origin, o, hcarries, hvalid⟩ := h.sound.wire _ _ _ hmem
  rcases receive_cases C h packet hmem hcarries hpasses with
    ⟨_, hsame⟩ | ⟨hne, hunseen, out, hstep, hout⟩
  · rw [hsame]
    exact .idle
  obtain ⟨payload, hparse, hunpack⟩ := hcarries.parse
  have hkey : oidStr o = F.id origin := by rw [oidStr, hcarries.oid, F.decode_senderId]
  have hfresh : ∀ seen, (s.router receiver).seenSeq.get? (F.id origin) = some seen →
      seen < o.seqNum := fun seen hseen =>
    Nat.lt_of_not_le fun hle => hunseen ⟨seen, hseen, hle⟩
  obtain ⟨hstate, heffects⟩ := sendsOnly_forward C _ _ o _ out hout.symm
  have hnoted : noted (s.router receiver) o = { s.router receiver with
      seenSeq := (s.router receiver).seenSeq.set (F.id origin) o.seqNum } := by
    rw [noted, ← hkey]
  have haccepts : Accepts s receiver source origin o out.state := by
    rw [hstate, hnoted]
    exact accepts_of_routed h.sound receiver source origin o hfresh
  have hbundles : out.state.knownBundles = (s.router receiver).knownBundles := by
    rw [hstate, knownBundles_updateRoute]
    rfl
  rw [hstep]
  refine .accepted source receiver origin packet o out hmem hcarries hne haccepts ⟨?_, hbundles⟩
    ?_ ?_
  · rw [hstate, updateRoute_seqNum]
    rfl
  · intro j addr pkt hposted
    rcases heffects with hnone | ⟨data, _, hdata, hsends⟩
    · rw [hnone] at hposted
      simp [posted] at hposted
    · obtain ⟨sig, hunpack'⟩ := unpackOriginator_forwardData C _ payload data o hunpack hcarries.oid
        hdata
      obtain ⟨rfl, hcarries', _⟩ := posted_carries (s.attachment receiver) data out _ hsends hunpack'
        hcarries.oid hcarries.maxHops j addr pkt hposted
      exact ⟨rfl, _, hcarries', rfl, rfl⟩
  · rintro hbudget k ⟨session, hsession, haddr⟩ haway
    rw [← haddr] at haway
    have hunknown : ((noted (s.router receiver) o).updateRoute (F.id origin) (F.id source)
        (F.addr source) (o.hopCount + 1) o.seqNum o.timestamp).knownBundles = .empty := by
      rw [← hstate, hbundles, h.unknown receiver]
    obtain ⟨data, hlen, hdata, hsent⟩ := forward_unknown C _ (s.attachment receiver).transport payload
      o (F.addr source) session hunknown ⟨_, by rw [hkey]; exact F.senderIdBytes_id origin⟩ hunpack
      hbudget (h.connected receiver) hsession haway
    obtain ⟨sig, hunpack'⟩ := unpackOriginator_forwardData C _ payload data o hunpack hcarries.oid
      hdata
    have hparse' := Honest.parsePacket_unkeyed .originator (s.attachment receiver).transport.senderId
      data hlen
    rw [← hout] at hsent
    rw [(s.attachment receiver).senderId] at hparse' hsent
    rw [haddr] at hsent
    exact ⟨_, _, List.mem_append.mpr (Or.inr ((mem_posted _ _ _ _ _).mpr ⟨rfl, hsent⟩)),
      ⟨⟨data, hparse', hunpack'⟩, hcarries.oid, hcarries.maxHops⟩, rfl⟩

end Steps

section Invariant

variable {N : Type} [DecidableEq N] {F : Fleet N} {s s' : Network F} {i source receiver origin : N}
variable {o : Originator} {out : RouterOutcome}

theorem seenAt_announced (hstate : out.state = { s.router i with seqNum := (s.router i).seqNum + 1 })
    (j k : N) : seenAt (advance s i out) j k = seenAt s j k ∧
      routeAt (advance s i out) j k = routeAt s j k := by
  by_cases hj : j = i
  · subst j
    simp only [seenAt, routeAt, advance_self, hstate]
    exact ⟨trivial, trivial⟩
  · simp only [seenAt, routeAt, advance_other hj]
    exact ⟨trivial, trivial⟩

/-- An announcement of its own changes nothing that a node has seen. -/
theorem informed_announced (h : Informed s) (hsound : Sound (advance s i out))
    (hcounted : OwnCounted (advance s i out))
    (hstate : out.state = { s.router i with seqNum := (s.router i).seqNum + 1 })
    (hposted : ∀ j addr pkt, (j, addr, pkt) ∈ posted i out.effects → j = i ∧
      ∃ o, Carries F pkt i i o ∧ o.hopCount = 0 ∧ o.seqNum = (s.router i).seqNum + 1)
    (hsent : (s.router i).seqNum + 1 < 256 ^ 4 → F.maxHops i < 256 → ∀ k, Neighbours s i k →
      Sent (advance s i out) i k i ((s.router i).seqNum + 1)) : Informed (advance s i out) := by
  have hseen := fun j k => (seenAt_announced (s := s) hstate j k).1
  have hroute := fun j k => (seenAt_announced (s := s) hstate j k).2
  have hwire := subset_advance s i out
  have hreached : ∀ origin n j, Reached s origin n j → Reached (advance s i out) origin n j := by
    rintro origin n j ⟨m, hm, hle⟩
    exact ⟨m, by rw [hseen]; exact hm, hle⟩
  constructor
  · exact hsound
  · exact hcounted
  · exact h.connected
  · intro j
    by_cases hj : j = i
    · subst j
      rw [advance_self, hstate]
      exact h.unknown i
    · rw [advance_other hj]
      exact h.unknown j
  · intro j k n hn
    rw [hseen] at hn
    rw [hroute]
    exact h.kept j k n hn
  · intro source addr packet origin o hmem hcarries
    rcases List.mem_append.mp hmem with hold | hnew
    · exact h.positive source addr packet origin o hold hcarries
    · obtain ⟨rfl, o', hcarries', _, hseq⟩ := hposted source addr packet hnew
      obtain ⟨_, rfl⟩ := hcarries.unique hcarries'
      omega
  · intro source addr packet origin o hmem hcarries
    rcases List.mem_append.mp hmem with hold | hnew
    · obtain ⟨S, htrail⟩ := h.wireTrail source addr packet origin o hold hcarries
      exact ⟨S, htrail.mono (hreached origin o.seqNum)⟩
    · obtain ⟨rfl, o', hcarries', hhops, _⟩ := hposted source addr packet hnew
      obtain ⟨_, rfl⟩ := hcarries.unique hcarries'
      rw [hhops]
      exact ⟨∅, Floods.trail_empty origin _⟩
  · intro j k e he
    rw [hroute] at he
    obtain ⟨S, htrail⟩ := h.routeTrail j k e he
    exact ⟨S, htrail.mono (hreached k e.seqNum)⟩
  · intro j k e he hbudget
    rw [hroute] at he
    obtain ⟨source, hsource, hpassed⟩ := h.passed j k e he hbudget
    exact ⟨source, hsource.imp_right (hreached k e.seqNum source),
      fun l hl haway => (hpassed l hl haway).mono hwire⟩
  · intro j hpos hseq hmax k hk
    by_cases hj : j = i
    · subst j
      rw [advance_self, hstate] at hseq ⊢
      exact hsent hseq hmax k hk
    · rw [advance_other hj] at hpos hseq ⊢
      exact (h.own j hpos hseq hmax k hk).mono hwire

/-- What a node sees, once it has accepted an announcement, it keeps or sees more of. -/
theorem reached_accepted (haccepts : Accepts s receiver source origin o out.state) (k : N) (n : ℕ)
    (j : N) (h : Reached s k n j) : Reached (advance s receiver out) k n j := by
  obtain ⟨m, hm, hle⟩ := h
  by_cases hjk : j = receiver ∧ k = origin
  · obtain ⟨rfl, rfl⟩ := hjk
    exact ⟨o.seqNum, haccepts.seen, hle.trans (haccepts.fresh m hm).le⟩
  · exact ⟨m, by rw [haccepts.elsewhere.seen j k (not_and_or.mp hjk)]; exact hm, hle⟩

/-- Accepting lengthens the trail by the node that accepts. -/
theorem informed_accepted (h : Informed s) (hsound : Sound (advance s receiver out))
    (hcounted : OwnCounted (advance s receiver out)) {packet : Bytes}
    (hmem : (source, F.addr receiver, packet) ∈ s.wire) (hcarries : Carries F packet source origin o)
    (hne : receiver ≠ origin) (haccepts : Accepts s receiver source origin o out.state)
    (hkept : out.state.seqNum = (s.router receiver).seqNum ∧
      out.state.knownBundles = (s.router receiver).knownBundles)
    (hposted : ∀ j addr pkt, (j, addr, pkt) ∈ posted receiver out.effects → j = receiver ∧
      ∃ o', Carries F pkt receiver origin o' ∧ o'.hopCount = o.hopCount + 1 ∧ o'.seqNum = o.seqNum)
    (hsent : o.hopCount < o.maxHops → ∀ k, Neighbours s receiver k → F.addr k ≠ F.addr source →
      Sent (advance s receiver out) receiver k origin o.seqNum) :
    Informed (advance s receiver out) := by
  have hwire := subset_advance s receiver out
  have hreached := reached_accepted haccepts
  have hself : Reached (advance s receiver out) origin o.seqNum receiver :=
    ⟨o.seqNum, haccepts.seen, le_rfl⟩
  obtain ⟨e, hroute, _, hhops, hseq⟩ := haccepts.route
  have hsource : source = origin ∨ Reached (advance s receiver out) origin o.seqNum source := by
    obtain ⟨origin', o', hcarries', hvalid⟩ := h.sound.wire _ _ _ hmem
    obtain ⟨rfl, rfl⟩ := hcarries.unique hcarries'
    exact or_iff_not_imp_left.mpr fun hs => hreached _ _ _ (hvalid.seen hs)
  have htrail : ∃ S, Floods.Trail origin (Reached (advance s receiver out) origin o.seqNum)
      (o.hopCount + 1) S := by
    obtain ⟨S, hS⟩ := h.wireTrail source _ packet origin o hmem hcarries
    refine ⟨insert receiver S, hS.extend ?_ hne (hreached origin o.seqNum) hself⟩
    rintro ⟨m, hm, hle⟩
    exact absurd (haccepts.fresh m hm) (Nat.not_lt.mpr hle)
  -- what is true of an old entry stays true of it
  have hold : ∀ j k e', routeAt (advance s receiver out) j k = some e' →
      (j = receiver ∧ k = origin ∧ e' = e) ∨ routeAt s j k = some e' := by
    intro j k e' he'
    by_cases hjk : j = receiver ∧ k = origin
    · obtain ⟨rfl, rfl⟩ := hjk
      exact Or.inl ⟨rfl, rfl, Option.some.inj (he'.symm.trans hroute)⟩
    · have hor := (not_and_or.mp hjk).imp_right fun hk hid => hk (F.id_inj hid)
      rw [routeAt, haccepts.elsewhere.route j _ hor] at he'
      exact Or.inr he'
  constructor
  · exact hsound
  · exact hcounted
  · exact h.connected
  · intro j
    by_cases hj : j = receiver
    · subst j
      rw [advance_self, hkept.2]
      exact h.unknown receiver
    · rw [advance_other hj]
      exact h.unknown j
  · intro j k n hn
    by_cases hjk : j = receiver ∧ k = origin
    · obtain ⟨rfl, rfl⟩ := hjk
      exact ⟨e, hroute, hseq.trans (Option.some.inj (haccepts.seen.symm.trans hn))⟩
    · have hor := not_and_or.mp hjk
      rw [haccepts.elsewhere.seen j k hor] at hn
      obtain ⟨e', he', hn'⟩ := h.kept j k n hn
      refine ⟨e', ?_, hn'⟩
      rw [routeAt, haccepts.elsewhere.route j _ (hor.imp_right fun hk hid => hk (F.id_inj hid))]
      exact he'
  · intro j addr pkt k o' hmem' hcarries'
    rcases List.mem_append.mp hmem' with hbefore | hnew
    · exact h.positive j addr pkt k o' hbefore hcarries'
    · obtain ⟨rfl, o'', hcarries'', _, hseq'⟩ := hposted j addr pkt hnew
      obtain ⟨rfl, rfl⟩ := hcarries'.unique hcarries''
      rw [hseq']
      exact h.positive source _ packet k o hmem hcarries
  · intro j addr pkt k o' hmem' hcarries'
    rcases List.mem_append.mp hmem' with hbefore | hnew
    · obtain ⟨S, hS⟩ := h.wireTrail j addr pkt k o' hbefore hcarries'
      exact ⟨S, hS.mono (hreached k o'.seqNum)⟩
    · obtain ⟨rfl, o'', hcarries'', hhops', hseq'⟩ := hposted j addr pkt hnew
      obtain ⟨rfl, rfl⟩ := hcarries'.unique hcarries''
      rw [hseq', hhops']
      exact htrail
  · intro j k e' he'
    rcases hold j k e' he' with ⟨rfl, rfl, rfl⟩ | hbefore
    · rw [hseq, hhops]
      exact htrail
    · obtain ⟨S, hS⟩ := h.routeTrail j k e' hbefore
      exact ⟨S, hS.mono (hreached k e'.seqNum)⟩
  · intro j k e' he' hbudget
    rcases hold j k e' he' with ⟨rfl, rfl, rfl⟩ | hbefore
    · rw [hseq]
      refine ⟨source, hsource, hsent ?_⟩
      rw [hcarries.maxHops]
      omega
    · obtain ⟨source', hsource', hpassed⟩ := h.passed j k e' hbefore hbudget
      exact ⟨source', hsource'.imp_right (hreached k e'.seqNum source'),
        fun l hl haway => (hpassed l hl haway).mono hwire⟩
  · intro j hpos hlt hmax k hk
    have hcount : ((advance s receiver out).router j).seqNum = (s.router j).seqNum := by
      by_cases hj : j = receiver
      · subst j
        rw [advance_self, hkept.1]
      · rw [advance_other hj]
    rw [hcount] at hpos hlt ⊢
    exact (h.own j hpos hlt hmax k hk).mono hwire

variable (C : Suite)

theorem step_informed (h : Informed s) (l : Label F) (hl : IsFlood l) : Informed (step C s l) := by
  have hsound := step_sound C h.sound l
  have hcounted := ownCounted_step (C := C) h.sound h.counted l
  have hprogress : Progress s (step C s l) := by
    cases l with
    | broadcast i timestamp => exact broadcast_progress C h i timestamp
    | deliver source receiver packet => exact deliver_progress C h source receiver packet
    | purge _ _ | register _ _ _ | reconnect _ _ => exact hl.elim
  generalize step C s l = s' at hprogress hsound hcounted
  cases hprogress with
  | idle => exact h
  | announced i out hstate hposted hsent =>
    exact informed_announced h hsound hcounted hstate hposted hsent
  | accepted source receiver origin packet o out hmem hcarries hne haccepts hkept hposted hsent =>
    exact informed_accepted h hsound hcounted hmem hcarries hne haccepts hkept hposted hsent

theorem attachment_run (s : Network F) (labels : List (Label F)) (hlabels : ∀ l ∈ labels, IsFlood l) :
    (Runs.run (step C) s labels).attachment = s.attachment := by
  induction labels generalizing s with
  | nil => rfl
  | cons l rest ih =>
    rw [Runs.run_cons, ih _ fun l' hl' => hlabels l' (List.mem_cons_of_mem l hl')]
    have hl := hlabels l List.mem_cons_self
    cases l with
    | broadcast i timestamp => rfl
    | deliver source receiver packet =>
      simp only [step]
      split <;> rfl
    | purge _ _ | register _ _ _ | reconnect _ _ => exact hl.elim

theorem run_informed (h : Informed s) (labels : List (Label F)) (hlabels : ∀ l ∈ labels, IsFlood l) :
    Informed (Runs.run (step C) s labels) := by
  induction labels generalizing s with
  | nil => exact h
  | cons l rest ih =>
    exact ih (step_informed C h l (hlabels l List.mem_cons_self))
      fun l' hl' => hlabels l' (List.mem_cons_of_mem l hl')

end Invariant

section Results

variable {N : Type} [DecidableEq N] {F : Fleet N} (C : Suite) {s : Network F}
variable {source receiver origin : N} {o : Originator}

/-- No delivery of what is on the wire changes anything any more. -/
def Quiescent (s : Network F) : Prop :=
  ∀ source receiver packet, step C s (.deliver source receiver packet) = s

/-- One delivery from the wire. -/
def deliverStep (s : Network F) (d : N × N × Bytes) : Network F :=
  step C s (.deliver d.1 d.2.1 d.2.2)

/-- Whoever an announcement gets through to sees it by the time it is delivered. -/
theorem quiescent_iff (h : Informed s) : Quiescent C s ↔ ∀ source receiver packet origin o,
    (source, F.addr receiver, packet) ∈ s.wire → Carries F packet source origin o →
      passes C (s.attachment receiver).transport packet (F.addr source) = true →
        receiver = origin ∨ Reached s origin o.seqNum receiver := by
  constructor
  · intro hquiet source receiver packet origin o hmem hcarries hpasses
    rcases receive_cases C h packet hmem hcarries hpasses with
      ⟨hreached, _⟩ | ⟨hne, hunseen, out, hstep, hout⟩
    · exact hreached
    · -- accepting it would be a change of what the receiver has seen
      refine absurd ?_ hunseen
      have hsame := hquiet source receiver packet
      have hseen : out.state.seenSeq.get? (F.id origin) = some o.seqNum := by
        rw [(sendsOnly_forward C _ _ o _ out hout.symm).1, (updateRoute_frame _ _ _ _ _ _ _).2.2,
          noted, hcarries.oid, F.decode_senderId]
        exact OrderedDict.get?_set_self _ _ _
      refine ⟨o.seqNum, ?_, le_rfl⟩
      rw [seenAt, ← hsame, hstep, advance_self]
      exact hseen
  · intro hreached source receiver packet
    by_cases hpassed : (source, F.addr receiver, packet) ∈ s.wire ∧
        passes C (s.attachment receiver).transport packet (F.addr source) = true
    · obtain ⟨hmem, hpasses⟩ := hpassed
      obtain ⟨origin, o, hcarries, _⟩ := h.sound.wire _ _ _ hmem
      rcases receive_cases C h packet hmem hcarries hpasses with ⟨_, hsame⟩ | ⟨hne, hunseen, _⟩
      · exact hsame
      · rcases hreached source receiver packet origin o hmem hcarries hpasses with hown | hseen
        · exact absurd hown hne
        · exact absurd hseen hunseen
    · simp only [step, if_neg hpassed]

/-- Where no delivery changes anything any more, the origin's newest announcement has come to every
router that it gets through to. -/
theorem Informed.holds_newest [Fintype N] (h : Informed s) (haddr : Function.Injective F.addr)
    (hquiet : Quiescent C s) (hannounced : 0 < (s.router origin).seqNum)
    (hcount : (s.router origin).seqNum < 256 ^ 4) (hmax : F.maxHops origin < 256)
    (hbudget : Fintype.card N ≤ F.maxHops origin + 2) {i : N} (hi : i ≠ origin)
    (hpath : Relation.ReflTransGen (Audible s) origin i) :
    ∃ e, routeAt s i origin = some e ∧ e.seqNum = (s.router origin).seqNum ∧
      e.hopCount < Fintype.card N := by
  have hdelivered := (quiescent_iff C h).mp hquiet
  -- the newest announcement reaches whoever it is sent to and gets through to
  have hreach : ∀ j k, Audible s j k → Sent s j k origin (s.router origin).seqNum →
      k = origin ∨ Reached s origin (s.router origin).seqNum k := by
    rintro j k haudible ⟨packet, o, hmem, hcarries, hseq⟩
    obtain ⟨payload, hparse, _⟩ := hcarries.parse
    rw [← hseq]
    exact hdelivered j k packet origin o hmem hcarries
      (passes_unbound C _ packet _ hparse haudible.2)
  have hcurrent : ∀ j, Reached s origin (s.router origin).seqNum j →
      ∃ e, routeAt s j origin = some e ∧ e.seqNum = (s.router origin).seqNum := by
    rintro j ⟨m, hm, hle⟩
    obtain ⟨e, he, hseq⟩ := h.kept j origin m hm
    exact ⟨e, he, hseq.trans (le_antisymm (h.seen_le hm) hle)⟩
  have hcovered := Floods.covers (Reached s origin (s.router origin).seqNum) hbudget
    (fun k hk => hreach origin k hk (h.own origin hannounced hcount hmax k hk.1))
    (fun j hj hjreached => ?_)
    hpath
  · obtain ⟨e, he, hseq⟩ := hcurrent i (hcovered.resolve_left hi)
    obtain ⟨S, htrail⟩ := h.routeTrail i origin e he
    exact ⟨e, he, hseq, htrail.depth_lt⟩
  · obtain ⟨e, he, hseq⟩ := hcurrent j hjreached
    obtain ⟨S, htrail⟩ := h.routeTrail j origin e he
    rw [hseq] at htrail
    refine ⟨e.hopCount, S, htrail, fun hdepth k hk => ?_⟩
    obtain ⟨source, hsource, hpassed⟩ := h.passed j origin e he hdepth
    rw [hseq] at hsource hpassed
    by_cases hback : F.addr k = F.addr source
    · rw [haddr hback]
      exact hsource
    · exact hreach j k hk (hpassed k hk.1 hback)

theorem audible_run (s₀ : Network F) (labels : List (Label F)) (hlabels : ∀ l ∈ labels, IsFlood l) :
    Audible (Runs.run (step C) s₀ labels) = Audible s₀ := by
  funext j k
  simp only [Audible, Neighbours, attachment_run C s₀ labels hlabels]

/-- Once no delivery changes anything any more, every router to which the origin's announcements get
through, from one router to the next, holds a route from the newest of them. -/
theorem flood_covers [Fintype N] (haddr : Function.Injective F.addr) (s₀ : Network F)
    (h₀ : Initial s₀) (hopen : ∀ i, (s₀.attachment i).transport.udpTransport = true)
    (labels : List (Label F)) (hlabels : ∀ l ∈ labels, IsFlood l) (origin : N)
    (hquiet : Quiescent C (Runs.run (step C) s₀ labels))
    (hannounced : 0 < ((Runs.run (step C) s₀ labels).router origin).seqNum)
    (hcount : ((Runs.run (step C) s₀ labels).router origin).seqNum < 256 ^ 4)
    (hmax : F.maxHops origin < 256) (hbudget : Fintype.card N ≤ F.maxHops origin + 2) (i : N)
    (hi : i ≠ origin) (hpath : Relation.ReflTransGen (Audible s₀) origin i) :
    ∃ e, routeAt (Runs.run (step C) s₀ labels) i origin = some e ∧
      e.seqNum = ((Runs.run (step C) s₀ labels).router origin).seqNum ∧
      e.hopCount < Fintype.card N := by
  have h := run_informed C (initial_informed s₀ h₀ hopen) labels hlabels
  rw [← audible_run C s₀ labels hlabels] at hpath
  exact h.holds_newest C haddr hquiet hannounced hcount hmax hbudget hi hpath

end Results

section Settling

variable {N : Type} [DecidableEq N] [Fintype N] {F : Fleet N} (C : Suite) {s : Network F}

/-- How much all nodes together have seen. -/
def seenTotal (s : Network F) : ℕ := ∑ p : N × N, (seenAt s p.1 p.2).getD 0

omit [Fintype N] in
theorem seqNum_deliver (h : Informed s) (d : N × N × Bytes) (j : N) :
    ((deliverStep C s d).router j).seqNum = (s.router j).seqNum := by
  have hprogress := deliver_progress C h d.1 d.2.1 d.2.2
  by_cases hpassed : (d.1, F.addr d.2.1, d.2.2) ∈ s.wire ∧
      passes C (s.attachment d.2.1).transport d.2.2 (F.addr d.1) = true
  · obtain ⟨hmem, hpasses⟩ := hpassed
    obtain ⟨origin, o, hcarries, _⟩ := h.sound.wire _ _ _ hmem
    rcases receive_cases C h d.2.2 hmem hcarries hpasses with ⟨_, hsame⟩ | ⟨_, _, out, hstep, hout⟩
    · rw [deliverStep, hsame]
    · rw [deliverStep, hstep]
      by_cases hj : j = d.2.1
      · rw [hj, advance_self, (sendsOnly_forward C _ _ o _ out hout.symm).1, updateRoute_seqNum]
        rfl
      · rw [advance_other hj]
  · simp only [deliverStep, step, if_neg hpassed]

/-- A delivery that changes anything lets its receiver see more, and nobody less. -/
theorem seenTotal_lt (h : Informed s) (d : N × N × Bytes) (hchange : deliverStep C s d ≠ s) :
    seenTotal s < seenTotal (deliverStep C s d) := by
  obtain ⟨hmem, hpasses⟩ : (d.1, F.addr d.2.1, d.2.2) ∈ s.wire ∧
      passes C (s.attachment d.2.1).transport d.2.2 (F.addr d.1) = true := by
    by_contra hpassed
    exact hchange (by simp only [deliverStep, step, if_neg hpassed])
  obtain ⟨origin, o, hcarries, _⟩ := h.sound.wire _ _ _ hmem
  rcases receive_cases C h d.2.2 hmem hcarries hpasses with
    ⟨_, hsame⟩ | ⟨_, hunseen, out, hstep, hout⟩
  · exact absurd hsame hchange
  have hfresh : ∀ seen, (s.router d.2.1).seenSeq.get? (F.id origin) = some seen → seen < o.seqNum :=
    fun seen hseen => Nat.lt_of_not_le fun hle => hunseen ⟨seen, hseen, hle⟩
  have haccepts : Accepts s d.2.1 d.1 origin o out.state := by
    rw [(sendsOnly_forward C _ _ o _ out hout.symm).1, noted, hcarries.oid, F.decode_senderId]
    exact accepts_of_routed h.sound d.2.1 d.1 origin o hfresh
  have hpos := h.positive _ _ _ origin o hmem hcarries
  have hbefore : (seenAt s d.2.1 origin).getD 0 < o.seqNum := by
    cases hseen : seenAt s d.2.1 origin with
    | none => exact hpos
    | some m => exact hfresh m hseen
  rw [deliverStep, hstep]
  refine Finset.sum_lt_sum (fun p _ => ?_) ⟨(d.2.1, origin), Finset.mem_univ _, ?_⟩
  · by_cases hp : p.1 = d.2.1 ∧ p.2 = origin
    · rw [hp.1, hp.2, haccepts.seen]
      exact hbefore.le
    · rw [haccepts.elsewhere.seen p.1 p.2 (not_and_or.mp hp)]
  · rw [haccepts.seen]
    exact hbefore

omit [DecidableEq N] in
theorem seenTotal_le (h : Informed s) :
    seenTotal s ≤ Fintype.card N * ∑ origin, (s.router origin).seqNum := by
  have hpair : seenTotal s ≤ ∑ p : N × N, (s.router p.2).seqNum := by
    refine Finset.sum_le_sum fun p _ => ?_
    cases hseen : seenAt s p.1 p.2 with
    | none => exact Nat.zero_le _
    | some m => exact h.seen_le hseen
  refine hpair.trans (le_of_eq ?_)
  rw [Fintype.sum_prod_type]
  dsimp only
  rw [Finset.sum_const_nat fun _ _ => rfl, Finset.card_univ]

/-- However packets are delivered, only so many deliveries change anything, and some lead to
where everything sent has been delivered. -/
theorem flood_settles (s₀ : Network F) (h₀ : Initial s₀)
    (hopen : ∀ i, (s₀.attachment i).transport.udpTransport = true) (labels : List (Label F))
    (hlabels : ∀ l ∈ labels, IsFlood l) :
    (∀ deliveries, Floods.changes (deliverStep C) (Runs.run (step C) s₀ labels) deliveries ≤
      Fintype.card N * ∑ origin, ((Runs.run (step C) s₀ labels).router origin).seqNum) ∧
    ∃ deliveries, Quiescent C
      (Runs.run (deliverStep C) (Runs.run (step C) s₀ labels) deliveries) := by
  have h := run_informed C (initial_informed s₀ h₀ hopen) labels hlabels
  generalize Runs.run (step C) s₀ labels = s at h
  let I := fun s' : Network F =>
    Informed s' ∧ ∀ j, (s'.router j).seqNum = (s.router j).seqNum
  have hstep : ∀ s' d, I s' → I (deliverStep C s' d) := fun s' d hs' =>
    ⟨step_informed C hs'.1 _ trivial, fun j => (seqNum_deliver C hs'.1 d j).trans (hs'.2 j)⟩
  have hraise : ∀ s' d, I s' → deliverStep C s' d ≠ s' →
      seenTotal s' < seenTotal (deliverStep C s' d) := fun s' d hs' => seenTotal_lt C hs'.1 d
  have hbound : ∀ s', I s' → seenTotal s' ≤ Fintype.card N * ∑ origin, (s.router origin).seqNum := by
    intro s' hs'
    refine (seenTotal_le hs'.1).trans (le_of_eq ?_)
    simp only [hs'.2]
  have hs : I s := ⟨h, fun _ => rfl⟩
  constructor
  · intro deliveries
    have hchanges := Floods.changes_le hstep hraise s deliveries hs
    have hlast := hbound _ (Runs.invariant_of_step hstep s deliveries hs)
    omega
  · obtain ⟨deliveries, hsettled⟩ := Floods.exists_settled hstep hraise hbound s hs
    exact ⟨deliveries, fun source receiver packet => hsettled (source, receiver, packet)⟩

end Settling

section Stub

open Honest

/-- Both routers' sessions lead to each other. -/
theorem duo_addr_injective : Function.Injective duo.addr := by
  intro i j h
  revert h
  cases i <;> cases j <;> decide

theorem duo_open (i : Bool) : (duoNetwork.attachment i).transport.udpTransport = true := by
  cases i <;> rfl

def duoLabels : List (Label duo) := [.broadcast false epoch, .deliver false true duoPacket]

theorem duo_labels : ∀ l ∈ duoLabels, IsFlood l := by
  intro l hl
  rcases List.mem_cons.mp hl with rfl | hl
  · trivial
  · rw [List.mem_singleton.mp hl]
    trivial

theorem duoRun_eq : Runs.run (step stub) duoNetwork duoLabels = duoRun := rfl

theorem duoRun_informed : Informed duoRun := by
  rw [← duoRun_eq]
  exact run_informed stub (initial_informed duoNetwork ⟨fun _ => rfl, rfl⟩ duo_open) _ duo_labels

theorem duoRun_wire : duoRun.wire = [(false, bravoAddr, duoPacket)] := by decide +kernel

theorem announced_duoPacket : announced duoPacket = some (duo.senderId false, 1) := by
  decide +kernel

theorem duoRun_seen : seenAt duoRun true false = some 1 := by decide +kernel

theorem duoRun_quiescent : Quiescent stub duoRun := by
  refine (quiescent_iff stub duoRun_informed).mpr fun source receiver packet origin o hmem hcarries _ =>
    ?_
  rw [duoRun_wire, List.mem_singleton] at hmem
  have hreceiver : receiver = true := duo_addr_injective (congrArg (fun entry => entry.2.1) hmem)
  have hpacket : packet = duoPacket := congrArg (fun entry => entry.2.2) hmem
  obtain ⟨payload, hparse, hunpack⟩ := hcarries.parse
  have hannounced : announced packet = some (duo.senderId origin, o.seqNum) := by
    simp only [announced, hparse, hunpack, hcarries.oid]
  rw [hpacket, announced_duoPacket] at hannounced
  obtain ⟨horigin, hseq⟩ := Prod.mk.inj (Option.some.inj hannounced)
  rw [hreceiver, ← duo.senderId_inj horigin, ← hseq]
  exact Or.inr ⟨1, duoRun_seen, le_rfl⟩

theorem duo_audible : Audible duoNetwork false true :=
  ⟨⟨_, List.mem_singleton_self _, rfl⟩, fun _ h => nomatch h⟩

theorem flood_covers_duo : ∃ e, routeAt duoRun true false = some e ∧ e.seqNum = 1 ∧
    e.hopCount < 2 := by
  have hcount : (duoRun.router false).seqNum = 1 := by decide +kernel
  have hcovers := flood_covers stub duo_addr_injective duoNetwork ⟨fun _ => rfl, rfl⟩ duo_open
    duoLabels duo_labels false
  rw [duoRun_eq, hcount] at hcovers
  exact hcovers duoRun_quiescent (by decide) (by decide) (by decide) (by decide) true (by decide)
    (.single duo_audible)

/-- The first announcement is on its way. -/
def duoAloft : Network duo := Runs.run (step stub) duoNetwork [.broadcast false epoch]

/-- Its delivery changes something, and no more than two deliveries do. -/
theorem flood_settles_duo : deliverStep stub duoAloft (false, true, duoPacket) ≠ duoAloft ∧
    (∀ deliveries, Floods.changes (deliverStep stub) duoAloft deliveries ≤ 2) ∧
    ∃ deliveries, Quiescent stub (Runs.run (deliverStep stub) duoAloft deliveries) := by
  have hsettles := flood_settles stub duoNetwork ⟨fun _ => rfl, rfl⟩ duo_open
    [.broadcast false epoch] fun l hl => by
      rw [List.mem_singleton.mp hl]
      trivial
  have hbound : Fintype.card Bool * ∑ origin, (duoAloft.router origin).seqNum = 2 := by
    decide +kernel
  refine ⟨fun h => ?_, fun deliveries => (hsettles.1 deliveries).trans hbound.le, hsettles.2⟩
  have hseen : seenAt (deliverStep stub duoAloft (false, true, duoPacket)) true false ≠
      seenAt duoAloft true false := by decide +kernel
  exact hseen (by rw [h])

end Stub

end Mesim.FloodCoverage
