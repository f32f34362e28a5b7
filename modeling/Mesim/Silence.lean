import Mesim.FloodCoverage

/-!
When a route lapses.
The time that a route entry carries is the one at which its origin made the announcement, on
every router and however the announcement came there. So a minute after an origin has last
announced itself no router finds a route to it any more, whatever is still under way; and
where no delivery changes anything any more, the routers that its announcements get through to
find one exactly until then.
-/
namespace Mesim.Silence

open Octets TextCodec Crypto Identity Packet Transport Router RouterPackets RouterNetwork
open OriginatorSignatures RouteTables Flooding FloodCoverage MeshTransport RouterOutcome

section Stamps

variable {N : Type} [DecidableEq N] {F : Fleet N}

/-- The times that an origin has announced itself with, in order. -/
def stamps (labels : List (Label F)) (origin : N) : List Timestamp :=
  labels.filterMap fun l => match l with
    | .broadcast i timestamp => if i = origin then some timestamp else none
    | _ => none

/-- This is the time of the origin's announcement of that number. -/
def Stamped (labels : List (Label F)) (origin : N) (seqNum : ℕ) (timestamp : Timestamp) : Prop :=
  0 < seqNum ∧ (stamps labels origin)[seqNum - 1]? = some timestamp

variable {labels : List (Label F)} {origin : N} {seqNum : ℕ} {timestamp : Timestamp}

theorem stamps_concat (labels : List (Label F)) (l : Label F) (origin : N) :
    stamps (labels ++ [l]) origin = stamps labels origin ++ stamps [l] origin :=
  List.filterMap_append

theorem Stamped.later (h : Stamped labels origin seqNum timestamp) (l : Label F) :
    Stamped (labels ++ [l]) origin seqNum timestamp := by
  refine ⟨h.1, ?_⟩
  obtain ⟨hlt, _⟩ := List.getElem?_eq_some_iff.mp h.2
  rw [stamps_concat, List.getElem?_append_left hlt, h.2]

/-- A broadcast is stamped with its own time. -/
theorem stamped_broadcast (labels : List (Label F)) (i : N) (timestamp : Timestamp) :
    Stamped (labels ++ [.broadcast i timestamp]) i ((stamps labels i).length + 1) timestamp := by
  have hlast : stamps [(.broadcast i timestamp : Label F)] i = [timestamp] := by
    simp [stamps]
  refine ⟨Nat.succ_pos _, ?_⟩
  rw [stamps_concat, hlast, Nat.add_sub_cancel, List.getElem?_concat_length]

theorem Stamped.mem (h : Stamped labels origin seqNum timestamp) :
    timestamp ∈ stamps labels origin := List.mem_of_getElem? h.2

end Stamps

section Invariant

variable {N : Type} [DecidableEq N] {F : Fleet N}

/-- Announcements under way and route entries carry the times of their broadcasts. -/
structure Dated (labels : List (Label F)) (s : Network F) : Prop where
  sound : Sound s
  counted : ∀ origin, (s.router origin).seqNum = (stamps labels origin).length
  wire : ∀ source addr packet origin o, (source, addr, packet) ∈ s.wire →
    Carries F packet source origin o → Stamped labels origin o.seqNum o.timestamp
  entry : ∀ i origin e, routeAt s i origin = some e → Stamped labels origin e.seqNum e.lastSeen

/-- The table gets the entry of the call, if it changes. -/
theorem updateRoute_entry (r : MeshRouter) (originatorId nextHopId : String) (nextHopAddr : Addr)
    (hopCount seqNum : ℕ) (timestamp : Timestamp) {key : String} {e : RouteEntry}
    (h : (r.updateRoute originatorId nextHopId nextHopAddr hopCount seqNum timestamp).routes.get?
      key = some e) : r.routes.get? key = some e ∨
        key = originatorId ∧ e.seqNum = seqNum ∧ e.lastSeen = timestamp := by
  have hset : ∀ entry, (r.routes.set originatorId entry).get? key = some e →
      r.routes.get? key = some e ∨ key = originatorId ∧ e = entry := by
    intro entry hget
    by_cases hkey : originatorId = key
    · subst hkey
      rw [OrderedDict.get?_set_self] at hget
      exact Or.inr ⟨rfl, (Option.some.inj hget).symm⟩
    · rw [OrderedDict.get?_set_of_ne _ _ hkey] at hget
      exact Or.inl hget
  have haccepted := hset ⟨originatorId, nextHopId, nextHopAddr, hopCount, timestamp, seqNum⟩
  have hfields : ∀ entry : RouteEntry, entry =
      ⟨originatorId, nextHopId, nextHopAddr, hopCount, timestamp, seqNum⟩ →
        entry.seqNum = seqNum ∧ entry.lastSeen = timestamp := by
    rintro entry rfl
    exact ⟨rfl, rfl⟩
  unfold MeshRouter.updateRoute at h
  dsimp only at h
  split at h
  · exact (haccepted h).imp_right fun hand => ⟨hand.1, hfields e hand.2⟩
  · split at h
    · exact Or.inl h
    · split at h
      · exact Or.inl h
      · exact (haccepted h).imp_right fun hand => ⟨hand.1, hfields e hand.2⟩

variable {labels : List (Label F)} {s : Network F}

/-- A step after which every router and the wire are as before, up to entries that are gone. -/
theorem Dated.shrink (h : Dated labels s) (C : Suite) (l : Label F)
    (hstamps : ∀ origin, stamps [l] origin = []) (hwire : (step C s l).wire = s.wire)
    (hcounted : ∀ i, ((step C s l).router i).seqNum = (s.router i).seqNum)
    (hentry : ∀ i origin e, routeAt (step C s l) i origin = some e → routeAt s i origin = some e) :
    Dated (labels ++ [l]) (step C s l) where
  sound := step_sound C h.sound l
  counted origin := by
    rw [hcounted, h.counted, stamps_concat, hstamps, List.append_nil]
  wire source addr packet origin o hmem hcarries := by
    rw [hwire] at hmem
    exact (h.wire source addr packet origin o hmem hcarries).later l
  entry i origin e he := (h.entry i origin e (hentry i origin e he)).later l

theorem Dated.broadcast (h : Dated labels s) (C : Suite) (i : N) (timestamp : Timestamp) :
    Dated (labels ++ [.broadcast i timestamp]) (step C s (.broadcast i timestamp)) := by
  let out := broadcastOriginator C (s.router i) (s.attachment i).transport timestamp
  obtain ⟨hstate, heffects⟩ := sendsOnly_broadcast C (s.router i) (s.attachment i).transport
    timestamp out rfl
  refine ⟨step_sound C h.sound _, fun origin => ?_, ?_, ?_⟩
  · show ((advance s i out).router origin).seqNum = _
    rw [stamps_concat, List.length_append, ← h.counted]
    by_cases horigin : origin = i
    · subst horigin
      simp [advance, hstate, stamps]
    · simp [advance, Function.update_of_ne horigin, stamps, Ne.symm horigin]
  · intro source addr packet origin o hmem hcarries
    rcases List.mem_append.mp hmem with hold | hnew
    · exact (h.wire source addr packet origin o hold hcarries).later _
    · rcases heffects with hnone | ⟨data, hdata, hsends⟩
      · rw [hnone] at hnew
        simp [posted] at hnew
      · rw [h.sound.identity i] at hdata
        obtain ⟨sig, hunpack⟩ := unpackOriginator_packOriginator C _ _ _ _ _ _ _ _
          (F.senderIdBytes_deviceId i) hdata
        obtain ⟨rfl, hown, _⟩ := posted_carries (s.attachment i) data out _ hsends hunpack rfl
          (h.sound.maxHops i) source addr packet hnew
        obtain ⟨rfl, rfl⟩ := hcarries.unique hown
        have hstamped := stamped_broadcast labels origin timestamp
        rw [← h.counted] at hstamped
        exact hstamped
  · intro j origin e he
    refine (h.entry j origin e ?_).later _
    by_cases hj : j = i
    · subst hj
      rw [routeAt, step, advance_self, hstate] at he
      exact he
    · rw [routeAt, step, advance_other hj] at he
      exact he

/-- An announcement that is taken in keeps its time, in the entry and on its way on. -/
theorem Dated.taken (h : Dated labels s) (C : Suite) (l : Label F) {receiver origin : N}
    {o : Originator} {out : RouterOutcome} (hstep : step C s l = advance s receiver out)
    (hstamps : ∀ origin, stamps [l] origin = [])
    (hstamped : Stamped labels origin o.seqNum o.timestamp)
    (hcounted : out.state.seqNum = (s.router receiver).seqNum)
    (hentry : ∀ key e, out.state.routes.get? key = some e →
      (s.router receiver).routes.get? key = some e ∨
        key = F.id origin ∧ e.seqNum = o.seqNum ∧ e.lastSeen = o.timestamp)
    (hposted : ∀ j addr packet, (j, addr, packet) ∈ posted receiver out.effects →
      ∃ o', Carries F packet j origin o' ∧ o'.seqNum = o.seqNum ∧ o'.timestamp = o.timestamp) :
    Dated (labels ++ [l]) (step C s l) := by
  refine ⟨step_sound C h.sound l, fun k => ?_, ?_, ?_⟩
  · rw [stamps_concat, hstamps, List.append_nil, ← h.counted, hstep]
    by_cases hk : k = receiver
    · rw [hk, advance_self, hcounted]
    · rw [advance_other hk]
  · intro source addr packet origin' o' hmem hcarries
    rw [hstep] at hmem
    rcases List.mem_append.mp hmem with hold | hnew
    · exact (h.wire source addr packet origin' o' hold hcarries).later l
    · obtain ⟨o'', hown, hseq, htime⟩ := hposted source addr packet hnew
      obtain ⟨rfl, rfl⟩ := hcarries.unique hown
      rw [hseq, htime]
      exact hstamped.later l
  · intro j origin' e he
    rw [routeAt, hstep] at he
    by_cases hj : j = receiver
    · subst hj
      rw [advance_self] at he
      rcases hentry _ e he with hold | ⟨hkey, hseq, htime⟩
      · exact (h.entry j origin' e hold).later l
      · rw [F.id_inj hkey, hseq, htime]
        exact hstamped.later l
    · rw [advance_other hj] at he
      exact (h.entry j origin' e he).later l

theorem Dated.deliver (h : Dated labels s) (C : Suite) (source receiver : N) (packet : Bytes) :
    Dated (labels ++ [.deliver source receiver packet])
      (step C s (.deliver source receiver packet)) := by
  by_cases hpassed : (source, F.addr receiver, packet) ∈ s.wire ∧
      passes C (s.attachment receiver).transport packet (F.addr source) = true
  swap
  · have hidle : step C s (.deliver source receiver packet) = s := by
      simp only [step, if_neg hpassed]
    exact h.shrink C _ (fun _ => rfl) (by rw [hidle]) (fun i => by rw [hidle])
      fun i origin e he => by rwa [hidle] at he
  have hmem := hpassed.1
  obtain ⟨origin, o, hcarries, _⟩ := h.sound.wire _ _ _ hmem
  obtain ⟨payload, hparse, hunpack⟩ := hcarries.parse
  have hhandled := handleOriginator_handled C (s.router receiver) (s.attachment receiver).transport
    payload (F.addr source) (F.senderId source).toList
  have hstep : step C s (.deliver source receiver packet) = advance s receiver
      (handleOriginator C (s.router receiver) (s.attachment receiver).transport payload
        (F.addr source) (F.senderId source).toList) := by
    simp only [step, if_pos hpassed, receive_eq C _ _ packet _ source payload hparse]
  generalize handleOriginator C (s.router receiver) (s.attachment receiver).transport payload
    (F.addr source) (F.senderId source).toList = out at hhandled hstep
  have hstamped := h.wire _ _ _ origin o hmem hcarries
  cases hhandled with
  | dropped e =>
    refine h.taken C _ hstep (fun _ => rfl) hstamped rfl (fun _ _ he => Or.inl he) ?_
    intro j addr pkt hposted
    simp [posted] at hposted
  | unroutable o' e _ hsender =>
    rw [F.deviceId_senderId] at hsender
    contradiction
  | routed o' nextHopId out hunpack' _ _ _ hstate heffects =>
    rw [hunpack] at hunpack'
    cases hunpack'
    rw [hcarries.oid, F.decode_senderId] at hstate
    refine h.taken C _ hstep (fun _ => rfl) hstamped ?_ (fun key e he => ?_) ?_
    · rw [hstate, updateRoute_seqNum]
    · rw [hstate] at he
      exact updateRoute_entry { s.router receiver with
        seenSeq := (s.router receiver).seenSeq.set (F.id origin) o.seqNum } _ _ _ _ _ _ he
    · intro j addr pkt hposted
      rcases heffects with hnone | ⟨data, _, hdata, hsends⟩
      · rw [hnone] at hposted
        simp [posted] at hposted
      · obtain ⟨sig, hunpack'⟩ := unpackOriginator_forwardData C _ payload data o hunpack
          hcarries.oid hdata
        obtain ⟨rfl, hcarries', _⟩ := posted_carries (s.attachment receiver) data out _ hsends
          hunpack' hcarries.oid hcarries.maxHops j addr pkt hposted
        exact ⟨_, hcarries', rfl, rfl⟩

theorem Dated.step (h : Dated labels s) (C : Suite) (l : Label F) :
    Dated (labels ++ [l]) (RouterNetwork.step C s l) := by
  have hrouter : ∀ (i : N) (r : MeshRouter) (j : N), r.seqNum = (s.router i).seqNum →
      (Function.update s.router i r j).seqNum = (s.router j).seqNum := by
    intro i r j hr
    by_cases hj : j = i
    · rw [hj, Function.update_self, hr]
    · rw [Function.update_of_ne hj]
  have hroute : ∀ (i : N) (r : MeshRouter) (j : N) (key : String) (e : RouteEntry),
      (r.routes.get? key = some e → (s.router i).routes.get? key = some e) →
      (Function.update s.router i r j).routes.get? key = some e →
        (s.router j).routes.get? key = some e := by
    intro i r j key e hr he
    by_cases hj : j = i
    · rw [hj, Function.update_self] at he
      rw [hj]
      exact hr he
    · rwa [Function.update_of_ne hj] at he
  cases l with
  | broadcast i timestamp => exact h.broadcast C i timestamp
  | deliver source receiver packet => exact h.deliver C source receiver packet
  | purge i now =>
    exact h.shrink C _ (fun _ => rfl) rfl (fun j => hrouter i _ j rfl) fun j origin e he =>
      hroute i _ j _ e (purgeStale_routes _ now _ e) he
  | register i peerId bundle =>
    exact h.shrink C _ (fun _ => rfl) rfl (fun j => hrouter i _ j rfl) fun j origin e he =>
      hroute i ((s.router i).registerBundle peerId bundle) j _ e (fun hr => hr) he
  | reconnect i attachment =>
    exact h.shrink C _ (fun _ => rfl) rfl (fun _ => rfl) fun _ _ _ he => he

theorem initial_dated (h : Initial s) : Dated [] s where
  sound := initial_sound s h
  counted origin := by
    rw [h.1 origin]
    rfl
  wire source addr packet origin o hmem _ := by
    rw [h.2] at hmem
    contradiction
  entry i origin e he := by
    rw [routeAt, h.1 i] at he
    contradiction

theorem run_dated (C : Suite) (h : Initial s) (labels : List (Label F)) :
    Dated labels (Runs.run (RouterNetwork.step C) s labels) := by
  induction labels using List.reverseRecOn with
  | nil => exact initial_dated h
  | append_singleton done l ih =>
    rw [Runs.run_concat]
    exact ih.step C l

end Invariant

section Results

variable {N : Type} [DecidableEq N] {F : Fleet N} (C : Suite)

theorem routeTo_isSome_iff (r : MeshRouter) (now : ℚ) (key : String) :
    (r.routeTo now key).isSome = true ↔
      ∃ e, r.routes.get? key = some e ∧ e.lastSeen.before (now - staleRouteSeconds) = false := by
  rw [MeshRouter.routeTo]
  cases r.routes.get? key with
  | none => simp
  | some e =>
    dsimp only
    cases hbefore : e.lastSeen.before (now - staleRouteSeconds) <;> simp [hbefore]

/-- A minute after all that an origin has announced, no router finds a route to it, and no delivery,
late or repeated, brings one back. -/
theorem silent_forgotten (s₀ : Network F) (h₀ : Initial s₀) (labels : List (Label F)) (origin : N)
    (now : ℚ) (hsilent : ∀ timestamp ∈ stamps labels origin,
      timestamp.before (now - staleRouteSeconds) = true) (i : N) :
    ((Runs.run (step C) s₀ labels).router i).routeTo now (F.id origin) = none := by
  have h := run_dated C h₀ labels
  rw [← Option.not_isSome_iff_eq_none, routeTo_isSome_iff]
  rintro ⟨e, he, hfresh⟩
  rw [hsilent _ (h.entry i origin e he).mem] at hfresh
  contradiction

end Results

section Stub

open Honest

/-- Bravo, who has heard alpha's announcement of time 0, finds it at 60 and not after. -/
theorem silent_forgotten_duo : (duoRun.router true).routeTo 61 (duo.id false) = none := by
  have hsilent : ∀ timestamp ∈ stamps duoLabels false,
      timestamp.before (61 - staleRouteSeconds) = true := by
    decide +kernel
  have hforgotten := silent_forgotten stub duoNetwork ⟨fun _ => rfl, rfl⟩ duoLabels false 61 hsilent
    true
  rwa [duoRun_eq] at hforgotten

end Stub

end Mesim.Silence
